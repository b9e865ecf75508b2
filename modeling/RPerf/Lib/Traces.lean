import RPerf.Lib.Loops

/-!
# What a loop puts out

A loop whose passes put something out is observed by what they have put out when it leaves.
-/

namespace RPerf.Lib

variable {σ τ ρ υ α : Type*} {body : σ → Pass σ ρ} {out : σ → List α}

inductive Emits (body : σ → Pass σ ρ) (out : σ → List α) : σ → List α → ρ → Prop
  | leave {s r} : body s = .leave r → Emits body out s (out s) r
  | again {s s' l r} : body s = .again s' → Emits body out s' l r →
      Emits body out s (out s ++ l) r

/-- Passes from `s` on that put out nothing come to `t`. -/
inductive Silently (body : σ → Pass σ ρ) (out : σ → List α) : σ → σ → Prop
  | refl {s} : Silently body out s s
  | again {s s' t} : body s = .again s' → out s = [] → Silently body out s' t →
      Silently body out s t

variable {s t : σ} {l : List α}

theorem Emits.leaves {r : ρ} (h : Emits body out s l r) : Leaves body s r := by
  induction h with
  | leave hb => exact .leave hb
  | again hb _ ih => exact .again hb ih

theorem Leaves.emits {r : ρ} (h : Leaves body s r) (out : σ → List α) :
    ∃ l, Emits body out s l r := by
  induction h with
  | leave hb => exact ⟨_, .leave hb⟩
  | again hb _ ih =>
    obtain ⟨l, hl⟩ := ih
    exact ⟨_, .again hb hl⟩

theorem Emits.unique {l' : List α} {r r' : ρ} (h : Emits body out s l r)
    (h' : Emits body out s l' r') : l = l' ∧ r = r' := by
  induction h generalizing l' with
  | leave hb =>
    cases h' with
    | leave hb' => exact ⟨rfl, Pass.leave.inj (hb.symm.trans hb')⟩
    | again hb' _ => cases hb.symm.trans hb'
  | again hb _ ih =>
    cases h' with
    | leave hb' => cases hb.symm.trans hb'
    | again hb' h' =>
      cases hb.symm.trans hb'
      obtain ⟨rfl, rfl⟩ := ih h'
      exact ⟨rfl, rfl⟩

theorem Silently.emits {r : ρ} (hs : Silently body out s t) (h : Emits body out t l r) :
    Emits body out s l r := by
  induction hs with
  | refl => exact h
  | again hb hout _ ih =>
    have hstep := Emits.again hb (ih h)
    rwa [hout, List.nil_append] at hstep

theorem Silently.trans {u : σ} (h : Silently body out s t) (h' : Silently body out t u) :
    Silently body out s u := by
  induction h with
  | refl => exact h'
  | again hb hout _ ih => exact .again hb hout (ih h')

theorem Silently.map {β : Type*} (f : α → β) (h : Silently body out s t) :
    Silently body (fun s => (out s).map f) s t := by
  induction h with
  | refl => exact .refl
  | again hb hout _ ih => exact .again hb (by rw [hout, List.map_nil]) ih

inductive Follows (body : σ → Pass σ ρ) (out : σ → List α) (R : τ → σ → Prop) (Q : υ → ρ → Prop) :
    Pass τ υ → σ → Prop
  | leave {r' u r} : Emits body out u (out u) r → Q r' r → Follows body out R Q (.leave r') u
  | again {t' u u'} : body u = .again u' → R t' u' → Follows body out R Q (.again t') u

theorem Emits.simulated {body' : τ → Pass τ υ} {out' : τ → List α} {R : τ → σ → Prop}
    {Q : υ → ρ → Prop} (hstep : ∀ t s, R t s → ∃ u, Silently body out s u ∧ out u = out' t ∧
      Follows body out R Q (body' t) u) {t : τ} {r' : υ} (h : Emits body' out' t l r')
    (hs : R t s) :
    ∃ r, Emits body out s l r ∧ Q r' r := by
  induction h generalizing s with
  | leave hb =>
    obtain ⟨u, hsilent, hout, hfollows⟩ := hstep _ s hs
    rw [hb] at hfollows
    cases hfollows with
    | leave hu hq =>
      rw [← hout]
      exact ⟨_, hsilent.emits hu, hq⟩
  | again hb _ ih =>
    obtain ⟨u, hsilent, hout, hfollows⟩ := hstep _ s hs
    rw [hb] at hfollows
    cases hfollows with
    | again hu hr =>
      obtain ⟨r, hr', hq⟩ := ih hr
      rw [← hout]
      exact ⟨r, hsilent.emits (.again hu hr'), hq⟩

/-- What is put out can be renamed. -/
theorem Emits.map {β : Type*} (f : α → β) {r : ρ} (h : Emits body out s l r) :
    Emits body (fun s => (out s).map f) s (l.map f) r := by
  induction h with
  | leave hb => exact .leave hb
  | again hb _ ih =>
    rw [List.map_append]
    exact .again hb ih

end RPerf.Lib
