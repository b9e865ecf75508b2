import RPerf.Lib.ByteFormat

/-!
# What a parser reads

How far a parser comes, and which of its accesses lie inside the input.
-/

namespace RPerf.Lib

/-- The access lies between the two bounds. -/
def Access.Within (lo hi : ℕ) (x : Access) : Prop := lo ≤ x.pos ∧ x.pos + x.len ≤ hi

instance (lo hi : ℕ) (x : Access) : Decidable (x.Within lo hi) :=
  inferInstanceAs (Decidable (_ ∧ _))

theorem Access.Within.mono {lo hi lo' hi' : ℕ} {x : Access} (h : x.Within lo hi) (hlo : lo' ≤ lo)
    (hhi : hi ≤ hi') : x.Within lo' hi' :=
  ⟨(Int.ofNat_le.mpr hlo).trans h.1, h.2.trans (Int.ofNat_le.mpr hhi)⟩

namespace Parser

variable {limit : ℕ} {α β : Type} {p : Parser limit α} {f : α → Parser limit β}
  {inp : Input limit} {o n : ℕ}

theorem forall_log_bind {P : Access → Prop} :
    (∀ x ∈ (p >>= f).log inp o, P x) ↔
      (∀ x ∈ p.log inp o, P x) ∧
        ∀ a o', p.run inp o = .ok (a, o') → ∀ x ∈ (f a).log inp o', P x := by
  change (∀ x ∈ p.log inp o ++ _, P x) ↔ _
  rw [List.forall_mem_append]
  cases p.run inp o with
  | error e => simp
  | ok r =>
    obtain ⟨a, o'⟩ := r
    simp

def Moves (p : Parser limit α) (n : ℕ) : Prop :=
  ∀ inp o, (∀ x ∈ p.log inp o, x.Within o (o + n)) ∧ ∃ a, p.run inp o = .ok (a, o + n)

theorem Moves.pure (a : α) : Moves (Pure.pure a : Parser limit α) 0 :=
  fun _ _ => ⟨List.forall_mem_nil _, a, rfl⟩

theorem Moves.reading {f : Input limit → ℕ → α} :
    Moves (.reading n fun inp o => (f inp o, o + n) : Parser limit α) n :=
  fun inp o => ⟨List.forall_mem_singleton.mpr ⟨le_rfl, le_rfl⟩, f inp o, rfl⟩

theorem Moves.map {g : α → β} (h : Moves p n) : Moves (do return g (← p) : Parser limit β) n := by
  intro inp o
  obtain ⟨hlog, a, ha⟩ := h inp o
  exact ⟨forall_log_bind.mpr ⟨hlog, fun _ _ _ => List.forall_mem_nil _⟩, g a, run_bind_ok ha⟩

theorem Moves.optional (h : Moves p n) (c : Bool) (default : α) :
    Moves (Parser.optional c default p) (if c then n else 0) := by
  cases c with
  | true => exact h
  | false => exact .pure default

structure TakesAt (p : Parser limit α) (inp : Input limit) (o n : ℕ) (ok : Prop) : Prop where
  within : ∀ x ∈ p.log inp o, x.Within o inp.size
  only : ∀ a o', p.run inp o = .ok (a, o') → ok ∧ o + n ≤ inp.size ∧ o' = o + n
  takes : ok → o + n ≤ inp.size → ∃ a, p.run inp o = .ok (a, o + n)

def Takes (p : Parser limit α) (len : Memory → ℕ → ℕ) (Ok : Input limit → ℕ → Prop) : Prop :=
  ∀ inp o, o ≤ inp.size → TakesAt p inp o (len inp.mem o) (Ok inp o)

theorem Moves.takesAt (h : Moves p n) (hsize : o + n ≤ inp.size) : TakesAt p inp o n True := by
  obtain ⟨hlog, a, ha⟩ := h inp o
  refine ⟨fun x hx => (hlog x hx).mono le_rfl hsize, fun b o' hb => ?_, fun _ _ => ⟨a, ha⟩⟩
  obtain ⟨-, rfl⟩ := Prod.mk.inj (Except.ok.inj (ha.symm.trans hb))
  exact ⟨trivial, hsize, rfl⟩

theorem TakesAt.silent {a : α} {e : Int} {c : Prop} [Decidable c]
    {f : Input limit → ℕ → Except Int (α × ℕ)} (ho : o ≤ inp.size)
    (h : f inp o = if c then .error e else .ok (a, o)) : TakesAt (.silent f) inp o 0 (¬ c) := by
  refine ⟨List.forall_mem_nil _, fun b o' hb => ?_, fun hc _ => ⟨a, h.trans (if_neg hc)⟩⟩
  have hrun := h.symm.trans hb
  split_ifs at hrun with hc
  obtain ⟨-, rfl⟩ := Prod.mk.inj (Except.ok.inj hrun)
  exact ⟨hc, ho, rfl⟩

variable {ok ok' : Prop}

theorem TakesAt.of_eq {n' : ℕ} (h : TakesAt p inp o n ok) (hn : n' = n)
    (hok : o + n ≤ inp.size → (ok' ↔ ok)) : TakesAt p inp o n' ok' := by
  subst hn
  refine ⟨h.within, fun a o' ha => ?_, fun h1 hle => h.takes ((hok hle).mp h1) hle⟩
  obtain ⟨h1, hle, rfl⟩ := h.only a o' ha
  exact ⟨(hok hle).mpr h1, hle, rfl⟩

theorem TakesAt.bind {m : ℕ} (h : TakesAt p inp o m ok)
    (hf : ∀ a, p.run inp o = .ok (a, o + m) → ok → o + m ≤ inp.size →
      TakesAt (f a) inp (o + m) n ok') :
    TakesAt (p >>= f) inp o (m + n) (ok ∧ ok') := by
  refine ⟨forall_log_bind.mpr ⟨h.within, ?_⟩, ?_, ?_⟩
  · intro a o' ha x hx
    obtain ⟨h1, hle, rfl⟩ := h.only a o' ha
    exact ((hf a ha h1 hle).within x hx).mono (Nat.le_add_right _ _) le_rfl
  · intro b o'' hb
    obtain ⟨a, o', ha, hb⟩ := Parser.bind_ok hb
    obtain ⟨h1, hle, rfl⟩ := h.only a o' ha
    obtain ⟨h2, hle', rfl⟩ := (hf a ha h1 hle).only b o'' hb
    exact ⟨⟨h1, h2⟩, by omega, by omega⟩
  · rintro ⟨h1, h2⟩ hle
    obtain ⟨a, ha⟩ := h.takes h1 (by omega)
    obtain ⟨b, hb⟩ := (hf a ha h1 (by omega)).takes h2 (by omega)
    exact ⟨b, by rw [run_bind_ok ha, hb, Nat.add_assoc]⟩

variable {len len' : Memory → ℕ → ℕ} {Ok Ok' : Input limit → ℕ → Prop}

theorem Takes.pure (a : α) : Takes (Pure.pure a : Parser limit α) (fun _ _ => 0) fun _ _ => True :=
  fun _ _ ho => (Moves.pure a).takesAt ho

theorem Takes.of_eq (h : Takes p len Ok) (hlen : ∀ mem o, len' mem o = len mem o)
    (hok : ∀ inp o, Ok' inp o ↔ Ok inp o) : Takes p len' Ok' :=
  fun inp o ho => (h inp o ho).of_eq (hlen inp.mem o) fun _ => hok inp o

theorem Takes.then (h : Takes p len Ok) (hf : ∀ a, Takes (f a) len' Ok') :
    Takes (p >>= f) (fun mem o => len mem o + len' mem (o + len mem o))
      fun inp o => Ok inp o ∧ Ok' inp (o + len inp.mem o) :=
  fun inp o ho => (h inp o ho).bind fun a _ _ hle => hf a inp _ hle

theorem Takes.ite {c : Prop} [Decidable c] {q : Parser limit α} (hp : Takes p len Ok)
    (hq : Takes q len' Ok') :
    Takes (if c then p else q) (fun mem o => if c then len mem o else len' mem o)
      fun inp o => if c then Ok inp o else Ok' inp o := by
  split_ifs
  · exact hp
  · exact hq

theorem Takes.optional (h : Takes p len Ok) (c : Bool) (default : α) :
    Takes (Parser.optional c default p) (fun mem o => if c then len mem o else 0)
      fun inp o => c = true → Ok inp o := by
  intro inp o ho
  cases c with
  | true => exact (h inp o ho).of_eq rfl fun _ => ⟨fun h => h rfl, fun h _ => h⟩
  | false => exact ((Moves.pure default).takesAt ho).of_eq rfl fun _ => by simp

def InsideIff (lo : ℕ) (p : Parser limit α) (inp : Input limit) (o need : ℕ) (c : Prop) : Prop :=
  lo ≤ o → o + need ≤ inp.size → ((∀ x ∈ p.log inp o, x.Within lo inp.size) ↔ c)

variable {lo need : ℕ} {c : Prop}

theorem InsideIff.moves (h : Moves p n) (hf : ∀ a, InsideIff lo (f a) inp (o + n) need c) :
    InsideIff lo (p >>= f) inp o (n + need) c := by
  intro hlo hsize
  obtain ⟨hlog, a, ha⟩ := h inp o
  rw [forall_log_bind, ← hf a (by omega) (by omega), ha]
  constructor
  · rintro ⟨-, hrest⟩
    exact hrest a _ rfl
  · rintro hrest
    refine ⟨fun x hx => (hlog x hx).mono hlo (by omega), ?_⟩
    rintro _ _ ⟨⟩
    exact hrest

theorem InsideIff.takes (h : Takes p len Ok)
    (hf : ∀ a, InsideIff lo (f a) inp (o + len inp.mem o) 0 c) :
    InsideIff lo (p >>= f) inp o 0 (Ok inp o → o + len inp.mem o ≤ inp.size → c) := by
  intro hlo hsize
  have hp := h inp o hsize
  rw [forall_log_bind]
  constructor
  · rintro ⟨-, hrest⟩ hok hle
    obtain ⟨a, ha⟩ := hp.takes hok hle
    exact (hf a (by omega) hle).mp (hrest a _ ha)
  · intro hc
    refine ⟨fun x hx => (hp.within x hx).mono hlo le_rfl, fun a o' ha => ?_⟩
    obtain ⟨hok, hle, rfl⟩ := hp.only a o' ha
    exact (hf a (by omega) hle).mpr (hc hok hle)

end Parser

end RPerf.Lib
