import RPerf.Packets.Overlap

/-!
# The last PSB of a buffer

`intel_pt_last_psb` searches backwards for the first byte of the pattern, compares the rest,
and goes on in front of the place if it differs.
-/

namespace RPerf.Packets

open Lib

variable {buf : List UInt8} {k p : ℕ}

theorem memrchr_some {c : UInt8} (h : memrchr buf c k = some p) :
    p < k ∧ buf[p]? = some c ∧ ∀ i < k, p < i → buf[i]? ≠ some c := by
  induction k with
  | zero => cases h
  | succ k ih =>
    rw [memrchr] at h
    split_ifs at h with hk
    · cases h
      exact ⟨p.lt_succ_self, hk, fun i hi hlt => by omega⟩
    · obtain ⟨hlt, hp, hbehind⟩ := ih h
      refine ⟨by omega, hp, fun i hi hpi => ?_⟩
      rcases Nat.lt_succ_iff_lt_or_eq.mp hi with hi | rfl
      · exact hbehind i hi hpi
      · exact hk

theorem memrchr_none {c : UInt8} (h : memrchr buf c k = none) : ∀ i < k, buf[i]? ≠ some c := by
  induction k with
  | zero =>
    intro i hi
    omega
  | succ k ih =>
    rw [memrchr] at h
    split_ifs at h with hk
    intro i hi
    rcases Nat.lt_succ_iff_lt_or_eq.mp hi with hi | rfl
    · exact ih h i hi
    · exact hk

theorem occursAt_psbStr : OccursAt psbStr buf p ↔
    buf[p]? = some 0x02 ∧ (buf.drop (p + 1)).take (psbLen - 1) = psbStr.drop 1 := by
  have hrest : OccursAt (psbStr.drop 1) buf (p + 1) ↔
      (buf.drop (p + 1)).take (psbLen - 1) = psbStr.drop 1 := by
    rw [OccursAt, List.prefix_iff_eq_take, eq_comm]
    rfl
  rw [← hrest]
  constructor
  · intro h
    exact OccursAt.cons h
  · rintro ⟨hfirst, h⟩
    exact occursAt_of_cons hfirst h

def IsLastPsb (buf : List UInt8) : Option ℕ → Prop
  | some p => IsGreatest {i | OccursAt psbStr buf i} p
  | none => ∀ i, ¬ OccursAt psbStr buf i

theorem IsLastPsb.eq_some_iff {r : Option ℕ} (h : IsLastPsb buf r) :
    r = some p ↔ IsGreatest {i | OccursAt psbStr buf i} p := by
  cases r with
  | none => exact ⟨nofun, fun hp => absurd hp.1 (h p)⟩
  | some q =>
    rw [Option.some_inj]
    constructor
    · rintro rfl
      exact h
    · exact h.unique

theorem IsLastPsb.eq_none_iff {r : Option ℕ} (h : IsLastPsb buf r) :
    r = none ↔ ∀ i, ¬ OccursAt psbStr buf i := by
  cases r with
  | none => exact ⟨fun _ => h, fun _ => rfl⟩
  | some q => exact ⟨nofun, fun hno => absurd h.1 (hno q)⟩

structure Searching (buf : List UInt8) (k : ℕ) : Prop where
  fits : k + psbLen ≤ buf.length + 1
  behind : ∀ i, k ≤ i → ¬ OccursAt psbStr buf i

namespace Searching

theorem start (h : psbLen ≤ buf.length) : Searching buf (buf.length - psbLen + 1) where
  fits := by omega
  behind i hi hocc := by
    have hlen : psbLen ≤ buf.length - i := hocc.le_length
    unfold psbLen at *
    omega

theorem behind_candidate (h : Searching buf k) (hp : memrchr buf 0x02 k = some p) {i : ℕ}
    (hi : p < i) : ¬ OccursAt psbStr buf i := by
  intro hocc
  rcases Nat.lt_or_ge i k with hik | hik
  · exact (memrchr_some hp).2.2 i hik hi (occursAt_psbStr.mp hocc).1
  · exact h.behind i hik hocc

theorem next (h : Searching buf k) (hp : memrchr buf 0x02 k = some p)
    (hno : ¬ OccursAt psbStr buf p) : Searching buf p where
  fits := by
    have hlt := (memrchr_some hp).1
    have hfits := h.fits
    omega
  behind i hi := by
    rcases hi.eq_or_lt with rfl | hlt
    · exact hno
    · exact h.behind_candidate hp hlt

theorem pass (h : Searching buf k) :
    (lastPsbPass buf k).Satisfies (fun k' => Searching buf k' ∧ k' < k) (IsLastPsb buf) := by
  rw [lastPsbPass]
  cases hp : memrchr buf 0x02 k with
  | none =>
    intro i hocc
    rcases Nat.lt_or_ge i k with hik | hik
    · exact memrchr_none hp i hik (occursAt_psbStr.mp hocc).1
    · exact h.behind i hik hocc
  | some p =>
    obtain ⟨hlt, hfirst, -⟩ := memrchr_some hp
    dsimp only
    split_ifs with hrest hzero
    · refine ⟨occursAt_psbStr.mpr ⟨hfirst, hrest⟩, fun i hi => ?_⟩
      exact Nat.le_of_not_lt fun hlt => h.behind_candidate hp hlt hi
    all_goals
      have hnext := h.next hp fun hocc => hrest (occursAt_psbStr.mp hocc).2
    · exact fun i => hnext.behind i (by omega)
    · exact ⟨hnext, hlt⟩

theorem le_length (h : Searching buf k) : k ≤ buf.length := by
  have hfits := h.fits
  unfold psbLen at *
  omega

theorem candidate_le (h : Searching buf k) (hp : memrchr buf 0x02 k = some p) :
    p + psbLen ≤ buf.length := by
  have hlt := (memrchr_some hp).1
  have hfits := h.fits
  omega

end Searching

/-- What a call of `intel_pt_last_psb` returns, with no bound on its loop. -/
inductive LastPsbReturns (buf : List UInt8) : Option ℕ → Prop
  | short : buf.length < psbLen → LastPsbReturns buf none
  | search {r} : psbLen ≤ buf.length →
      Leaves (lastPsbPass buf) (buf.length - psbLen + 1) r → LastPsbReturns buf r

theorem lastPsb_spec (buf : List UInt8) :
    LastPsbReturns buf (lastPsb buf) ∧ IsLastPsb buf (lastPsb buf) := by
  unfold lastPsb
  split_ifs with hlen
  · refine ⟨.short hlen, fun i hocc => ?_⟩
    have hle : psbLen ≤ buf.length - i := hocc.le_length
    omega
  · have hfits : psbLen ≤ buf.length := Nat.le_of_not_lt hlen
    have hbound : buf.length - psbLen + 1 < buf.length + 1 := by
      unfold psbLen at *
      omega
    have hpass : ∀ k, Searching buf k →
        (lastPsbPass buf k).Satisfies (fun k' => Searching buf k' ∧ k' < k) (IsLastPsb buf) :=
      fun _ hk => hk.pass
    constructor
    · exact .search hfits (leaves_of_total id hpass _ _ hbound (.start hfits))
    · exact loop_total id hpass _ _ hbound (.start hfits)

theorem searching_of_visits (hfits : psbLen ≤ buf.length)
    (h : Visits (lastPsbPass buf) (buf.length - psbLen + 1) k) : Searching buf k :=
  h.invariant (fun _ hk => hk.pass.mono (fun _ hk' => hk'.1) fun _ hr => hr) (.start hfits)

/-- `intel_pt_last_psb` returns, and returns the last place at which a whole PSB is in the buffer,
or nothing if there is none. -/
theorem last_psb_search_exact (buf : List UInt8) :
    LastPsbReturns buf (lastPsb buf) ∧
    (∀ p, lastPsb buf = some p ↔ IsGreatest {i | OccursAt psbStr buf i} p) ∧
    (lastPsb buf = none ↔ ∀ i, ¬ OccursAt psbStr buf i) ∧
    ∀ k, psbLen ≤ buf.length → Visits (lastPsbPass buf) (buf.length - psbLen + 1) k →
      k ≤ buf.length ∧ ∀ p, memrchr buf 0x02 k = some p → p + psbLen ≤ buf.length := by
  obtain ⟨hreturns, hlast⟩ := lastPsb_spec buf
  refine ⟨hreturns, fun p => hlast.eq_some_iff, hlast.eq_none_iff, fun k hfits hv => ?_⟩
  have hk := searching_of_visits hfits hv
  exact ⟨hk.le_length, fun p hp => hk.candidate_le hp⟩

example : lastPsb (psbStr ++ [0x02, 0x82]) = some 2 := by decide

end RPerf.Packets
