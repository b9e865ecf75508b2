import Mathlib.Tactic

/-!
# The stack of return addresses

`struct intel_pt_stack` keeps return addresses in blocks of 1024 and holds on to one emptied
block.
-/

namespace RPerf.Decode

def blkSize : ℕ := 1024

abbrev Block := ℕ → UInt64

/-- The blocks from the top one down, the spare block and the fill of the top block. -/
structure Stack where
  blks : List Block := []
  spare : Option Block := none
  pos : ℕ := 0
  pos_le : pos ≤ blkSize := by decide
  pos_nil : blks = [] → pos = 0 := by simp

namespace Stack

/-- A stack without blocks. -/
def empty : Stack := {}

variable (s : Stack)

def keep (b : Block) : Option Block := some (s.spare.getD b)

def pop : UInt64 × Stack :=
  match hb : s.blks with
  | [] => (0, s)
  | b :: bs =>
    if s.pos = 0 then
      match bs with
      | [] => (0, { blks := [], spare := s.keep b })
      | b' :: bs' =>
        (b' (blkSize - 1),
          { blks := b' :: bs', spare := s.keep b, pos := blkSize - 1, pos_le := by decide })
    else
      (b (s.pos - 1),
        { blks := b :: bs, spare := s.spare, pos := s.pos - 1
          pos_le := (Nat.sub_le _ _).trans s.pos_le })

/-- `intel_pt_push`; `none` is `-ENOMEM`. -/
def push (malloc : Bool) (ip : UInt64) : Option Stack :=
  match s.blks with
  | b :: bs =>
    if h : s.pos < blkSize then
      some { blks := Function.update b s.pos ip :: bs, spare := s.spare, pos := s.pos + 1
             pos_le := h }
    else allocAndPush
  | [] => allocAndPush
where
  allocAndPush : Option Stack :=
    match s.spare with
    | some b =>
      some { blks := Function.update b 0 ip :: s.blks, pos := 1, pos_le := by decide }
    | none =>
      if malloc then
        some { blks := Function.update (fun _ => 0) 0 ip :: s.blks, pos := 1
               pos_le := by decide }
      else none

def clear : Stack := { spare := s.blks.foldl (fun sp b => some (sp.getD b)) s.spare }

def filled (b : Block) (n : ℕ) : List UInt64 := (List.range n).reverse.map b

/-- The addresses on the stack, the top one first. -/
def contents : List UInt64 :=
  match s.blks with
  | [] => []
  | b :: bs => filled b s.pos ++ bs.flatMap (filled · blkSize)

@[simp] theorem filled_zero (b : Block) : filled b 0 = [] := rfl

theorem filled_succ (b : Block) (n : ℕ) : filled b (n + 1) = b n :: filled b n := by
  simp [filled, List.range_succ]

theorem filled_update (b : Block) (n : ℕ) (ip : UInt64) :
    filled (Function.update b n ip) (n + 1) = ip :: filled b n := by
  rw [filled_succ, Function.update_self]
  congr 1
  refine List.map_congr_left fun i hi => Function.update_of_ne ?_ _ _
  simp only [List.mem_reverse, List.mem_range] at hi
  omega

theorem pop_contents : s.pop.1 = s.contents.headD 0 ∧ s.pop.2.contents = s.contents.tail := by
  obtain ⟨blks, spare, pos, pos_le, pos_nil⟩ := s
  match blks with
  | [] => simp [pop, contents]
  | [b] =>
    by_cases hp : pos = 0
    · simp [pop, contents, hp, filled]
    · obtain ⟨n, rfl⟩ := Nat.exists_eq_succ_of_ne_zero hp
      simp [pop, contents, filled_succ]
  | b :: b' :: bs =>
    by_cases hp : pos = 0
    · have hsucc : filled b' blkSize = b' (blkSize - 1) :: filled b' (blkSize - 1) :=
        filled_succ b' (blkSize - 1)
      simp [pop, contents, hp, hsucc, filled_zero]
    · obtain ⟨n, rfl⟩ := Nat.exists_eq_succ_of_ne_zero hp
      simp [pop, contents, filled_succ]

theorem allocAndPush_contents {s s' : Stack} {malloc : Bool} {ip : UInt64}
    (hfull : s.contents = s.blks.flatMap (filled · blkSize))
    (h : push.allocAndPush s malloc ip = some s') : s'.contents = ip :: s.contents := by
  have hone : ∀ b, filled (Function.update b 0 ip) 1 = [ip] := fun b => filled_update b 0 ip
  unfold push.allocAndPush at h
  split at h
  · cases h
    rw [hfull]
    simp [contents, hone]
  · split_ifs at h
    cases h
    rw [hfull]
    simp [contents, hone]

theorem push_contents {s s' : Stack} {malloc : Bool} {ip : UInt64}
    (h : s.push malloc ip = some s') : s'.contents = ip :: s.contents := by
  unfold push at h
  split at h
  · next b bs hb =>
    split_ifs at h with hpos
    · cases h
      simp [contents, hb, filled_update]
    · refine allocAndPush_contents ?_ h
      have hfull : s.pos = blkSize := le_antisymm s.pos_le (not_lt.mp hpos)
      simp [contents, hb, hfull]
  · next hb => exact allocAndPush_contents (by simp [contents, hb]) h

theorem push_isSome (ip : UInt64) : (s.push true ip).isSome := by
  have halloc : (push.allocAndPush s true ip).isSome := by
    unfold push.allocAndPush
    split <;> rfl
  unfold push
  split
  · split_ifs
    · rfl
    · exact halloc
  · exact halloc

end Stack

end RPerf.Decode
