import Mathlib.Data.List.Rotate
import Mathlib.Tactic

/-!
# Ring buffers

A ring of slots that is filled downwards and keeps the most recent values.
-/

namespace RPerf.Lib

variable {α : Type*}

/-- Change one entry of an array. -/
def modifyAt (l : List α) (i : ℕ) (f : α → α) : Option (List α) :=
  l[i]?.map fun x => l.set i (f x)

def memcpy (dst : List α) (d : ℕ) (src : List α) (s n : ℕ) : Option (List α) :=
  if s + n ≤ src.length ∧ d + n ≤ dst.length then
    some (dst.take d ++ (src.drop s).take n ++ dst.drop (d + n))
  else none

theorem modifyAt_of_lt {l : List α} {i : ℕ} (f : α → α) (hi : i < l.length) :
    modifyAt l i f = some (l.set i (f l[i])) := by
  rw [modifyAt, List.getElem?_eq_getElem hi, Option.map_some]

theorem memcpy_spec {dst src : List α} {d s n : ℕ} (hs : s + n ≤ src.length)
    (hd : d + n ≤ dst.length) :
    ∃ dst', memcpy dst d src s n = some dst' ∧ dst'.length = dst.length ∧
      dst'.take (d + n) = dst.take d ++ (src.drop s).take n := by
  have hlen : (dst.take d ++ (src.drop s).take n).length = d + n := by
    simp only [List.length_append, List.length_take, List.length_drop]
    omega
  refine ⟨_, if_pos ⟨hs, hd⟩, ?_, ?_⟩
  · rw [List.length_append, hlen, List.length_drop]
    omega
  · exact List.take_left' hlen

theorem rotate_set {l : List α} {p : ℕ} (hp : p < l.length) (x : α) :
    (l.set p x).rotate p = x :: (l.rotate (p + 1)).dropLast := by
  obtain ⟨a, y, b, rfl, rfl⟩ : ∃ a y b, l = a ++ y :: b ∧ a.length = p :=
    ⟨l.take p, l[p], l.drop (p + 1), by simp, by simpa using hp.le⟩
  have hset : (a ++ y :: b).set a.length x = a ++ x :: b := by simp
  have hrot : (a ++ y :: b).rotate (a.length + 1) = b ++ a ++ [y] := by
    simpa using List.rotate_append_length_eq (a ++ [y]) b
  rw [hset, hrot, List.rotate_append_length_eq, List.dropLast_concat, List.cons_append]

/-- A ring of `size` slots. -/
structure RingBuffer (α : Type*) (size : ℕ) where
  slots : List α
  length_slots : slots.length = size
  pos : ℕ
  pos_lt : pos < size
  count : ℕ
  count_le : count ≤ size
  topmost : count < size → pos = 0 ∧ count = 0 ∨ pos + count = size

namespace RingBuffer

variable {size : ℕ} (r : RingBuffer α size)

def contents : List α := (r.slots.rotate r.pos).take r.count

/-- The slot below. -/
def below : ℕ := (if r.pos = 0 then size else r.pos) - 1

theorem below_lt : r.below < size := by
  have := r.pos_lt
  unfold below
  split <;> omega

def new (slots : List α) (hlen : slots.length = size) (hsize : 0 < size) : RingBuffer α size where
  slots := slots
  length_slots := hlen
  pos := 0
  pos_lt := hsize
  count := 0
  count_le := Nat.zero_le _
  topmost _ := .inl ⟨rfl, rfl⟩

def push (x : α) : RingBuffer α size where
  slots := r.slots.set r.below x
  length_slots := by rw [List.length_set, r.length_slots]
  pos := r.below
  pos_lt := r.below_lt
  count := if r.count < size then r.count + 1 else r.count
  count_le := by
    have := r.count_le
    split <;> omega
  topmost := by
    have hpos := r.pos_lt
    have htop := r.topmost
    unfold below
    split <;> split <;> omega

/-- Forget all values. -/
def clear : RingBuffer α size := new r.slots r.length_slots (Nat.zero_lt_of_lt r.pos_lt)

@[simp] theorem contents_new (slots : List α) (hlen : slots.length = size) (hsize : 0 < size) :
    (new slots hlen hsize).contents = [] := rfl

@[simp] theorem contents_clear : r.clear.contents = [] := rfl

theorem length_contents : r.contents.length = r.count := by
  rw [contents, List.length_take, List.length_rotate, r.length_slots]
  exact min_eq_left r.count_le

theorem rotate_pos : r.slots.rotate r.pos = r.slots.drop r.pos ++ r.slots.take r.pos :=
  List.rotate_eq_drop_append_take (by rw [r.length_slots]; exact r.pos_lt.le)

theorem contents_of_full (h : r.count = size) :
    r.contents = r.slots.drop r.pos ++ r.slots.take r.pos := by
  rw [contents, rotate_pos, List.take_of_length_le]
  rw [← rotate_pos, List.length_rotate, r.length_slots, h]

theorem pos_add_count (h : r.count < size) (hne : r.count ≠ 0) : r.pos + r.count = size := by
  rcases r.topmost h with h | h
  · exact absurd h.2 hne
  · exact h

theorem contents_of_lt (h : r.count < size) (hne : r.count ≠ 0) :
    r.contents = r.slots.drop r.pos := by
  have hcount := r.pos_add_count h hne
  rw [contents, rotate_pos]
  apply List.take_left'
  rw [List.length_drop, r.length_slots]
  omega

theorem rotate_below : r.slots.rotate (r.below + 1) = r.slots.rotate r.pos := by
  have hpos := r.pos_lt
  have hturn : r.slots.rotate size = r.slots := by
    simpa only [r.length_slots] using r.slots.rotate_length
  unfold below
  split
  case isTrue h => rw [h, Nat.sub_add_cancel (by omega), List.rotate_zero, hturn]
  case isFalse h => rw [Nat.sub_add_cancel (by omega)]

theorem contents_push (x : α) : (r.push x).contents = (x :: r.contents).take size := by
  obtain ⟨m, rfl⟩ : ∃ m, size = m + 1 := Nat.exists_eq_add_one.mpr (Nat.zero_lt_of_lt r.pos_lt)
  have hslots : (r.push x).slots.rotate (r.push x).pos =
      x :: (r.slots.rotate r.pos).take m := by
    change (r.slots.set r.below x).rotate r.below = _
    rw [rotate_set (by rw [r.length_slots]; exact r.below_lt), rotate_below,
      List.dropLast_eq_take, List.length_rotate, r.length_slots, Nat.add_sub_cancel]
  have hcount : (r.push x).count = min r.count m + 1 := by
    have := r.count_le
    simp only [push]
    split <;> omega
  rw [contents, hslots, hcount, contents, List.take_succ_cons, List.take_succ_cons,
    List.take_take, List.take_take, min_assoc, min_self, min_comm]

theorem contents_push_of_take {h : List α} (hr : r.contents = h.take size) (x : α) :
    (r.push x).contents = (x :: h).take size := by
  obtain ⟨m, rfl⟩ : ∃ m, size = m + 1 := Nat.exists_eq_add_one.mpr (Nat.zero_lt_of_lt r.pos_lt)
  rw [contents_push, hr, List.take_succ_cons, List.take_succ_cons, List.take_take,
    min_eq_left m.le_succ]

end RingBuffer

end RPerf.Lib
