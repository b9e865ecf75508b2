import Mathlib.Logic.Function.Basic
import Mathlib.Tactic

/-!
# The cache of auxtrace.c

A hash table of lists with 32-bit keys. When the number of entries reaches its limit the
whole table is dropped. `hash_32` is a parameter.
-/

namespace RPerf.Code

/-- `struct auxtrace_cache`; the table gives the list at each hash value. -/
structure AuxtraceCache (α : Type*) where
  bits : ℕ
  limit : ℕ
  cnt : ℕ := 0
  table : ℕ → List (UInt32 × α) := fun _ => []

namespace AuxtraceCache

variable {α : Type*}

/-- `auxtrace_cache__new`. -/
def new (bits limitPercent : ℕ) : AuxtraceCache α :=
  { bits := bits, limit := 2 ^ bits * limitPercent / 100 }

section

variable (c : AuxtraceCache α)

def drop : AuxtraceCache α := { c with cnt := 0, table := fun _ => [] }

def makeRoom : AuxtraceCache α :=
  if c.limit = 0 then c
  else if c.limit < c.cnt + 1 then c.drop
  else { c with cnt := c.cnt + 1 }

def add (hash32 : UInt32 → ℕ → ℕ) (c : AuxtraceCache α) (key : UInt32) (entry : α) :
    AuxtraceCache α :=
  let c := c.makeRoom
  let b := hash32 key c.bits
  { c with table := Function.update c.table b ((key, entry) :: c.table b) }

def lookup (hash32 : UInt32 → ℕ → ℕ) (c : AuxtraceCache α) (key : UInt32) : Option α :=
  ((c.table (hash32 key c.bits)).find? fun e => e.1 = key).map Prod.snd

/-- The entry is in the table. -/
def Holds (key : UInt32) (entry : α) : Prop := ∃ b, (key, entry) ∈ c.table b

theorem not_holds_new (bits limitPercent : ℕ) (key : UInt32) (entry : α) :
    ¬ (new bits limitPercent).Holds key entry := by
  rintro ⟨b, hb⟩
  cases hb

theorem not_holds_drop (key : UInt32) (entry : α) : ¬ c.drop.Holds key entry := by
  rintro ⟨b, hb⟩
  cases hb

end

variable {c : AuxtraceCache α} {key : UInt32} {entry : α}

theorem Holds.of_makeRoom (h : c.makeRoom.Holds key entry) : c.Holds key entry := by
  unfold makeRoom at h
  split_ifs at h
  · exact h
  · exact absurd h (not_holds_drop c key entry)
  · exact h

theorem Holds.of_add {hash32 : UInt32 → ℕ → ℕ} {key' : UInt32} {entry' : α}
    (h : (c.add hash32 key entry).Holds key' entry') :
    (key' = key ∧ entry' = entry) ∨ c.Holds key' entry' := by
  obtain ⟨b, hb⟩ := h
  simp only [add, Function.update_apply] at hb
  split_ifs at hb
  · obtain heq | hb := List.mem_cons.mp hb
    · exact .inl (Prod.mk.inj heq)
    · exact .inr (Holds.of_makeRoom ⟨_, hb⟩)
  · exact .inr (Holds.of_makeRoom ⟨b, hb⟩)

theorem holds_of_lookup {hash32 : UInt32 → ℕ → ℕ} (h : c.lookup hash32 key = some entry) :
    c.Holds key entry := by
  obtain ⟨⟨k, e⟩, hfind, rfl⟩ := Option.map_eq_some_iff.mp h
  have hkey : k = key := by simpa using List.find?_some hfind
  exact ⟨_, hkey ▸ List.mem_of_find?_eq_some hfind⟩

theorem lookup_drop (hash32 : UInt32 → ℕ → ℕ) (c : AuxtraceCache α) (key : UInt32) :
    c.drop.lookup hash32 key = none := rfl

end AuxtraceCache

end RPerf.Code
