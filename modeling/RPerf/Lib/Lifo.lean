import Mathlib.Tactic

/-!
# Logs of a stack

A log of what is pushed and what is reported when something leaves the stack, with the ticks
of a clock in between.
-/

namespace RPerf.Lib

variable {E R : Type*}

/-- What is written to the log. -/
inductive LifoEvent (E R : Type*)
  | push (e : E)
  | tick
  | report (r : R)

abbrev Opens (E : Type*) := List (E × ℕ)

def Opens.tick (opens : Opens E) : Opens E := opens.map fun o => (o.1, o.2 + 1)

inductive Plays (ok : E → ℕ → R → Prop) : Opens E → List (LifoEvent E R) → Opens E → Prop
  | nil {opens : Opens E} : Plays ok opens [] opens
  | push {opens opens' : Opens E} {e : E} {log : List (LifoEvent E R)} :
    Plays ok ((e, 0) :: opens) log opens' → Plays ok opens (.push e :: log) opens'
  | tick {opens opens' : Opens E} {log : List (LifoEvent E R)} :
    Plays ok opens.tick log opens' → Plays ok opens (.tick :: log) opens'
  | report {opens opens' : Opens E} {e : E} {n : ℕ} {r : R} {log : List (LifoEvent E R)} :
    ok e n r → Plays ok opens log opens' → Plays ok ((e, n) :: opens) (.report r :: log) opens'

namespace Plays

variable {ok : E → ℕ → R → Prop} {a b c : Opens E} {l m : List (LifoEvent E R)}

theorem append (h : Plays ok a l b) (h' : Plays ok b m c) : Plays ok a (l ++ m) c := by
  induction h with
  | nil => exact h'
  | push _ ih => exact .push (ih h')
  | tick _ ih => exact .tick (ih h')
  | report hok _ ih => exact .report hok (ih h')

theorem pushed (h : Plays ok a l b) (e : E) : Plays ok a (l ++ [.push e]) ((e, 0) :: b) :=
  h.append (.push .nil)

theorem ticked (h : Plays ok a l b) : Plays ok a (l ++ [.tick]) b.tick := h.append (.tick .nil)

theorem reported {e : E} {n : ℕ} {r : R} (h : Plays ok a l ((e, n) :: b)) (hok : ok e n r) :
    Plays ok a (l ++ [.report r]) b :=
  h.append (.report hok .nil)

end Plays

end RPerf.Lib
