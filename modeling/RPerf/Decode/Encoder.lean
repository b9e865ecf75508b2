import RPerf.Code.Execution
import RPerf.Decode.Walk

/-!
# The packets of an execution

What an ideal processor writes about an execution: a bit for every conditional branch and
for every return to where its call came from, and the address for every other indirect
branch.
-/

namespace RPerf.Decode

open Packets Code

inductive Sym
  | bit (taken : Bool)
  | tip (ip : UInt64)
  deriving DecidableEq, Repr

def symbol (stack : List UInt64) (s : Step) : List Sym :=
  match s.insn.branch with
  | .noBranch | .unconditional => []
  | .conditional => [.bit s.taken]
  | .indirect =>
    if s.insn.op = .ret ∧ stack.head? = some s.dest then [.bit true] else [.tip s.dest]

def symbols : List UInt64 → List Step → List Sym
  | _, [] => []
  | stack, s :: steps => symbol stack s ++ symbols (restack stack s.ip s.insn) steps

def Carries : UInt64 → List Bool → Prop
  | _, [] => True
  | payload, b :: bits => (payload &&& bit63 ≠ 0 ↔ b = true) ∧ Carries (payload <<< 1) bits

/-- Packets that say what is to be said; the last IP is the one before them. -/
inductive Packs : UInt64 → List Sym → List Pkt → Prop
  | nil {lastIp} : Packs lastIp [] []
  | tnt {lastIp bits p syms pkts} : p.type = .tnt → p.count = bits.length → 1 ≤ bits.length →
    bits.length ≤ 47 → Carries p.payload bits → Packs lastIp syms pkts →
    Packs lastIp (bits.map .bit ++ syms) (p :: pkts)
  | tip {lastIp ip p syms pkts} : p.type = .tip → p.count ≠ 0 → calcIp p lastIp = ip →
    Packs ip syms pkts → Packs lastIp (.tip ip :: syms) (p :: pkts)

/-- The reader will deliver these packets, and then find no more data. -/
def Feeds : Reader → List Pkt → Prop
  | rd, [] => rd.getNextPacket.1 = .nodata
  | rd, p :: pkts =>
    rd.getNextPacket.1 = .ok ∧ rd.getNextPacket.2.packet = p ∧ Feeds rd.getNextPacket.2 pkts

theorem symbol_eq_nil_iff (stack : List UInt64) (s : Step) :
    symbol stack s = [] ↔ s.traced = false := by
  unfold symbol Step.traced
  cases s.insn.branch <;> simp
  split_ifs <;> simp

theorem symbols_eq_nil_iff (stack : List UInt64) (steps : List Step) :
    symbols stack steps = [] ↔ steps.any Step.traced = false := by
  induction steps generalizing stack with
  | nil => simp [symbols]
  | cons s steps ih => simp [symbols, symbol_eq_nil_iff, ih]

variable {steps : List Step}

theorem symbols_toBranch {code : Program} {ip : UInt64} (h : Executes code ip steps)
    (stack : List UInt64) : symbols stack (toBranch steps) = symbols stack steps := by
  induction steps generalizing ip with
  | nil => rfl
  | cons s steps ih =>
    obtain ⟨rfl, hat, hexec⟩ := h
    by_cases hbr : s.insn.branch = .noBranch
    · have hop : s.insn.op = .other := by simpa [RegularInsn, hbr] using code.regular _ _ hat
      have hstack : restack stack s.ip s.insn = stack := by simp [restack, pushes, hop]
      have hdrop : toBranch (s :: steps) = toBranch steps := by simp [toBranch, hbr]
      rw [hdrop, ih hexec, symbols, hstack, symbol, hbr]
      rfl
    · simp [toBranch, hbr]

theorem jumps_eq_nil {stack : List UInt64} (h : symbols stack steps = []) : jumps steps = [] := by
  have hany := (symbols_eq_nil_iff stack steps).mp h
  cases steps with
  | nil => rfl
  | cons s steps => rw [jumps, hany, if_neg (by simp)]

theorem jumps_cons {stack : List UInt64} {s : Step} (h : symbols stack (s :: steps) ≠ []) :
    jumps (s :: steps) = s.jump.toList ++ jumps steps := by
  rw [jumps, if_pos]
  by_contra hany
  exact h ((symbols_eq_nil_iff stack _).mpr (by simpa using hany))

end RPerf.Decode
