import RPerf.Decode.State
import RPerf.Lib.RingBuffer

/-!
# The last branches of a queue

`intel_pt_update_last_branch_rb`, `intel_pt_reset_last_branch_rb` and
`intel_pt_copy_last_branch_rb` of `intel-pt.c`.
-/

namespace RPerf.Queues

open Lib

/-- `struct branch_flags`. -/
structure BranchFlags where
  mispred : Bool := false
  predicted : Bool := false
  inTx : Bool := false
  abort : Bool := false
  cycles : BitVec 16 := 0
  type : BitVec 4 := 0
  reserved : BitVec 40 := 0
  deriving DecidableEq, Repr

/-- `struct branch_entry`. -/
structure BranchEntry where
  from_ : UInt64 := 0
  to_ : UInt64 := 0
  flags : BranchFlags := {}
  deriving DecidableEq, Repr

/-- `struct branch_stack`, with the array behind it. -/
structure BranchStack where
  nr : ℕ := 0
  entries : List BranchEntry
  deriving DecidableEq, Repr

/-- What the ring depends on in `struct intel_pt`. -/
structure BranchOptions where
  lastBranchSz : ℕ
  mispredAll : Bool := false

/-- The last branches in `struct intel_pt_queue`. -/
structure BranchQueue where
  lastBranch : BranchStack
  lastBranchRb : BranchStack
  lastBranchPos : ℕ := 0
  deriving DecidableEq, Repr

/-- `zalloc` of a stack of branches. -/
def BranchStack.zalloc (sz : ℕ) : BranchStack := { entries := List.replicate sz {} }

namespace BranchQueue

variable (pt : BranchOptions) (ptq : BranchQueue)

/-- The queue of `intel_pt_alloc_queue`. -/
def alloc : BranchQueue where
  lastBranch := .zalloc pt.lastBranchSz
  lastBranchRb := .zalloc pt.lastBranchSz

/-- `intel_pt_copy_last_branch_rb`. -/
def copyLastBranchRb : Option BranchQueue :=
  let bsSrc := ptq.lastBranchRb
  let bsDst := { ptq.lastBranch with nr := bsSrc.nr }
  if bsSrc.nr = 0 then some { ptq with lastBranch := bsDst }
  else do
    let nr := pt.lastBranchSz - ptq.lastBranchPos
    let entries ← memcpy bsDst.entries 0 bsSrc.entries ptq.lastBranchPos nr
    let entries ←
      if pt.lastBranchSz ≤ bsSrc.nr then
        memcpy entries nr bsSrc.entries 0 ptq.lastBranchPos
      else some entries
    some { ptq with lastBranch := { bsDst with entries } }

/-- `intel_pt_reset_last_branch_rb`. -/
def resetLastBranchRb : BranchQueue :=
  { ptq with lastBranchPos := 0, lastBranchRb := { ptq.lastBranchRb with nr := 0 } }

def writeBranch (state : Decode.State) (be : BranchEntry) : BranchEntry :=
  { be with
    from_ := state.fromIp
    to_ := state.toIp
    flags :=
      { be.flags with
        abort := state.flags.abortTx
        inTx := state.flags.inTx
        mispred := pt.mispredAll } }

/-- `intel_pt_update_last_branch_rb`. -/
def updateLastBranchRb (state : Decode.State) : Option BranchQueue := do
  let bs := ptq.lastBranchRb
  let pos := (if ptq.lastBranchPos = 0 then pt.lastBranchSz else ptq.lastBranchPos) - 1
  let entries ← modifyAt bs.entries pos (writeBranch pt state)
  let nr := if bs.nr < pt.lastBranchSz then bs.nr + 1 else bs.nr
  some { ptq with lastBranchPos := pos, lastBranchRb := { nr, entries } }

end BranchQueue

/-- What is done with the last branches of a queue. -/
inductive BranchOp
  | update (state : Decode.State)
  | reset
  | copy

namespace BranchOp

variable (pt : BranchOptions)

def run : BranchOp → BranchQueue → Option BranchQueue
  | update state, ptq => ptq.updateLastBranchRb pt state
  | reset, ptq => some ptq.resetLastBranchRb
  | copy, ptq => ptq.copyLastBranchRb pt

def runAll : List BranchOp → BranchQueue → Option BranchQueue
  | [], ptq => some ptq
  | op :: ops, ptq => (op.run pt ptq).bind (runAll ops)

/-- The entry of a branch. -/
def branchOf (state : Decode.State) : BranchEntry where
  from_ := state.fromIp
  to_ := state.toIp
  flags :=
    { abort := state.flags.abortTx, inTx := state.flags.inTx, mispred := pt.mispredAll }

def record : BranchOp → List BranchEntry → List BranchEntry
  | update state, h => branchOf pt state :: h
  | reset, _ => []
  | copy, h => h

/-- The branches since the last reset, the newest first. -/
def history (ops : List BranchOp) : List BranchEntry := ops.foldl (fun h op => op.record pt h) []

end BranchOp

def BranchEntry.Plain (be : BranchEntry) : Prop :=
  be.flags = { mispred := be.flags.mispred, inTx := be.flags.inTx, abort := be.flags.abort }

theorem writeBranch_of_plain {be : BranchEntry} (h : be.Plain) (pt : BranchOptions)
    (state : Decode.State) : BranchQueue.writeBranch pt state be = BranchOp.branchOf pt state := by
  unfold BranchQueue.writeBranch BranchOp.branchOf
  rw [h]

namespace BranchQueue

variable {pt : BranchOptions} {bs : BranchStack} {r : RingBuffer BranchEntry pt.lastBranchSz}

def ofRing {sz : ℕ} (bs : BranchStack) (r : RingBuffer BranchEntry sz) : BranchQueue where
  lastBranch := bs
  lastBranchRb := { nr := r.count, entries := r.slots }
  lastBranchPos := r.pos

theorem resetLastBranchRb_ofRing : (ofRing bs r).resetLastBranchRb = ofRing bs r.clear := rfl

theorem updateLastBranchRb_ofRing (h : ∀ be ∈ r.slots, be.Plain) (state : Decode.State) :
    (ofRing bs r).updateLastBranchRb pt state =
      some (ofRing bs (r.push (BranchOp.branchOf pt state))) := by
  have hlt : r.below < r.slots.length := by
    rw [r.length_slots]
    exact r.below_lt
  have hwrite : modifyAt r.slots r.below (writeBranch pt state) =
      some (r.slots.set r.below (BranchOp.branchOf pt state)) := by
    rw [modifyAt_of_lt _ hlt, writeBranch_of_plain (h _ (List.getElem_mem hlt))]
  change (modifyAt r.slots r.below (writeBranch pt state)).bind _ = _
  rw [hwrite]
  rfl

theorem copyLastBranchRb_ofRing (hroom : bs.entries.length = pt.lastBranchSz) :
    ∃ bs', (ofRing bs r).copyLastBranchRb pt = some (ofRing bs' r) ∧
      bs'.entries.length = pt.lastBranchSz ∧ bs'.nr = r.count ∧
      bs'.entries.take r.count = r.contents := by
  have hlen := r.length_slots
  have hpos := r.pos_lt
  by_cases hzero : r.count = 0
  · refine ⟨{ bs with nr := r.count }, if_pos hzero, hroom, rfl, ?_⟩
    rw [RingBuffer.contents, hzero, List.take_zero, List.take_zero]
  obtain ⟨entries, hcopy, hlen₁, htake₁⟩ :=
    @memcpy_spec _ bs.entries r.slots 0 r.pos (pt.lastBranchSz - r.pos) (by omega) (by omega)
  have hupper : entries.take (pt.lastBranchSz - r.pos) = r.slots.drop r.pos := by
    rw [Nat.zero_add, List.take_zero, List.nil_append] at htake₁
    rw [htake₁]
    exact List.take_of_length_le (by rw [List.length_drop, hlen])
  by_cases hfull : pt.lastBranchSz ≤ r.count
  · -- the older branches, from the bottom of the ring
    obtain ⟨entries', hcopy', hlen₂, htake₂⟩ :=
      @memcpy_spec _ entries r.slots (pt.lastBranchSz - r.pos) 0 r.pos (by omega) (by omega)
    have hcount : r.count = pt.lastBranchSz := le_antisymm r.count_le hfull
    refine ⟨{ nr := r.count, entries := entries' }, ?_, by rw [hlen₂, hlen₁, hroom], rfl, ?_⟩
    · simp [copyLastBranchRb, ofRing, hzero, hcopy, hfull, hcopy']
    · rw [Nat.sub_add_cancel hpos.le, hupper, List.drop_zero] at htake₂
      rw [r.contents_of_full hcount, hcount, htake₂]
  · have hlt : r.count < pt.lastBranchSz := Nat.lt_of_not_le hfull
    have hcount : r.count = pt.lastBranchSz - r.pos := by
      have := r.pos_add_count hlt hzero
      omega
    refine ⟨{ nr := r.count, entries := entries }, ?_, hlen₁.trans hroom, rfl, ?_⟩
    · simp [copyLastBranchRb, ofRing, hzero, hcopy, hfull]
    · rw [r.contents_of_lt hlt hzero, hcount, hupper]

end BranchQueue

def Holds (pt : BranchOptions) (h : List BranchEntry) (ptq : BranchQueue) : Prop :=
  ∃ (bs : BranchStack) (r : RingBuffer BranchEntry pt.lastBranchSz),
    ptq = .ofRing bs r ∧ bs.entries.length = pt.lastBranchSz ∧
      (∀ be ∈ r.slots, be.Plain) ∧ r.contents = h.take pt.lastBranchSz

namespace Holds

variable {pt : BranchOptions} {h : List BranchEntry} {ptq : BranchQueue}

theorem alloc (hsz : 1 ≤ pt.lastBranchSz) : Holds pt [] (.alloc pt) := by
  refine ⟨.zalloc pt.lastBranchSz,
    .new (List.replicate pt.lastBranchSz {}) List.length_replicate hsz, rfl,
    List.length_replicate, ?_, ?_⟩
  · intro be hbe
    rw [List.eq_of_mem_replicate hbe]
    rfl
  · rw [RingBuffer.contents_new, List.take_nil]

theorem length_rb (hq : Holds pt h ptq) : ptq.lastBranchRb.entries.length = pt.lastBranchSz := by
  obtain ⟨bs, r, rfl, -⟩ := hq
  exact r.length_slots

theorem length_copy (hq : Holds pt h ptq) : ptq.lastBranch.entries.length = pt.lastBranchSz := by
  obtain ⟨bs, r, rfl, hroom, -⟩ := hq
  exact hroom

theorem copy (hq : Holds pt h ptq) :
    ∃ ptq', ptq.copyLastBranchRb pt = some ptq' ∧ Holds pt h ptq' ∧
      ptq'.lastBranch.nr = min h.length pt.lastBranchSz ∧
      ptq'.lastBranch.entries.take ptq'.lastBranch.nr = h.take pt.lastBranchSz := by
  obtain ⟨bs, r, rfl, hroom, hplain, hr⟩ := hq
  obtain ⟨bs', hcopy, hroom', hnr, htake⟩ := BranchQueue.copyLastBranchRb_ofRing hroom
  refine ⟨_, hcopy, ⟨bs', r, rfl, hroom', hplain, hr⟩, ?_, ?_⟩
  · change bs'.nr = _
    rw [hnr, ← r.length_contents, hr, List.length_take, min_comm]
  · change bs'.entries.take bs'.nr = _
    rw [hnr, htake, hr]

theorem step (hq : Holds pt h ptq) (op : BranchOp) :
    ∃ ptq', op.run pt ptq = some ptq' ∧ Holds pt (op.record pt h) ptq' := by
  cases op with
  | update state =>
    obtain ⟨bs, r, rfl, hroom, hplain, hr⟩ := hq
    refine ⟨_, BranchQueue.updateLastBranchRb_ofRing hplain state, bs, _, rfl, hroom, ?_,
      r.contents_push_of_take hr _⟩
    intro be hbe
    rcases List.mem_or_eq_of_mem_set hbe with hmem | rfl
    · exact hplain be hmem
    · rfl
  | reset =>
    obtain ⟨bs, r, rfl, hroom, hplain, -⟩ := hq
    refine ⟨_, rfl, bs, r.clear, BranchQueue.resetLastBranchRb_ofRing, hroom, hplain, ?_⟩
    rw [RingBuffer.contents_clear]
    exact List.take_nil.symm
  | copy =>
    obtain ⟨ptq', hcopy, hq', -⟩ := hq.copy
    exact ⟨ptq', hcopy, hq'⟩

theorem run (hq : Holds pt h ptq) (ops : List BranchOp) :
    ∃ ptq', BranchOp.runAll pt ops ptq = some ptq' ∧
      Holds pt (ops.foldl (fun h op => op.record pt h) h) ptq' := by
  induction ops generalizing h ptq with
  | nil => exact ⟨ptq, rfl, hq⟩
  | cons op ops ih =>
    obtain ⟨ptq₁, hrun, hq₁⟩ := hq.step op
    obtain ⟨ptq₂, hruns, hq₂⟩ := ih hq₁
    refine ⟨ptq₂, ?_, hq₂⟩
    rw [BranchOp.runAll, hrun]
    exact hruns

end Holds

/-- In whatever order branches are recorded, copied and forgotten, no operation goes outside an
array, and a copy has the most recent branches since the last reset, the newest first. -/
theorem last_branch_most_recent (pt : BranchOptions) (hsz : 1 ≤ pt.lastBranchSz)
    (ops : List BranchOp) :
    ∃ ptq ptq', BranchOp.runAll pt ops (.alloc pt) = some ptq ∧
      ptq.copyLastBranchRb pt = some ptq' ∧
      ptq'.lastBranchRb.entries.length = pt.lastBranchSz ∧
      ptq'.lastBranch.entries.length = pt.lastBranchSz ∧
      ptq'.lastBranch.nr = min (BranchOp.history pt ops).length pt.lastBranchSz ∧
      ptq'.lastBranch.entries.take ptq'.lastBranch.nr =
        (BranchOp.history pt ops).take pt.lastBranchSz := by
  obtain ⟨ptq, hrun, hq⟩ := (Holds.alloc hsz).run ops
  obtain ⟨ptq', hcopy, hq', hnr, htake⟩ := hq.copy
  exact ⟨ptq, ptq', hrun, hcopy, hq'.length_rb, hq'.length_copy, hnr, htake⟩

/-- A ring of two after a reset, with a copy between the branches. -/
theorem last_branch_ring_of_two :
    let pt : BranchOptions := { lastBranchSz := 2 }
    let ops : List BranchOp :=
      [.update { fromIp := 1, toIp := 2 }, .reset, .update { fromIp := 3, toIp := 4 }, .copy,
        .update { fromIp := 5, toIp := 6, flags := { inTx := true } },
        .update { fromIp := 7, toIp := 8, flags := { abortTx := true } }]
    1 ≤ pt.lastBranchSz ∧
      ∃ ptq ptq', BranchOp.runAll pt ops (.alloc pt) = some ptq ∧
        ptq.copyLastBranchRb pt = some ptq' ∧ ptq'.lastBranch.nr = 2 ∧
        ptq'.lastBranch.entries.take 2 =
          [{ from_ := 7, to_ := 8, flags := { abort := true } },
            { from_ := 5, to_ := 6, flags := { inTx := true } }] := by
  intro pt ops
  obtain ⟨ptq, ptq', hrun, hcopy, -, -, hnr, htake⟩ :=
    last_branch_most_recent pt (by decide) ops
  have htwo : ptq'.lastBranch.nr = 2 := hnr
  rw [htwo] at htake
  exact ⟨by decide, ptq, ptq', hrun, hcopy, htwo, htake⟩

end RPerf.Queues
