import RPerf.Queues.Settled

/-!
# Queues that are left behind

A queue that has come to `switch_ip` before the switch event is off the heap, and only the
event puts it back, as long as `sync_switch` is on.
-/

namespace RPerf.Queues

open Function Lib Decode

namespace SwitchPt

section

variable {cfg : SwitchConfig} {s₀ s : SwitchPt}

/-- A flush runs every queue until it has no data. -/
structure Drains (cfg : SwitchConfig) (s : SwitchPt) : Prop where
  parked : ∀ i q, s.ptq i = some q → q.onHeap = false →
    q.switchState = .expectingSwitchEvent →
      q.ranDry = true ∨ s.queues.newData = true ∧ s.syncSwitch = false
  free : s.pt.kernelStart ≠ 0 ∧ s.syncSwitch = false ∨
    ∀ i < s.queues.nrQueues.toNat, (s.taken i).willPark cfg = false
  ordinals : ∀ k < s.heap.heapCnt, (s.heap.heapArray k).ordinal ≠ maxTimestamp
  times : ∀ i < s.queues.nrQueues.toNat, (s.taken i).timestamp ≠ maxTimestamp ∧
    ∀ state ∈ (s.taken i).outputs, Early state

structure Draining (cfg : SwitchConfig) (s₀ s : SwitchPt) : Prop where
  exact : Exact (· ≠ maxTimestamp) s.queues s.heap
  nrQueues : s.queues.nrQueues = s₀.queues.nrQueues
  ready : ∀ i < s₀.queues.nrQueues.toNat, (s₀.queue i).head ≠ [] →
    ∃ q, s.ptq i = some q ∧ (q.onHeap = true ∨ q.ranDry = true)
  free : s.pt.kernelStart ≠ 0 ∧ s.syncSwitch = false ∨
    ∀ i q, s.ptq i = some q → q.onHeap = true → q.parks cfg q.outputs = false
  times : ∀ i q, s.ptq i = some q → q.onHeap = true →
    q.timestamp ≠ maxTimestamp ∧ ∀ state ∈ q.outputs, Early state

variable {q : SwitchPtq} {i : ℕ}

theorem Draining.attached {t : SwitchPt} (h : Draining cfg s₀ s)
    (hexact : Exact (· ≠ maxTimestamp) t.queues t.heap) (hqueues : t.queues = s.queues.attach i q)
    (hready : q.onHeap = true ∨ q.ranDry = true)
    (hfree : t.pt.kernelStart ≠ 0 ∧ t.syncSwitch = false ∨
      (∀ i q, s.ptq i = some q → q.onHeap = true → q.parks cfg q.outputs = false) ∧
        (q.onHeap = true → q.parks cfg q.outputs = false)) (htimes : q.onHeap = true →
      q.timestamp ≠ maxTimestamp ∧ ∀ state ∈ q.outputs, Early state) : Draining cfg s₀ t := by
  have hptq (j : ℕ) : t.ptq j = if j = i then some q else s.ptq j := by
    rw [ptq, queue, hqueues]
    exact ptq_attach s q
  have hboth {P : SwitchPtq → Prop} (hs : ∀ j q, s.ptq j = some q → P q) (hq : P q) (j : ℕ)
      (q' : SwitchPtq) (hq' : t.ptq j = some q') : P q' := by
    rw [hptq] at hq'
    split at hq'
    · exact Option.some.inj hq' ▸ hq
    · exact hs j q' hq'
  constructor
  case exact => exact hexact
  case nrQueues => rw [hqueues]; exact h.nrQueues
  case ready =>
    intro j hj hne
    rw [hptq]
    split
    · exact ⟨q, rfl, hready⟩
    · exact h.ready j hj hne
  case free => exact hfree.imp_right fun h => hboth h.1 h.2
  case times => exact hboth h.times htimes

theorem parks_setPidTidCpu (machine : Machine) (queue : SwitchQueue) (q : SwitchPtq)
    (outputs : List State) :
    (q.setPidTidCpu cfg machine queue).parks cfg outputs = q.parks cfg outputs := by
  simp only [SwitchPtq.parks, SwitchPtq.afterSample, setPidTidCpu_toPtq, setPidTidCpu_switchState]

theorem Draining.ran_free (hdeliver : ∀ i n, cfg.deliver i n ≤ 0) (h : Draining cfg s₀ s)
    {timestamp : UInt64} {out : SwitchRun} {s' : SwitchPt} (hq : s.ptq i = some q)
    (hon : q.onHeap = true) (hran : Ran cfg s i q timestamp out s') :
    (0 < out.ret → out.running.ptq.ranDry = true) ∧
      (s'.pt.kernelStart ≠ 0 ∧ s'.syncSwitch = false ∨
        (∀ i q, s.ptq i = some q → q.onHeap = true → q.parks cfg q.outputs = false) ∧
          (out.ret = 0 → out.running.ptq.parks cfg out.running.ptq.outputs = false)) := by
  obtain ⟨-, hkernel, hsync⟩ := enter_pt cfg s
  rw [hran.pt, hran.syncSwitch]
  rcases h.free with ⟨hne, hoff⟩ | hfree
  · have hoff' : (s.enter cfg).syncSwitch = false := (hsync hne).trans hoff
    obtain ⟨hdry, hlater⟩ := hran.runs.unparked hdeliver fun hon => by
      rw [hoff'] at hon
      cases hon
    refine ⟨hdry, .inl ⟨hkernel, ?_⟩⟩
    rw [← Bool.not_eq_true]
    intro hon
    have hon' := (hlater hon).1
    rw [hoff'] at hon'
    cases hon'
  · obtain ⟨hdry, hlater⟩ := hran.runs.unparked hdeliver fun _ => by
      rw [parks_setPidTidCpu]
      exact hfree i q hq hon
    refine ⟨hdry, ?_⟩
    cases hout : out.running.syncSwitch with
    | false => exact .inl ⟨hkernel, rfl⟩
    | true => exact .inr ⟨hfree, (hlater hout).2⟩

theorem eq_maxTimestamp {t : UInt64} (h : maxTimestamp ≤ t) : t = maxTimestamp := by
  apply UInt64.toNat_inj.mp
  have hle := UInt64.le_iff_toNat_le.mp h
  have hlt := t.toNat_lt
  have hmax : maxTimestamp.toNat = 2 ^ 64 - 1 := rfl
  omega

/-- A pass of the loop, and the end of it. -/
theorem Draining.pass (hmem : ∀ n, cfg.realloc n = true) (hdeliver : ∀ i n, cfg.deliver i n ≤ 0)
    (h : Draining cfg s₀ s) :
    (s.pass cfg maxTimestamp).Satisfies (Draining cfg s₀) fun r => r.1 = 0 →
      ∀ i < s₀.queues.nrQueues.toNat, (s₀.queue i).head ≠ [] →
        ∃ q, r.2.ptq i = some q ∧ q.ranDry = true := by
  have hpasses := passes_pass cfg maxTimestamp s
  generalize s.pass cfg maxTimestamp = p at hpasses ⊢
  cases hpasses with
  | idle hidle =>
    intro _ i hi hne
    obtain ⟨q, hq, hon | hdry⟩ := h.ready i hi hne
    · -- a queue on the heap is before the end of time
      have hin := (h.exact.mem_members hq).mpr hon
      have h0 : s.heap.heapCnt ≠ 0 := by
        obtain ⟨ordinal, hholds, -⟩ := h.exact.holds
        rw [hholds.heapCnt_eq]
        exact Finset.card_ne_zero_of_mem hin
      rcases hidle with hzero | hle
      · exact absurd hzero h0
      · exact absurd (eq_maxTimestamp hle) (h.exact.pop h0 rfl hmem).2.1
    · exact ⟨q, hq, hdry⟩
  | missing h0 hnone =>
    have hin := (h.exact.pop h0 rfl hmem).1
    obtain ⟨-, q, hq, -⟩ := mem_members.mp hin
    cases hnone.symm.trans hq
  | failed _ _ _ _ _ herr => exact fun hzero => absurd hzero herr.ne
  | @back i q out s' ret heap h0 hi hq hrun hret hadd =>
    obtain ⟨hin, -, hnext⟩ := h.exact.pop h0 hi hmem
    have hon : q.onHeap = true := (h.exact.mem_members hq).mp hin
    have hran := ran hrun
    have hnr : out.running.ptq.queueNr = i := hran.stays.queueNr.trans (h.exact.numbered i q hq).1
    have hon' : out.running.ptq.onHeap = true := hran.stays.onHeap.trans hon
    obtain ⟨ht, hout⟩ := h.times i q hq hon
    obtain ⟨htime, ht', hout'⟩ := hran.runs.early hdeliver (by simpa using ht) hout hret
    have hexact := (hnext _ hnr).2 hon' out.timestamp (htime ▸ ht')
    rw [hadd, ← hran.queues] at hexact
    rw [Pass.satisfies_again]
    apply h.attached (q := out.running.ptq) (t := { s' with heap := heap }) hexact hran.queues
      (.inl hon')
    · exact (h.ran_free hdeliver hq hon hran).2.imp_right fun ⟨hs, hzero⟩ =>
        ⟨hs, fun _ => hzero hret⟩
    · exact fun _ => ⟨ht', hout'⟩
  | @off i q out s' h0 hi hq hrun hret =>
    obtain ⟨hin, -, hnext⟩ := h.exact.pop h0 hi hmem
    have hon : q.onHeap = true := (h.exact.mem_members hq).mp hin
    have hran := ran hrun
    have hnr : out.running.ptq.queueNr = i := hran.stays.queueNr.trans (h.exact.numbered i q hq).1
    have hqueues : (s'.store i { out.running.ptq with onHeap := false }).queues =
        s.queues.attach i { out.running.ptq with onHeap := false } := by
      rw [store, hran.queues, attach_attach]
    have hexact := (hnext { out.running.ptq with onHeap := false } hnr).1 rfl
    obtain ⟨hdry, hfree⟩ := h.ran_free hdeliver hq hon hran
    rw [← hqueues] at hexact
    rw [Pass.satisfies_again]
    apply h.attached (q := { out.running.ptq with onHeap := false })
      (t := { s'.store i { out.running.ptq with onHeap := false } with heap := s.heap.pop })
      hexact hqueues (.inr (hdry hret))
    · exact hfree.imp_right fun ⟨hs, _⟩ => ⟨hs, fun h => by cases h⟩
    · exact fun h => by cases h

theorem HeapExact.early (h : s.HeapExact)
    (hordinals : ∀ k < s.heap.heapCnt, (s.heap.heapArray k).ordinal ≠ maxTimestamp) :
    Exact (· ≠ maxTimestamp) s.queues s.heap := by
  obtain ⟨ordinal, hholds, -⟩ := h.holds
  refine ⟨h.numbered, ordinal, hholds, fun i hi => ?_⟩
  have hitem : (⟨i, ordinal i⟩ : HeapItem) ∈
      items s.heap.heapArray (Finset.range s.heap.heapCnt) := by
    rw [hholds.contents]
    exact Multiset.mem_map_of_mem (fun i => (⟨i, ordinal i⟩ : HeapItem)) hi
  obtain ⟨k, hk, heq⟩ := Multiset.mem_map.mp hitem
  have hordinal := hordinals k (Finset.mem_range.mp hk)
  rw [heq] at hordinal
  exact hordinal

theorem setUp_onHeap (hon : (s.setUp q).onHeap = true) :
    q.onHeap = true ∧ s.setUp q = q ∨ q.onHeap = false ∧ ∃ state rest,
      gettingTimestamp q.outputs = (some state, rest) ∧
        s.setUp q = { q.stamped state rest with onHeap := true } := by
  unfold setUp at hon ⊢
  by_cases hkeeps : s.keeps q = true
  · rw [if_pos hkeeps] at hon ⊢
    exact .inl ⟨hon, rfl⟩
  · have hoff : q.onHeap = false := by
      rw [← Bool.not_eq_true]
      intro hq
      rw [keeps, hq] at hkeeps
      exact hkeeps rfl
    rw [if_neg hkeeps] at hon ⊢
    rcases hget : gettingTimestamp q.outputs with ⟨_ | state, rest⟩
    · rw [hget] at hon
      cases hoff.symm.trans hon
    · exact .inr ⟨hoff, state, rest, rfl, rfl⟩

theorem setUp_ahead (cfg : SwitchConfig) (hon : (s.setUp q).onHeap = true) :
    (s.setUp q).parks cfg (s.setUp q).outputs = q.willPark cfg ∧
      (q.timestamp ≠ maxTimestamp ∧ (∀ state ∈ q.outputs, Early state) →
        (s.setUp q).timestamp ≠ maxTimestamp ∧ ∀ state ∈ (s.setUp q).outputs, Early state) := by
  unfold SwitchPtq.willPark
  rcases setUp_onHeap hon with ⟨hq, heq⟩ | ⟨hoff, state, rest, hget, heq⟩
  · rw [heq, if_pos hq]
    exact ⟨rfl, id⟩
  · obtain ⟨-, -, skipped, hout, -⟩ := gettingTimestamp_spec hget
    rw [heq, if_neg (by rw [hoff]; exact Bool.false_ne_true), hget]
    refine ⟨rfl, fun ⟨_, hearly⟩ => ?_⟩
    rw [hout] at hearly
    exact ⟨(hearly state (by simp)).1, fun s hs => hearly s (by simp [show s ∈ rest from hs])⟩

theorem taken_of_some (hq : s.ptq i = some q) : s.taken i = q := by
  rw [taken, hq, Option.getD_some]

theorem Drains.setUp (h : Drains cfg s) (htimed : s.pt.timelessDecoding = false) (i : ℕ) :
    (s.setUp (s.taken i)).onHeap = true ∨ (s.setUp (s.taken i)).ranDry = true := by
  unfold SwitchPt.setUp
  split
  · next hkeeps =>
    rw [keeps, htimed, Bool.or_false, Bool.or_eq_true, Bool.and_eq_true, beq_iff_eq] at hkeeps
    rcases hkeeps with hon | ⟨hsync, hss⟩
    · exact .inl hon
    · rcases hq : s.ptq i with _ | q
      · rw [taken, hq] at hss
        cases hss
      · rw [taken_of_some hq] at hss ⊢
        cases hon : q.onHeap with
        | true => exact .inl rfl
        | false =>
          rcases h.parked i q hq hon hss with hdry | ⟨-, hoff⟩
          · exact .inr hdry
          · cases hoff.symm.trans hsync
  · split
    · exact .inr rfl
    · exact .inl rfl

theorem Drains.draining (hmem : ∀ n, cfg.realloc n = true) (hs : Settled s) (h : Drains cfg s) :
    (s.updateQueues cfg).1 = 0 ∧ Draining cfg s (s.updateQueues cfg).2 := by
  have hexact := hs.exact.early h.ordinals
  by_cases hnew : s.queues.newData = true
  · obtain ⟨hret, hexact', hframed, hptq⟩ := updateQueues_spec hmem hexact hnew
      fun i hi state rest hget => by
        obtain ⟨-, -, skipped, hout, -⟩ := gettingTimestamp_spec hget
        exact ((h.times i hi).2 state (by rw [hout]; simp)).1
    have hon (i : ℕ) (q : SwitchPtq) (hq : (s.updateQueues cfg).2.ptq i = some q)
        (hon : q.onHeap = true) : i < s.queues.nrQueues.toNat ∧ q = s.setUp (s.taken i) := by
      rw [hptq] at hq
      split at hq
      · refine ⟨(hexact.numbered i q hq).2, ?_⟩
        rw [taken_of_some hq, SwitchPt.setUp, if_pos (by rw [keeps, hon]; rfl)]
      · next hout => exact ⟨not_le.mp (not_or.mp hout).1, (Option.some.inj hq).symm⟩
    refine ⟨hret, hexact', hframed.nrQueues, fun i hi hne => ?_, ?_, ?_⟩
    · rw [hptq, if_neg (not_or.mpr ⟨not_le.mpr hi, hne⟩)]
      exact ⟨_, rfl, h.setUp hs.timed i⟩
    · rw [hframed.pt, hframed.syncSwitch]
      refine h.free.imp_right fun hfree i q hq hq' => ?_
      obtain ⟨hi, rfl⟩ := hon i q hq hq'
      rw [(setUp_ahead cfg hq').1]
      exact hfree i hi
    · intro i q hq hq'
      obtain ⟨hi, rfl⟩ := hon i q hq hq'
      exact (setUp_ahead cfg hq').2 (h.times i hi)
  · have hsame : s.updateQueues cfg = (0, s) := if_neg hnew
    rw [hsame]
    have hwaits := hs.waits.resolve_left hnew
    refine ⟨rfl, hexact, rfl, fun i hi hne => ?_, ?_, ?_⟩
    · obtain ⟨q, hq, hwait⟩ := hwaits i hi hne
      refine ⟨q, hq, ?_⟩
      cases hon : q.onHeap with
      | true => exact .inl rfl
      | false =>
        rcases hwait with hq' | hdry | hss
        · cases hon.symm.trans hq'
        · exact .inr hdry
        · exact .inr ((h.parked i q hq hon hss).resolve_right fun hn => hnew hn.1)
    · refine h.free.imp_right fun hfree i q hq hon => ?_
      have hpark := hfree i (hexact.numbered i q hq).2
      rwa [taken_of_some hq, SwitchPtq.willPark, if_pos hon] at hpark
    · intro i q hq _
      have htimes := h.times i (hexact.numbered i q hq).2
      rwa [taken_of_some hq] at htimes

/-- After any calls, a flush that returns zero has run every queue until it had no data, if no queue
waits or comes to wait for an event. -/
theorem flush_drains (hmem : ∀ n, cfg.realloc n = true) (hdeliver : ∀ i n, cfg.deliver i n ≤ 0)
    (hdump : cfg.dumpTrace = false) (h : Reachable cfg s) (htimed : s.pt.timelessDecoding = false)
    (hdrains : Drains cfg s) {s' : SwitchPt} (hflush : Flush cfg s (0, s')) :
    ∀ i < s.queues.nrQueues.toNat, (s.queue i).head ≠ [] →
      ∃ q, s'.ptq i = some q ∧ q.ranDry = true := by
  obtain ⟨hret, hdraining⟩ := hdrains.draining hmem (h.settled hmem hdeliver htimed)
  have htimed' := (timeless_preserved cfg false).update s htimed
  unfold Flush at hflush
  rw [if_neg (by rw [hdump]; exact Bool.false_ne_true)] at hflush
  split at hflush
  · cases hflush
  · dsimp only at hflush
    rw [if_neg (by rw [hret]; exact lt_irrefl _),
      if_neg (by rw [htimed']; exact Bool.false_ne_true)] at hflush
    exact hflush.invariant (fun _ => Draining.pass hmem hdeliver) hdraining rfl

/-- A flush as far as `n` passes of its loop. -/
theorem flush_of_loop (cfg : SwitchConfig) (s : SwitchPt) (n : ℕ) (hdump : cfg.dumpTrace = false)
    (hordered : cfg.orderedEvents = true) (hupdate : (s.updateQueues cfg).1 = 0)
    (htimed : (s.updateQueues cfg).2.pt.timelessDecoding = false)
    (hzero : (loop (pass cfg maxTimestamp) (fun s => (1, s)) n (s.updateQueues cfg).2).1 = 0) :
    Flush cfg s
      (0, (loop (pass cfg maxTimestamp) (fun s => (1, s)) n (s.updateQueues cfg).2).2) := by
  unfold Flush
  rw [if_neg (by rw [hdump]; exact Bool.false_ne_true),
    if_neg (by rw [hordered]; exact Bool.true_eq_false_eq_False)]
  dsimp only
  rw [if_neg (by rw [hupdate]; exact lt_irrefl _),
    if_neg (by rw [htimed]; exact Bool.false_ne_true)]
  rcases leaves_loop (pass cfg maxTimestamp) (fun s => ((1 : Int), s)) n
    (s.updateQueues cfg).2 with hleaves | ⟨t, ht⟩
  · rw [← hzero]
    exact hleaves
  · rw [ht] at hzero
    cases hzero

end

def oneQueue (states : List State) : SwitchPt where
  pt := {}
  syncSwitch := true
  queues := {
    queueArray := update (fun _ => {}) 0 {
      head := [⟨states, -1, 0, 0⟩], cpu := 0, tid := -1, set := true }
    newData := true }

theorem reachable_oneQueue (cfg : SwitchConfig) (states : List State) :
    Reachable cfg (oneQueue states) := by
  apply Reachable.start _ rfl fun _ _ => rfl
  intro i
  simp only [ptq, queue, oneQueue]
  by_cases hi : i = 0
  · rw [hi, update_self]
  · rw [update_of_ne hi]

def toSwitch : SwitchConfig where
  switchIp := 0xffffffff81000000
  haveSchedSwitch := 3

/-- A trace that comes to `switch_ip` and goes on. -/
def switching : List State :=
  [{ type := { branch := true }, fromIp := 0xffffffff81700000, toIp := 0xffffffff81000000,
     insnOp := .call, timestamp := 5 },
   { type := { branch := true }, fromIp := 0xffffffff81000010, toIp := 0xffffffff81000040,
     insnOp := .jmp, timestamp := 9 }]

/-- No event comes for the queue, and the flush leaves the second state. -/
theorem parked_queue_stranded : ∃ s', Reachable toSwitch (oneQueue switching) ∧
    Flush toSwitch (oneQueue switching) (0, s') ∧ ((oneQueue switching).queue 0).head ≠ [] ∧
    ∃ q, s'.ptq 0 = some q ∧ q.ranDry = false ∧ q.switchState = .expectingSwitchEvent ∧
      q.outputs = switching.drop 1 := by
  refine ⟨_, reachable_oneQueue _ _, flush_of_loop _ _ 3 rfl rfl (by decide +kernel)
    (by decide +kernel) (by decide +kernel), by decide +kernel, ?_⟩
  have hptq : (((loop (pass toSwitch maxTimestamp) (fun s => (1, s)) 3
      ((oneQueue switching).updateQueues toSwitch).2).2.ptq 0).map fun q =>
      (q.ranDry, q.switchState, q.outputs)) =
      some (false, .expectingSwitchEvent, switching.drop 1) := by decide +kernel
  obtain ⟨q, hq, heq⟩ := Option.map_eq_some_iff.mp hptq
  simp only [Prod.mk.injEq] at heq
  exact ⟨q, hq, heq⟩

/-- Without the branch to `switch_ip` the queue is run to the end. -/
theorem oneQueue_flush_drains : ∃ s', Flush toSwitch (oneQueue (switching.drop 1)) (0, s') ∧
    ∃ q, s'.ptq 0 = some q ∧ q.ranDry = true := by
  have hflush := flush_of_loop toSwitch (oneQueue (switching.drop 1)) 3 rfl rfl (by decide +kernel)
    (by decide +kernel) (by decide +kernel)
  have hdrains : Drains toSwitch (oneQueue (switching.drop 1)) := by
    constructor
    case parked =>
      intro i q hq
      simp only [ptq, queue, oneQueue] at hq
      by_cases hi : i = 0
      · rw [hi, update_self] at hq
        cases hq
      · rw [update_of_ne hi] at hq
        cases hq
    case free => exact .inr (by decide +kernel)
    case ordinals => exact fun k hk => absurd hk (Nat.not_lt_zero k)
    case times =>
      unfold Early
      decide +kernel
  exact ⟨_, hflush, flush_drains (fun _ => rfl) (fun _ _ => le_refl _) rfl
    (reachable_oneQueue _ _) rfl hdrains hflush 0 (by decide +kernel) (by decide +kernel)⟩

end SwitchPt

end RPerf.Queues
