import RPerf.Queues.Parking

/-!
# Where the queues are

Between calls every queue with data is on the heap, has been run until it had none, waits
for a switch event, or is going to be set up.
-/

namespace RPerf.Queues

open Function Lib Decode

def SwitchPtq.Waits (q : SwitchPtq) : Prop :=
  q.onHeap = true ∨ q.ranDry = true ∨ q.switchState = .expectingSwitchEvent

namespace SwitchPt

section

variable {cfg : SwitchConfig} {s s' : SwitchPt} {i : ℕ} {q : SwitchPtq} {timestamp : UInt64}
  {out : SwitchRun}

theorem enter_pt (cfg : SwitchConfig) (s : SwitchPt) :
    (s.enter cfg).pt.timelessDecoding = s.pt.timelessDecoding ∧
      (s.enter cfg).pt.kernelStart ≠ 0 ∧
      (s.pt.kernelStart ≠ 0 → (s.enter cfg).syncSwitch = s.syncSwitch) := by
  unfold enter
  split
  · next h0 => exact ⟨rfl, cfg.kernelStart_ne, fun hne => absurd h0 hne⟩
  · next hne => exact ⟨rfl, hne, fun _ => rfl⟩

/-- What running a queue does. -/
structure Ran (cfg : SwitchConfig) (s : SwitchPt) (i : ℕ) (q : SwitchPtq) (timestamp : UInt64)
    (out : SwitchRun) (s' : SwitchPt) : Prop where
  runs : SwitchRuns cfg (s.enter cfg).pt (s.queue i) timestamp q.outputs
    ⟨(s.enter cfg).syncSwitch, (s.enter cfg).machine,
      q.setPidTidCpu cfg (s.enter cfg).machine (s.queue i)⟩ out
  stays : q.Stays out.running.ptq
  pt : s'.pt = (s.enter cfg).pt
  syncSwitch : s'.syncSwitch = out.running.syncSwitch
  queues : s'.queues = s.queues.attach i out.running.ptq
  machine : s'.machine = out.running.machine
  sampled : s'.sampled = s.sampled ++ out.sampled.map fun x => (i, x)

theorem ran (hrun : s.runs cfg i q timestamp = (out, s')) : Ran cfg s i q timestamp out s' := by
  have hstays := runs_stays cfg s i q timestamp
  have hqueues := runs_queues cfg s i q timestamp
  rw [hrun] at hstays hqueues
  have henter : (s.enter cfg).queue i = s.queue i := by rw [queue, enter_queues, queue]
  have hsampled : (s.enter cfg).sampled = s.sampled := by unfold enter; split <;> rfl
  unfold SwitchPt.runs at hrun
  dsimp only at hrun
  rw [henter] at hrun
  obtain ⟨rfl, rfl⟩ := Prod.mk.inj hrun
  exact ⟨switchLoop_runs .., hstays, rfl, rfl, hqueues, rfl, by rw [hsampled]⟩

theorem ptq_attach (s : SwitchPt) {i j : ℕ} (q : SwitchPtq) :
    (({ s with queues := s.queues.attach i q } : SwitchPt).ptq j) =
      if j = i then some q else s.ptq j := by
  split
  · next hj => rw [hj]; exact ptq_store s i q
  · next hj => rw [ptq, ptq]; exact congrArg _ (queue_store_of_ne s q hj)

theorem preserved_of_runs {I : Pt → Bool → Prop}
    (hruns : ∀ {s s' : SwitchPt} {i : ℕ} {q : SwitchPtq} {timestamp : UInt64} {out : SwitchRun},
      Ran cfg s i q timestamp out s' → I s.pt s.syncSwitch → I s'.pt s'.syncSwitch) :
    Preserved cfg fun s => I s.pt s.syncSwitch where
  update s hs := by
    unfold updateQueues
    split
    · have hframed := setupEach_framed cfg { s with queues := { s.queues with newData := false } }
        (List.range s.queues.nrQueues.toNat)
      rw [hframed.pt, hframed.syncSwitch]
      exact hs
    · exact hs
  pass timestamp s hs := by
    have hpasses := passes_pass cfg timestamp s
    generalize s.pass cfg timestamp = p at hpasses ⊢
    cases hpasses with
    | idle => exact hs
    | missing => exact hs
    | failed _ _ _ hr =>
      have hs' := hruns (ran hr) hs
      exact hs'
    | back _ _ _ hr =>
      have hs' := hruns (ran hr) hs
      exact hs'
    | off _ _ _ hr =>
      have hs' := hruns (ran hr) hs
      exact hs'
  timeless tid s htimeless hs := by
    unfold processTimelessQueues
    clear htimeless
    generalize List.range s.queues.nrQueues.toNat = todo
    induction todo generalizing s with
    | nil => exact hs
    | cons i rest ih =>
      apply ih
      unfold runTimeless
      split
      · split
        · rcases hrun : s.runs cfg i _ 0 with ⟨out, s'⟩
          exact hruns (ran hrun) hs
        · exact hs
      · exact hs
  sync cpu tid time s hs := by
    unfold syncSwitchTo
    split
    · exact hs
    · split
      · exact hs
      · dsimp only
        split_ifs <;> exact hs
  machine _ _ hs := hs

/-- Whether there are times does not change. -/
theorem timeless_preserved (cfg : SwitchConfig) (timeless : Bool) :
    Preserved cfg fun s => s.pt.timelessDecoding = timeless := by
  apply preserved_of_runs (I := fun pt _ => pt.timelessDecoding = timeless)
  intro s s' i q timestamp out hran hs
  rw [hran.pt, (enter_pt cfg s).1]
  exact hs

structure Settled (s : SwitchPt) : Prop where
  exact : s.HeapExact
  timed : s.pt.timelessDecoding = false
  waits : s.queues.newData = true ∨ ∀ i < s.queues.nrQueues.toNat, (s.queue i).head ≠ [] →
    ∃ q, s.ptq i = some q ∧ q.Waits

theorem setUp_waits (htimed : s.pt.timelessDecoding = false) (q : SwitchPtq) :
    (s.setUp q).Waits := by
  unfold setUp
  split
  · next hkeeps =>
    rw [keeps, htimed, Bool.or_false, Bool.or_eq_true, Bool.and_eq_true, beq_iff_eq] at hkeeps
    rcases hkeeps with hon | ⟨-, hss⟩
    · exact .inl hon
    · exact .inr (.inr hss)
  · split
    · exact .inr (.inl rfl)
    · exact .inl rfl

theorem updateQueues_spec {ok : UInt64 → Prop} (hmem : ∀ n, cfg.realloc n = true)
    (h : Exact ok s.queues s.heap) (hnew : s.queues.newData = true)
    (hok : ∀ i < s.queues.nrQueues.toNat, ∀ state rest,
      gettingTimestamp (s.taken i).outputs = (some state, rest) → ok state.timestamp) :
    (s.updateQueues cfg).1 = 0 ∧
      Exact ok (s.updateQueues cfg).2.queues (s.updateQueues cfg).2.heap ∧
      Framed s (s.updateQueues cfg).2 ∧
      ∀ i, (s.updateQueues cfg).2.ptq i =
        if s.queues.nrQueues.toNat ≤ i ∨ (s.queue i).head = [] then s.ptq i
        else some (s.setUp (s.taken i)) := by
  unfold updateQueues
  rw [if_pos hnew]
  let s₁ : SwitchPt := { s with queues := { s.queues with newData := false } }
  have h₁ : Exact ok s₁.queues s₁.heap := ⟨h.numbered, h.holds⟩
  obtain ⟨hret, hexact, hptq⟩ := setupEach_spec hmem (List.range s.queues.nrQueues.toNat)
    List.nodup_range h₁ (fun i hi => List.mem_range.mp hi) fun i hi => hok i (List.mem_range.mp hi)
  have hframed := setupEach_framed cfg s₁ (List.range s.queues.nrQueues.toNat)
  refine ⟨hret, hexact, ⟨hframed.pt, hframed.syncSwitch, hframed.nrQueues, hframed.head⟩,
    fun i => ?_⟩
  rw [hptq i]
  simp only [List.mem_range, not_lt]
  rfl

theorem Settled.updateQueues (hmem : ∀ n, cfg.realloc n = true) (h : Settled s) :
    Settled (s.updateQueues cfg).2 := by
  by_cases hnew : s.queues.newData = true
  · obtain ⟨-, hexact, hframed, hptq⟩ := updateQueues_spec hmem h.exact hnew
      fun _ _ _ _ _ => trivial
    refine ⟨hexact, ?_, .inr fun i hi hne => ?_⟩
    · rw [hframed.pt]
      exact h.timed
    · rw [hframed.nrQueues] at hi
      rw [hframed.head] at hne
      rw [hptq i, if_neg (not_or.mpr ⟨not_le.mpr hi, hne⟩)]
      exact ⟨_, rfl, setUp_waits h.timed _⟩
  · unfold SwitchPt.updateQueues
    rw [if_neg hnew]
    exact h

theorem Settled.attached (h : Settled s) {t : SwitchPt} (hexact : t.HeapExact)
    (htimed : t.pt.timelessDecoding = false) (hqueues : t.queues = s.queues.attach i q)
    (hq : s.queues.newData = true ∨ ((s.queue i).head ≠ [] → q.Waits)) : Settled t := by
  refine ⟨hexact, htimed, ?_⟩
  rw [hqueues]
  rcases h.waits with hnew | hwaits
  · exact .inl hnew
  rcases hq with hnew | hq
  · exact .inl hnew
  refine .inr fun j hj hne => ?_
  have hhead : (s.queue j).head ≠ [] := by
    rw [queue, hqueues] at hne
    exact head_store s i q j ▸ hne
  have hptq : t.ptq j = if j = i then some q else s.ptq j := by
    rw [ptq, queue, hqueues]
    exact ptq_attach s q
  rw [hptq]
  split
  · next heq =>
    subst heq
    exact ⟨q, rfl, hq hhead⟩
  · exact hwaits j hj hhead

theorem Settled.pass (hmem : ∀ n, cfg.realloc n = true) (hdeliver : ∀ i n, cfg.deliver i n ≤ 0)
    (h : Settled s) : (s.pass cfg timestamp).Satisfies Settled fun r => Settled r.2 := by
  have hexact := h.exact.pass hmem timestamp
  have htimed := (timeless_preserved cfg false).pass timestamp s h.timed
  have hpasses := passes_pass cfg timestamp s
  have hon {i : ℕ} {q : SwitchPtq} {out : SwitchRun} {s' : SwitchPt} (h0 : s.heap.heapCnt ≠ 0)
      (hi : (s.heap.heapArray 0).queueNr = i) (hq : s.ptq i = some q)
      (hran : Ran cfg s i q (runBound s.heap.pop timestamp) out s') : out.running.ptq.Waits := by
    have hin := (Exact.pop h.exact h0 hi hmem).1
    exact .inl (hran.stays.onHeap.trans ((Exact.mem_members h.exact hq).mp hin))
  generalize s.pass cfg timestamp = p at hexact htimed hpasses ⊢
  cases hpasses with
  | idle => exact h
  | missing => exact h
  | failed h0 hi hq hrun _ _ =>
    exact h.attached hexact htimed (ran hrun).queues (.inr fun _ => hon h0 hi hq (ran hrun))
  | back h0 hi hq hrun _ _ =>
    exact h.attached hexact htimed (ran hrun).queues (.inr fun _ => hon h0 hi hq (ran hrun))
  | @off i q out s' h0 hi hq hrun hret =>
    apply h.attached (q := { out.running.ptq with onHeap := false }) hexact htimed
    · rw [store, (ran hrun).queues, attach_attach]
    · rcases (ran hrun).runs.off hdeliver hret with hdry | hss
      · exact .inr fun _ => .inr (.inl hdry)
      · exact .inr fun _ => .inr (.inr hss)

theorem onSwitch_waits {q : SwitchPtq} (h : q.Waits) (tid : Int) (tsc : UInt64) :
    (q.onSwitch tid tsc).2.Waits := by
  unfold SwitchPtq.onSwitch
  cases hss : q.switchState
  case expectingSwitchEvent =>
    dsimp only
    split
    · next hon => exact .inl hon
    · exact .inl rfl
  all_goals
    rcases h with hon | hdry | hwait
    · exact .inl hon
    · exact .inr (.inl hdry)
    · cases hss.symm.trans hwait

theorem syncSwitchTo_cases (cfg : SwitchConfig) (cpu tid : Int) (time : UInt64) (s : SwitchPt) :
    (s.syncSwitchTo cfg cpu tid time).2 = s ∨
      ∃ i q q', s.ptq i = some q ∧
        (s.syncSwitchTo cfg cpu tid time).2.queues = s.queues.attach i q' ∧
        (q' = (q.onSwitch tid (perfTimeToTsc time s.pt.tc)).2 ∨
          ∃ t, q' = { q with timestamp := t }) := by
  unfold syncSwitchTo
  split
  · exact .inl rfl
  · split
    · exact .inl rfl
    · next i q hfound =>
      obtain ⟨j, -, hj⟩ := Option.bind_eq_some_iff.mp hfound
      obtain ⟨q', hq, heq⟩ := Option.map_eq_some_iff.mp hj
      obtain ⟨rfl, rfl⟩ := Prod.mk.inj heq
      refine .inr ⟨j, q', ?_⟩
      dsimp only
      split_ifs
      · exact ⟨_, hq, rfl, .inl rfl⟩
      · exact ⟨_, hq, rfl, .inr ⟨_, rfl⟩⟩
      · exact ⟨_, hq, rfl, .inl rfl⟩

theorem Settled.syncSwitchTo (hmem : ∀ n, cfg.realloc n = true) (cpu tid : Int) (time : UInt64)
    (h : Settled s) : Settled (s.syncSwitchTo cfg cpu tid time).2 := by
  have hexact := h.exact.syncSwitchTo hmem cpu tid time
  have htimed := (timeless_preserved cfg false).sync cpu tid time s h.timed
  rcases syncSwitchTo_cases cfg cpu tid time s with hsame | ⟨i, q, q', hq, hqueues, hq'⟩
  · rw [hsame]
    exact h
  · apply h.attached hexact htimed hqueues
    rcases h.waits with hnew | hwaits
    · exact .inl hnew
    · refine .inr fun hne => ?_
      obtain ⟨q₀, hq₀, hwait⟩ := hwaits i (h.exact.numbered i q hq).2 hne
      cases hq.symm.trans hq₀
      rcases hq' with rfl | ⟨t, rfl⟩
      · exact onSwitch_waits hwait _ _
      · exact hwait

theorem settled_preserved (hmem : ∀ n, cfg.realloc n = true)
    (hdeliver : ∀ i n, cfg.deliver i n ≤ 0) : Preserved cfg Settled where
  update _ := Settled.updateQueues hmem
  pass _ _ := Settled.pass hmem hdeliver
  timeless _ _ htimeless h := by
    rw [h.timed] at htimeless
    cases htimeless
  sync cpu tid time _ := Settled.syncSwitchTo hmem cpu tid time
  machine _ _ h := ⟨h.exact, h.timed, h.waits⟩

theorem feed_frame (s : SwitchPt) (i : ℕ) (states : List State) :
    (s.feed i states).pt = s.pt ∧ (s.feed i states).queues.newData = s.queues.newData := by
  unfold feed
  split <;> exact ⟨rfl, rfl⟩

theorem processAuxtraceEvent_timeless {idx : UInt32} {buffer : AuxtraceBuffer (List State)}
    {r : Int × SwitchPt} (hevent : s.processAuxtraceEvent cfg idx buffer = some r) :
    r.2.pt.timelessDecoding = s.pt.timelessDecoding := by
  unfold processAuxtraceEvent at hevent
  split_ifs at hevent
  · cases hevent
    rfl
  · obtain ⟨⟨err, queues⟩, -, rfl⟩ := Option.map_eq_some_iff.mp hevent
    dsimp only
    split
    · rw [(feed_frame _ _ _).1]
    · rfl

theorem Settled.processAuxtraceEvent {idx : UInt32} {buffer : AuxtraceBuffer (List State)}
    {r : Int × SwitchPt} (hevent : s.processAuxtraceEvent cfg idx buffer = some r)
    (h : Settled s) : Settled r.2 := by
  refine ⟨h.exact.processAuxtraceEvent hevent,
    (processAuxtraceEvent_timeless hevent).trans h.timed, ?_⟩
  unfold SwitchPt.processAuxtraceEvent at hevent
  split_ifs at hevent
  · cases hevent
    exact h.waits
  · obtain ⟨⟨err, queues⟩, hadd, rfl⟩ := Option.map_eq_some_iff.mp hevent
    obtain ⟨q₁, hgrown, -, ⟨herr, rfl⟩ | ⟨rfl, -, queue, -, rfl⟩⟩ :=
      AuxtraceQueues.addBuffer_some hadd
    · -- the array has grown, and nothing else
      dsimp only
      rw [if_neg herr]
      cases hgrown with
      | same => exact h.waits
      | more hle =>
        apply h.waits.imp_right
        intro hwaits i hi hne
        simp only [queue, ptq, AuxtraceQueues.copied] at hne ⊢
        split_ifs at hne ⊢ with hlt
        · exact hwaits i hlt hne
        · exact absurd rfl hne
    · left
      dsimp only
      rw [if_pos rfl, (feed_frame _ _ _).2]
      rfl

theorem Reachable.settled (h : Reachable cfg s) (hmem : ∀ n, cfg.realloc n = true)
    (hdeliver : ∀ i n, cfg.deliver i n ≤ 0) (htimed : s.pt.timelessDecoding = false) :
    Settled s := by
  have hback {s t : SwitchPt} (hkept : s.pt.timelessDecoding = true → t.pt.timelessDecoding = true)
      (ht : t.pt.timelessDecoding = false) : s.pt.timelessDecoding = false := by
    rw [← Bool.not_eq_true] at ht ⊢
    exact fun hs => ht (hkept hs)
  induction h with
  | @start s hpriv hheap hnew =>
    refine ⟨heapExact_start hpriv hheap, htimed, ?_⟩
    by_cases hany : ∃ i, (s.queue i).head ≠ []
    · obtain ⟨i, hi⟩ := hany
      exact .inl (hnew i hi)
    · exact .inr fun i _ hi => absurd ⟨i, hi⟩ hany
  | machine _ m ih => exact (settled_preserved hmem hdeliver).machine m _ (ih htimed)
  | event _ hevent ih =>
    have hs := hback ((timeless_preserved cfg true).processEvent hevent) htimed
    exact (settled_preserved hmem hdeliver).processEvent hevent (ih hs)
  | auxtrace _ hevent ih =>
    exact (ih ((processAuxtraceEvent_timeless hevent).symm.trans htimed)).processAuxtraceEvent
      hevent
  | flush _ hflush ih =>
    have hs := hback ((timeless_preserved cfg true).flush hflush) htimed
    exact (settled_preserved hmem hdeliver).flush hflush (ih hs)

end

end SwitchPt

end RPerf.Queues
