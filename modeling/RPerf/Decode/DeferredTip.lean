import RPerf.Decode.ControlFlow
import RPerf.Decode.Approach

/-!
# A deferred TIP that does not come at once

While bits of a TNT packet are left, the target of an indirect branch is fetched by
`intel_pt_walk_tnt` itself, after `intel_pt_walk_insn` has counted the branch and pushed the
return address of a call.
-/

namespace RPerf.Decode

open Lib Packets Code

/-- `intel_pt_walk_tnt` gets to an indirect branch and fetches the TIP. -/
def Defers (cfg : Config) (d : Decoder) (insn : Insn) (b : Decoder) : Prop :=
  ∃ c, Visits (Decoder.walkTntPass cfg) d c ∧ c.walkInsn cfg 0 = (.ok, insn, b) ∧
    insn.op ≠ .ret ∧ insn.branch = .indirect

inductive Attempts (cfg : Config) : Decoder → ℕ → Decoder → Prop
  | fetched {d e} : d.walkTnt cfg = (.ok, e) → Attempts cfg d 0 (Decoder.conclude cfg (.ok, e))
  | failed {d e f err n} : d.walkTnt cfg = (err, e) → err = .badmsg ∨ err = .nodata →
    Attempts cfg (Decoder.conclude cfg (err, e)).startState n f → Attempts cfg d (n + 1) f

section

variable {code : Program} {cfg : Config} {b c d e f : Decoder} {insn : Insn} {n : ℕ}

theorem nextSample_totInsnCnt (s : Sampling) (cfg : Config) (now : UInt64) :
    (s.nextSample cfg now).2.totInsnCnt = s.totInsnCnt := by
  unfold Sampling.nextSample
  cases cfg.periodType with
  | ticks =>
    simp only [Sampling.nextPeriod]
    split_ifs <;> rfl
  | none | instructions | mtc => rfl

theorem sampled_totInsnCnt (d : Decoder) (cfg : Config) (w : Walked) :
    (d.sampled cfg w).smp.totInsnCnt = d.smp.totInsnCnt + w.insnCnt := by
  have hnext := nextSample_totInsnCnt { d.smp with mtcInsn := true } cfg d.now
  have hsample : ∀ (s : Sampling) now, (s.sample cfg now).totInsnCnt = s.totInsnCnt := by
    intro s now
    unfold Sampling.sample
    split <;> rfl
  simp only [Decoder.sampled]
  split_ifs
  · simp only [Decoder.sampleInsn, Decoder.walked, hsample, Sampling.count, hnext]
  · simp only [Decoder.walked, Sampling.count, hnext]

theorem sampled_stack (d : Decoder) (cfg : Config) (w : Walked) :
    (d.sampled cfg w).stack = d.stack := by
  simp only [Decoder.sampled]
  split_ifs <;> rfl

theorem arrive_indirect (hmalloc : ∀ n, cfg.malloc n = true) (hbr : insn.branch = .indirect) :
    ∃ e, d.arrive cfg insn = (.ok, insn, e) ∧ e.ip = d.ip ∧ e.smp = d.smp ∧
      e.pktState = d.pktState ∧ e.stack.contents = restack d.stack.contents d.ip insn := by
  obtain ⟨stack, retAddr, n, hcall, hcont, -⟩ := callOrRet_restack hmalloc d insn
  rw [Decoder.arrive, if_neg (by simp [hbr]), hcall]
  simp only [hbr, reduceCtorEq, if_false]
  exact ⟨_, rfl, rfl, rfl, rfl, hcont⟩

theorem walkInsn_at_branch (hcode : cfg.walkInsn = code.walkInsn)
    (hmalloc : ∀ n, cfg.malloc n = true) (hat : code.insnAt d.ip = some insn)
    (hbr : insn.branch = .indirect) :
    ∃ e, d.walkInsn cfg 0 = (.ok, insn, e) ∧ e.ip = d.ip ∧ e.pktState = d.pktState ∧
      e.smp.totInsnCnt = d.smp.totInsnCnt + 1 ∧
      e.stack.contents = restack d.stack.contents d.ip insn := by
  have hw : cfg.walkInsn d.ip 0 (d.smp.due cfg d.now) =
      { insn := insn, insnCnt := 1, ip := d.ip } := by
    rw [hcode]
    exact Program.walkInsn_at hat (by simp [hbr])
  obtain ⟨e, he, hip, hsmp, hstate, hstack⟩ := arrive_indirect hmalloc hbr
    (d := d.sampled cfg { insn := insn, insnCnt := 1, ip := d.ip })
  rw [walkInsn_eq_arrive hw rfl (by simp)]
  obtain ⟨hsip, -, -⟩ := sampled_rest d cfg { insn := insn, insnCnt := 1, ip := d.ip }
  refine ⟨e, he, hip.trans hsip, hstate.trans (Passed.sampled d cfg _).pktState, ?_, ?_⟩
  · rw [hsmp, sampled_totInsnCnt]
  · rw [hstack, sampled_stack, hsip]

theorem callOrRet_kept (d : Decoder) (cfg : Config) (insn : Insn) :
    (d.callOrRet cfg insn).2.ip = d.ip ∧ (d.callOrRet cfg insn).2.pktState = d.pktState ∧
      (d.callOrRet cfg insn).2.tnt = d.tnt := by
  unfold Decoder.callOrRet
  split_ifs
  · split <;> exact ⟨rfl, rfl, rfl⟩
  all_goals exact ⟨rfl, rfl, rfl⟩

theorem arrive_kept {i : Insn} (h : d.arrive cfg i = (.ok, insn, e)) :
    insn = i ∧ e.ip = d.ip ∧ e.pktState = d.pktState ∧ e.tnt = d.tnt := by
  have hkept := callOrRet_kept d cfg i
  unfold Decoder.arrive at h
  by_cases hno : i.branch = .noBranch
  · rw [if_pos hno] at h
    cases h
  · rw [if_neg hno] at h
    split at h <;> rename_i heq <;> rw [heq] at hkept
    · cases h
    · split_ifs at h
      · simp only [Decoder.unconditional] at h
        split_ifs at h <;> cases h
      · cases h
        exact ⟨rfl, hkept⟩

theorem walkInsn_ok_kept (hcode : cfg.walkInsn = code.walkInsn)
    (h : c.walkInsn cfg 0 = (.ok, insn, b)) :
    code.insnAt b.ip = some insn ∧ b.pktState = c.pktState ∧ b.tnt = c.tnt := by
  rcases hw : cfg.walkInsn c.ip 0 (c.smp.due cfg c.now) with ⟨err, i, cnt, ip⟩
  cases err with
  | some err =>
    have hw' : cfg.walkInsn c.ip 0 ({ c.smp with mtcInsn := true }.nextSample cfg
        (c.clk.timestamp + c.clk.timestampInsnCnt)).1 = ⟨some err, i, cnt, ip⟩ := hw
    simp only [Decoder.walkInsn, hw', Prod.mk.injEq] at h
    split_ifs at h <;> cases h.1
  | none =>
    rw [walkInsn_eq_arrive hw rfl (by simp)] at h
    obtain ⟨rfl, hip, hstate, htnt⟩ := arrive_kept h
    obtain ⟨hsip, -, -⟩ := sampled_rest c cfg ⟨none, insn, cnt, ip⟩
    have hat := Program.walkInsn_insnAt code c.ip (c.smp.due cfg c.now)
    rw [← hcode, hw] at hat
    refine ⟨?_, hstate.trans (Passed.sampled c cfg _).pktState, htnt.trans ?_⟩
    · rw [hip, hsip]
      exact hat rfl
    · simp only [Decoder.sampled]
      split_ifs <;> rfl

theorem walkTntPass_again (hcode : cfg.walkInsn = code.walkInsn)
    (h : Decoder.walkTntPass cfg d = .again e) :
    e.tnt.count < d.tnt.count ∧ e.pktState = d.pktState := by
  unfold Decoder.walkTntPass at h
  split at h
  · cases h
  · rename_i insn b hwalk
    obtain ⟨-, hstate, htnt⟩ := walkInsn_ok_kept hcode hwalk
    split_ifs at h
    simp only [Decoder.tntConditional] at h
    split_ifs at h with htaken hinsn hlast
    cases h
    have hleft : b.tnt.count - 1 ≠ 0 := hlast
    constructor
    · change b.tnt.count - 1 < _
      rw [← htnt]
      omega
    · change (if b.tnt.count - 1 = 0 then PktState.inSync else b.pktState) = _
      rw [if_neg hleft, hstate]
  · cases h

theorem Visits.pktState (hcode : cfg.walkInsn = code.walkInsn)
    (h : Visits (Decoder.walkTntPass cfg) d e) : e.pktState = d.pktState := by
  induction h with
  | refl => rfl
  | again hb _ ih => exact ih.trans (walkTntPass_again hcode hb).2

theorem Defers.walkTnt (hcode : cfg.walkInsn = code.walkInsn) (h : Defers cfg d insn b) :
    d.walkTnt cfg = b.tntIndirect := by
  obtain ⟨c, hvisits, hwalk, hop, hbr⟩ := h
  have hpass : Decoder.walkTntPass cfg c = .leave b.tntIndirect := by
    simp only [Decoder.walkTntPass, hwalk, if_neg hop, if_pos hbr]
  exact loop_of_visits (fun _ _ hb => (walkTntPass_again hcode hb).1) hvisits hpass _
    (Nat.lt_succ_self _)

theorem arrive_withRd (d : Decoder) (cfg : Config) (i : Insn) (rd : Reader) :
    { d with rd := rd }.arrive cfg i =
      ((d.arrive cfg i).1, (d.arrive cfg i).2.1, { (d.arrive cfg i).2.2 with rd := rd }) := by
  have hcall : { d with rd := rd }.callOrRet cfg i =
      ((d.callOrRet cfg i).1, { (d.callOrRet cfg i).2 with rd := rd }) := by
    unfold Decoder.callOrRet
    split_ifs
    · simp only
      split <;> rfl
    all_goals rfl
  unfold Decoder.arrive
  rw [hcall]
  by_cases hno : i.branch = .noBranch
  · rw [if_pos hno, if_pos hno]
    rfl
  · rw [if_neg hno, if_neg hno]
    rcases d.callOrRet cfg i with ⟨_ | _, e⟩
    · rfl
    · simp only [Decoder.unconditional]
      split_ifs <;> rfl

theorem sampled_withRd (d : Decoder) (cfg : Config) (w : Walked) (rd : Reader) :
    { d with rd := rd }.sampled cfg w = { d.sampled cfg w with rd := rd } := by
  by_cases hdue : ({ d.smp with mtcInsn := true }.nextSample cfg d.now).1 ≠ 0 ∧
      ({ d.smp with mtcInsn := true }.nextSample cfg d.now).1 ≤ w.insnCnt
  · have hd : d.sampled cfg w = _ := if_pos hdue
    rw [hd]
    exact if_pos hdue
  · have hd : d.sampled cfg w = _ := if_neg hdue
    rw [hd]
    exact if_neg hdue

theorem walkInsn_withRd (d : Decoder) (cfg : Config) (rd : Reader) :
    { d with rd := rd }.walkInsn cfg 0 =
      ((d.walkInsn cfg 0).1, (d.walkInsn cfg 0).2.1,
        { (d.walkInsn cfg 0).2.2 with rd := rd }) := by
  rcases hw : cfg.walkInsn d.ip 0 (d.smp.due cfg d.now) with ⟨err, i, cnt, ip⟩
  cases err with
  | some err =>
    have hw' : cfg.walkInsn d.ip 0 ({ d.smp with mtcInsn := true }.nextSample cfg
        (d.clk.timestamp + d.clk.timestampInsnCnt)).1 = ⟨some err, i, cnt, ip⟩ := hw
    simp only [Decoder.walkInsn, hw']
    rfl
  | none =>
    have hrd := walkInsn_eq_arrive (d := { d with rd := rd }) hw rfl (by simp)
    rw [hrd, walkInsn_eq_arrive hw rfl (by simp), sampled_withRd]
    exact arrive_withRd _ cfg i rd

theorem walkTntPass_withRd (h : Decoder.walkTntPass cfg d = .again e) (rd : Reader) :
    Decoder.walkTntPass cfg { d with rd := rd } = .again { e with rd := rd } := by
  have hrd := walkInsn_withRd d cfg rd
  rcases hwalk : d.walkInsn cfg 0 with ⟨st, insn, c⟩
  rw [hwalk] at hrd
  simp only [Decoder.walkTntPass, hwalk, hrd] at h ⊢
  cases st <;> try cases h
  simp only at h ⊢
  split_ifs at h with hop hind hcond
  rw [if_neg hop, if_neg hind, if_pos hcond]
  simp only [Decoder.tntConditional] at h ⊢
  split_ifs at h with htaken hinsn hlast
  cases h
  exact ((if_neg htaken).trans (if_neg hinsn)).trans (if_neg hlast)

theorem Defers.withRd (h : Defers cfg d insn b) (rd : Reader) :
    Defers cfg { d with rd := rd } insn { b with rd := rd } := by
  obtain ⟨c, hvisits, hwalk, hop, hbr⟩ := h
  refine ⟨{ c with rd := rd }, ?_, ?_, hop, hbr⟩
  · clear hwalk
    induction hvisits with
    | refl => exact .refl
    | again hb _ ih => exact .again (walkTntPass_withRd hb rd) ih
  · rw [walkInsn_withRd, hwalk]

theorem fetched_kept {w : Walker} {fr : Fetch × Reader} {st : Status}
    (h : d.fetched w fr = (st, e)) (hst : st ≠ .nolink) :
    e.stack = d.stack ∧ e.smp = d.smp ∧ e.ip = d.ip ∧ e.pktState = d.pktState := by
  unfold Decoder.fetched at h
  split at h <;> cases h
  case h_5 => exact absurd rfl hst
  all_goals exact ⟨rfl, rfl, rfl, rfl⟩

theorem tntIndirect_kept {st : Status} (h : b.tntIndirect = (st, e))
    (hst : st = .ok ∨ st = .badmsg ∨ st = .nodata) :
    e.stack = b.stack ∧ e.smp = b.smp ∧
      (st ≠ .ok → e.ip = b.ip ∧ e.pktState = b.pktState) := by
  rcases hget : b.getNextPacket .tnt with ⟨st', c⟩
  have hkept := fetched_kept hget
  simp only [Decoder.tntIndirect, hget] at h
  cases st'
  case ok =>
    obtain ⟨hstack, hsmp, -, -⟩ := hkept (by simp)
    simp only at h
    split_ifs at h
    · cases h
      simp at hst
    · cases h
      exact ⟨hstack, hsmp, by simp⟩
  case badmsg | nodata =>
    cases h
    obtain ⟨hstack, hsmp, hplace⟩ := hkept (by simp)
    exact ⟨hstack, hsmp, fun _ => hplace⟩
  all_goals
    cases h
    simp at hst

theorem decode_of_tnt {st : Status} (hstate : c.pktState = .tnt)
    (h : c.startState.walkTnt cfg = (st, e)) (hst : st = .ok ∨ st = .badmsg ∨ st = .nodata) :
    c.decode cfg = Decoder.conclude cfg (st, e) := by
  have hstart : c.startState.pktState = .tnt := hstate
  have hpass : Decoder.decodePass cfg c = .leave (st, e) := by
    rcases hst with rfl | rfl | rfl <;> simp only [Decoder.decodePass, Decoder.resume, hstart, h]
  rw [Decoder.decode, loop_of_leave _ hpass]

theorem Attempts.status (h : Attempts cfg d n f) :
    ∃ st e, d.walkTnt cfg = (st, e) ∧ (st = .ok ∨ st = .badmsg ∨ st = .nodata) := by
  cases h with
  | fetched hwalk => exact ⟨_, _, hwalk, .inl rfl⟩
  | failed hwalk herr _ => exact ⟨_, _, hwalk, .inr herr⟩

theorem Attempts.counts (hcode : cfg.walkInsn = code.walkInsn)
    (hmalloc : ∀ n, cfg.malloc n = true) (h : Attempts cfg d n f) :
    ∀ b, d.pktState = .tnt → Defers cfg d insn b →
      f.smp.totInsnCnt = b.smp.totInsnCnt + UInt64.ofNat n ∧
        f.stack.contents =
          (if pushes insn then List.replicate n (insn.next b.ip) else []) ++ b.stack.contents ∧
        f = (Decoder.conclude cfg (d.walkTnt cfg)).run (List.replicate n cfg) := by
  induction h with
  | @fetched d e hwalk =>
    intro b _ hdefers
    obtain ⟨hstack, hsmp, -⟩ := tntIndirect_kept (hdefers.walkTnt hcode ▸ hwalk) (.inl rfl)
    obtain ⟨hstack', -, -, htot⟩ := Decoder.conclude_kept cfg (.ok, e)
    refine ⟨?_, ?_, by rw [hwalk]; rfl⟩
    · rw [htot, hsmp]
      simp
    · rw [hstack', hstack]
      simp
  | @failed d e f err n hwalk herr hrest ih =>
    intro b hstate hdefers
    have hst : err = .ok ∨ err = .badmsg ∨ err = .nodata := .inr herr
    obtain ⟨hstack, hsmp, hplace⟩ := tntIndirect_kept (hdefers.walkTnt hcode ▸ hwalk) hst
    obtain ⟨hip, hpkt⟩ := hplace (by rcases herr with rfl | rfl <;> simp)
    obtain ⟨c, hvisits, hok, hop, hbr⟩ := hdefers
    obtain ⟨hat, hbstate, -⟩ := walkInsn_ok_kept hcode hok
    have hb : b.pktState = .tnt := by rw [hbstate, Visits.pktState hcode hvisits, hstate]
    obtain ⟨hstack', hip', hpkt', htot⟩ := Decoder.conclude_kept cfg (err, e)
    set g := Decoder.conclude cfg (err, e) with hg
    have hgip : g.startState.ip = b.ip := hip'.trans hip
    have hgstate : g.startState.pktState = .tnt := by
      change g.pktState = _
      rw [hpkt', hpkt, hb]
    obtain ⟨b', hok', hip'', -, htot', hstack''⟩ := walkInsn_at_branch (d := g.startState) hcode
      hmalloc (hgip ▸ hat) hbr
    have hgtot : g.startState.smp.totInsnCnt = b.smp.totInsnCnt := by
      change g.smp.totInsnCnt = _
      rw [htot, hsmp]
    have hgstack : g.startState.stack.contents = b.stack.contents := by
      change g.stack.contents = _
      rw [hstack', hstack]
    obtain ⟨ihtot, ihstack, ihrun⟩ := ih b' hgstate ⟨g.startState, .refl, hok', hop, hbr⟩
    rw [hip'', hgip] at ihstack
    refine ⟨?_, ?_, ?_⟩
    · rw [ihtot, htot', hgtot, UInt64.ofNat_add, UInt64.add_assoc, UInt64.add_comm 1]
      rfl
    · rw [ihstack, hstack'', hgstack, hgip, restack]
      split_ifs with hpush
      · rw [List.replicate_succ', List.append_assoc]
        rfl
      · rfl
    · obtain ⟨st, e', hwalk', hst'⟩ := hrest.status
      rw [hwalk, List.replicate_succ, ihrun, hwalk', ← decode_of_tnt hgstate hwalk' hst']
      rfl

theorem ofNat_eq_zero_iff (n : ℕ) : UInt64.ofNat n = 0 ↔ 2 ^ 64 ∣ n := by
  rw [← UInt64.toNat_inj, UInt64.toNat_ofNat', Nat.dvd_iff_mod_eq_zero]
  rfl

/-- `intel_pt_walk_tnt` comes to an indirect branch, and `n` calls fail to fetch its TIP before one
succeeds. -/
theorem deferred_tip_retried (hcode : cfg.walkInsn = code.walkInsn)
    (hmalloc : ∀ n, cfg.malloc n = true) (hstate : d.pktState = .tnt)
    (hdefers : Defers cfg d insn b) (h : Attempts cfg d n f) {rd : Reader} {g : Decoder}
    (honce : { d with rd := rd }.walkTnt cfg = (.ok, g)) :
    f = (Decoder.conclude cfg (d.walkTnt cfg)).run (List.replicate n cfg) ∧
      (f.stack.contents = g.stack.contents ↔ n = 0 ∨ pushes insn = false) ∧
      (f.smp.totInsnCnt = g.smp.totInsnCnt ↔ 2 ^ 64 ∣ n) := by
  obtain ⟨htot, hstack, hrun⟩ := h.counts hcode hmalloc b hstate hdefers
  obtain ⟨hgstack, hgsmp, -⟩ := tntIndirect_kept ((hdefers.withRd rd).walkTnt hcode ▸ honce)
    (.inl rfl)
  refine ⟨hrun, ?_, ?_⟩
  · rw [hstack, hgstack]
    cases hpush : pushes insn <;> simp
  · rw [htot, hgsmp, ← ofNat_eq_zero_iff]
    simp

end

def callCode : Program where
  insnAt ip :=
    if ip = 0x1000 then some { op := .jcc, branch := .conditional, length := 6, rel := 0xffa }
    else if ip = 0x2000 then some { op := .call, branch := .indirect, length := 2 }
    else none
  regular ip insn h := by
    split_ifs at h <;> cases h <;> simp [RegularInsn]

def callConfig : Config := { walkInsn := callCode.walkInsn, branchEnable := true }

def callTrace (between : List TraceItem) : List TraceItem :=
  [.buffer { bytes := psbStr ++ [0xdd, 0, 0x10, 0, 0, 0, 0, 0, 0] ++ [0x02, 0x23] ++ [0x0e] }] ++
    between ++ [.buffer { bytes := [0x2d, 0, 0x30] }]

/-- The decoder in front of the call. -/
def beforeCall (between : List TraceItem) : Decoder :=
  (Decoder.new (callTrace between)).run [callConfig, callConfig]

/-- The same where the trace pauses in front of the TIP. -/
def pausedCall : Decoder := (beforeCall [.buffer { bytes := [] }]).startState

theorem eq_of_status {r : Status × Decoder} {st : Status} (h : r.1 = st) : r = (st, r.2) := h ▸ rfl

/-- One failing fetch is enough. -/
theorem deferred_tip_retried_once :
    ∃ b f g, ∃ rd : Reader, pausedCall.pktState = .tnt ∧
      Defers callConfig pausedCall { op := .call, branch := .indirect, length := 2 } b ∧
      Attempts callConfig pausedCall 1 f ∧
      { pausedCall with rd := rd }.walkTnt callConfig = (.ok, g) ∧
      f.stack.contents ≠ g.stack.contents ∧ f.smp.totInsnCnt ≠ g.smp.totInsnCnt := by
  have hstate : pausedCall.pktState = .tnt := by decide +kernel
  have hdefers : Defers callConfig pausedCall { op := .call, branch := .indirect, length := 2 }
      (pausedCall.walkInsn callConfig 0).2.2 :=
    ⟨_, .refl, Prod.ext (by decide +kernel) (Prod.ext (by decide +kernel) rfl), by simp, rfl⟩
  have hattempts : Attempts callConfig pausedCall 1 _ :=
    .failed (eq_of_status (by decide +kernel)) (.inr rfl)
      (.fetched (eq_of_status (by decide +kernel)))
  have honce : { pausedCall with rd := (beforeCall []).rd }.walkTnt callConfig = (.ok, _) :=
    eq_of_status (by decide +kernel)
  obtain ⟨-, hstack, htot⟩ := deferred_tip_retried rfl (fun _ => rfl) hstate hdefers hattempts honce
  refine ⟨_, _, _, _, hstate, hdefers, hattempts, honce, ?_, ?_⟩
  · rw [ne_eq, hstack]
    decide
  · rw [ne_eq, htot]
    decide

/-- The call is pushed twice if the trace pauses in front of the TIP. -/
theorem deferred_tip_pushed_twice :
    let once := (beforeCall []).run [callConfig]
    let twice := (beforeCall [.buffer { bytes := [] }]).run [callConfig, callConfig]
    (once.st.toIp = 0x3000 ∧ twice.st.toIp = 0x3000) ∧
      once.stack.contents = [0x2002] ∧ twice.stack.contents = [0x2002, 0x2002] ∧
      once.smp.totInsnCnt = 2 ∧ twice.smp.totInsnCnt = 3 := by
  decide +kernel

end RPerf.Decode
