import RPerf.Code.WalkBound
import RPerf.Decode.Invariants

/-!
# A sample every so many instructions

With a period of `p` instructions `intel_pt_walk_insn` lets the callback go on for what is
left of the period.
-/

namespace RPerf.Decode

open Lib Packets Code

/-- Whether the state is marked as a sample of an instruction, `period_insn_cnt` and `tot_insn_cnt`.
-/
structure Tally where
  sampled : Bool
  period : UInt64
  tot : UInt64

def Decoder.tally (d : Decoder) : Tally where
  sampled := d.st.type.instruction
  period := d.smp.periodInsnCnt
  tot := d.smp.totInsnCnt

/-- No sample is due. -/
structure Tally.Open (p b : UInt64) (t : Tally) : Prop where
  unsampled : t.sampled = false
  lt : t.period < p
  tot : t.tot = b + t.period

theorem Tally.Open.of_eq {p b : UInt64} {t t' : Tally} (h : t.Open p b) (ht : t' = t) :
    t'.Open p b := by
  rw [ht]
  exact h

def Tally.Due (p b : UInt64) (t : Tally) : Prop := t = ⟨true, 0, b + p⟩

def WalkOutcome (p b : UInt64) (lost : Prop) (r : Status × Decoder) : Prop :=
  r.2.tally.Open p b ∨ r.2.tally.Due p b ∧ r.1 ≠ .again ∧ (r.1 = .nolink → lost)

structure Config.Samples (cfg : Config) (p : UInt64) : Prop where
  type : cfg.periodType = .instructions
  period : cfg.period = p
  within : ∀ ip toIp max, max ≠ 0 → Within toIp max (cfg.walkInsn ip toIp max)

variable {cfg : Config} {p b : UInt64} {d : Decoder}

theorem Config.Samples.not_mtc (h : cfg.Samples p) : cfg.periodType ≠ .mtc := by
  rw [h.type]
  nofun

namespace WalkOutcome

variable {lost lost' : Prop} {r : Status × Decoder}

theorem mono (h : WalkOutcome p b lost r) (hl : lost → lost') : WalkOutcome p b lost' r :=
  h.imp_right fun h => ⟨h.1, h.2.1, fun hs => hl (h.2.2 hs)⟩

theorem of_again (h : WalkOutcome p b lost (.again, d)) : d.tally.Open p b :=
  h.resolve_right fun h => h.2.1 rfl

theorem settle {s : Status} {e : Decoder} (h : WalkOutcome p b lost r) (ht : e.tally = r.2.tally)
    (hs : s ≠ .again) (hs' : s ≠ .nolink) : WalkOutcome p b lost' (s, e) := by
  unfold WalkOutcome
  rw [ht]
  exact h.imp_right fun h => ⟨h.1, hs, fun hn => absurd hn hs'⟩

end WalkOutcome

def EndsPeriod (cfg : Config) (d : Decoder) (ip : UInt64) (insn : Insn) : Prop :=
  let left := cfg.period - d.smp.periodInsnCnt
  let w := cfg.walkInsn d.ip ip left
  w.err = none ∧ w.insn = insn ∧ w.insnCnt = left

namespace Decoder

variable (d : Decoder)

theorem callOrRet_tally (cfg : Config) (insn : Insn) :
    (d.callOrRet cfg insn).2.tally = d.tally := by
  unfold callOrRet
  split_ifs
  · split <;> rfl
  all_goals rfl

theorem unconditional_tally (insn : Insn) : (d.unconditional insn).2.2.tally = d.tally := by
  simp only [unconditional]
  split_ifs <;> rfl

theorem arrive_tally (cfg : Config) (insn : Insn)
    (h : insn.branch = .noBranch → d.tally.sampled = true) :
    (d.arrive cfg insn).2.2.tally = d.tally := by
  unfold arrive
  by_cases hn : insn.branch = .noBranch
  · rw [if_pos hn]
    show (⟨true, _, _⟩ : Tally) = d.tally
    rw [← h hn]
    rfl
  · rw [if_neg hn]
    have hcall := d.callOrRet_tally cfg insn
    split <;> rename_i heq <;> rw [heq] at hcall
    · exact hcall
    · split_ifs
      · exact (unconditional_tally _ _).trans hcall
      · exact hcall

theorem arrive_status (cfg : Config) (insn : Insn) :
    (d.arrive cfg insn).1 ≠ .again ∧ (d.arrive cfg insn).1 ≠ .nolink ∧
      (d.arrive cfg insn).2.1 = insn := by
  unfold arrive
  by_cases hn : insn.branch = .noBranch
  · rw [if_pos hn]
    exact ⟨by simp, by simp, rfl⟩
  · rw [if_neg hn]
    split
    · exact ⟨by simp, by simp, rfl⟩
    · split_ifs
      · simp only [unconditional]
        split_ifs <;> exact ⟨by simp, by simp, rfl⟩
      · exact ⟨by simp, by simp, rfl⟩

end Decoder

theorem Config.Samples.walkInsn (hcfg : cfg.Samples p) (hd : d.tally.Open p b) (ip : UInt64) :
    (d.walkInsn cfg ip).2.2.tally.Open p b ∨
      (d.walkInsn cfg ip).2.2.tally.Due p b ∧ (d.walkInsn cfg ip).1 ≠ .again ∧
        (d.walkInsn cfg ip).1 ≠ .nolink ∧ EndsPeriod cfg d ip (d.walkInsn cfg ip).2.1 := by
  have hlt : d.smp.periodInsnCnt < p := hd.lt
  have htot : d.smp.totInsnCnt = b + d.smp.periodInsnCnt := hd.tot
  have hleft : p - d.smp.periodInsnCnt ≠ 0 := by grind
  have hw := hcfg.within d.ip ip _ hleft
  unfold EndsPeriod
  simp only [Decoder.walkInsn, Sampling.nextSample, hcfg.type, hcfg.period]
  generalize cfg.walkInsn d.ip ip (p - d.smp.periodInsnCnt) = w at hw ⊢
  have hopen : w.insnCnt < p - d.smp.periodInsnCnt →
      (d.walked { d.smp with mtcInsn := true } w).tally.Open p b := by
    intro hcnt
    refine ⟨hd.unsampled, ?_, ?_⟩
    · show d.smp.periodInsnCnt + w.insnCnt < p
      grind
    · show d.smp.totInsnCnt + w.insnCnt = b + (d.smp.periodInsnCnt + w.insnCnt)
      grind
  split
  next err herr => exact .inl (hopen (hw.failed (by simp [herr])))
  next herr =>
  split_ifs with harr hdue
  · exact .inl (hopen (hw.arrived harr.1 harr.2))
  · have hcnt : w.insnCnt = p - d.smp.periodInsnCnt := UInt64.le_antisymm hw.le hdue.2
    obtain ⟨hs, hs', hinsn⟩ :=
      ((d.walked { d.smp with mtcInsn := true } w).sampleInsn cfg).arrive_status cfg w.insn
    refine .inr ⟨?_, hs, hs', herr, hinsn.symm, hcnt⟩
    rw [Tally.Due, Decoder.arrive_tally _ _ _ fun _ => rfl]
    simp only [Decoder.tally, Decoder.sampleInsn, Sampling.sample, hcfg.type]
    show (⟨true, 0, d.smp.totInsnCnt + w.insnCnt⟩ : Tally) = ⟨true, 0, b + p⟩
    rw [htot, hcnt]
    congr 1
    grind
  · have hcnt : w.insnCnt < p - d.smp.periodInsnCnt :=
      UInt64.not_le.mp fun hle => hdue ⟨hleft, hle⟩
    left
    rw [Decoder.arrive_tally _ _ _ fun hn => ?_]
    · exact hopen hcnt
    · exact absurd (hw.plain herr harr hn) (UInt64.ne_of_lt hcnt)

namespace Decoder

theorem fetched_tally (d : Decoder) (w : Walker) (fr : Fetch × Reader) :
    (d.fetched w fr).2.tally = d.tally := by
  unfold fetched
  split <;> rfl

theorem getNextPacket_tally (d : Decoder) (w : Walker) :
    (d.getNextPacket w).2.tally = d.tally := fetched_tally _ _ _

theorem retyped_tally {e : Decoder} (h : d.tally.sampled = false)
    (ht : e.st.type.instruction = false) (hs : e.smp = d.smp) : e.tally = d.tally := by
  unfold tally
  rw [ht, hs]
  exact congrArg (fun s => (⟨s, _, _⟩ : Tally)) h.symm

theorem fupEvent_tally (h : d.tally.sampled = false) : d.fupEvent.2.tally = d.tally := by
  unfold fupEvent
  by_cases htx : d.fup.setTxFlags = true
  · rw [if_pos htx]
    exact retyped_tally h rfl rfl
  rw [if_neg htx]
  by_cases hptw : d.fup.setPtw = true
  · rw [if_pos hptw]
    exact retyped_tally h rfl rfl
  rw [if_neg hptw]
  have hmwait : (if d.fup.setMwait then d.mwaitEvent else d).tally = d.tally := by
    split_ifs
    · exact retyped_tally h rfl rfl
    · rfl
  simp only
  generalize (if d.fup.setMwait then d.mwaitEvent else d) = d₁ at hmwait ⊢
  have hpwre : (if d₁.fup.setPwre then d₁.pwreEvent else d₁).tally = d₁.tally := by
    split_ifs <;> rfl
  generalize (if d₁.fup.setPwre then d₁.pwreEvent else d₁) = d₂ at hpwre ⊢
  have hexstop : (if d₂.fup.setExstop then d₂.exstopEvent else d₂).tally = d₂.tally := by
    split_ifs <;> rfl
  exact hexstop.trans (hpwre.trans hmwait)

theorem tipBranch_tally (d : Decoder) : d.tipBranch.tally = d.tally := by
  simp only [tipBranch]
  split_ifs <;> rfl

theorem nolink_of_fetched {w : Walker} {fr : Fetch × Reader} (h : (d.fetched w fr).1 = .nolink) :
    ∃ refTimestamp traceNr, fr.1 = .nolink refTimestamp traceNr := by
  unfold fetched at h
  split at h <;> first | exact ⟨_, _, rfl⟩ | cases h

end Decoder

def AtGap (rd : Reader) : Prop :=
  ∃ refTimestamp traceNr, rd.getNextPacket.1 = .nolink refTimestamp traceNr

def LosesSample (cfg : Config) (d : Decoder) : Prop :=
  AtGap d.rd ∧ ∃ insn, EndsPeriod cfg d 0 insn ∧ insn.branch = .indirect ∧ insn.op ≠ .ret

namespace Config.Samples

theorem outcome_walkInsn (hcfg : cfg.Samples p) (hd : d.tally.Open p b) (ip : UInt64) :
    WalkOutcome p b False ((d.walkInsn cfg ip).1, (d.walkInsn cfg ip).2.2) :=
  (hcfg.walkInsn hd ip).imp_right fun h => ⟨h.1, h.2.1, fun hn => h.2.2.1 hn⟩

theorem walkFup (hcfg : cfg.Samples p) (hd : d.tally.Open p b) :
    WalkOutcome p b False (d.walkFup cfg) := by
  have hwalk := hcfg.outcome_walkInsn hd d.lastIp
  unfold Decoder.walkFup
  split <;> rename_i heq <;> rw [heq] at hwalk
  · exact hwalk.settle rfl nofun nofun
  · next e =>
    have hopen := hwalk.of_again
    have hevent := Decoder.fupEvent_tally hopen.unsampled
    split <;> rename_i heq <;> rw [heq] at hevent <;> exact .inl (hevent ▸ hopen)
  · exact hwalk.settle rfl nofun nofun
  · exact hwalk

theorem walkTip (hcfg : cfg.Samples p) (hd : d.tally.Open p b) :
    WalkOutcome p b False (d.walkTip cfg) := by
  have hwalk := hcfg.outcome_walkInsn hd 0
  unfold Decoder.walkTip
  split <;> rename_i heq <;> rw [heq] at hwalk
  · split_ifs <;> exact hwalk.settle rfl nofun nofun
  · simp only
    split_ifs
    · exact hwalk.settle (Decoder.tipBranch_tally _) nofun nofun
    all_goals exact hwalk.settle rfl nofun nofun
  · exact hwalk

end Config.Samples

namespace WalkOutcome

variable {lost lost' : Prop} {s : Status}

theorem tntRet (h : WalkOutcome p b lost (s, d)) : WalkOutcome p b lost' (d.tntRet cfg) := by
  unfold Decoder.tntRet
  split_ifs <;> exact h.settle rfl nofun nofun

theorem tntIndirect (h : WalkOutcome p b lost (s, d))
    (hgap : d.tally.Due p b → AtGap d.rd → lost') : WalkOutcome p b lost' d.tntIndirect := by
  have htally := d.getNextPacket_tally .tnt
  unfold Decoder.tntIndirect
  split
  next e heq =>
    rw [heq] at htally
    split_ifs
    · exact h.settle htally nofun nofun
    · exact h.settle htally nofun nofun
  next heq =>
    rw [← heq]
    unfold WalkOutcome
    rw [htally]
    refine h.imp_right fun hdue => ⟨hdue.1, (Decoder.fetched_status _ _ _).1, fun hs => ?_⟩
    exact hgap hdue.1 (Decoder.nolink_of_fetched hs)

theorem tntConditional {insn : Insn} (h : WalkOutcome p b lost (s, d)) :
    (d.tntConditional insn).Satisfies (·.tally.Open p b) (WalkOutcome p b lost') := by
  simp only [Decoder.tntConditional]
  split_ifs with htaken hsampled hcount
  · exact h.settle rfl (by decide) (by decide)
  · refine h.settle ?_ (by decide) (by decide)
    exact congrArg (fun s => (⟨s, _, _⟩ : Tally)) hsampled.symm
  all_goals
    have hopen : d.tally.Open p b := by
      refine h.resolve_right fun hdue => hsampled ?_
      exact congrArg Tally.sampled hdue.1
  · exact .inl hopen
  · exact hopen

end WalkOutcome

namespace Config.Samples

theorem walkTntPass (hcfg : cfg.Samples p) (hd : d.tally.Open p b) :
    (Decoder.walkTntPass cfg d).Satisfies (·.tally.Open p b)
      (WalkOutcome p b (LosesSample cfg d)) := by
  have hwalk := hcfg.outcome_walkInsn hd 0
  have hspec := hcfg.walkInsn hd 0
  have hrd : (d.walkInsn cfg 0).2.2.rd = d.rd := (d.walkInsn_quiet (k := none) cfg 0).rd
  unfold Decoder.walkTntPass
  split <;> rename_i heq <;> rw [heq] at hwalk hspec hrd
  · exact hwalk.settle rfl nofun nofun
  · next insn e =>
    split_ifs with hret hind hcond
    · exact hwalk.tntRet
    · refine hwalk.tntIndirect fun hdue hgap => ?_
      obtain hopen | ⟨-, -, -, hends⟩ := hspec
      · exact absurd (hdue ▸ hopen).unsampled nofun
      · exact ⟨hrd ▸ hgap, insn, hends, hind, hret⟩
    · exact hwalk.tntConditional
    · exact hwalk.settle rfl nofun nofun
  · exact hwalk.mono False.elim

theorem walkTnt (hcfg : cfg.Samples p) (hd : d.tally.Open p b) :
    WalkOutcome p b (Meets (Decoder.walkTntPass cfg) (LosesSample cfg) d) (d.walkTnt cfg) := by
  refine loop_visited (I := (·.tally.Open p b)) ?_ (fun _ he => .inl he) _ hd
  intro e hv he
  exact (hcfg.walkTntPass he).mono (fun _ h => h) fun _ h => h.mono fun hl => ⟨e, hv, hl⟩

end Config.Samples

namespace Decoder

theorem packetLoop_tally {t : Tally} {w : Walker}
    {handle : Decoder → Pass Decoder (Status × Decoder)}
    (hh : ∀ e : Decoder, e.tally = t → (handle e).Satisfies (·.tally = t) (·.2.tally = t))
    (hd : d.tally = t) : (d.packetLoop w handle).2.tally = t := by
  refine loop_invariant (I := fun e : Decoder => e.tally = t)
    (Q := fun r : Status × Decoder => r.2.tally = t) ?_ (fun _ h => h) _ _ hd
  intro e he
  have hfetch := (e.getNextPacket_tally w).trans he
  unfold fetchPass
  split <;> rename_i heq <;> rw [heq] at hfetch
  · exact hh _ hfetch
  · exact hfetch

theorem mtcSample_tally (hcfg : cfg.periodType ≠ .mtc) : (d.mtcSample cfg).tally = d.tally := by
  simp only [mtcSample, if_neg hcfg]
  rfl

theorem walkPsbend_tally (hcfg : cfg.periodType ≠ .mtc) : (d.walkPsbend cfg).2.tally = d.tally := by
  refine packetLoop_tally (fun e he => ?_) rfl
  cases ht : e.rd.packet.type <;> simp only [psbendPacket, ht]
  case fup =>
    rw [Pass.satisfies_again]
    split_ifs <;> exact he
  case mtc => exact (mtcSample_tally hcfg).trans he
  all_goals exact he

theorem walkFupTip_tally (hcfg : cfg.periodType ≠ .mtc) : (d.walkFupTip cfg).2.tally = d.tally := by
  have hflags : d.fupTipFlags.tally = d.tally := by
    unfold fupTipFlags
    split_ifs <;> rfl
  refine packetLoop_tally (fun e he => ?_) hflags
  cases ht : e.rd.packet.type <;> simp only [fupTipPacket, ht]
  case tipPgd =>
    rw [Pass.satisfies_leave]
    split_ifs <;> exact he
  case tipPge | tip => split_ifs <;> exact he
  case mtc => exact (mtcSample_tally hcfg).trans he
  all_goals exact he

theorem walkPsb_tally (cfg : Config) : (d.walkPsb cfg).2.tally = d.tally := by
  refine packetLoop_tally (fun e he => ?_) rfl
  cases ht : e.rd.packet.type <;> simp only [psbPacket, ht]
  case fup =>
    rw [Pass.satisfies_again]
    unfold setIpIfKnown
    split_ifs <;> exact he
  all_goals exact he

theorem walkToIp_tally (cfg : Config) (h : d.tally.sampled = false) :
    (d.walkToIp cfg).2.tally = d.tally := by
  refine packetLoop_tally (fun e he => ?_) rfl
  have hfound : ∀ f : Decoder, f.tally = d.tally →
      f.setIpIfKnown.foundIp.Satisfies (·.tally = d.tally) (·.2.tally = d.tally) := by
    intro f hf
    unfold setIpIfKnown foundIp
    split_ifs <;> exact hf
  cases ht : e.rd.packet.type <;> simp only [toIpPacket, ht]
  case tipPgd | tipPge | tip | fup => exact hfound _ he
  case psb =>
    have hpsb := (e.atPsb.walkPsb_tally cfg).trans he
    unfold toIpPsb
    split
    next f heq =>
      rw [heq] at hpsb
      have hsampled : f.tally.sampled = false := (congrArg Tally.sampled hpsb).trans h
      split_ifs
      · refine (retyped_tally hsampled ?_ ?_).trans hpsb <;> rfl
      · exact hpsb
    · exact hpsb
  all_goals exact he

theorem syncIp_tally (h : d.tally.sampled = false) : (d.syncIp cfg).2.tally = d.tally := by
  have hwalk := walkToIp_tally (d := d.clearFupEvents) cfg h
  unfold syncIp
  by_cases hb : cfg.branchEnable = true
  · rw [if_neg (not_not.mpr hb)]
    split
    next heq =>
      rw [heq] at hwalk
      exact hwalk
    · exact hwalk
  · rw [if_pos hb]
    exact retyped_tally h rfl rfl

theorem sync_tally (h : d.tally.sampled = false) : (d.sync cfg).2.tally = d.tally := by
  have hscan : d.startOver.scanForPsb.2.tally = d.tally := fetched_tally _ _ _
  unfold sync
  split
  next e heq =>
    rw [heq] at hscan
    have hpsb := (e.foundPsb.walkPsb_tally cfg).trans hscan
    split
    next f heq =>
      rw [heq] at hpsb
      have hsampled : f.tally.sampled = false := (congrArg Tally.sampled hpsb).trans h
      split_ifs
      · refine (retyped_tally hsampled ?_ ?_).trans hpsb <;> rfl
      · exact (syncIp_tally hsampled).trans hpsb
    · exact hpsb
  · exact hscan

end Decoder

/-- The three functions that call `intel_pt_walk_insn`. -/
inductive Caller
  | tnt | tip | fup

/-- While a packet of the trace is handled, `intel_pt_walk_insn` is called in the state `f`. -/
inductive PacketCalls (cfg : Config) (d : Decoder) : Caller → Decoder → Prop
  | tnt {f} : d.rd.packet.type = .tnt → d.rd.packet.count ≠ 0 →
      Visits (Decoder.walkTntPass cfg) { d with tnt := d.rd.packet, pktState := .tnt } f →
      PacketCalls cfg d .tnt f
  | tip {pktState} :
      d.rd.packet.type = .tip ∧ pktState = .tip ∨ d.rd.packet.type = .tipPgd ∧ pktState = .tipPgd →
      PacketCalls cfg d .tip
        { (if d.rd.packet.count ≠ 0 then d.setLastIp else d) with pktState := pktState }
  | fup : d.rd.packet.type = .fup → d.rd.packet.count ≠ 0 → cfg.branchEnable = true →
      PacketCalls cfg d .fup d.setLastIp

/-- The same of `intel_pt_walk_trace`. -/
inductive TraceCalls (cfg : Config) (d : Decoder) : Caller → Decoder → Prop
  | packet {d' noTip e c f} : d.getNextPacket .trace = (.ok, d') →
      Visits (Decoder.tracePass cfg) (false, d') (noTip, e) → PacketCalls cfg e c f →
      TraceCalls cfg d c f

/-- The same of one pass of the loop in `intel_pt_decode`. -/
inductive ResumeCalls (cfg : Config) (d : Decoder) : Caller → Decoder → Prop
  | inSync {c f} : d.pktState = .inSync → TraceCalls cfg d c f → ResumeCalls cfg d c f
  | tnt {f} : d.pktState = .tnt → Visits (Decoder.walkTntPass cfg) d f → ResumeCalls cfg d .tnt f
  | afterTnt {e c f} : d.pktState = .tnt → d.walkTnt cfg = (.again, e) → TraceCalls cfg e c f →
      ResumeCalls cfg d c f
  | tip : d.pktState = .tip ∨ d.pktState = .tipPgd → ResumeCalls cfg d .tip d
  | fup : d.pktState = .fup ∨ d.pktState = .fupNoTip → ResumeCalls cfg d .fup d.enterSync
  | afterFup {e c f} : d.pktState = .fupNoTip → d.enterSync.walkFup cfg = (.again, e) →
      TraceCalls cfg e c f → ResumeCalls cfg d c f

/-- A call of `intel_pt_decode` calls `intel_pt_walk_insn` in the state `f`. -/
def DecodeCalls (cfg : Config) (d : Decoder) (c : Caller) (f : Decoder) : Prop :=
  ∃ e, Visits (Decoder.decodePass cfg) d e ∧ ResumeCalls cfg e.startState c f

def TurnOutcome (p b : UInt64) (lost : Prop) : Decoder.Turn → Prop
  | .stop r => WalkOutcome p b lost r
  | .next _ d | .fetch _ d => d.tally.Open p b

namespace Config.Samples

variable {lost : Prop}

theorem tntPacket (hcfg : cfg.Samples p) (hd : d.tally.Open p b)
    (ht : d.rd.packet.type = .tnt) (noTip : Bool) :
    TurnOutcome p b (∃ f, PacketCalls cfg d .tnt f ∧ LosesSample cfg f)
      (d.tntPacket cfg noTip) := by
  unfold Decoder.tntPacket
  split_ifs with hc
  · exact hd
  have hwalk := hcfg.walkTnt (d := { d with tnt := d.rd.packet, pktState := .tnt }) hd
  split
  next heq =>
    rw [heq] at hwalk
    exact hwalk.of_again
  · exact hwalk.mono fun ⟨f, hv, hl⟩ => ⟨f, .tnt ht hc hv, hl⟩

theorem tipPacket (hcfg : cfg.Samples p) (hd : d.tally.Open p b) (pktState : PktState) :
    TurnOutcome p b lost (d.tipPacket cfg pktState) := by
  have hset : { (if d.rd.packet.count ≠ 0 then d.setLastIp else d) with
      pktState := pktState }.tally.Open p b := by
    split_ifs <;> exact hd
  exact (hcfg.walkTip hset).mono False.elim

theorem fupPacket (hcfg : cfg.Samples p) (hd : d.tally.Open p b) (noTip : Bool) :
    TurnOutcome p b lost (d.fupPacket cfg noTip) := by
  simp only [Decoder.fupPacket]
  by_cases hc : d.rd.packet.count = 0
  · rw [if_pos hc]
    exact hd
  rw [if_neg hc]
  by_cases hb : cfg.branchEnable = true
  · rw [if_neg (not_not.mpr hb)]
    have hwalk := hcfg.walkFup (d := d.setLastIp) hd
    split
    next e heq =>
      rw [heq] at hwalk
      split_ifs
      · exact hwalk.of_again
      · exact .inl (hwalk.of_again.of_eq (Decoder.walkFupTip_tally hcfg.not_mtc))
    next heq =>
      rw [heq] at hwalk
      exact hwalk.settle rfl (by decide) (by decide)
    · exact hwalk.mono False.elim
  · rw [if_pos hb]
    have hevent := Decoder.fupEvent_tally (d := { d.setLastIp with ip := d.setLastIp.lastIp })
      hd.unsampled
    split <;> rename_i heq <;> rw [heq] at hevent
    · exact .inl (hd.of_eq hevent)
    · exact hd.of_eq hevent

theorem psbPacketInSync (hcfg : cfg.Samples p) (hd : d.tally.Open p b) (noTip : Bool) :
    TurnOutcome p b lost (d.psbPacketInSync cfg noTip) := by
  have hpsb := Decoder.walkPsbend_tally (d := d.atPsb) hcfg.not_mtc
  unfold Decoder.psbPacketInSync
  split
  next heq =>
    rw [heq] at hpsb
    exact hd.of_eq hpsb
  next heq =>
    rw [heq] at hpsb
    exact hd.of_eq hpsb
  · exact .inl (hd.of_eq hpsb)

theorem modeTsxPacket (hd : d.tally.Open p b) (noTip : Bool) :
    TurnOutcome p b lost (d.modeTsxPacket noTip) := by
  have hfetch := d.getNextPacket_tally .trace
  simp only [Decoder.modeTsxPacket]
  by_cases hpge : d.pge = true
  · rw [if_neg (not_not.mpr hpge)]
    split
    next heq =>
      rw [heq] at hfetch
      split_ifs
      · exact hd.of_eq hfetch
      · exact hd.of_eq hfetch
    · exact .inl (hd.of_eq hfetch)
  · rw [if_pos hpge]
    exact hd

theorem expectFup (hd : d.tally.Open p b) (noTip : Bool) {mark : Decoder → Decoder}
    (hmark : ∀ e : Decoder, (mark e).tally = e.tally) :
    TurnOutcome p b lost (d.expectFup noTip mark) := by
  have hfetch := d.getNextPacket_tally .trace
  unfold Decoder.expectFup
  split
  next e heq =>
    rw [heq] at hfetch
    split_ifs
    · exact hd.of_eq ((hmark e).trans hfetch)
    · exact hd.of_eq hfetch
  · exact .inl (hd.of_eq hfetch)

theorem tracePacket (hcfg : cfg.Samples p) (hd : d.tally.Open p b) (noTip : Bool) :
    TurnOutcome p b (∃ f, PacketCalls cfg d .tnt f ∧ LosesSample cfg f)
      (d.tracePacket cfg noTip) := by
  have hevent : ∀ e : Decoder, e.st.type.instruction = false → e.smp = d.smp →
      WalkOutcome p b (∃ f, PacketCalls cfg d .tnt f ∧ LosesSample cfg f) (.ok, e) :=
    fun e ht hs => .inl (hd.of_eq (Decoder.retyped_tally hd.unsampled ht hs))
  cases ht : d.rd.packet.type <;> simp only [Decoder.tracePacket, ht]
  case tnt => exact hcfg.tntPacket hd ht noTip
  case tip | tipPgd => exact hcfg.tipPacket hd _
  case fup => exact hcfg.fupPacket hd noTip
  case psb => exact hcfg.psbPacketInSync hd noTip
  case modeTsx => exact modeTsxPacket hd noTip
  case ptwriteIp =>
    unfold Decoder.ptwriteIpPacket
    refine expectFup ?_ noTip fun _ => rfl
    exact hd
  case exstopIp => exact expectFup hd noTip fun _ => rfl
  case tipPge =>
    simp only [Decoder.tipPgePacket]
    split_ifs
    · exact hd
    · exact .inl hd
  case mtc =>
    simp only [Decoder.mtcPacket, if_pos hcfg.not_mtc]
    exact hd
  case cbr =>
    simp only [Decoder.cbrPacket]
    split_ifs
    · exact hevent _ rfl rfl
    · exact hd
  case pwre =>
    simp only [Decoder.pwrePacket]
    split_ifs
    · exact hd
    · exact hevent _ rfl rfl
  case ptwrite | exstop | pwrx => exact hevent _ rfl rfl
  case ovf | bad => exact .inl hd
  all_goals exact hd

theorem tracePass (hcfg : cfg.Samples p) {s : Bool × Decoder} (hs : s.2.tally.Open p b) :
    (Decoder.tracePass cfg s).Satisfies (·.2.tally.Open p b)
      (WalkOutcome p b (∃ f, PacketCalls cfg s.2 .tnt f ∧ LosesSample cfg f)) := by
  have hturn := hcfg.tracePacket hs s.1
  unfold Decoder.tracePass
  split <;> rename_i heq <;> rw [heq] at hturn
  · exact hturn
  · exact hturn
  · next e =>
    have hfetch := hturn.of_eq (e.getNextPacket_tally .trace)
    split
    next heq =>
      rw [heq] at hfetch
      exact hfetch
    · exact .inl hfetch

theorem walkTrace (hcfg : cfg.Samples p) (hd : d.tally.Open p b) :
    WalkOutcome p b (∃ f, TraceCalls cfg d .tnt f ∧ LosesSample cfg f) (d.walkTrace cfg) := by
  have hfetch := hd.of_eq (d.getNextPacket_tally .trace)
  unfold Decoder.walkTrace
  split
  next d' heq =>
    rw [heq] at hfetch
    refine loop_visited (I := fun s : Bool × Decoder => s.2.tally.Open p b) ?_
      (fun _ hs => .inl hs) _ hfetch
    rintro ⟨noTip, e⟩ hv he
    exact (hcfg.tracePass he).mono (fun _ h => h) fun _ h =>
      h.mono fun ⟨f, hf, hl⟩ => ⟨f, .packet heq hv hf, hl⟩
  · exact .inl hfetch

theorem resume (hcfg : cfg.Samples p) (hd : d.tally.Open p b) :
    WalkOutcome p b (∃ f, ResumeCalls cfg d .tnt f ∧ LosesSample cfg f) (d.resume cfg) := by
  cases hs : d.pktState <;> simp only [Decoder.resume, hs]
  case noPsb => exact .inl (hd.of_eq (Decoder.sync_tally hd.unsampled))
  case noIp => exact .inl (hd.of_eq (Decoder.syncIp_tally (d := d.forgetIp) hd.unsampled))
  case errResync => exact .inl (hd.of_eq (Decoder.syncIp_tally hd.unsampled))
  case inSync => exact (hcfg.walkTrace hd).mono (.imp fun f h => ⟨.inSync hs h.1, h.2⟩)
  case tnt =>
    have hwalk := hcfg.walkTnt hd
    split
    next heq =>
      rw [heq] at hwalk
      exact (hcfg.walkTrace hwalk.of_again).mono (.imp fun f h => ⟨.afterTnt hs heq h.1, h.2⟩)
    · exact hwalk.mono (.imp fun f h => ⟨.tnt hs h.1, h.2⟩)
  case tip | tipPgd => exact (hcfg.walkTip hd).mono False.elim
  case fup =>
    have hwalk := hcfg.walkFup (d := d.enterSync) hd
    split
    next heq =>
      rw [heq] at hwalk
      exact .inl (hwalk.of_again.of_eq (Decoder.walkFupTip_tally hcfg.not_mtc))
    next heq =>
      rw [heq] at hwalk
      exact hwalk.settle rfl (by decide) (by decide)
    · exact hwalk.mono False.elim
  case fupNoTip =>
    have hwalk := hcfg.walkFup (d := d.enterSync) hd
    split
    next heq =>
      rw [heq] at hwalk
      exact (hcfg.walkTrace hwalk.of_again).mono (.imp fun f h => ⟨.afterFup hs heq h.1, h.2⟩)
    · exact hwalk.mono False.elim

end Config.Samples

end RPerf.Decode
