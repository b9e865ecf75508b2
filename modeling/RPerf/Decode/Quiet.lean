import RPerf.Decode.Sync

/-!
# Steps that leave the trace alone

Most of what the decoder does has no part in reading the trace, in expanding IPs or in
telling the time.
-/

namespace RPerf.Decode

open Lib Packets

/-- What the invariants of the decoder speak of. -/
structure Tracked where
  rd : Reader
  log : List Event
  lastIp : UInt64
  haveLastIp : Bool
  timestamp : UInt64
  refTimestamp : UInt64
  sampleTimestamp : UInt64
  cycleCnt : UInt64
  ctc : CtcCount

def Decoder.tracked (d : Decoder) : Tracked where
  rd := d.rd
  log := d.log
  lastIp := d.lastIp
  haveLastIp := d.haveLastIp
  timestamp := d.clk.timestamp
  refTimestamp := d.clk.refTimestamp
  sampleTimestamp := d.smp.sampleTimestamp
  cycleCnt := d.clk.cycleCnt
  ctc := d.clk.ctc

/-- The events that wait for the address in a FUP packet. -/
inductive FupKind
  | tx | ptw | mwait | exstop
  deriving DecidableEq, Repr

namespace FupKind

def pending : FupKind → Fup → Bool
  | .tx => Fup.setTxFlags
  | .ptw => Fup.setPtw
  | .mwait => Fup.setMwait
  | .exstop => Fup.setExstop

def shows : FupKind → SampleType → Bool
  | .tx => SampleType.transaction
  | .ptw => SampleType.ptw
  | .mwait => SampleType.mwaitOp
  | .exstop => SampleType.exStop

def ofPkt : PktType → Option FupKind
  | .modeTsx => some .tx
  | .ptwrite | .ptwriteIp => some .ptw
  | .mwait => some .mwait
  | .exstop | .exstopIp => some .exstop
  | _ => none

end FupKind

/-- A step that leaves all of it alone. -/
structure Quiet (k : Option FupKind) (d e : Decoder) : Prop where
  tracked : e.tracked = d.tracked
  noPsb : e.pktState = .noPsb → d.pktState = .noPsb
  pending : ∀ ev, k = some ev → ev.pending e.fup = true → ev.pending d.fup = true
  shows : ∀ ev, k = some ev → ev.shows e.st.type = true →
    ev.shows d.st.type = true ∨ ev.pending d.fup = true

namespace Quiet

variable {k : Option FupKind} {d e f : Decoder}

theorem refl (d : Decoder) : Quiet k d d := ⟨rfl, id, fun _ _ h => h, fun _ _ h => .inl h⟩

theorem trans (h : Quiet k d e) (h' : Quiet k e f) : Quiet k d f where
  tracked := h'.tracked.trans h.tracked
  noPsb := fun hf => h.noPsb (h'.noPsb hf)
  pending := fun ev hk hf => h.pending ev hk (h'.pending ev hk hf)
  shows := by
    intro ev hk hf
    rcases h'.shows ev hk hf with he | he
    · exact h.shows ev hk he
    · exact .inr (h.pending ev hk he)

theorem same (ht : e.tracked = d.tracked) (hs : e.pktState = d.pktState) (hf : e.fup = d.fup)
    (hty : e.st.type = d.st.type) : Quiet k d e where
  tracked := ht
  noPsb := hs ▸ id
  pending := fun _ _ h => hf ▸ h
  shows := fun _ _ h => .inl (hty ▸ h)

theorem moved (ht : e.tracked = d.tracked) (hs : e.pktState ≠ .noPsb) (hf : e.fup = d.fup)
    (hty : e.st.type = d.st.type) : Quiet k d e where
  tracked := ht
  noPsb := fun h => absurd h hs
  pending := fun _ _ h => hf ▸ h
  shows := fun _ _ h => .inl (hty ▸ h)

theorem retyped (ht : e.tracked = d.tracked) (hs : e.pktState = d.pktState) (hf : e.fup = d.fup)
    (hty : ∀ ev : FupKind, ev.shows e.st.type = false) : Quiet k d e where
  tracked := ht
  noPsb := hs ▸ id
  pending := fun _ _ h => hf ▸ h
  shows := fun ev _ h => absurd h (by simp [hty ev])

theorem settled (ht : e.tracked = d.tracked) (hs : e.pktState ≠ .noPsb) (hf : e.fup = d.fup)
    (hty : ∀ ev : FupKind, ev.shows e.st.type = false) : Quiet k d e where
  tracked := ht
  noPsb := fun h => absurd h hs
  pending := fun _ _ h => hf ▸ h
  shows := fun ev _ h => absurd h (by simp [hty ev])

theorem marks (ht : e.tracked = d.tracked) (hs : e.pktState = d.pktState)
    (hf : ∀ ev, k = some ev → ev.pending e.fup = true → ev.pending d.fup = true)
    (hty : e.st.type = d.st.type) : Quiet k d e where
  tracked := ht
  noPsb := hs ▸ id
  pending := hf
  shows := fun _ _ h => .inl (hty ▸ h)

theorem rd (h : Quiet k d e) : e.rd = d.rd := congrArg Tracked.rd h.tracked

theorem log (h : Quiet k d e) : e.log = d.log := congrArg Tracked.log h.tracked

theorem lastIp (h : Quiet k d e) : e.lastIp = d.lastIp := congrArg Tracked.lastIp h.tracked

theorem ctc (h : Quiet k d e) : e.clk.ctc = d.clk.ctc := congrArg Tracked.ctc h.tracked

theorem haveLastIp (h : Quiet k d e) : e.haveLastIp = d.haveLastIp :=
  congrArg Tracked.haveLastIp h.tracked

theorem timestamp (h : Quiet k d e) : e.clk.timestamp = d.clk.timestamp :=
  congrArg Tracked.timestamp h.tracked

theorem sampleTimestamp (h : Quiet k d e) : e.smp.sampleTimestamp = d.smp.sampleTimestamp :=
  congrArg Tracked.sampleTimestamp h.tracked

theorem cycleCnt (h : Quiet k d e) : e.clk.cycleCnt = d.clk.cycleCnt :=
  congrArg Tracked.cycleCnt h.tracked

end Quiet

theorem tracked_of_smp {d e : Decoder} (h : { e with smp := d.smp }.tracked = d.tracked)
    (hs : e.smp.sampleTimestamp = d.smp.sampleTimestamp) : e.tracked = d.tracked := by
  simp only [Decoder.tracked, Tracked.mk.injEq] at h ⊢
  tauto

namespace Decoder

variable {k : Option FupKind} (d : Decoder)

theorem progressed_quiet (insn : Insn) : Quiet k d (d.progressed insn) :=
  .same rfl rfl rfl rfl

variable (cfg : Config) (insn : Insn)

theorem callOrRet_quiet : Quiet k d (d.callOrRet cfg insn).2 := by
  unfold callOrRet
  split_ifs
  · split <;> exact .same rfl rfl rfl rfl
  all_goals exact .same rfl rfl rfl rfl

theorem unconditional_quiet : Quiet k d (d.unconditional insn).2.2 := by
  simp only [unconditional]
  split_ifs
  · exact .moved rfl nofun rfl rfl
  · exact .same rfl rfl rfl rfl

theorem arrive_quiet : Quiet k d (d.arrive cfg insn).2.2 := by
  have hcall : Quiet k d (d.callOrRet cfg insn).2 := d.callOrRet_quiet cfg insn
  by_cases h : insn.branch = .noBranch
  · simp only [arrive, h, if_true]
    exact .retyped rfl rfl rfl fun ev => by cases ev <;> rfl
  · simp only [arrive, h, if_false]
    rcases heq : d.callOrRet cfg insn with ⟨_ | _, d'⟩ <;> rw [heq] at hcall
    · exact hcall.trans (d'.progressed_quiet insn)
    · by_cases hu : insn.branch = .unconditional
      · simp only [hu, if_true]
        exact hcall.trans (d'.unconditional_quiet insn)
      · simp only [hu, if_false]
        exact hcall.trans (d'.progressed_quiet insn)

theorem nextSample_sampleTimestamp (s : Sampling) (cfg : Config) (now : UInt64) :
    (s.nextSample cfg now).2.sampleTimestamp = s.sampleTimestamp := by
  unfold Sampling.nextSample
  split
  · rfl
  · simp only [Sampling.nextPeriod]
    split_ifs <;> rfl
  all_goals rfl

theorem sampleInsn_quiet : Quiet k d (d.sampleInsn cfg) where
  tracked := by
    refine tracked_of_smp rfl ?_
    simp only [sampleInsn, Sampling.sample]
    split <;> rfl
  noPsb := id
  pending := fun _ _ h => h
  shows := fun ev _ h => .inl (by cases ev <;> exact h)

theorem walkInsn_quiet (ip : UInt64) : Quiet k d (d.walkInsn cfg ip).2.2 := by
  have hsmp := nextSample_sampleTimestamp { d.smp with mtcInsn := true } cfg
    (d.clk.timestamp + d.clk.timestampInsnCnt)
  simp only [walkInsn]
  generalize { d.smp with mtcInsn := true }.nextSample cfg
    (d.clk.timestamp + d.clk.timestampInsnCnt) = s at hsmp ⊢
  generalize cfg.walkInsn d.ip ip s.1 = w
  have hw : Quiet k d (d.walked s.2 w) := .same (tracked_of_smp rfl hsmp) rfl rfl rfl
  split
  · exact hw.trans (.moved rfl nofun rfl rfl)
  · split_ifs
    · exact hw.trans (progressed_quiet _ _)
    · exact hw.trans ((sampleInsn_quiet _ _).trans (arrive_quiet _ _ _))
    · exact hw.trans (arrive_quiet _ _ _)

theorem arrive_ok {d d' : Decoder} {cfg : Config} {insn insn' : Insn}
    (h : d.arrive cfg insn = (.ok, insn', d')) :
    insn'.branch = .indirect ∨ insn'.branch = .conditional := by
  unfold arrive at h
  by_cases hn : insn.branch = .noBranch
  · rw [if_pos hn] at h
    cases h
  · rw [if_neg hn] at h
    split at h
    · cases h
    · split_ifs at h with hu
      · simp only [unconditional] at h
        split_ifs at h <;> cases h
      · cases h
        cases hb : insn.branch <;> simp_all

theorem walkInsn_ok {d d' : Decoder} {cfg : Config} {ip : UInt64} {insn : Insn}
    (h : d.walkInsn cfg ip = (.ok, insn, d')) :
    insn.branch = .indirect ∨ insn.branch = .conditional := by
  simp only [walkInsn] at h
  split at h
  · simp only [Prod.mk.injEq] at h
    split_ifs at h <;> cases h.1
  · split_ifs at h
    · cases h
    · exact arrive_ok h
    · exact arrive_ok h

theorem mwaitEvent_quiet {d : Decoder} (h : d.fup.setMwait = true) : Quiet k d d.mwaitEvent where
  tracked := rfl
  noPsb := id
  pending := by
    intro ev _ hp
    cases ev <;> first | exact hp | cases hp
  shows := by
    intro ev _ hs
    cases ev <;> first | exact .inr h | cases hs

theorem pwreEvent_quiet : Quiet k d d.pwreEvent where
  tracked := rfl
  noPsb := id
  pending := fun ev _ hp => by cases ev <;> exact hp
  shows := fun ev _ hs => .inl (by cases ev <;> exact hs)

theorem exstopEvent_quiet {d : Decoder} (h : d.fup.setExstop = true) : Quiet k d d.exstopEvent where
  tracked := rfl
  noPsb := id
  pending := by
    intro ev _ hp
    cases ev <;> first | exact hp | cases hp
  shows := by
    intro ev _ hs
    cases ev
    case exstop => exact .inr h
    all_goals exact .inl hs

theorem fupEvent_quiet : Quiet k d d.fupEvent.2 := by
  unfold fupEvent
  by_cases htx : d.fup.setTxFlags = true
  · rw [if_pos htx]
    refine ⟨rfl, id, fun ev _ hp => ?_, fun ev _ hs => ?_⟩
    · cases ev <;> first | exact hp | cases hp
    · cases ev <;> first | exact .inr htx | cases hs
  rw [if_neg htx]
  by_cases hptw : d.fup.setPtw = true
  · rw [if_pos hptw]
    refine ⟨rfl, id, fun ev _ hp => ?_, fun ev _ hs => ?_⟩
    · cases ev <;> first | exact hp | cases hp
    · cases ev <;> first | exact .inr hptw | cases hs
  rw [if_neg hptw]
  have hmwait : Quiet k d (if d.fup.setMwait then d.mwaitEvent else d) := by
    split_ifs with h
    · exact mwaitEvent_quiet h
    · exact .refl d
  generalize (if d.fup.setMwait then d.mwaitEvent else d) = d₁ at hmwait
  have hpwre : Quiet k d (if d₁.fup.setPwre then d₁.pwreEvent else d₁) := by
    split_ifs with h
    · exact hmwait.trans d₁.pwreEvent_quiet
    · exact hmwait
  simp only
  generalize (if d₁.fup.setPwre then d₁.pwreEvent else d₁) = d₂ at hpwre
  split_ifs with h
  · exact hpwre.trans (exstopEvent_quiet h)
  · exact hpwre

theorem dropTx_quiet : Quiet k d { d with fup.setTxFlags := false } where
  tracked := rfl
  noPsb := id
  pending := by
    intro ev _ hp
    cases ev <;> first | exact hp | cases hp
  shows := fun _ _ h => .inl h

theorem walkFup_quiet : Quiet k d (d.walkFup cfg).2 := by
  have hw : Quiet k d _ := d.walkInsn_quiet cfg d.lastIp
  unfold walkFup
  split <;> rename_i heq <;> rw [heq] at hw
  · exact hw
  · have hf := hw.trans (fupEvent_quiet _)
    split <;> rename_i heq' <;> rw [heq'] at hf <;> exact hf
  · exact hw.trans ((dropTx_quiet _).trans (.moved rfl nofun rfl rfl))
  · exact hw.trans (dropTx_quiet _)

theorem tipBranch_quiet : Quiet k d d.tipBranch := by
  simp only [tipBranch]
  split_ifs <;> exact .moved rfl nofun rfl rfl

theorem walkTip_quiet : Quiet k d (d.walkTip cfg).2 := by
  have hw : Quiet k d _ := d.walkInsn_quiet cfg 0
  unfold walkTip
  split <;> rename_i heq <;> rw [heq] at hw
  · split_ifs
    · exact hw.trans (.moved rfl nofun rfl rfl)
    · exact hw
  · simp only
    split_ifs with hi hc
    · exact hw.trans (tipBranch_quiet _)
    · exact hw.trans (.moved rfl nofun rfl rfl)
    · exact hw.trans (.moved rfl nofun rfl rfl)
    · rcases walkInsn_ok heq with hb | hb
      · exact absurd hb hi
      · exact absurd hb hc
  · exact hw

theorem useBit_quiet : Quiet k d d.useBit where
  tracked := rfl
  noPsb := by
    simp only [useBit]
    split_ifs
    · nofun
    · exact id
  pending := fun _ _ h => h
  shows := fun _ _ h => .inl h

theorem tntRet_quiet : Quiet k d (d.tntRet cfg).2 := by
  simp only [tntRet]
  split_ifs
  · exact .moved rfl nofun rfl rfl
  · exact .moved rfl nofun rfl rfl
  · exact d.useBit_quiet.trans (.same rfl rfl rfl rfl)
  · exact .moved rfl nofun rfl rfl

theorem tntConditional_quiet :
    (d.tntConditional insn).Satisfies (Quiet k d) fun r => Quiet k d r.2 := by
  have hused : Quiet k d d.useBit := d.useBit_quiet
  simp only [tntConditional]
  split_ifs
  · exact hused.trans (.same rfl rfl rfl rfl)
  · exact hused.trans (.retyped rfl rfl rfl fun ev => by cases ev <;> rfl)
  · exact hused.trans (.same rfl rfl rfl rfl)
  · exact hused.trans (.same rfl rfl rfl rfl)

theorem overflowed_quiet : Quiet k d.dropTma d.overflowed.2 :=
  .moved rfl nofun rfl rfl

theorem fupTipFlags_quiet : Quiet k d d.fupTipFlags := by
  unfold fupTipFlags
  split_ifs <;> exact .same rfl rfl rfl rfl

theorem calcCbr_quiet : Quiet k d (d.calcCbr cfg) := by
  simp only [calcCbr, Clock.calcCbr]
  split_ifs <;> exact .same rfl rfl rfl rfl

theorem mtcMark_quiet : Quiet k d { d with st.type.instruction := true } where
  tracked := rfl
  noPsb := id
  pending := fun _ _ h => h
  shows := fun ev _ h => .inl (by cases ev <;> exact h)

theorem psbBroken_quiet : Quiet k d.dropTma d.psbBroken.2 := by
  simp only [psbBroken]
  split_ifs <;> exact .moved rfl nofun rfl rfl

theorem clearFupEvents_quiet : Quiet k d d.clearFupEvents :=
  .marks rfl rfl (fun ev _ h => by cases ev <;> cases h) rfl

theorem fetched_status (w : Walker) (fr : Fetch × Reader) :
    (d.fetched w fr).1 ≠ .again ∧ (d.fetched w fr).1 ≠ .ret := by
  unfold fetched
  split <;> simp

end Decoder

end RPerf.Decode
