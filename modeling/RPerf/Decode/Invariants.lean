import RPerf.Decode.Quiet

/-!
# Invariants of the decoder

A property of the reader, the last IP, the time and the log is an invariant as soon as it
survives fetching a packet and the few ways of handling one.
-/

namespace RPerf.Decode

open Lib Packets

/-- The packets that carry an IP. -/
def IsIp (t : PktType) : Prop := t = .tip ∨ t = .tipPge ∨ t = .tipPgd ∨ t = .fup

instance (t : PktType) : Decidable (IsIp t) := inferInstanceAs (Decidable (_ ∨ _))

def Harmless (p : Pkt) : Prop := p.type ≠ .psb ∧ (IsIp p.type → p.count = 0)

def Ignores : Walker → PktType → Prop
  | .fupTip, t => t = .fup ∨ t = .psb
  | .psb, t => t = .tip ∨ t = .tipPge ∨ t = .tipPgd ∨ t = .psb
  | _, _ => False

def PassesOver (w : Walker) (t : PktType) : Prop := (t = .cyc → w = .psbend) ∧ t ≠ .mtc

theorem IsIp.passesOver {t : PktType} (h : IsIp t) (w : Walker) : PassesOver w t := by
  constructor
  · rintro rfl
    simp [IsIp] at h
  · rintro rfl
    simp [IsIp] at h

theorem Ignores.passesOver {w : Walker} {t : PktType} (h : Ignores w t) : PassesOver w t := by
  constructor
  · rintro rfl
    cases w <;> simp [Ignores] at h
  · rintro rfl
    cases w <;> simp [Ignores] at h

def losesTma (w : Walker) : PktType → Bool
  | .tsc | .tma | .ovf | .tracestop => true
  | .tnt => w = .psb ∨ w = .psbend
  | .tip | .tipPge | .tipPgd | .psb | .ptwrite | .ptwriteIp | .exstop | .exstopIp | .mwait
  | .pwre | .pwrx | .bad => w = .psbend
  | _ => false

def Trusting : Walker → Prop
  | .trace | .tnt | .psbend | .fupTip => True
  | _ => False

/-- The function that handles a timing packet. -/
inductive TimedBy : PktType → (Clock → Timing → Reader → Clock) → Prop
  | tsc : TimedBy .tsc Clock.calcTscTimestamp
  | tma : TimedBy .tma Clock.calcTma
  | mtc : TimedBy .mtc Clock.calcMtcTimestamp
  | cyc : TimedBy .cyc Clock.calcCycTimestamp

def Loud (P : Decoder → Prop) (d : Decoder) : Prop :=
  ∀ e : Decoder, e.tracked = d.tracked → e.pktState = d.pktState → P e

structure Handles (cfg : Config) (k : Option FupKind) (I : Decoder → Prop)
    (K : Walker → Decoder → Prop) : Prop where
  quiet : ∀ {d e}, I d → Quiet k d e → I e
  quietJ : ∀ {w d e}, K w d → Quiet k d e → K w e
  lose : ∀ {w d}, K w d → losesTma w d.rd.packet.type → w ≠ .tnt → K w d.dropTma
  drop : ∀ {w d}, K w d → Harmless d.rd.packet → PassesOver w d.rd.packet.type → I d
  ignore : ∀ {w d}, K w d → Ignores w d.rd.packet.type → I d
  unknown : ∀ {w d}, K w d → IsIp d.rd.packet.type → d.haveLastIp = false → I d
  expand : ∀ {w d}, K w d → IsIp d.rd.packet.type → d.rd.packet.count ≠ 0 →
    (Trusting w ∨ d.haveIp = true) → I d.setLastIp
  psb : ∀ {w d}, K w d → d.rd.packet.type = .psb → I { d with lastIp := 0, haveLastIp := true }
  time : ∀ {w d f}, K w d → TimedBy d.rd.packet.type f →
    (d.rd.packet.type = .cyc → w ≠ .psbend) → I (d.time cfg f)
  bug : ∀ {w d}, K w d → d.rd.packet.type = .bad → I d.bug.2
  event : ∀ {w d ev}, k = some ev → K w d → FupKind.ofPkt d.rd.packet.type = k → Loud I d

def Ends (I L : Decoder → Prop) (r : Status × Decoder) : Prop := I r.2 ∨ r.1 = .nolink ∧ L r.2

structure Closed (cfg : Config) (k : Option FupKind) (I : Decoder → Prop)
    (J : Walker → Decoder → Prop) (L : Decoder → Prop) : Prop extends Handles cfg k I J where
  fetch : ∀ {w d d'}, I d → d.getNextPacket w = (.ok, d') → J w d'
  fail : ∀ {w d r}, I d → d.getNextPacket w = r → r.1 ≠ .ok → Ends I L r
  putBack : ∀ {d}, J .tnt d → I { d with rd.pktStep := 0, log := .putBack :: d.log }
  mark : ∀ {d d' ev}, k = some ev → Loud I d → d.getNextPacket .trace = (.ok, d') →
    Loud (J .trace) d'

/-- The same when synchronising is included. -/
structure ClosedSync (cfg : Config) (k : Option FupKind) (I : Decoder → Prop)
    (J : Walker → Decoder → Prop) (L : Decoder → Prop) : Prop extends Closed cfg k I J L where
  forget : ∀ {d}, I d → I { d with haveLastIp := false, lastIp := 0 }
  scan : ∀ {d d'}, I d → d.haveLastIp = false → d.lastIp = 0 → d.scanForPsb = (.ok, d') →
    I d'.foundPsb
  scanFail : ∀ {d r}, I d → d.scanForPsb = r → r.1 ≠ .ok → Ends I L r

section

variable {cfg : Config} {k : Option FupKind} {I L : Decoder → Prop}
  {J K : Walker → Decoder → Prop}

variable {r : Status × Decoder}

theorem Ends.settled (h : Ends I L r) (hs : r.1 ≠ .nolink) : I r.2 :=
  h.resolve_right fun hl => hs hl.1

theorem Ends.of_imp (h : Ends I L r) (hl : ∀ d, L d → I d) : I r.2 :=
  h.elim id fun h => hl _ h.2

def Settles (I : Decoder → Prop) (J : Walker → Decoder → Prop) (L : Decoder → Prop) :
    Decoder.Turn → Prop
  | .stop r => Ends I L r
  | .next _ d => J .trace d ∨ J .psbend d ∧ d.rd.packet.type ≠ .cyc
  | .fetch _ d => I d

theorem Settles.ends (h : Settles I J L (.stop r)) : Ends I L r := h

namespace Handles

variable (h : Handles cfg k I K)

include h

variable {d e : Decoder} {w : Walker} {t : PktType}

theorem expandIp (hd : K w d) (hip : IsIp d.rd.packet.type) (hcount : d.rd.packet.count ≠ 0)
    (ht : Trusting w ∨ d.haveIp = true) : I d.setIp :=
  h.quiet (h.expand hd hip hcount ht) (.same rfl rfl rfl rfl)

theorem expandIf (hd : K w d) (hip : IsIp d.rd.packet.type) (hpsb : d.rd.packet.type ≠ .psb)
    (ht : Trusting w) : I (if d.rd.packet.count ≠ 0 then d.setLastIp else d) := by
  by_cases hc : d.rd.packet.count = 0
  · rw [if_neg (not_not.mpr hc)]
    exact h.drop hd ⟨hpsb, fun _ => hc⟩ (hip.passesOver w)
  · rw [if_pos hc]
    exact h.expand hd hip hc (.inl ht)

theorem settleIp (hd : K w d) (hq : Quiet k d e) (hip : IsIp d.rd.packet.type)
    (hpsb : d.rd.packet.type ≠ .psb) (ht : Trusting w) :
    I (if e.rd.packet.count ≠ 0 then e.setIp else e) := by
  have he := h.quietJ hd hq
  rw [← hq.rd] at hip hpsb
  by_cases hc : e.rd.packet.count = 0
  · rw [if_neg (not_not.mpr hc)]
    exact h.drop he ⟨hpsb, fun _ => hc⟩ (hip.passesOver w)
  · rw [if_pos hc]
    exact h.expandIp he hip hc (.inl ht)

theorem settleTarget (hd : K w d) (hq : Quiet k d e) (hip : IsIp d.rd.packet.type)
    (hpsb : d.rd.packet.type ≠ .psb) (ht : Trusting w) :
    (if e.rd.packet.count = 0 then Pass.leave (Status.ok, { e with st.toIp := 0 })
      else .leave (.ok, { e.setIp with st.toIp := e.setIp.ip })).Satisfies I fun r => I r.2 := by
  have hset := h.settleIp hd hq hip hpsb ht
  by_cases hc : e.rd.packet.count = 0
  · rw [if_neg (not_not.mpr hc)] at hset
    rw [if_pos hc]
    exact h.quiet hset (.same rfl rfl rfl rfl)
  · rw [if_pos hc] at hset
    rw [if_neg hc]
    exact h.quiet hset (.same rfl rfl rfl rfl)

theorem setIpIfKnown (hd : K w d) (hip : IsIp d.rd.packet.type) (hpsb : d.rd.packet.type ≠ .psb) :
    I d.setIpIfKnown := by
  unfold Decoder.setIpIfKnown
  by_cases hk : d.haveIp = true
  · rw [if_pos hk]
    have hc : d.rd.packet.count ≠ 0 := by
      simp only [Decoder.haveIp, decide_eq_true_eq] at hk
      exact hk.1
    exact h.expandIp hd hip hc (.inr hk)
  · rw [if_neg hk]
    by_cases hc : d.rd.packet.count = 0
    · exact h.drop hd ⟨hpsb, fun _ => hc⟩ (hip.passesOver w)
    · refine h.unknown hd hip ?_
      simp only [Decoder.haveIp, decide_eq_true_eq, not_and, not_or] at hk
      simpa using (hk hc).1

theorem atPsb (hd : K w d) (hpsb : d.rd.packet.type = .psb) : I d.atPsb :=
  h.quiet (h.psb hd hpsb) (.same rfl rfl rfl rfl)

theorem mtcSample (hd : K w d) (ht : d.rd.packet.type = .mtc) : I (d.mtcSample cfg) := by
  have htime : I (d.calcMtcTimestamp cfg) := h.time hd (ht ▸ .mtc) (by simp [ht])
  simp only [Decoder.mtcSample]
  split_ifs
  · exact h.quiet htime (Decoder.mtcMark_quiet _)
  · exact htime

theorem dropType (hd : K w d) (ht : d.rd.packet.type = t) (hpsb : t ≠ .psb) (hip : ¬ IsIp t)
    (hw : PassesOver w t) : I d :=
  h.drop hd ⟨ht ▸ hpsb, fun hip' => absurd (ht ▸ hip') hip⟩ (ht ▸ hw)

theorem plain (hd : K w d) (ht : d.rd.packet.type = t) (hq : Quiet k d e)
    (hpsb : t ≠ .psb := by decide) (hip : ¬ IsIp t := by decide)
    (hw : PassesOver w t := by simp [PassesOver]) : I e :=
  h.quiet (h.dropType hd ht hpsb hip hw) hq

theorem lost (hd : K w d) (ht : d.rd.packet.type = t) (hq : Quiet k d.dropTma e)
    (hlose : losesTma w t := by rfl) (htnt : w ≠ .tnt := by decide) (hpsb : t ≠ .psb := by decide)
    (hip : ¬ IsIp t := by decide) (hw : PassesOver w t := by simp [PassesOver]) : I e :=
  h.plain (d := d.dropTma) (h.lose hd (ht ▸ hlose) htnt) ht hq hpsb hip hw

theorem announce (ev : FupKind) (hd : K w d) (hI : I d)
    (hev : FupKind.ofPkt d.rd.packet.type = some ev) (ht : e.tracked = d.tracked)
    (hs : e.pktState = d.pktState) (hf : ∀ ev', ev' ≠ ev → ev'.pending e.fup = ev'.pending d.fup)
    (hty : ∀ ev', ev' ≠ ev → ev'.shows e.st.type = true → ev'.shows d.st.type = true) : I e := by
  by_cases hkind : k = some ev
  · exact h.event hkind hd (hev.trans hkind.symm) e ht hs
  · refine h.quiet hI ⟨ht, fun h => hs ▸ h, fun ev' hev' hp => ?_, fun ev' hev' hp => .inl ?_⟩
    · rw [← hf ev' fun heq => hkind (heq ▸ hev')]
      exact hp
    · exact hty ev' (fun heq => hkind (heq ▸ hev')) hp

theorem mtcPacket (hd : K w d) (ht : d.rd.packet.type = .mtc) (noTip : Bool) :
    Settles I J L (d.mtcPacket cfg noTip) := by
  have htime : I (d.calcMtcTimestamp cfg) := h.time hd (ht ▸ .mtc) (by simp [ht])
  simp only [Decoder.mtcPacket]
  split_ifs
  · exact htime
  · exact h.quiet htime (.same rfl rfl rfl rfl)
  · exact .inl (h.quiet htime (.retyped rfl rfl rfl fun ev => by cases ev <;> rfl))
  · exact htime

theorem cbrPacket (hd : I d) (noTip : Bool) : Settles I J L (d.cbrPacket cfg noTip) := by
  have hcbr := h.quiet hd (d.calcCbr_quiet cfg)
  simp only [Decoder.cbrPacket]
  split_ifs
  · exact .inl (h.quiet hcbr (.retyped rfl rfl rfl fun ev => by cases ev <;> rfl))
  · exact hcbr

theorem tipPacket (hd : K w d) (hip : IsIp d.rd.packet.type) (hpsb : d.rd.packet.type ≠ .psb)
    (hw : Trusting w) {s : PktState} (hs : s ≠ .noPsb) : Settles I J L (d.tipPacket cfg s) := by
  have hset := h.expandIf hd hip hpsb hw
  have hstate := h.quiet
    (e := { (if d.rd.packet.count ≠ 0 then d.setLastIp else d) with pktState := s }) hset
    (.moved rfl hs rfl rfl)
  exact .inl (h.quiet hstate (Decoder.walkTip_quiet _ cfg))

theorem tipPgePacket (hd : K w d) (ht : d.rd.packet.type = .tipPge) (hw : Trusting w)
    (noTip : Bool) :
    Settles I J L (d.tipPgePacket noTip) := by
  have hset := h.settleIp (e := { d with pge := true }) hd (.same rfl rfl rfl rfl)
    (by simp [ht, IsIp]) (by simp [ht]) hw
  unfold Decoder.tipPgePacket
  by_cases hc : d.rd.packet.count = 0
  · rw [if_neg (not_not.mpr hc)] at hset
    rw [if_pos hc]
    exact hset
  · rw [if_pos hc] at hset
    rw [if_neg hc]
    exact .inl (h.quiet hset (.same rfl rfl rfl rfl))

end Handles

namespace Closed

variable (h : Closed cfg k I J L)

include h

variable {d : Decoder} {w : Walker}

theorem walkInsn (hd : I d) (ip : UInt64) : I (d.walkInsn cfg ip).2.2 :=
  h.quiet hd (d.walkInsn_quiet cfg ip)

theorem packetLoop {handle : Decoder → Pass Decoder (Status × Decoder)}
    {Q : Status × Decoder → Prop} (hhandle : ∀ d, J w d → (handle d).Satisfies I Q)
    (hfail : ∀ r, r.1 ≠ .ok → r.1 ≠ .again → Ends I L r → Q r) (hd : I d) :
    Q (Decoder.packetLoop w handle d) := by
  refine loop_invariant (I := I) (Q := Q) ?_ ?_ _ _ hd
  · intro d hd
    unfold Decoder.fetchPass
    split
    · next d' heq => exact hhandle d' (h.fetch hd heq)
    · next s d' hne heq =>
      have hagain := ((d.note (.enter w d.rd)).fetched_status w d.rd.getNextPacket).1
      rw [← Decoder.getNextPacket, heq] at hagain
      exact hfail (s, d') hne hagain (h.fail hd heq hne)
  · exact fun d hd => hfail (.overrun, d) (by simp) (by simp) (.inl hd)

theorem walkPsbend (hd : I d) :
    ((d.walkPsbend cfg).1 = .again →
        J .psbend (d.walkPsbend cfg).2 ∧ (d.walkPsbend cfg).2.rd.packet.type ≠ .cyc) ∧
      ((d.walkPsbend cfg).1 ≠ .again → Ends I L (d.walkPsbend cfg)) := by
  refine h.packetLoop (Q := fun r =>
    (r.1 = .again → J .psbend r.2 ∧ r.2.rd.packet.type ≠ .cyc) ∧ (r.1 ≠ .again → Ends I L r))
    ?_ (fun r _ hs hd => ⟨fun hs' => absurd hs' hs, fun _ => hd⟩) hd
  intro d hd
  have settled : ∀ {s : Status} {d'}, s ≠ .again → I d' →
      (s = .again → J .psbend d' ∧ d'.rd.packet.type ≠ .cyc) ∧
        (s ≠ .again → Ends I L (s, d')) :=
    fun hs hi => ⟨fun hs' => absurd hs' hs, fun _ => .inl hi⟩
  cases ht : d.rd.packet.type <;> simp only [Decoder.psbendPacket, ht]
  case psbend => exact settled (s := .ok) (by decide) (h.plain hd ht (.refl d))
  case ovf => exact settled (s := .overflow) (by decide) (h.lost hd ht d.overflowed_quiet)
  case tsc => exact h.time hd (ht ▸ .tsc) (by simp [ht])
  case tma => exact h.time hd (ht ▸ .tma) (by simp [ht])
  case mtc => exact h.mtcSample hd ht
  case cbr => exact h.plain hd ht (d.calcCbr_quiet cfg)
  case fup =>
    exact h.expandIf (d := { d with pge := true }) (h.quietJ hd (.same rfl rfl rfl rfl))
      (.inr (.inr (.inr ht))) (by simp [ht]) trivial
  case modeExec | pip | modeTsx | cyc | vmcs | mnt | pad =>
    exact h.plain hd ht (.same rfl rfl rfl rfl)
  all_goals
    refine ⟨fun _ => ⟨h.lose hd (by simp [losesTma, ht]) (by decide), ?_⟩, fun hs => absurd rfl hs⟩
    simp [Decoder.dropTma, ht]

theorem packetLoop_ends {handle : Decoder → Pass Decoder (Status × Decoder)}
    (hhandle : ∀ d, J w d → (handle d).Satisfies I fun r => I r.2) (hd : I d) :
    Ends I L (Decoder.packetLoop w handle d) :=
  h.packetLoop (Q := Ends I L)
    (fun d hd => (hhandle d hd).mono (fun _ hi => hi) fun _ hi => .inl hi)
    (fun _ _ _ hr => hr) hd

theorem fupTipPacket (hd : J .fupTip d) : (d.fupTipPacket cfg).Satisfies I fun r => I r.2 := by
  have hquiet : Quiet k d d.resync.2 := .moved rfl nofun rfl rfl
  cases ht : d.rd.packet.type <;> simp only [Decoder.fupTipPacket, ht]
  case fup => exact h.quiet (h.ignore hd (.inl ht)) hquiet
  case psb => exact h.quiet (h.ignore hd (.inr ht)) hquiet
  case ovf => exact h.lost hd ht d.overflowed_quiet
  case tipPgd =>
    have hset := h.settleIp (e := { d with st := { d.st with fromIp := d.ip, toIp := 0 } }) hd
      (.same rfl rfl rfl rfl) (by simp [ht, IsIp]) (by simp [ht]) trivial
    exact h.quiet hset (.same rfl rfl rfl rfl)
  case tipPge =>
    exact h.settleTarget (e := { d with pge := true, st.fromIp := 0 }) hd (.same rfl rfl rfl rfl)
      (by simp [ht, IsIp]) (by simp [ht]) trivial
  case tip =>
    exact h.settleTarget (e := { d with st.fromIp := d.ip }) hd (.same rfl rfl rfl rfl)
      (by simp [ht, IsIp]) (by simp [ht]) trivial
  case mtc => exact h.mtcSample hd ht
  case cyc => exact h.time hd (ht ▸ .cyc) (by simp)
  case pip | modeExec | vmcs | mnt | pad =>
    exact h.plain hd ht (.same rfl rfl rfl rfl)
  all_goals exact h.plain hd ht hquiet

theorem walkFupTip (hd : I d) : Ends I L (d.walkFupTip cfg) :=
  h.packetLoop_ends (fun _ => h.fupTipPacket) (h.quiet hd d.fupTipFlags_quiet)

theorem tntIndirect (hd : I d) : Ends I L d.tntIndirect := by
  unfold Decoder.tntIndirect
  split
  · next d' heq =>
    have hJ := h.fetch hd heq
    simp only
    split_ifs with hc
    · exact .inl (h.quiet (h.putBack hJ) (.moved rfl nofun rfl rfl))
    · obtain ⟨ht, hcount⟩ := not_or.mp hc
      have hexp := h.expand hJ (.inl (not_not.mp ht)) hcount (.inl trivial)
      exact .inl (h.quiet hexp (.same rfl rfl rfl rfl))
  · next s d' hs heq => exact h.fail hd heq hs

theorem walkTnt (hd : I d) : Ends I L (d.walkTnt cfg) := by
  refine loop_invariant (I := I) (Q := Ends I L) ?_ (fun _ hd => .inl hd) _ _ hd
  intro d hd
  have hw := h.walkInsn hd 0
  unfold Decoder.walkTntPass
  split <;> rename_i heq <;> rw [heq] at hw
  · exact .inl hw
  · split_ifs with _ hi hc
    · exact .inl (h.quiet hw (Decoder.tntRet_quiet _ _))
    · exact h.tntIndirect hw
    · exact (Decoder.tntConditional_quiet _ _).mono (fun _ => h.quiet hw)
        fun _ hq => .inl (h.quiet hw hq)
    · rcases Decoder.walkInsn_ok heq with hb | hb
      · exact absurd hb hi
      · exact absurd hb hc
  · exact .inl hw

theorem tntPacket (hd : I d) (noTip : Bool) : Settles I J L (d.tntPacket cfg noTip) := by
  have hw := h.walkTnt (h.quiet (e := { d with tnt := d.rd.packet, pktState := .tnt }) hd
    (.moved rfl nofun rfl rfl))
  unfold Decoder.tntPacket
  split_ifs
  · exact hd
  · split
    · next heq =>
      rw [heq] at hw
      exact hw.settled (by simp)
    · exact hw

theorem fupPacket (hk : Handles cfg k I K) (hd : K w d) (ht : d.rd.packet.type = .fup)
    (hw : Trusting w) (noTip : Bool) : Settles I J L (d.fupPacket cfg noTip) := by
  unfold Decoder.fupPacket
  by_cases hc : d.rd.packet.count = 0
  · rw [if_pos hc]
    exact hk.drop hd ⟨by simp [ht], fun _ => hc⟩ (by simp [PassesOver, ht])
  rw [if_neg hc]
  have hset := hk.expand hd (.inr (.inr (.inr ht))) hc (.inl hw)
  by_cases hb : cfg.branchEnable = true
  · have hfup := h.quiet hset (d.setLastIp.walkFup_quiet cfg)
    rcases hr : d.setLastIp.walkFup cfg with ⟨s, d'⟩
    rw [hr] at hfup
    cases s <;> simp only [hb, not_true_eq_false, if_false, hr]
    case again =>
      split_ifs
      · exact hfup
      · exact h.walkFupTip hfup
    case ok => exact .inl (h.quiet hfup (.moved rfl (by split_ifs <;> nofun) rfl rfl))
    all_goals exact .inl hfup
  · have hip := h.quiet (e := { d.setLastIp with ip := d.setLastIp.lastIp }) hset
      (.same rfl rfl rfl rfl)
    have hev := h.quiet hip (Decoder.fupEvent_quiet _)
    rw [if_pos hb]
    split <;> rename_i heq <;> rw [heq] at hev
    · exact .inl hev
    · exact hev

theorem psbPacketInSync (hd : I d.atPsb) (noTip : Bool) :
    Settles I J L (d.psbPacketInSync cfg noTip) := by
  have hpsb := h.walkPsbend hd
  rcases hr : d.atPsb.walkPsbend cfg with ⟨s, d'⟩
  rw [hr] at hpsb
  cases s <;> simp only [Decoder.psbPacketInSync, hr]
  case again => exact .inr (hpsb.1 rfl)
  case ok => exact (hpsb.2 (by simp)).settled (by simp)
  all_goals exact hpsb.2 (by simp)

theorem marked (hk : Handles cfg k I K) {d' e : Decoder} {ev : FupKind} (hd : K w d) (hI : I d)
    (hev : FupKind.ofPkt d.rd.packet.type = some ev) (hget : d.getNextPacket .trace = (.ok, d'))
    (ht : e.tracked = d'.tracked) (hs : e.pktState = d'.pktState) (hty : e.st.type = d'.st.type)
    (hf : ∀ ev', ev' ≠ ev → ev'.pending e.fup = ev'.pending d'.fup) : J .trace e := by
  by_cases hkind : k = some ev
  · exact h.mark hkind (hk.event hkind hd (hev.trans hkind.symm)) hget e ht hs
  · refine h.quietJ (h.fetch hI hget) (.marks ht hs (fun ev' hev' hp => ?_) hty)
    rw [← hf ev' fun heq => hkind (heq ▸ hev')]
    exact hp

theorem modeTsxPacket (hk : Handles cfg k I K) (hd : K w d) (ht : d.rd.packet.type = .modeTsx)
    (hI : I d) (noTip : Bool) : Settles I J L (d.modeTsxPacket noTip) := by
  unfold Decoder.modeTsxPacket
  by_cases hpge : d.pge = true
  swap
  · rw [if_pos hpge]
    exact h.quiet hI (.same rfl rfl rfl rfl)
  · rw [if_neg (not_not.mpr hpge)]
    simp only
    split
    · next d' heq =>
      split_ifs
      · refine .inl (h.marked hk hd hI (by rw [ht]; rfl) heq rfl rfl rfl fun ev hev => ?_)
        cases ev <;> first | rfl | exact absurd rfl hev
      · exact .inl (h.quietJ (h.fetch hI heq) (.same rfl rfl rfl rfl))
    · next hne => exact h.fail hI rfl fun hs => hne _ (Prod.ext hs rfl)

theorem expectFup (hd : I d) (noTip : Bool) {mark : Decoder → Decoder}
    (hmark : ∀ d', d.getNextPacket .trace = (.ok, d') → J .trace (mark d')) :
    Settles I J L (d.expectFup noTip mark) := by
  simp only [Decoder.expectFup]
  split
  · next d' heq =>
    split_ifs
    · exact .inl (hmark d' heq)
    · exact .inl (h.fetch hd heq)
  · next hne => exact h.fail hd rfl fun hs => hne _ (Prod.ext hs rfl)

theorem tracePacket (hk : Handles cfg k I K) (hd : K w d) (hw : w = .trace ∨ w = .psbend)
    (hcyc : d.rd.packet.type = .cyc → w ≠ .psbend) (noTip : Bool) :
    Settles I J L (d.tracePacket cfg noTip) := by
  have htrust : Trusting w := by rcases hw with rfl | rfl <;> trivial
  have htnt : w ≠ .tnt := by rcases hw with rfl | rfl <;> decide
  cases ht : d.rd.packet.type <;> simp only [Decoder.tracePacket, ht]
  case tnt => exact h.tntPacket (hk.plain hd ht (.refl d)) noTip
  case tipPgd | tip => exact hk.tipPacket hd (by simp [ht, IsIp]) (by simp [ht]) htrust nofun
  case tipPge => exact hk.tipPgePacket hd ht htrust noTip
  case ovf => exact .inl (hk.lost hd ht d.overflowed_quiet rfl htnt)
  case fup => exact h.fupPacket hk hd ht htrust noTip
  case psb => exact h.psbPacketInSync (hk.atPsb hd ht) noTip
  case mtc => exact hk.mtcPacket hd ht noTip
  case tsc => exact hk.time hd (ht ▸ .tsc) (by simp [ht])
  case tma => exact hk.time hd (ht ▸ .tma) (by simp [ht])
  case cyc => exact hk.time hd (ht ▸ .cyc) hcyc
  case cbr => exact hk.cbrPacket (hk.plain hd ht (.refl d)) noTip
  case modeTsx => exact h.modeTsxPacket hk hd ht (hk.plain hd ht (.refl d)) noTip
  case ptwriteIp =>
    have hpay : K w { d with fup.ptwPayload := d.rd.packet.payload } :=
      hk.quietJ hd (.marks rfl rfl (fun ev _ hp => by cases ev <;> exact hp) rfl)
    have hI := hk.plain hpay ht (.refl _)
    refine h.expectFup hI noTip fun d' hget => ?_
    refine h.marked hk hpay hI (by rw [ht]; rfl) hget rfl rfl rfl fun ev hev => ?_
    cases ev <;> first | rfl | exact absurd rfl hev
  case exstopIp =>
    have hI := hk.plain hd ht (.refl d)
    refine h.expectFup hI noTip fun d' hget => ?_
    refine h.marked hk hd hI (by rw [ht]; rfl) hget rfl rfl rfl fun ev hev => ?_
    cases ev <;> first | rfl | exact absurd rfl hev
  case mwait =>
    refine hk.announce .mwait hd (hk.plain hd ht (.refl d)) (by rw [ht]; rfl) rfl rfl
      (fun ev hev => ?_) fun ev _ hs => hs
    cases ev <;> first | rfl | exact absurd rfl hev
  case ptwrite =>
    refine .inl (hk.announce .ptw hd (hk.plain hd ht (.refl d)) (by rw [ht]; rfl) rfl rfl
      (fun _ _ => rfl) fun ev hev hs => ?_)
    cases ev <;> first | exact absurd rfl hev | cases hs
  case exstop =>
    refine .inl (hk.announce .exstop hd (hk.plain hd ht (.refl d)) (by rw [ht]; rfl) rfl
      rfl (fun _ _ => rfl) fun ev hev hs => ?_)
    cases ev <;> first | exact absurd rfl hev | cases hs
  case pwre =>
    unfold Decoder.pwrePacket
    split_ifs
    · exact hk.plain hd ht (.marks rfl rfl (fun ev _ hp => by cases ev <;> exact hp) rfl)
    · exact .inl (hk.plain hd ht (.retyped rfl rfl rfl fun ev => by cases ev <;> rfl))
  case pwrx => exact .inl (hk.plain hd ht (.retyped rfl rfl rfl fun ev => by cases ev <;> rfl))
  case tracestop => exact hk.lost hd ht (.same rfl rfl rfl rfl) rfl htnt
  case bad => exact .inl (hk.bug hd ht)
  all_goals exact hk.plain hd ht (.same rfl rfl rfl rfl)

end Closed

theorem handles_rd {P Q : Reader → Prop} (hQP : ∀ r, Q r → P r) :
    Handles cfg none (fun d => P d.rd) fun _ d => Q d.rd where
  quiet hd hq := hq.rd ▸ hd
  quietJ hd hq := hq.rd ▸ hd
  lose hd _ _ := hd
  drop hd _ _ := hQP _ hd
  ignore hd _ := hQP _ hd
  unknown hd _ _ := hQP _ hd
  expand hd _ _ _ := hQP _ hd
  psb hd _ := hQP _ hd
  time hd _ _ := hQP _ hd
  bug hd _ := hQP _ hd
  event hk := nomatch hk

namespace Decoder

theorem fetched_rd (d : Decoder) (w : Walker) (fr : Fetch × Reader) :
    (d.fetched w fr).2.rd = fr.2 := by
  unfold fetched
  split <;> rfl

theorem fetched_ok {d d' : Decoder} {w : Walker} {fr : Fetch × Reader}
    (h : d.fetched w fr = (.ok, d')) :
    fr = (.ok, d'.rd) ∧
      d' = { d with
        rd := d'.rd, log := .packet w d'.rd.packet d.haveLastIp d.lastIp :: d.log } := by
  unfold fetched at h
  split at h <;> cases h
  exact ⟨rfl, rfl⟩

theorem getNextPacket_ok {d d' : Decoder} {w : Walker} (h : d.getNextPacket w = (.ok, d')) :
    d.rd.getNextPacket = (.ok, d'.rd) := (fetched_ok h).1

theorem getNextPacket_rd (d : Decoder) (w : Walker) :
    (d.getNextPacket w).2.rd = d.rd.getNextPacket.2 := fetched_rd _ _ _

end Decoder

theorem closed_unread (cfg : Config) (u : ℕ) :
    Closed cfg none (fun d => d.rd.unread ≤ u) (fun _ d => d.rd.unread < u ∧ d.rd.left ≤ u)
      fun _ => False where
  toHandles := handles_rd (P := fun r => r.unread ≤ u) (Q := fun r => r.unread < u ∧ r.left ≤ u)
    fun _ h => h.1.le
  fetch hd heq := by
    have hok := Decoder.getNextPacket_ok heq
    exact ⟨(Reader.getNextPacket_ok_unread hok).trans_le hd,
      (Reader.getNextPacket_ok_left hok).trans hd⟩
  fail {w d r} hd heq _ := by
    have hle := d.rd.getNextPacket_unread_le
    rw [← d.getNextPacket_rd w, heq] at hle
    exact .inl (hle.trans hd)
  putBack hd := hd.2
  mark hk := nomatch hk

theorem tracePass_unread (cfg : Config) (s : Bool × Decoder) :
    (Decoder.tracePass cfg s).Satisfies (fun s' => s'.2.rd.unread < s.2.rd.unread)
      fun r => r.2.rd.unread ≤ s.2.rd.unread := by
  have hclosed := closed_unread cfg s.2.rd.unread
  have hturn := hclosed.tracePacket (K := fun _ d => d.rd.unread ≤ s.2.rd.unread)
    (handles_rd (Q := fun r => r.unread ≤ s.2.rd.unread) fun _ h => h) (w := .trace) (d := s.2)
    le_rfl (.inl rfl) (by simp) s.1
  unfold Decoder.tracePass
  split <;> rename_i hp <;> rw [hp] at hturn
  · exact hturn.ends.of_imp fun _ => False.elim
  · exact hturn.elim (·.1) (·.1.1)
  · split
    · next heq => exact (hclosed.fetch hturn heq).1
    · next hne =>
      exact (hclosed.fail hturn rfl fun hs => hne _ (Prod.ext hs rfl)).of_imp fun _ => False.elim

theorem foundIp_satisfies {d : Decoder} (hd : I d) : d.foundIp.Satisfies I (Ends I L) := by
  unfold Decoder.foundIp
  split_ifs
  · exact .inl hd
  · exact hd

namespace Closed

variable (h : Closed cfg k I J L)

include h

theorem tracePass {s : Bool × Decoder}
    (hs : J .trace s.2 ∨ J .psbend s.2 ∧ s.2.rd.packet.type ≠ .cyc) :
    (Decoder.tracePass cfg s).Satisfies
      (fun s' => J .trace s'.2 ∨ J .psbend s'.2 ∧ s'.2.rd.packet.type ≠ .cyc) (Ends I L) := by
  have hturn : Settles I J L (s.2.tracePacket cfg s.1) := by
    obtain hJ | ⟨hJ, hcyc⟩ := hs
    · exact h.tracePacket h.toHandles hJ (.inl rfl) (by simp) s.1
    · exact h.tracePacket h.toHandles hJ (.inr rfl) (fun ht => absurd ht hcyc) s.1
  unfold Decoder.tracePass
  split <;> rename_i hp <;> rw [hp] at hturn
  · exact hturn
  · exact hturn
  · split
    · next heq => exact .inl (h.fetch hturn heq)
    · next hne => exact h.fail hturn rfl fun hs => hne _ (Prod.ext hs rfl)

variable {d : Decoder}

theorem traceLoop (hd : J .trace d) :
    Ends I L (loop (Decoder.tracePass cfg) (fun s => (.overrun, s.2)) (d.rd.unread + 1)
      (false, d)) := by
  refine loop_total
    (I := fun s : Bool × Decoder => J .trace s.2 ∨ J .psbend s.2 ∧ s.2.rd.packet.type ≠ .cyc)
    (Q := Ends I L) (fun s => s.2.rd.unread) ?_ _ _ (Nat.lt_succ_self _) (.inl hd)
  intro s hs
  have hpass := h.tracePass hs
  have hunread := tracePass_unread cfg s
  cases hp : Decoder.tracePass cfg s with
  | leave r =>
    rw [hp] at hpass
    exact hpass
  | again s' =>
    rw [hp] at hpass hunread
    exact ⟨hpass, hunread⟩

theorem walkTrace (hd : I d) : Ends I L (d.walkTrace cfg) := by
  unfold Decoder.walkTrace
  split
  · next heq => exact h.traceLoop (h.fetch hd heq)
  · next hne => exact h.fail hd rfl fun hs => hne _ (Prod.ext hs rfl)

theorem psbPacket (hd : J .psb d) : (d.psbPacket cfg).Satisfies I fun r => I r.2 := by
  cases ht : d.rd.packet.type <;> simp only [Decoder.psbPacket, ht]
  case tipPgd =>
    exact h.quiet (h.ignore hd (.inr (.inr (.inl ht)))) (.same rfl rfl rfl rfl)
  case tipPge => exact h.ignore hd (.inr (.inl ht))
  case tip => exact h.ignore hd (.inl ht)
  case psb => exact h.ignore hd (.inr (.inr (.inr ht)))
  case fup =>
    exact h.setIpIfKnown (d := { d with pge := true })
      (h.quietJ hd (.same rfl rfl rfl rfl)) (by simp [ht, IsIp]) (by simp [ht])
  case mtc => exact h.time hd (ht ▸ .mtc) (by simp [ht])
  case tsc => exact h.time hd (ht ▸ .tsc) (by simp [ht])
  case tma => exact h.time hd (ht ▸ .tma) (by simp [ht])
  case cyc => exact h.time hd (ht ▸ .cyc) (by simp)
  case cbr => exact h.plain hd ht (d.calcCbr_quiet cfg)
  case tracestop =>
    have hstop : Quiet k d.dropTma d.stopTracing.dropTma := .same rfl rfl rfl rfl
    exact h.lost hd ht (hstop.trans d.stopTracing.psbBroken_quiet)
  case tnt => exact h.lost hd ht d.psbBroken_quiet
  case bad => exact h.bug hd ht
  case ovf => exact h.lost hd ht d.overflowed_quiet
  all_goals exact h.plain hd ht (.same rfl rfl rfl rfl)

theorem walkPsb (hd : I d) : Ends I L (d.walkPsb cfg) :=
  h.packetLoop_ends (fun _ => h.psbPacket) hd

theorem toIpPacket (hd : J .toIp d) : (d.toIpPacket cfg).Satisfies I (Ends I L) := by
  cases ht : d.rd.packet.type <;> simp only [Decoder.toIpPacket, ht]
  case tipPgd =>
    exact foundIp_satisfies (h.setIpIfKnown
      (d := { d with smp.continuousPeriod := false, pge := false })
        (h.quietJ hd (.same rfl rfl rfl rfl)) (by simp [ht, IsIp]) (by simp [ht]))
  case tipPge | tip =>
    exact foundIp_satisfies (h.setIpIfKnown (d := { d with pge := true })
      (h.quietJ hd (.same rfl rfl rfl rfl)) (by simp [ht, IsIp]) (by simp [ht]))
  case fup => exact foundIp_satisfies (h.setIpIfKnown hd (by simp [ht, IsIp]) (by simp [ht]))
  case psb =>
    have hpsb := h.walkPsb (h.atPsb hd ht)
    unfold Decoder.toIpPsb
    split
    · next heq =>
      rw [heq] at hpsb
      have hset := hpsb.settled (by simp)
      split_ifs
      · exact .inl (h.quiet hset (.retyped rfl rfl rfl fun ev => by cases ev <;> rfl))
      · exact hset
    · exact hpsb
  case ovf => exact .inl (h.lost hd ht d.overflowed_quiet)
  case tracestop => exact h.lost hd ht (.same rfl rfl rfl rfl)
  case bad => exact .inl (h.bug hd ht)
  case mtc => exact h.time hd (ht ▸ .mtc) (by simp [ht])
  case tsc => exact h.time hd (ht ▸ .tsc) (by simp [ht])
  case tma => exact h.time hd (ht ▸ .tma) (by simp [ht])
  case cyc => exact h.time hd (ht ▸ .cyc) (by simp)
  case cbr => exact h.plain hd ht (d.calcCbr_quiet cfg)
  all_goals exact h.plain hd ht (.same rfl rfl rfl rfl)

theorem walkToIp (hd : I d) : Ends I L (d.walkToIp cfg) :=
  h.packetLoop (fun _ => h.toIpPacket) (fun _ _ _ hr => hr) hd

theorem syncIp (hd : I d) : Ends I L (d.syncIp cfg) := by
  have hclear := h.quiet (e := d.clearFupEvents) hd d.clearFupEvents_quiet
  have hwalk := h.walkToIp hclear
  unfold Decoder.syncIp
  by_cases hb : cfg.branchEnable = true
  · rw [if_neg (not_not.mpr hb)]
    split
    · next heq =>
      rw [heq] at hwalk
      exact .inl (h.quiet (hwalk.settled (by simp)) (.moved rfl nofun rfl rfl))
    · exact hwalk
  · rw [if_pos hb]
    exact .inl (h.quiet hclear (.settled rfl nofun rfl fun ev => by cases ev <;> rfl))

end Closed

namespace ClosedSync

variable (h : ClosedSync cfg k I J L)

include h

theorem sync {d : Decoder} (hd : I d) : Ends I L (d.sync cfg) := by
  have hforget := h.quiet (e := d.startOver) (h.forget hd) (.same rfl rfl rfl rfl)
  unfold Decoder.sync
  split
  · next d' heq =>
    have hscan := h.scan hforget rfl rfl heq
    have hpsb := h.walkPsb hscan
    split
    · next heq' =>
      rw [heq'] at hpsb
      have hset := hpsb.settled (by simp)
      split_ifs
      · exact .inl (h.quiet hset (.settled rfl nofun rfl fun ev => by cases ev <;> rfl))
      · exact h.syncIp hset
    · exact hpsb
  · next hne => exact h.scanFail hforget rfl fun hs => hne _ (Prod.ext hs rfl)

theorem resume {d : Decoder} (hd : I d) : Ends I L (d.resume cfg) := by
  have hin := h.quiet (e := d.enterSync) hd (.moved rfl nofun rfl rfl)
  have hfup := h.quiet hin (d.enterSync.walkFup_quiet cfg)
  cases hs : d.pktState <;> simp only [Decoder.resume, hs]
  case noPsb => exact h.sync hd
  case noIp => exact h.syncIp (h.quiet (h.forget hd) (.same rfl rfl rfl rfl))
  case errResync => exact h.syncIp hd
  case inSync => exact h.walkTrace hd
  case tnt =>
    have htnt := h.walkTnt hd
    split
    · next heq =>
      rw [heq] at htnt
      exact h.walkTrace (htnt.settled (by simp))
    · exact htnt
  case tip | tipPgd => exact .inl (h.quiet hd (d.walkTip_quiet cfg))
  case fup =>
    rcases hr : d.enterSync.walkFup cfg with ⟨s, d'⟩
    rw [hr] at hfup
    cases s
    case again => exact h.walkFupTip hfup
    case ok => exact .inl (h.quiet hfup (.moved rfl nofun rfl rfl))
    all_goals exact .inl hfup
  case fupNoTip =>
    rcases hr : d.enterSync.walkFup cfg with ⟨s, d'⟩
    rw [hr] at hfup
    cases s
    case again => exact h.walkTrace hfup
    all_goals exact .inl hfup

theorem decodeLoop (hl : ∀ d, L d → I d) {d : Decoder} (hd : I d) (n : ℕ) :
    I (loop (Decoder.decodePass cfg) (fun d => (.overrun, d)) n d).2 := by
  refine loop_invariant (I := I) (Q := fun r : Status × Decoder => I r.2) ?_ (fun _ hd => hd) n d hd
  intro d hd
  have hres := (h.resume (h.quiet (e := d.startState) hd
    (.retyped rfl rfl rfl fun ev => by cases ev <;> rfl))).of_imp hl
  unfold Decoder.decodePass
  split
  · next heq =>
    rw [heq] at hres
    exact hres
  · exact hres

end ClosedSync

namespace Decoder

theorem conclude_log (cfg : Config) (r : Status × Decoder) :
    (conclude cfg r).log = .returned (conclude cfg r).st :: r.2.log := by
  simp only [conclude, note, seeCbr]
  split_ifs <;> rfl

theorem conclude_rd (cfg : Config) (r : Status × Decoder) : (conclude cfg r).rd = r.2.rd := by
  simp only [conclude, note, seeCbr]
  split_ifs <;> rfl

theorem conclude_kept (cfg : Config) (r : Status × Decoder) :
    (conclude cfg r).stack = r.2.stack ∧ (conclude cfg r).ip = r.2.ip ∧
      (conclude cfg r).pktState = r.2.pktState ∧
      (conclude cfg r).smp.totInsnCnt = r.2.smp.totInsnCnt := by
  simp only [conclude, note, seeCbr, sampleTime]
  split_ifs <;> exact ⟨rfl, rfl, rfl, rfl⟩

theorem run_invariant (cfgs : List Config)
    (hdecode : ∀ cfg ∈ cfgs, ∀ d, I d → I (d.decode cfg)) {d : Decoder} (hd : I d) :
    I (d.run cfgs) := by
  induction cfgs generalizing d with
  | nil => exact hd
  | cons cfg cfgs ih =>
    exact ih (fun cfg' hmem => hdecode cfg' (List.mem_cons_of_mem _ hmem))
      (hdecode cfg List.mem_cons_self d hd)

end Decoder

end

end RPerf.Decode
