import RPerf.Packets.PutBack
import RPerf.Decode.Invariants

/-!
# Looking for an IP after an unexpected packet

`intel_pt_walk_fup_tip` gives up at a packet that cannot stand between a FUP and its TIP.
-/

namespace RPerf.Decode

open Lib Packets

def Mirrors (d e : Decoder) : Prop := ∃ log, e = { d with log := log }

def SameEnd (r s : Status × Decoder) : Prop := r.1 = s.1 ∧ Mirrors r.2 s.2

section

variable {cfg : Config} {d e : Decoder}

theorem Mirrors.same (d : Decoder) (log : List Event) : Mirrors d { d with log := log } :=
  ⟨log, rfl⟩

theorem Decoder.fetched_noent (d : Decoder) (w : Walker) (fr : Fetch × Reader) :
    (d.fetched w fr).1 ≠ .noent := by
  unfold Decoder.fetched
  split <;> simp

theorem fetched_sameEnd (d : Decoder) (rd : Reader) (log : List Event) (w : Walker)
    (fr : Fetch × Reader) :
    SameEnd (d.fetched w fr) ({ d with rd := rd, log := log }.fetched w fr) := by
  unfold Decoder.fetched
  split <;> exact ⟨rfl, _, rfl⟩

theorem fetchPass_related {w : Walker} {handle : Decoder → Pass Decoder (Status × Decoder)}
    (hhandle : ∀ d e, Mirrors d e → (handle d).Related Mirrors SameEnd (handle e))
    (d : Decoder) {rd : Reader} (log : List Event) (hrd : rd.getNextPacket = d.rd.getNextPacket) :
    (Decoder.fetchPass w handle d).Related Mirrors SameEnd
      (Decoder.fetchPass w handle { d with rd := rd, log := log }) := by
  have hsame : SameEnd (d.getNextPacket w) ({ d with rd := rd, log := log }.getNextPacket w) := by
    unfold Decoder.getNextPacket
    simp only [hrd]
    exact fetched_sameEnd _ rd _ w d.rd.getNextPacket
  unfold Decoder.fetchPass
  generalize d.getNextPacket w = r at hsame ⊢
  generalize { d with rd := rd, log := log }.getNextPacket w = s at hsame ⊢
  obtain ⟨st, d'⟩ := r
  obtain ⟨st', e'⟩ := s
  obtain ⟨rfl : st = st', hmirrors⟩ := hsame
  cases st
  case ok => exact hhandle d' e' hmirrors
  all_goals exact .leave ⟨rfl, hmirrors⟩

theorem packetLoop_sameEnd {w : Walker} {handle : Decoder → Pass Decoder (Status × Decoder)}
    (hhandle : ∀ d e, Mirrors d e → (handle d).Related Mirrors SameEnd (handle e))
    (h : Mirrors d e) : SameEnd (Decoder.packetLoop w handle d)
      (Decoder.packetLoop w handle e) := by
  obtain ⟨log, rfl⟩ := h
  apply loop_related (R := Mirrors) (Q := SameEnd) _ _ _ _ _ (.same d log)
  · rintro d _ ⟨log, rfl⟩
    exact fetchPass_related hhandle d log rfl
  · intro d e h
    exact ⟨rfl, h⟩

theorem Mirrors.setIpIfKnown (h : Mirrors d e) : Mirrors d.setIpIfKnown e.setIpIfKnown := by
  obtain ⟨log, rfl⟩ := h
  have hlog : { d with log := log }.haveIp = d.haveIp := rfl
  unfold Decoder.setIpIfKnown
  rw [hlog]
  split_ifs <;> exact ⟨log, rfl⟩

theorem Mirrors.foundIp (h : Mirrors d e) : d.foundIp.Related Mirrors SameEnd e.foundIp := by
  obtain ⟨log, rfl⟩ := h
  unfold Decoder.foundIp
  by_cases hip : d.ip ≠ 0
  · rw [if_pos hip, if_pos hip]
    exact .leave ⟨rfl, log, rfl⟩
  · rw [if_neg hip, if_neg hip]
    exact .again ⟨log, rfl⟩

theorem psbPacket_related (h : Mirrors d e) :
    (Decoder.psbPacket cfg d).Related Mirrors SameEnd (Decoder.psbPacket cfg e) := by
  obtain ⟨log, rfl⟩ := h
  cases ht : d.rd.packet.type <;> simp only [Decoder.psbPacket, ht]
  case fup => exact .again (Mirrors.setIpIfKnown ⟨log, rfl⟩)
  case tipPgd | tipPge | tip | ptwrite | ptwriteIp | exstop | exstopIp | mwait | pwre | pwrx
    | tracestop | tnt | bad | ovf | psbend => exact .leave ⟨rfl, log, rfl⟩
  all_goals exact .again ⟨_, rfl⟩

theorem walkPsb_sameEnd (h : Mirrors d e) : SameEnd (d.walkPsb cfg) (e.walkPsb cfg) :=
  packetLoop_sameEnd (fun _ _ => psbPacket_related) h

theorem toIpPacket_related (h : Mirrors d e) :
    (Decoder.toIpPacket cfg d).Related Mirrors SameEnd (Decoder.toIpPacket cfg e) := by
  obtain ⟨log, rfl⟩ := h
  cases ht : d.rd.packet.type <;> simp only [Decoder.toIpPacket, ht]
  case tipPgd | tipPge | tip | fup => exact (Mirrors.setIpIfKnown ⟨log, rfl⟩).foundIp
  case ovf | bad => exact .leave ⟨rfl, log, rfl⟩
  case psb =>
    have hpsb : SameEnd (d.atPsb.walkPsb cfg) ({ d with log := log }.atPsb.walkPsb cfg) :=
      walkPsb_sameEnd ⟨log, rfl⟩
    unfold Decoder.toIpPsb
    generalize d.atPsb.walkPsb cfg = r at hpsb ⊢
    generalize { d with log := log }.atPsb.walkPsb cfg = s at hpsb ⊢
    obtain ⟨st, d'⟩ := r
    obtain ⟨st', e'⟩ := s
    obtain ⟨rfl : st = st', log', rfl⟩ := hpsb
    cases st
    case ok =>
      simp only
      by_cases hip : d'.ip ≠ 0
      · rw [if_pos hip, if_pos hip]
        exact .leave ⟨rfl, log', rfl⟩
      · rw [if_neg hip, if_neg hip]
        exact .again ⟨log', rfl⟩
    all_goals exact .leave ⟨rfl, log', rfl⟩
  all_goals exact .again ⟨_, rfl⟩

theorem setIpIfKnown_rd (d : Decoder) : d.setIpIfKnown.rd = d.rd := by
  unfold Decoder.setIpIfKnown
  split_ifs <;> rfl

theorem foundIp_again {d : Decoder} (h : d.foundIp = .again e) : e = d := by
  unfold Decoder.foundIp at h
  split_ifs at h
  cases h
  rfl

theorem toIpPacket_unread (h : Decoder.toIpPacket cfg d = .again e) :
    e.rd.unread ≤ d.rd.unread := by
  cases ht : d.rd.packet.type <;> simp only [Decoder.toIpPacket, ht] at h
  case tipPgd | tipPge | tip | fup =>
    rw [foundIp_again h, setIpIfKnown_rd]
  case psb =>
    have hpsb := ((closed_unread cfg d.rd.unread).walkPsb (d := d.atPsb) le_rfl).of_imp
      fun _ => False.elim
    unfold Decoder.toIpPsb at h
    split at h
    · rename_i heq
      rw [heq] at hpsb
      split_ifs at h
      cases h
      exact hpsb
    · cases h
  case ovf | bad => cases h
  all_goals
    cases h
    exact le_rfl

theorem toIpPass_unread (cfg : Config) (d e : Decoder)
    (h : Decoder.fetchPass .toIp (Decoder.toIpPacket cfg) d = .again e) :
    e.rd.unread < d.rd.unread := by
  unfold Decoder.fetchPass at h
  split at h
  · rename_i d' heq
    have hfetch := Reader.getNextPacket_ok_unread (Decoder.getNextPacket_ok heq)
    have hpacket := toIpPacket_unread h
    omega
  · cases h

/-- The packets that the search for an IP passes over. -/
def Skipped : PktType → Bool
  | .tnt | .ptwrite | .ptwriteIp | .exstop | .exstopIp | .mwait | .pwre | .pwrx => true
  | _ => false

theorem toIpPacket_skipped (h : Skipped d.rd.packet.type = true) :
    Decoder.toIpPacket cfg d = .again d := by
  cases ht : d.rd.packet.type <;> simp only [ht, Skipped, Bool.false_eq_true] at h <;>
    simp only [Decoder.toIpPacket, ht]

theorem walkToIp_putBack (hat : d.rd.AtPacket) (h : Skipped d.rd.packet.type = true) :
    SameEnd (d.walkToIp cfg) ({ d with rd.pktStep := 0 }.walkToIp cfg) := by
  obtain ⟨hpos, hle⟩ := hat.pktStep_pos
  have hget : { d with rd.pktStep := 0 }.getNextPacket .toIp =
      (.ok, { d with
        rd.lastPacketType := d.rd.packet.type
        log := .packet .toIp d.rd.packet d.haveLastIp d.lastIp ::
          .enter .toIp { d.rd with pktStep := 0 } :: d.log }) := by
    unfold Decoder.getNextPacket
    simp only [hat.fetch_again]
    rfl
  set s : Decoder := { d with
    rd.lastPacketType := d.rd.packet.type
    log := .packet .toIp d.rd.packet d.haveLastIp d.lastIp ::
      .enter .toIp { d.rd with pktStep := 0 } :: d.log } with hs
  have hpass : Decoder.fetchPass .toIp (Decoder.toIpPacket cfg) { d with rd.pktStep := 0 } =
      .again s := by
    unfold Decoder.fetchPass
    rw [hget]
    exact toIpPacket_skipped h
  -- the second call has one more pass, and the bound of its loop allows for it
  have hunread : d.rd.unread < ({ d.rd with pktStep := 0 } : Reader).unread := by
    simp only [Reader.unread]
    omega
  have hwalk : { d with rd.pktStep := 0 }.walkToIp cfg =
      loop (Decoder.fetchPass .toIp (Decoder.toIpPacket cfg)) (fun d => (.overrun, d))
        (d.rd.unread + 1) s := by
    unfold Decoder.walkToIp Decoder.packetLoop
    rw [loop_of_again _ hpass]
    exact loop_eq_of_lt (m := fun d : Decoder => d.rd.unread) (toIpPass_unread cfg) _ _ _
      hunread (Nat.lt_succ_self _)
  have hfirst : (Decoder.fetchPass .toIp (Decoder.toIpPacket cfg) d).Related Mirrors SameEnd
      (Decoder.fetchPass .toIp (Decoder.toIpPacket cfg) s) :=
    fetchPass_related (fun _ _ => toIpPacket_related) d _ rfl
  rw [hwalk]
  apply loop_related_of_pass (R := Mirrors) (Q := SameEnd) _ _ hfirst
  · rintro d _ ⟨log, rfl⟩
    exact fetchPass_related (fun _ _ => toIpPacket_related) d log rfl
  · exact fun _ _ hm => ⟨rfl, hm⟩

theorem syncIp_sameEnd (hb : cfg.branchEnable = true)
    (h : SameEnd (d.clearFupEvents.walkToIp cfg) (e.clearFupEvents.walkToIp cfg)) :
    SameEnd (d.syncIp cfg) (e.syncIp cfg) := by
  simp only [Decoder.syncIp, hb, not_true_eq_false, if_false]
  generalize d.clearFupEvents.walkToIp cfg = r at h ⊢
  generalize e.clearFupEvents.walkToIp cfg = s at h ⊢
  obtain ⟨st, d'⟩ := r
  obtain ⟨st', e'⟩ := s
  obtain ⟨rfl : st = st', log, rfl⟩ := h
  cases st <;> exact ⟨rfl, log, rfl⟩

def AsIfPutBack (cfg : Config) (d : Decoder) : Prop :=
  SameEnd (d.startState.resume cfg) ({ d with rd.pktStep := 0 }.startState.resume cfg)

theorem walkFupTip_noent (h : d.walkFupTip cfg = (.noent, e)) :
    e.rd.AtPacket ∧ e.pktState = .errResync := by
  have hloop : (d.walkFupTip cfg).1 = .noent →
      (d.walkFupTip cfg).2.rd.AtPacket ∧ (d.walkFupTip cfg).2.pktState = .errResync := by
    apply loop_invariant (I := fun _ => True) (Q := fun r : Status × Decoder =>
      r.1 = .noent → r.2.rd.AtPacket ∧ r.2.pktState = .errResync) _ _ _ _ trivial
    · intro d _
      unfold Decoder.fetchPass
      split
      · rename_i d' heq
        have hat := Reader.getNextPacket_atPacket (Decoder.getNextPacket_ok heq)
        cases ht : d'.rd.packet.type <;> simp only [Decoder.fupTipPacket, ht]
        case pip | mtc | cyc | modeExec | vmcs | mnt | pad => trivial
        case tipPgd | ovf =>
          intro h
          cases h
        case tipPge | tip => split_ifs <;> intro h <;> cases h
        all_goals exact fun _ => ⟨hat, rfl⟩
      · rename_i st d' hne heq
        have hstatus := (d.note (.enter .fupTip d.rd)).fetched_noent .fupTip d.rd.getNextPacket
        rw [← Decoder.getNextPacket, heq] at hstatus
        exact fun hnoent => absurd hnoent hstatus
    · intro d _ h
      cases h
  rw [h] at hloop
  exact hloop rfl

theorem asIfPutBack_of_skipped (hb : cfg.branchEnable = true) (h : d.walkFupTip cfg = (.noent, e))
    (ht : Skipped e.rd.packet.type = true) :
    AsIfPutBack cfg (Decoder.conclude cfg (.noent, e)) := by
  obtain ⟨hat, hstate⟩ := walkFupTip_noent h
  have hrd := Decoder.conclude_rd cfg (.noent, e)
  obtain ⟨-, -, hpkt, -⟩ := Decoder.conclude_kept cfg (.noent, e)
  set c := Decoder.conclude cfg (.noent, e)
  rw [← hrd] at hat ht
  have hwalk : SameEnd (c.startState.clearFupEvents.walkToIp cfg)
      ({ c with rd.pktStep := 0 }.startState.clearFupEvents.walkToIp cfg) :=
    walkToIp_putBack (d := c.startState.clearFupEvents) hat ht
  have hc : c.startState.pktState = .errResync := hpkt.trans hstate
  have hc' : { c with rd.pktStep := 0 }.startState.pktState = .errResync := hc
  simp only [AsIfPutBack, Decoder.resume, hc, hc']
  exact syncIp_sameEnd hb hwalk

end

/-- The packets that must not stand between a FUP and its TIP. -/
def Unexpected : PktType → Bool
  | .tnt | .fup | .tracestop | .psb | .tsc | .tma | .cbr | .modeTsx | .ptwrite | .ptwriteIp
  | .exstop | .exstopIp | .mwait | .pwre | .pwrx => true
  | _ => false

def resyncConfig : Config :=
  { walkInsn := fun ip _ _ => { ip := ip }, branchEnable := true, timing := { tscCtcRatioD := 1 } }

def awaitingTip (bytes : List UInt8) : Decoder :=
  { rd := { trace := [.buffer { bytes := bytes }] }
    pktState := .fup, ip := 0x1000, lastIp := 0x1000, haveLastIp := true, pge := true
    clk := { timestamp := 1 } }

def effects (r : Status × Decoder) : Status × UInt64 × Bool × Bool × Bool × UInt32 × UInt64 :=
  (r.1, r.2.lastIp, r.2.pge, r.2.clk.haveTma, r.2.txFlags.inTx, r.2.clk.cbr, r.2.clk.timestamp)

theorem SameEnd.effects {r s : Status × Decoder} (h : SameEnd r s) : effects r = effects s := by
  obtain ⟨st, d⟩ := r
  obtain ⟨st', e⟩ := s
  obtain ⟨rfl : st = st', log, rfl⟩ := h
  rfl

def Lost (t : PktType) (bytes : List UInt8) : Prop :=
  let r := (awaitingTip bytes).walkFupTip resyncConfig
  let d := Decoder.conclude resyncConfig (.noent, r.2)
  r.1 = .noent ∧ r.2.rd.packet.type = t ∧
    effects (d.startState.resume resyncConfig) ≠
      effects ({ d with rd.pktStep := 0 }.startState.resume resyncConfig)

def lostBytes : PktType → List UInt8
  | .fup => [0x3d, 0, 0x20]
  | .tracestop => [0x02, 0x83]
  | .psb => psbStr
  | .tsc => [0x19, 0, 0, 1, 0, 0, 0, 0]
  | .tma => [0x02, 0x73, 0, 0, 0, 0, 0]
  | .cbr => [0x02, 0x03, 8, 0]
  | .modeTsx => [0x99, 0x21]
  | _ => []

theorem lost_of_not_skipped {t : PktType} (ht : Unexpected t = true) (hs : Skipped t = false) :
    Lost t (lostBytes t) := by
  unfold Lost
  cases t
  case fup | tracestop | psb | tsc | tma | cbr | modeTsx => decide +kernel
  all_goals simp [Unexpected, Skipped] at ht hs

theorem Lost.not_putBack {t : PktType} {bytes : List UInt8} (h : Lost t bytes)
    (hall : ∀ cfg d e, cfg.branchEnable = true → Decoder.walkFupTip d cfg = (.noent, e) →
      e.rd.packet.type = t → AsIfPutBack cfg (Decoder.conclude cfg (.noent, e))) : False := by
  obtain ⟨hstatus, htype, heffects⟩ := h
  exact heffects (hall resyncConfig (awaitingTip bytes) _ rfl (Prod.ext hstatus rfl) htype).effects

/-- An unexpected packet after a FUP is handled again, as far as that can be seen, only if it is one
that the search for an IP passes over. -/
theorem unexpected_packet_handled_iff {t : PktType} (ht : Unexpected t = true) :
    (∀ cfg d e, cfg.branchEnable = true → Decoder.walkFupTip d cfg = (.noent, e) →
      e.rd.packet.type = t → AsIfPutBack cfg (Decoder.conclude cfg (.noent, e))) ↔
      Skipped t = true := by
  constructor
  · intro hall
    by_contra hs
    exact (lost_of_not_skipped ht (Bool.eq_false_of_not_eq_true hs)).not_putBack hall
  · rintro hskip cfg d e hb hwalk rfl
    exact asIfPutBack_of_skipped hb hwalk hskip

theorem tnt_handled :
    Unexpected .tnt = true ∧ ∀ cfg d e, cfg.branchEnable = true →
      Decoder.walkFupTip d cfg = (.noent, e) → e.rd.packet.type = .tnt →
      AsIfPutBack cfg (Decoder.conclude cfg (.noent, e)) :=
  ⟨rfl, (unexpected_packet_handled_iff rfl).mpr rfl⟩

def tscTrace : List TraceItem :=
  [.buffer
    { bytes := psbStr ++ [0x19, 0, 2, 0, 0, 0, 0, 0] ++ [0xdd, 0, 0x10, 0, 0, 0, 0, 0, 0] ++
        [0x02, 0x23] ++ [0x3d, 0, 0x10] ++ [0x19, 0, 0, 1, 0, 0, 0, 0] ++ [0x2d, 0, 0x20]
      consecutive := false
      refTimestamp := 0x100 }]

/-- The TSC does not move the clock, and would if it had been put back. -/
theorem unexpected_tsc_lost :
    let d := (Decoder.new tscTrace).run [resyncConfig, resyncConfig]
    let lost := d.decode resyncConfig
    let found := { d with rd.pktStep := 0 }.decode resyncConfig
    (d.st.err = some .mismat ∧ d.rd.packet.type = .tsc ∧ d.clk.timestamp = 0x200) ∧
      (lost.st.err = none ∧ lost.st.toIp = 0x2000 ∧ lost.clk.timestamp = 0x200) ∧
      (found.st.err = none ∧ found.st.toIp = 0x2000 ∧ found.clk.timestamp = 0x10000) := by
  decide +kernel

end RPerf.Decode
