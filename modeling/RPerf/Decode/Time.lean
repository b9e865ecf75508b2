import RPerf.Decode.Invariants
import RPerf.Lib.Words
import Mathlib.Data.UInt

/-!
# Time

The decoder's clock and the time stamps of the states it returns do not run backwards
between two gaps of the trace, as long as a TSC packet is taken relative to the reference
time of a buffer only while the clock is not set.
-/

namespace RPerf.Decode

open Lib Packets

def NoWrap : Event → Prop
  | .timed t p before _ =>
    let timestamp := p.payload ||| (before.timestamp &&& topByte)
    p.type = .tsc → before.refTimestamp = 0 → timestamp < before.timestamp →
      t.tscSlip.toUInt64 ≤ before.timestamp - timestamp → timestamp.toNat + 2 ^ 56 < 2 ^ 64
  | _ => True

def AnchorsUnset : Event → Prop
  | .timed _ p before _ => p.type = .tsc → before.refTimestamp ≠ 0 → before.timestamp = 0
  | _ => True

instance : (e : Event) → Decidable (NoWrap e)
  | .timed .. => inferInstanceAs (Decidable (_ → _ → _ → _ → _))
  | .enter .. | .packet .. | .putBack | .gap | .returned .. => isTrue trivial

instance : (e : Event) → Decidable (AnchorsUnset e)
  | .timed .. => inferInstanceAs (Decidable (_ → _ → _))
  | .enter .. | .packet .. | .putBack | .gap | .returned .. => isTrue trivial

namespace Clock

@[simp] theorem restartCyc_timestamp (clk : Clock) (t : Timing) (rd : Reader) (fromMtc : Bool) :
    (clk.restartCyc t rd fromMtc).timestamp = clk.timestamp := by
  simp only [restartCyc, calcCycToTscFrom]
  split_ifs
  · split <;> rfl
  all_goals rfl

theorem toNat_and_topByte (now : UInt64) :
    (now &&& topByte).toNat = now.toNat / 2 ^ 56 * 2 ^ 56 := by
  have htop : topByte.toNat = 2 ^ 64 - 2 ^ 56 := by decide
  rw [UInt64.toNat_and, htop, and_high now.toNat_lt (by decide)]

theorem lt_or_topByte (now payload : UInt64) :
    now.toNat < (payload ||| (now &&& topByte)).toNat + 2 ^ 56 := by
  have htop : now.toNat / 2 ^ 56 * 2 ^ 56 ≤ (payload ||| (now &&& topByte)).toNat := by
    rw [← toNat_and_topByte, UInt64.toNat_or]
    exact Nat.right_le_or
  omega

theorem le_advanceTsc {slip now payload : UInt64}
    (hwrap : (payload ||| (now &&& topByte)) < now →
      slip ≤ now - (payload ||| (now &&& topByte)) →
      (payload ||| (now &&& topByte)).toNat + 2 ^ 56 < 2 ^ 64) :
    now ≤ (advanceTsc slip now payload).2 := by
  have hlt := lt_or_topByte now payload
  simp only [advanceTsc]
  generalize payload ||| (now &&& topByte) = ts at hlt hwrap ⊢
  split_ifs with hback hslip
  · exact UInt64.le_refl now
  · have hsum := hwrap hback (UInt64.not_lt.mp hslip)
    have hadd : (ts + tscWrap).toNat = ts.toNat + 2 ^ 56 := by
      rw [UInt64.toNat_add]
      exact Nat.mod_eq_of_lt hsum
    rw [UInt64.le_iff_toNat_le, hadd]
    exact hlt.le
  · exact UInt64.not_lt.mp hback

theorem le_calcTscTimestamp {clk : Clock} {t : Timing} {rd : Reader}
    (hty : rd.packet.type = .tsc) (hwrap : NoWrap (.timed t rd.packet clk clk))
    (hset : AnchorsUnset (.timed t rd.packet clk clk)) :
    clk.timestamp ≤ (clk.calcTscTimestamp t rd).timestamp := by
  simp only [calcTscTimestamp, restartCyc_timestamp]
  split_ifs with href hnow
  · rw [hset hty href]
    exact UInt64.zero_le
  · exact le_advanceTsc (hwrap hty (not_not.mp href))
  · exact UInt64.le_refl _

theorem le_guarded (now timestamp : UInt64) : now ≤ if timestamp < now then now else timestamp := by
  split_ifs with hlt
  · exact UInt64.le_refl now
  · exact UInt64.not_lt.mp hlt

theorem le_calcMtcTimestamp (clk : Clock) (t : Timing) (rd : Reader) :
    clk.timestamp ≤ (clk.calcMtcTimestamp t rd).timestamp := by
  unfold calcMtcTimestamp
  by_cases htma : clk.haveTma = true
  · rw [if_neg (not_not.mpr htma)]
    by_cases hfix : 8 < t.mtcShift ∧ clk.fixupLastMtc
    · simp only [hfix, and_self, if_true, restartCyc_timestamp]
      exact le_guarded _ _
    · simp only [hfix, if_false, restartCyc_timestamp]
      exact le_guarded _ _
  · rw [if_pos htma]
    exact UInt64.le_refl _

theorem le_calcCycTimestamp (clk : Clock) (t : Timing) (rd : Reader) :
    clk.timestamp ≤ (clk.calcCycTimestamp t rd).timestamp := by
  simp only [calcCycTimestamp]
  by_cases href : clk.cycRefTimestamp = 0
  · rw [if_pos href]
    exact UInt64.le_refl _
  rw [if_neg href]
  by_cases hcalc : clk.haveCalcCycToTsc = true
  · rw [if_pos hcalc]
    exact le_guarded _ _
  rw [if_neg hcalc]
  by_cases hcbr : clk.cbr ≠ 0
  · rw [if_pos hcbr]
    exact le_guarded _ _
  · rw [if_neg hcbr]
    exact UInt64.le_refl _

theorem le_of_timedBy {clk : Clock} {t : Timing} {rd : Reader} {f : Clock → Timing → Reader → Clock}
    (h : TimedBy rd.packet.type f) (hwrap : NoWrap (.timed t rd.packet clk clk))
    (hset : AnchorsUnset (.timed t rd.packet clk clk)) :
    clk.timestamp ≤ (f clk t rd).timestamp := by
  generalize hty : rd.packet.type = ty at h
  cases h with
  | tsc => exact le_calcTscTimestamp hty hwrap hset
  | tma =>
    simp only [calcTma]
    split_ifs <;> exact UInt64.le_refl _
  | mtc => exact clk.le_calcMtcTimestamp t rd
  | cyc => exact clk.le_calcCycTimestamp t rd

end Clock

/-- The values of the clock since the last gap, the most recent first. -/
def times : List Event → List UInt64
  | [] => [0]
  | .gap :: _ => [0]
  | .timed _ _ before after :: log => after.timestamp :: before.timestamp :: times log
  | _ :: log => times log

def stamps : List Event → List UInt64
  | [] => []
  | .gap :: _ => []
  | .returned s :: log => s.timestamp :: stamps log
  | _ :: log => stamps log

/-- Times listed from the most recent one on do not increase. -/
def Descends (l : List UInt64) : Prop := l.Pairwise fun later earlier => earlier ≤ later

instance (l : List UInt64) : Decidable (Descends l) := inferInstanceAs (Decidable (l.Pairwise _))

def Timeless (e : Event) : Prop :=
  (∀ log, times (e :: log) = times log) ∧ ∀ log, stamps (e :: log) = stamps log

namespace Decoder

def Forward (d : Decoder) : Prop :=
  ∀ log, log <:+ d.log → Descends (times log) ∧ Descends (stamps log)

/-- What is assumed of the timing packets on record. -/
def Unambiguous (d : Decoder) : Prop := ∀ e ∈ d.log, NoWrap e ∧ AnchorsUnset e

theorem Forward.cons {d e : Decoder} {ev : Event} (hd : d.Forward) (hlog : e.log = ev :: d.log)
    (ht : Descends (times (ev :: d.log))) (hs : Descends (stamps (ev :: d.log))) :
    e.Forward := by
  intro log hsuf
  rw [hlog] at hsuf
  obtain rfl | hsuf := List.suffix_cons_iff.mp hsuf
  · exact ⟨ht, hs⟩
  · exact hd log hsuf

structure OnTime (S : List UInt64 → UInt64 → UInt64 → Prop) (d : Decoder) : Prop where
  forward : d.Forward
  now : (times d.log).head? = some d.clk.timestamp
  sampled : S (stamps d.log) d.smp.sampleTimestamp d.clk.timestamp

def TimeInv (S : List UInt64 → UInt64 → UInt64 → Prop) (d : Decoder) : Prop :=
  d.Unambiguous → OnTime S d

def UpToDate (returned : List UInt64) (sample now : UInt64) : Prop :=
  (∀ t ∈ returned, t ≤ sample) ∧ sample ≤ now

def NoneReturned (returned : List UInt64) (_ _ : UInt64) : Prop := returned = []

/-- The state after a gap. -/
def Lost (d : Decoder) : Prop := d.pktState = .noPsb ∧ TimeInv NoneReturned d

section

variable {S : List UInt64 → UInt64 → UInt64 → Prop} {d e : Decoder}

theorem TimeInv.timeless {v : Event} (hd : TimeInv S d) (hev : Timeless v)
    (hlog : e.log = v :: d.log) (hclk : e.clk.timestamp = d.clk.timestamp)
    (hsmp : e.smp.sampleTimestamp = d.smp.sampleTimestamp) : TimeInv S e := by
  intro hun
  obtain ⟨hfwd, hnow, hs⟩ := hd fun x hx => hun x (hlog ▸ List.mem_cons_of_mem _ hx)
  obtain ⟨ht, hst⟩ := hfwd d.log List.suffix_rfl
  constructor
  · refine hfwd.cons hlog ?_ ?_
    · rwa [hev.1]
    · rwa [hev.2]
  · rw [hlog, hev.1, hclk]
    exact hnow
  · rw [hlog, hev.2, hsmp, hclk]
    exact hs

theorem TimeInv.of_eq (hd : TimeInv S d) (hlog : e.log = d.log)
    (hclk : e.clk.timestamp = d.clk.timestamp)
    (hsmp : e.smp.sampleTimestamp = d.smp.sampleTimestamp) : TimeInv S e := by
  intro hun
  obtain ⟨hfwd, hnow, hs⟩ := hd fun x hx => hun x (hlog ▸ hx)
  refine ⟨?_, ?_, ?_⟩
  · rw [Forward, hlog]
    exact hfwd
  · rw [hlog, hclk]
    exact hnow
  · rw [hlog, hclk, hsmp]
    exact hs

theorem TimeInv.quiet (hd : TimeInv S d) (hq : Quiet none d e) : TimeInv S e :=
  hd.of_eq hq.log hq.timestamp hq.sampleTimestamp

theorem TimeInv.time (hS : ∀ st smp now now', S st smp now → now ≤ now' → S st smp now')
    {cfg : Config} {f : Clock → Timing → Reader → Clock} (hd : TimeInv S d)
    (ht : TimedBy d.rd.packet.type f) : TimeInv S (d.time cfg f) := by
  intro hun
  obtain ⟨hfwd, hnow, hs⟩ := hd fun x hx => hun x (List.mem_cons_of_mem _ hx)
  obtain ⟨hwrap, hset⟩ := hun _ List.mem_cons_self
  have hle : d.clk.timestamp ≤ (f d.clk cfg.timing d.rd).timestamp :=
    Clock.le_of_timedBy ht hwrap hset
  obtain ⟨htimes, hstamps⟩ := hfwd d.log List.suffix_rfl
  refine ⟨hfwd.cons rfl ?_ hstamps, rfl, hS _ _ _ _ hs hle⟩
  have hpast : ∀ t ∈ times d.log, t ≤ d.clk.timestamp := by
    cases hl : times d.log with
    | nil => simp
    | cons a l =>
      rw [hl] at hnow htimes
      obtain rfl : a = d.clk.timestamp := Option.some.inj hnow
      intro t ht
      obtain rfl | ht := List.mem_cons.mp ht
      · exact UInt64.le_refl _
      · exact List.rel_of_pairwise_cons htimes ht
  refine List.pairwise_cons.mpr ⟨fun t ht => ?_, List.pairwise_cons.mpr ⟨hpast, htimes⟩⟩
  obtain rfl | ht := List.mem_cons.mp ht
  · exact hle
  · exact UInt64.le_trans (hpast t ht) hle

theorem TimeInv.fetched {w : Walker} {fr : Fetch × Reader} (hd : TimeInv S d)
    (heq : d.fetched w fr = (.ok, e)) : TimeInv S e := by
  rw [(fetched_ok heq).2]
  exact hd.timeless (v := .packet w e.rd.packet d.haveLastIp d.lastIp)
    ⟨fun _ => rfl, fun _ => rfl⟩ rfl rfl rfl

theorem TimeInv.lost (hd : TimeInv S d) (hlog : e.log = .gap :: d.log) (hclk : e.clk.timestamp = 0)
    (hst : e.pktState = .noPsb) : Lost e := by
  refine ⟨hst, fun hun => ?_⟩
  have hfwd := (hd fun x hx => hun x (hlog ▸ List.mem_cons_of_mem _ hx)).forward
  refine ⟨hfwd.cons hlog (List.pairwise_singleton _ _) List.Pairwise.nil, ?_, ?_⟩
  · rw [hlog, hclk]
    rfl
  · rw [hlog]
    rfl

theorem TimeInv.fetched_fail {w : Walker} {r : Status × Decoder} {fr : Fetch × Reader}
    (hd : TimeInv S d) (heq : d.fetched w fr = r) (hs : r.1 ≠ .ok) : Ends (TimeInv S) Lost r := by
  subst heq
  unfold Decoder.fetched at hs ⊢
  split
  case h_1 => exact absurd rfl hs
  case h_5 => exact .inr ⟨rfl, hd.lost rfl rfl rfl⟩
  all_goals exact .inl (hd.of_eq rfl rfl rfl)

theorem TimeInv.enter (hd : TimeInv S d) (w : Walker) : TimeInv S (d.note (.enter w d.rd)) :=
  hd.timeless (v := .enter w d.rd) ⟨fun _ => rfl, fun _ => rfl⟩ rfl rfl rfl

theorem closedSync_time (hS : ∀ st smp now now', S st smp now → now ≤ now' → S st smp now')
    (cfg : Config) : ClosedSync cfg none (TimeInv S) (fun _ => TimeInv S) Lost where
  quiet hd hq := hd.quiet hq
  quietJ hd hq := hd.quiet hq
  lose hd _ _ := hd.of_eq rfl rfl rfl
  drop hd _ _ := hd
  ignore hd _ := hd
  unknown hd _ _ := hd
  expand hd _ _ _ := hd.of_eq rfl rfl rfl
  psb hd _ := hd.of_eq rfl rfl rfl
  time hd ht _ := hd.time hS ht
  bug hd _ := hd.of_eq rfl rfl rfl
  event hk := nomatch hk
  mark hk := nomatch hk
  fetch hd heq := (hd.enter _).fetched heq
  fail hd heq hs := (hd.enter _).fetched_fail heq hs
  putBack hd := hd.timeless (v := .putBack) ⟨fun _ => rfl, fun _ => rfl⟩ rfl rfl rfl
  forget hd := hd.of_eq rfl rfl rfl
  scan hd _ _ heq := (hd.fetched heq).of_eq rfl rfl rfl
  scanFail hd heq hs := hd.fetched_fail heq hs

end

theorem UpToDate.mono (st : List UInt64) (smp now now' : UInt64) (h : UpToDate st smp now)
    (hle : now ≤ now') : UpToDate st smp now' :=
  ⟨h.1, UInt64.le_trans h.2 hle⟩

section

variable (d : Decoder)

theorem fetched_nolink (w : Walker) (fr : Fetch × Reader) :
    (d.fetched w fr).1 = .nolink → (d.fetched w fr).2.pktState = .noPsb := by
  unfold fetched
  split <;> simp

theorem packetLoop_nolink {w : Walker} {handle : Decoder → Pass Decoder (Status × Decoder)}
    (hhandle : ∀ d, (handle d).Satisfies (fun _ => True)
      fun r => r.1 = .nolink → r.2.pktState = .noPsb) (d : Decoder) :
    (packetLoop w handle d).1 = .nolink → (packetLoop w handle d).2.pktState = .noPsb := by
  refine loop_invariant (I := fun _ => True)
    (Q := fun r : Status × Decoder => r.1 = .nolink → r.2.pktState = .noPsb) ?_
      (by simp) _ d trivial
  intro d _
  unfold fetchPass
  split
  · exact hhandle _
  · next s d' hne heq =>
    have hlost := (d.note (.enter w d.rd)).fetched_nolink w d.rd.getNextPacket
    rw [← getNextPacket, heq] at hlost
    exact hlost

variable (cfg : Config)

theorem walkPsb_nolink : (d.walkPsb cfg).1 = .nolink → (d.walkPsb cfg).2.pktState = .noPsb := by
  refine packetLoop_nolink (fun d => ?_) d
  cases ht : d.rd.packet.type <;>
    simp [psbPacket, ht, psbBroken, bug, overflowed]

theorem walkToIp_nolink : (d.walkToIp cfg).1 = .nolink → (d.walkToIp cfg).2.pktState = .noPsb := by
  refine packetLoop_nolink (fun d => ?_) d
  have hfound : ∀ d : Decoder, d.foundIp.Satisfies (fun _ => True)
      fun r => r.1 = .nolink → r.2.pktState = .noPsb := by
    intro d
    unfold foundIp
    split_ifs <;> simp
  cases ht : d.rd.packet.type <;> simp only [toIpPacket, ht]
  case tipPgd | tipPge | tip | fup => exact hfound _
  case psb =>
    have hpsb := d.atPsb.walkPsb_nolink cfg
    unfold toIpPsb
    split
    · split_ifs <;> simp
    · exact hpsb
  all_goals simp [bug, overflowed]

theorem syncIp_nolink : (d.syncIp cfg).1 = .nolink → (d.syncIp cfg).2.pktState = .noPsb := by
  have hwalk := d.clearFupEvents.walkToIp_nolink cfg
  simp only [syncIp]
  split_ifs
  · split
    · simp
    · exact hwalk
  · simp

theorem sync_nolink : (d.sync cfg).1 = .nolink → (d.sync cfg).2.pktState = .noPsb := by
  have hscan := d.startOver.fetched_nolink .scan d.startOver.rd.scanForPsb
  unfold sync
  split
  · next d' heq =>
    have hpsb := d'.foundPsb.walkPsb_nolink cfg
    split
    · split_ifs
      · simp
      · exact syncIp_nolink _ cfg
    · exact hpsb
  · exact hscan

theorem syncIp_ok : (d.syncIp cfg).1 = .ok → (d.syncIp cfg).2.pktState = .inSync := by
  simp only [syncIp]
  split_ifs
  · split
    · simp
    · next hne => exact fun hok => (hne _ (Prod.ext hok rfl)).elim
  · simp

theorem sync_ok : (d.sync cfg).1 = .ok → (d.sync cfg).2.pktState = .inSync := by
  unfold sync
  split
  · split
    · split_ifs
      · simp
      · exact syncIp_ok _ cfg
    · next hne => exact fun hok => (hne _ (Prod.ext hok rfl)).elim
  · next hne => exact fun hok => (hne _ (Prod.ext hok rfl)).elim

end

def Timely (r : Status × Decoder) : Prop :=
  TimeInv UpToDate r.2 ∨ TimeInv NoneReturned r.2 ∧ (r.1 = .ok → r.2.pktState = .inSync)

theorem decodePass_time {cfg : Config} {d : Decoder} (hd : TimeInv UpToDate d ∨ Lost d) :
    (decodePass cfg d).Satisfies (fun d => TimeInv UpToDate d ∨ Lost d) Timely := by
  unfold decodePass
  obtain hd | ⟨hst, hd⟩ := hd
  · have hend := (closedSync_time UpToDate.mono cfg).resume
      (hd.of_eq (e := d.startState) rfl rfl rfl)
    split
    · next heq =>
      rw [heq] at hend
      exact hend.imp id And.right
    · next hne => exact .inl (hend.settled fun hs => hne _ (Prod.ext hs rfl))
  · have hsync : d.startState.resume cfg = d.startState.sync cfg := by
      simp only [resume, startState, hst]
    rw [hsync]
    have hend := (closedSync_time (S := NoneReturned) (fun _ _ _ _ h _ => h) cfg).sync
      (hd.of_eq (e := d.startState) rfl rfl rfl)
    have hlost := d.startState.sync_nolink cfg
    split
    · next heq =>
      rw [heq] at hend hlost
      exact .inr (hend.elim (fun h => ⟨hlost rfl, h⟩) And.right)
    · next hne =>
      exact .inr ⟨hend.settled fun hs => hne _ (Prod.ext hs rfl), d.startState.sync_ok cfg⟩

theorem conclude_clk (cfg : Config) (r : Status × Decoder) : (conclude cfg r).clk = r.2.clk := by
  simp only [conclude, note, seeCbr]
  split_ifs <;> rfl

theorem conclude_timestamp (cfg : Config) (r : Status × Decoder) :
    (conclude cfg r).st.timestamp = (conclude cfg r).smp.sampleTimestamp := by
  simp only [conclude, note, seeCbr]

theorem conclude_sampleTimestamp (cfg : Config) (r : Status × Decoder) :
    (conclude cfg r).smp.sampleTimestamp = r.2.clk.timestamp ∨
      r.1 = .ok ∧ r.2.pktState.sampleTime = false ∧
        (conclude cfg r).smp.sampleTimestamp = r.2.smp.sampleTimestamp := by
  by_cases hok : r.1 = .ok
  · have hsee : ∀ d : Decoder, d.seeCbr.pktState = d.pktState ∧ d.seeCbr.clk = d.clk ∧
        d.seeCbr.smp = d.smp := by
      intro d
      unfold seeCbr
      split_ifs <;> exact ⟨rfl, rfl, rfl⟩
    obtain ⟨hst, hclk, hsmp⟩ := hsee { r.2 with st.err := none }
    by_cases htime : r.2.pktState.sampleTime = true
    · left
      simp [conclude, note, hok, hst, htime, sampleTime, hclk]
    · right
      simp [conclude, note, hok, hst, htime, hsmp]
  · left
    simp [conclude, note, hok, sampleTime]

theorem OnTime.returned {d e : Decoder} {S : List UInt64 → UInt64 → UInt64 → Prop}
    (hd : OnTime S d) (hlog : e.log = .returned e.st :: d.log) (hclk : e.clk = d.clk)
    (hst : e.st.timestamp = e.smp.sampleTimestamp)
    (hs : UpToDate (stamps d.log) e.smp.sampleTimestamp d.clk.timestamp) : OnTime UpToDate e := by
  obtain ⟨htimes, hstamps⟩ := hd.forward d.log List.suffix_rfl
  have hnew : stamps e.log = e.smp.sampleTimestamp :: stamps d.log := by
    rw [hlog, ← hst]
    rfl
  refine ⟨hd.forward.cons hlog htimes (List.pairwise_cons.mpr ⟨?_, hstamps⟩), ?_, ?_⟩
  · rw [hst]
    exact hs.1
  · rw [hlog, hclk]
    exact hd.now
  · rw [hnew, hclk]
    refine ⟨fun t ht => ?_, hs.2⟩
    obtain rfl | ht := List.mem_cons.mp ht
    · exact UInt64.le_refl _
    · exact hs.1 t ht

theorem Timely.conclude {r : Status × Decoder} (hr : Timely r) (cfg : Config) :
    TimeInv UpToDate (conclude cfg r) := by
  intro hun
  have hun' : r.2.Unambiguous := fun x hx =>
    hun x (conclude_log cfg r ▸ List.mem_cons_of_mem _ hx)
  have hnow := UInt64.le_refl r.2.clk.timestamp
  obtain hd | ⟨hd, hok⟩ := hr
  · obtain ⟨hle, hsmp⟩ := (hd hun').sampled
    refine (hd hun').returned (conclude_log cfg r) (conclude_clk cfg r)
      (conclude_timestamp cfg r) ?_
    obtain h | ⟨-, -, h⟩ := conclude_sampleTimestamp cfg r
    · rw [h]
      exact ⟨fun t ht => UInt64.le_trans (hle t ht) hsmp, hnow⟩
    · rw [h]
      exact ⟨hle, hsmp⟩
  · have hnone : stamps r.2.log = [] := (hd hun').sampled
    refine (hd hun').returned (conclude_log cfg r) (conclude_clk cfg r)
      (conclude_timestamp cfg r) ?_
    obtain h | ⟨h, hst, -⟩ := conclude_sampleTimestamp cfg r
    · rw [h, hnone]
      exact ⟨by simp, hnow⟩
    · rw [hok h] at hst
      exact absurd hst (by decide)

theorem TimeInv.decode {d : Decoder} (hd : TimeInv UpToDate d) (cfg : Config) :
    TimeInv UpToDate (d.decode cfg) := by
  refine Timely.conclude
    (loop_invariant (Q := Timely) (fun _ => decodePass_time) ?_ _ d (.inl hd)) cfg
  rintro d (hd | hd)
  · exact .inl hd
  · exact .inr ⟨hd.2, fun h => nomatch h⟩

/-- Time does not run backwards between two gaps, if every TSC packet taken relative to a reference
time finds the clock not set. -/
theorem run_time_forward (trace : List TraceItem) (cfgs : List Config)
    (hun : ((Decoder.new trace).run cfgs).Unambiguous) :
    (∀ log, log <:+ ((Decoder.new trace).run cfgs).log →
      Descends (times log) ∧ Descends (stamps log)) ∧
    (times ((Decoder.new trace).run cfgs).log).head? =
      some ((Decoder.new trace).run cfgs).clk.timestamp := by
  have hnew : TimeInv UpToDate (Decoder.new trace) := by
    intro _
    refine ⟨fun log hsuf => ?_, rfl, by simp [UpToDate, stamps, Decoder.new]⟩
    rw [List.suffix_nil.mp hsuf]
    exact ⟨List.pairwise_singleton _ _, List.Pairwise.nil⟩
  have hrun := run_invariant (I := TimeInv UpToDate) cfgs (fun cfg _ d hd => hd.decode cfg) hnew hun
  exact ⟨hrun.forward, hrun.now⟩

instance (d : Decoder) : Decidable d.Unambiguous :=
  inferInstanceAs (Decidable (∀ e ∈ d.log, NoWrap e ∧ AnchorsUnset e))

/-- One tick of the CTC is one tick of the TSC. -/
def unitRatio : Config where
  walkInsn _ _ _ := { err := some .noent }
  branchEnable := true
  timing := { tscCtcRatioN := 1, tscCtcRatioD := 1, tscCtcMult := 1 }

def afterGap (packets : List UInt8) : List TraceItem :=
  [.buffer { bytes := psbStr ++ packets, consecutive := false, refTimestamp := 1 }]

/-- TSC, TMA and MTC in the order in which the processor sends them. -/
theorem run_time_forward_mtc :
    let d := (Decoder.new (afterGap [0x19, 1, 0, 0, 0, 0, 0, 0, 0x02, 0x73, 0, 0, 0, 0, 0,
      0x59, 100])).run [unitRatio]
    d.Unambiguous ∧ times d.log = [101, 1, 1, 1, 1, 0, 0] ∧ Descends (times d.log) := by
  intro d
  have hun : d.Unambiguous := by decide +kernel
  exact ⟨hun, by decide +kernel, ((run_time_forward _ _ hun).1 _ List.suffix_rfl).1⟩

/-- TMA and MTC set the clock to 100 before the TSC packet sets it to 1. -/
theorem run_time_backwards :
    let d := (Decoder.new (afterGap [0x02, 0x73, 0, 0, 0, 0, 0, 0x59, 100, 0x19, 1, 0, 0, 0, 0, 0,
      0])).run [unitRatio]
    (∀ e ∈ d.log, NoWrap e) ∧ times d.log = [1, 100, 100, 0, 0, 0, 0] ∧
      ¬ Descends (times d.log) := by
  intro d
  refine ⟨?_, ?_, ?_⟩ <;> decide +kernel

end Decoder

end RPerf.Decode
