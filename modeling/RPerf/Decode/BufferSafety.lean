import RPerf.Decode.Invariants
import RPerf.Packets.EmptySplit
import RPerf.Packets.Scanning

/-!
# Staying inside the buffer

Every fetch of the walk functions starts with `pkt_step <= len`, as long as no fetch comes
to an empty split.
-/

namespace RPerf.Decode

open Lib Packets

namespace Decoder

/-- No fetch so far came to an empty split. -/
def NoEmptySplit (d : Decoder) : Prop :=
  ∀ w rd, Event.enter w rd ∈ d.log → ¬ rd.MeetsEmptySplit

/-- Every fetch so far started inside its buffer. -/
def StartsInside (d : Decoder) : Prop :=
  ∀ w rd, Event.enter w rd ∈ d.log → rd.pktStep ≤ rd.buf.length

def Inside (d : Decoder) : Prop := d.NoEmptySplit → d.StartsInside ∧ d.rd.Safe

variable {d : Decoder}

theorem Inside.of_eq {d' : Decoder} (hd : d.Inside) (hrd : d.rd.Safe → d'.rd.Safe)
    (hlog : ∀ w rd, Event.enter w rd ∈ d'.log ↔ Event.enter w rd ∈ d.log) : d'.Inside := by
  intro hno
  obtain ⟨hstarts, hsafe⟩ := hd fun w rd h => hno w rd ((hlog w rd).mpr h)
  exact ⟨fun w rd h => hstarts w rd ((hlog w rd).mp h), hrd hsafe⟩

theorem mem_fetched_enter {w w' : Walker} {fr : Fetch × Reader} {rd : Reader} :
    Event.enter w' rd ∈ (d.fetched w fr).2.log ↔ Event.enter w' rd ∈ d.log := by
  unfold fetched
  split <;> simp

theorem mem_getNextPacket_enter {w w' : Walker} {rd : Reader} :
    Event.enter w' rd ∈ (d.getNextPacket w).2.log ↔
      (w' = w ∧ rd = d.rd) ∨ Event.enter w' rd ∈ d.log := by
  simp [getNextPacket, mem_fetched_enter, note]

theorem Inside.getNextPacket (hd : d.Inside) (w : Walker) : (d.getNextPacket w).2.Inside := by
  intro hno
  obtain ⟨hstarts, hsafe⟩ := hd fun w' rd h => hno w' rd (mem_getNextPacket_enter.mpr (.inr h))
  have hmeets := hno w d.rd (mem_getNextPacket_enter.mpr (.inl ⟨rfl, rfl⟩))
  refine ⟨fun w' rd h => ?_, ?_⟩
  · obtain ⟨-, rfl⟩ | h := mem_getNextPacket_enter.mp h
    · exact hsafe
    · exact hstarts w' rd h
  · rw [getNextPacket_rd]
    exact (Reader.getNextPacket_safe_iff hsafe).mpr hmeets

theorem Inside.scanForPsb (hd : d.Inside) : d.scanForPsb.2.Inside := by
  refine hd.of_eq (fun _ => ?_) fun w rd => mem_fetched_enter
  rw [Decoder.scanForPsb, fetched_rd]
  exact d.rd.scanForPsb_scanned.safe

theorem closedSync_inside (cfg : Config) :
    ClosedSync cfg none Inside (fun _ => Inside) fun _ => False where
  quiet hd hq := hd.of_eq (fun h => hq.rd ▸ h) fun w rd => by rw [hq.log]
  quietJ hd hq := hd.of_eq (fun h => hq.rd ▸ h) fun w rd => by rw [hq.log]
  lose hd _ _ := hd
  drop hd _ _ := hd
  ignore hd _ := hd
  unknown hd _ _ := hd
  expand hd _ _ _ := hd
  psb hd _ := hd
  time hd _ _ := hd.of_eq id fun w rd => by simp [Decoder.time]
  bug hd _ := hd
  event hk := nomatch hk
  mark hk := nomatch hk
  fetch {w d d'} hd heq := by
    have hnext := hd.getNextPacket w
    rwa [heq] at hnext
  fail {w d r} hd heq _ := .inl (heq ▸ hd.getNextPacket w)
  putBack hd := hd.of_eq (fun _ => Nat.zero_le _) fun w rd => by simp
  forget hd := hd
  scan hd _ _ heq := by
    have hscan := hd.scanForPsb
    rw [heq] at hscan
    exact hscan
  scanFail hd heq _ := .inl (heq ▸ hd.scanForPsb)

theorem Inside.decode (hd : d.Inside) (cfg : Config) : (d.decode cfg).Inside := by
  refine ((closedSync_inside cfg).decodeLoop (fun _ => False.elim) hd (2 * d.rd.unread + 3)).of_eq
    ?_ fun w rd => ?_
  · rw [Decoder.decode, conclude_rd]
    exact id
  · rw [Decoder.decode, conclude_log]
    simp

def startsInside : Event → Bool
  | .enter _ rd => rd.pktStep ≤ rd.buf.length
  | _ => true

def keepsInside : Event → Bool
  | .enter _ rd => rd.pktStep ≤ rd.buf.length ∧
    rd.getNextPacket.2.pktStep ≤ rd.getNextPacket.2.buf.length
  | _ => true

theorem StartsInside.all (h : d.StartsInside) : d.log.all startsInside = true := by
  refine List.all_eq_true.mpr fun e he => ?_
  cases e with
  | enter w rd => simpa [startsInside] using h w rd he
  | _ => rfl

theorem noEmptySplit_of_all (h : d.log.all keepsInside = true) : d.NoEmptySplit := by
  intro w rd hmem
  have hkeeps := List.all_eq_true.mp h _ hmem
  simp only [keepsInside, decide_eq_true_eq] at hkeeps
  exact (Reader.getNextPacket_safe_iff hkeeps.1).mp hkeeps.2

/-- In a run in which no fetch comes to an empty split, every fetch of the walk functions starts
with `pkt_step <= len`. -/
theorem run_starts_inside (trace : List TraceItem) (cfgs : List Config)
    (hno : ((Decoder.new trace).run cfgs).NoEmptySplit) :
    ((Decoder.new trace).run cfgs).StartsInside := by
  have hnew : (Decoder.new trace).Inside :=
    fun _ => ⟨fun _ _ h => absurd h List.not_mem_nil, Nat.zero_le _⟩
  exact (run_invariant (I := Inside) cfgs (fun cfg _ d hd => hd.decode cfg) hnew hno).1

/-- The decoder searches for an IP, and finds no code. -/
def noCode : Config where
  walkInsn _ _ _ := { err := some .noent }
  branchEnable := true

/-- A one-byte MTC payload fills the second buffer. -/
def splitMtc (rest : List UInt8) : List TraceItem :=
  [.buffer { bytes := psbStr ++ [0x59] }, .buffer { bytes := [0x10] }, .buffer { bytes := rest }]

/-- The split MTC does no harm in front of a PSBEND. -/
theorem run_starts_inside_psbend :
    ((Decoder.new (splitMtc [0x02, 0x23])).run [noCode, noCode]).NoEmptySplit ∧
      ((Decoder.new (splitMtc [0x02, 0x23])).run [noCode, noCode]).StartsInside := by
  have hno : ((Decoder.new (splitMtc [0x02, 0x23])).run [noCode, noCode]).NoEmptySplit :=
    noEmptySplit_of_all (by decide +kernel)
  exact ⟨hno, run_starts_inside _ _ hno⟩

theorem run_starts_outside :
    ¬ ((Decoder.new (splitMtc [0x05])).run [noCode, noCode]).StartsInside :=
  fun h => absurd h.all (by decide +kernel)

end Decoder

end RPerf.Decode
