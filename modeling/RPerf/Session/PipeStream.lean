import RPerf.Session.EventStream

/-!
# The events of a pipe

`__perf_session__process_pipe_events` reads the header and the data of an event with
`readn`, which goes on until it has all of the bytes: `read` may give fewer than it is asked
for, and may be interrupted.
-/

namespace RPerf.Session

open Lib

/-- What `read` does with a pipe. -/
inductive ReadAnswer
  | short (n : ℕ)
  | interrupted
  | failed
  deriving DecidableEq, Repr

structure Ion where
  n : ℕ
  left : ℕ
  buf : List UInt8
  rest : List UInt8
  calls : ℕ

/-- `readn`, before its loop. -/
def readn (n : ℕ) (rest : List UInt8) (calls : ℕ) : Ion := ⟨n, n, [], rest, calls⟩

def Ion.pass (read : ℕ → ReadAnswer) (s : Ion) : Pass Ion (ℤ × Ion) :=
  if s.left = 0 then .leave (s.n, s)
  else
    let calls := s.calls + 1
    match read s.calls with
    | .interrupted => .again { s with calls }
    | .failed => .leave (-1, { s with calls })
    | .short k =>
      let ret := min (k + 1) (min s.left s.rest.length)
      if ret = 0 then .leave (0, { s with calls })
      else .again {
        n := s.n
        left := s.left - ret
        buf := s.buf ++ s.rest.take ret
        rest := s.rest.drop ret
        calls }

/-- `read` does not fail, and is not interrupted for ever. -/
structure Reads (read : ℕ → ReadAnswer) : Prop where
  succeeds : ∀ calls, read calls ≠ .failed
  goesOn : ∀ calls, ∃ later ≥ calls, read later ≠ .interrupted

section Ion

variable {read : ℕ → ReadAnswer}

theorem Reads.exists_short (h : Reads read) (s : Ion) (hleft : s.left ≠ 0) :
    ∃ calls k, Visits (Ion.pass read) s { s with calls } ∧ read calls = .short k := by
  obtain ⟨later, hle, hlater⟩ := h.goesOn s.calls
  obtain ⟨d, hd⟩ : ∃ d, later = s.calls + d := ⟨later - s.calls, by omega⟩
  induction d generalizing s with
  | zero =>
    cases hread : read s.calls with
    | short k => exact ⟨s.calls, k, .refl, hread⟩
    | interrupted => exact absurd (hd ▸ hread) hlater
    | failed => exact absurd hread (h.succeeds _)
  | succ d ih =>
    cases hread : read s.calls with
    | short k => exact ⟨s.calls, k, .refl, hread⟩
    | failed => exact absurd hread (h.succeeds _)
    | interrupted =>
      have hpass : Ion.pass read s = .again { s with calls := s.calls + 1 } := by
        rw [Ion.pass, if_neg hleft, hread]
      obtain ⟨calls, k, hvisits, hk⟩ := ih { s with calls := s.calls + 1 } hleft
        (by simp only; omega) (by simp only; omega)
      exact ⟨calls, k, .again hpass hvisits, hk⟩

theorem Reads.visits (h : Reads read) (s : Ion) (hle : s.left ≤ s.rest.length) :
    ∃ calls, Visits (Ion.pass read) s
      ⟨s.n, 0, s.buf ++ s.rest.take s.left, s.rest.drop s.left, calls⟩ := by
  induction hleft : s.left using Nat.strong_induction_on generalizing s with
  | _ left ih =>
    subst hleft
    by_cases hzero : s.left = 0
    · refine ⟨s.calls, ?_⟩
      rw [hzero, List.take_zero, List.append_nil, List.drop_zero, ← hzero]
      exact .refl
    · obtain ⟨calls, k, hvisits, hread⟩ := h.exists_short s hzero
      set ret := min (k + 1) (min s.left s.rest.length) with hret
      have hpass : Ion.pass read { s with calls } = .again
          ⟨s.n, s.left - ret, s.buf ++ s.rest.take ret, s.rest.drop ret, calls + 1⟩ := by
        simp only [Ion.pass, if_neg hzero, hread]
        exact if_neg (by omega)
      obtain ⟨calls', hrest⟩ := ih (s.left - ret) (by omega)
        ⟨s.n, s.left - ret, s.buf ++ s.rest.take ret, s.rest.drop ret, calls + 1⟩
        (by simp only [List.length_drop]; omega) rfl
      have hsplit : ret + (s.left - ret) = s.left := by omega
      rw [List.append_assoc, ← List.take_add, List.drop_drop, hsplit] at hrest
      exact ⟨calls', hvisits.trans (.again hpass hrest)⟩

theorem readn_whole (h : Reads read) {n : ℕ} {rest : List UInt8} (hle : n ≤ rest.length)
    (calls : ℕ) : ∃ calls' : ℕ, Visits (Ion.pass read) (readn n rest calls)
      ⟨n, 0, rest.take n, rest.drop n, calls'⟩ :=
  h.visits (readn n rest calls) hle

theorem readn_end (h : Reads read) {n : ℕ} (hn : n ≠ 0) (calls : ℕ) :
    ∃ s s', Visits (Ion.pass read) (readn n [] calls) s ∧ Ion.pass read s = .leave (0, s') := by
  obtain ⟨calls', k, hvisits, hread⟩ := h.exists_short (readn n [] calls) hn
  refine ⟨_, { readn n [] calls with calls := calls' + 1 }, hvisits, ?_⟩
  have hleft : (readn n [] calls).left ≠ 0 := hn
  simp only [Ion.pass, if_neg hleft, hread]
  exact if_pos (by simp [readn])

end Ion

def sizeofEvent : UInt32 := 4168

/-- `reads` is how much the handler itself takes from the pipe. -/
structure Pipe where
  needsSwap : Bool
  handler : Handler
  reads : UInt64 → ℕ
  read : ℕ → ReadAnswer
  realloc : UInt64 → Bool

inductive PipeLabel
  | header
  | data (size : UInt16) (header : List UInt8)

/-- The variables of the loop and of the `ion` it is in. -/
structure PipeState where
  io : Ion
  label : PipeLabel := .header
  head : UInt64 := 0
  curSize : UInt32 := sizeofEvent

/-- How `__perf_session__process_pipe_events` comes out of its loop. -/
inductive PipeOutcome
  | done
  | outErr (err : Int)
  deriving DecidableEq, Repr

def sizeField (needsSwap : Bool) (header : List UInt8) : UInt16 :=
  let (low, high) := (header.getD 6 0, header.getD 7 0)
  let (low, high) := if needsSwap then (high, low) else (low, high)
  low.toUInt16 + 256 * high.toUInt16

namespace Pipe

variable (p : Pipe)

/-- What an iteration of `ion` leads to. -/
inductive Step
  | reading (s : PipeState)
  | stop (o : PipeOutcome)
  | event (size : UInt16) (bytes : List UInt8) (io : Ion) (curSize : UInt32)

variable (s : PipeState)

def header (err : ℤ) (io : Ion) : Step :=
  if err = 0 then .stop .done
  else if err < 0 then .stop (.outErr err)
  else
    let size := sizeField p.needsSwap io.buf
    if size.toUInt64 < headerSize then .stop (.outErr err)
    else if size.toUInt32 > s.curSize ∧ p.realloc s.head = false then .stop (.outErr err)
    else
      let curSize := if size.toUInt32 > s.curSize then size.toUInt32 else s.curSize
      if size.toNat - headerSize.toNat = 0 then .event size io.buf io curSize
      else .reading {
        io := readn (size.toNat - headerSize.toNat) io.rest io.calls
        label := .data size io.buf
        head := s.head
        curSize }

/-- Behind the `readn` of the data. -/
def data (size : UInt16) (header : List UInt8) (err : ℤ) (io : Ion) : Step :=
  if err = 0 then .stop .done
  else if err < 0 then .stop (.outErr err)
  else .event size (header ++ io.buf) io s.curSize

def step : Step :=
  match s.io.pass p.read with
  | .again io => .reading { s with io }
  | .leave (err, io) =>
    match s.label with
    | .header => p.header s err io
    | .data size header => data s size header err io

def pass : Pass PipeState PipeOutcome :=
  match p.step s with
  | .reading s' => .again s'
  | .stop o => .leave o
  | .event size _ io curSize =>
    let skip := p.handler.processEvent s.head
    if skip < 0 then .leave (.outErr (-22))
    else if p.handler.sessionDone s.head then .leave .done
    else .again {
      io := readn headerSize.toNat (io.rest.drop (p.reads s.head)) io.calls
      label := .header
      head := s.head + (size.toUInt64 + skip.toUInt64)
      curSize }

def handed : List Handed :=
  match p.step s with
  | .event size bytes _ _ => [⟨s.head, size, bytes⟩]
  | _ => []

/-- Before the first `readn`. -/
def start (data : List UInt8) : PipeState where
  io := readn headerSize.toNat data 0

/-- `__perf_session__process_pipe_events` makes these calls and comes to this end. -/
def Hands (data : List UInt8) (l : List Handed) (o : PipeOutcome) : Prop :=
  Emits p.pass p.handed (start data) l o

variable {p}

theorem silently {s : PipeState} {io : Ion} (h : Visits (Ion.pass p.read) s.io io) :
    Silently p.pass p.handed s { s with io } := by
  obtain ⟨io', hio'⟩ : ∃ io', io' = s.io := ⟨_, rfl⟩
  rw [← hio'] at h
  induction h generalizing s with
  | refl =>
    subst hio'
    exact .refl
  | @again _ io' _ hb _ ih =>
    subst hio'
    have hstep : p.step s = .reading { s with io := io' } := by rw [step, hb]
    exact .again (by rw [pass, hstep]) (by rw [handed, hstep]) (ih (s := { s with io := io' }) rfl)

theorem step_of_whole {s : PipeState} {n : ℕ} {rest : List UInt8} {calls : ℕ}
    (hread : Reads p.read) (hle : n ≤ rest.length) (hio : s.io = readn n rest calls) :
    ∃ calls', Silently p.pass p.handed s
        { s with io := ⟨n, 0, rest.take n, rest.drop n, calls'⟩ } ∧
      p.step { s with io := ⟨n, 0, rest.take n, rest.drop n, calls'⟩ } =
        match s.label with
        | .header => p.header s n ⟨n, 0, rest.take n, rest.drop n, calls'⟩
        | .data size header => data s size header n ⟨n, 0, rest.take n, rest.drop n, calls'⟩ := by
  obtain ⟨calls', hvisits⟩ := readn_whole hread hle calls
  exact ⟨calls', silently (hio ▸ hvisits), rfl⟩

end Pipe

namespace DataFile

def dataFrom (file : DataFile) (pos : UInt64) : List UInt8 :=
  (file.bytes.take file.endOfData.toNat).drop pos.toNat

def data (file : DataFile) : List UInt8 := file.dataFrom file.dataOffset

/-- The pipe answers as the file does. -/
structure Piped (file : DataFile) (handler : Handler) (p : Pipe) : Prop where
  needsSwap : p.needsSwap = file.needsSwap
  processEvent : ∀ head, p.handler.processEvent head = handler.processEvent (file.dataOffset + head)
  sessionDone : ∀ head, p.handler.sessionDone head = handler.sessionDone (file.dataOffset + head)
  reads : ∀ head, 0 ≤ p.handler.processEvent head →
    p.reads head = (p.handler.processEvent head).toUInt64.toNat
  read : Reads p.read
  realloc : ∀ head, p.realloc head = true

/-- The two readers end alike. -/
def SameEnd (o : Outcome) (o' : PipeOutcome) : Prop :=
  o = .out ∧ o' = .done ∨ o = .einval ∧ ∃ err, o' = .outErr err

/-- The pipe is where reading in place is. -/
structure PipedAt (file : DataFile) (handler : Handler) (pos : UInt64) (s : PipeState) : Prop where
  visited : Visits (file.plainPass handler) file.dataOffset pos
  head : file.dataOffset + s.head = pos
  label : s.label = .header
  io : ∃ calls, s.io = readn headerSize.toNat
    (file.dataFrom pos) calls

variable {file : DataFile} {handler : Handler} {p : Pipe} {pos : UInt64} {size : UInt16}

theorem byte_of_lt {i : ℕ} (h : i < file.bytes.length) : file.byte i = some file.bytes[i] := by
  rw [byte, if_pos h, List.getElem?_eq_getElem h]

theorem Whole.sizeField_eq (h : file.Whole handler pos size)
    (hlen : file.endOfData.toNat ≤ file.bytes.length) :
    sizeField file.needsSwap ((file.dataFrom pos).take headerSize.toNat) = size := by
  have hheader := h.header
  have hsize := h.sizeAt
  change pos.toNat + 8 ≤ _ at hheader
  have hget : ∀ i < 8, ((file.dataFrom pos).take headerSize.toNat).getD i 0 =
      file.bytes.getD (pos.toNat + i) 0 := by
    intro i hi
    have hlt : i < headerSize.toNat := hi
    simp only [dataFrom, List.getD_eq_getElem?_getD, List.getElem?_take, List.getElem?_drop,
      if_pos hlt]
    rw [if_pos (by omega)]
  have hbyte : ∀ i < 8, file.byte (pos.toNat + i) = some (file.bytes.getD (pos.toNat + i) 0) := by
    intro i hi
    have hlt : pos.toNat + i < file.bytes.length := by omega
    rw [byte_of_lt hlt, List.getD_eq_getElem?_getD, List.getElem?_eq_getElem hlt,
      Option.getD_some]
  simp only [DataFile.sizeAt, hbyte 6 (by decide), hbyte 7 (by decide)] at hsize
  rw [sizeField, hget 6 (by decide), hget 7 (by decide)]
  exact Option.some.inj hsize

theorem Whole.contents_eq (h : file.Whole handler pos size)
    (hlen : file.endOfData.toNat ≤ file.bytes.length) :
    (file.dataFrom pos).take size.toNat = file.contents pos.toNat size.toNat := by
  have hinside := h.inside
  have hlength : size.toNat ≤ (file.dataFrom pos).length := by
    rw [dataFrom, List.length_drop, List.length_take, min_eq_left hlen]
    omega
  apply List.ext_getElem
  · rw [List.length_take, min_eq_left hlength, DataFile.contents, List.length_map,
      List.length_range]
  · intro i hi hi'
    have hi : i < size.toNat := by
      rw [List.length_take] at hi
      omega
    simp only [DataFile.contents, dataFrom, List.getElem_take, List.getElem_drop,
      List.getElem_map, List.getElem_range]
    rw [byte_of_lt (by omega), Option.getD_some]

variable {s : PipeState}

theorem PipedAt.fetch (h : PipedAt file handler pos s) (hp : file.Piped handler p)
    (hwhole : file.Whole handler pos size) (hlen : file.endOfData.toNat ≤ file.bytes.length) :
    ∃ u, Silently p.pass p.handed s u ∧ u.head = s.head ∧
      ((size.toUInt64 < headerSize ∧ ∃ err, p.step u = .stop (.outErr err)) ∨
        ¬ size.toUInt64 < headerSize ∧ ∃ io curSize,
          p.step u = .event size ((file.dataFrom pos).take size.toNat) io curSize ∧
            io.rest = (file.dataFrom pos).drop size.toNat) := by
  have hheader := hwhole.header
  have hinside := hwhole.inside
  have hfield := hwhole.sizeField_eq hlen
  have hlength : (file.dataFrom pos).length = file.endOfData.toNat - pos.toNat := by
    rw [dataFrom, List.length_drop, List.length_take, min_eq_left hlen]
  obtain ⟨calls, hio⟩ := h.io
  obtain ⟨calls', hsilent, hstep⟩ := Pipe.step_of_whole (s := s) hp.read
    (by omega : headerSize.toNat ≤ (file.dataFrom pos).length) hio
  have hzero : (headerSize.toNat : ℤ) ≠ 0 := by decide
  have hneg : ¬ (headerSize.toNat : ℤ) < 0 := by decide
  simp only [h.label, Pipe.header, hp.needsSwap, hfield, if_neg hzero, if_neg hneg] at hstep
  rw [h.label] at hsilent
  by_cases hbad : size.toUInt64 < headerSize
  · rw [if_pos hbad] at hstep
    exact ⟨_, hsilent, rfl, .inl ⟨hbad, _, hstep⟩⟩
  have hle : headerSize.toNat ≤ size.toNat := by
    rwa [UInt64.not_lt, UInt64.le_iff_toNat_le, UInt16.toNat_toUInt64] at hbad
  have hmem : ¬ (size.toUInt32 > s.curSize ∧ p.realloc s.head = false) := by simp [hp.realloc]
  rw [if_neg hbad, if_neg hmem] at hstep
  by_cases hdata : size.toNat - headerSize.toNat = 0
  · have hsize : headerSize.toNat = size.toNat := by omega
    rw [if_pos hdata, hsize] at hstep
    rw [hsize] at hsilent
    exact ⟨_, hsilent, rfl, .inr ⟨hbad, _, _, hstep, rfl⟩⟩
  · rw [if_neg hdata] at hstep
    have hagain : Silently p.pass p.handed _ _ :=
      .again (by rw [Pipe.pass, hstep]) (by rw [Pipe.handed, hstep]) .refl
    have hmore : size.toNat - headerSize.toNat ≤
        ((file.dataFrom pos).drop headerSize.toNat).length := by
      rw [List.length_drop]
      omega
    obtain ⟨calls'', hsilent', hstep'⟩ := Pipe.step_of_whole hp.read hmore (s := {
      io := readn (size.toNat - headerSize.toNat) ((file.dataFrom pos).drop headerSize.toNat) calls'
      label := .data size ((file.dataFrom pos).take headerSize.toNat)
      head := s.head
      curSize := if size.toUInt32 > s.curSize then size.toUInt32 else s.curSize }) rfl
    have hboth : (file.dataFrom pos).take headerSize.toNat ++
        ((file.dataFrom pos).drop headerSize.toNat).take (size.toNat - headerSize.toNat) =
          (file.dataFrom pos).take size.toNat := by
      rw [← List.take_add, Nat.add_sub_of_le hle]
    have hzero' : ((size.toNat - headerSize.toNat : ℕ) : ℤ) ≠ 0 := by omega
    have hneg' : ¬ ((size.toNat - headerSize.toNat : ℕ) : ℤ) < 0 := by omega
    simp only [Pipe.data, if_neg hzero', if_neg hneg', hboth] at hstep'
    refine ⟨_, (hsilent.trans hagain).trans hsilent', rfl, .inr ⟨hbad, _, _, hstep', ?_⟩⟩
    rw [List.drop_drop, Nat.add_sub_of_le hle]

/-- At the end of the data the pipe is empty. -/
theorem Piped.ends (hp : file.Piped handler p) {calls : ℕ} (hlabel : s.label = .header)
    (hio : s.io = readn headerSize.toNat [] calls) : Emits p.pass p.handed s [] .done := by
  obtain ⟨io, io', hvisits, hleave⟩ := readn_end hp.read (by decide : headerSize.toNat ≠ 0) calls
  have hstep : p.step { s with io } = .stop .done := by
    rw [Pipe.step, hleave, hlabel]
    rfl
  have hout : p.handed { s with io } = [] := by rw [Pipe.handed, hstep]
  have hpass : p.pass { s with io } = .leave .done := by rw [Pipe.pass, hstep]
  have hlast : Emits p.pass p.handed { s with io } (p.handed { s with io }) .done := .leave hpass
  rw [hout] at hlast
  exact (Pipe.silently (hio ▸ hvisits)).emits hlast

theorem Piped.next (hp : file.Piped handler p) {head : UInt64}
    (hhead : file.dataOffset + head = pos)
    (hwhole : file.Whole handler pos size) (hskip : 0 ≤ handler.processEvent pos) :
    ((file.dataFrom pos).drop size.toNat).drop (p.reads head) =
      file.dataFrom (pos + (size.toUInt64 + (handler.processEvent pos).toUInt64)) := by
  have hanswer : p.handler.processEvent head = handler.processEvent pos := by
    rw [hp.processEvent, hhead]
  have hreads := hp.reads head (hanswer ▸ hskip)
  rw [hreads, hanswer, dataFrom, dataFrom, List.drop_drop, List.drop_drop, toNat_next hwhole hskip]
  congr 1
  omega

/-- The position in a file of an event that came out of a pipe. -/
def inFile (file : DataFile) (e : Handed) : Handed :=
  { e with filePos := file.dataOffset + e.filePos }

/-- One event out of the pipe. -/
theorem PipedAt.pass (h : PipedAt file handler pos s) (hp : file.Piped handler p)
    (hwhole : file.Whole handler pos size) (hlen : file.endOfData.toNat ≤ file.bytes.length) :
    ∃ u, Silently p.pass (fun s => (p.handed s).map file.inFile) s u ∧
      (p.handed u).map file.inFile = file.plainHanded pos ∧
      Follows p.pass (fun s => (p.handed s).map file.inFile) (PipedAt file handler) SameEnd
        (file.plainPass handler pos) u := by
  obtain ⟨u, hsilent, hhead, hstep⟩ := h.fetch hp hwhole hlen
  have hpos := h.head
  rw [← hhead] at hpos
  have hevent := hp.processEvent u.head
  have hdone := hp.sessionDone u.head
  rw [hpos] at hevent hdone
  refine ⟨u, hsilent.map file.inFile, ?_⟩
  rcases hstep with ⟨hbad, err, hstep⟩ | ⟨hgood, io, curSize, hstep, hrest⟩
  · have hpass : p.pass u = .leave (.outErr err) := by simp only [Pipe.pass, hstep]
    constructor
    · simp only [Pipe.handed, hstep, plainHanded, hwhole.sizeAt, if_pos hbad, List.map_nil]
    · simp only [plainPass, hwhole.sizeAt, if_pos (Or.inl hbad)]
      exact .leave (.leave hpass) (.inr ⟨rfl, err, rfl⟩)
  · constructor
    · simp only [Pipe.handed, hstep, plainHanded, hwhole.sizeAt, if_neg hgood, List.map_cons,
        List.map_nil, inFile, hpos, hwhole.contents_eq hlen]
    · by_cases hneg : handler.processEvent pos < 0
      · have hpass : p.pass u = .leave (.outErr (-22)) := by
          simp only [Pipe.pass, hstep, hevent, if_pos hneg]
        simp only [plainPass, hwhole.sizeAt, if_pos (Or.inr hneg)]
        exact .leave (.leave hpass) (.inr ⟨rfl, -22, rfl⟩)
      have hskip := Int64.not_lt.mp hneg
      have hneither : ¬ (size.toUInt64 < headerSize ∨ handler.processEvent pos < 0) :=
        not_or.mpr ⟨hgood, hneg⟩
      by_cases hstop : handler.sessionDone pos = true
      · have hpass : p.pass u = .leave .done := by
          simp only [Pipe.pass, hstep, hevent, hdone, if_neg hneg, if_pos hstop]
        simp only [plainPass, hwhole.sizeAt, if_neg hneither, if_pos hstop]
        exact .leave (.leave hpass) (.inl ⟨rfl, rfl⟩)
      have hpass : p.pass u = .again {
          io := readn headerSize.toNat
            (file.dataFrom (pos + (size.toUInt64 + (handler.processEvent pos).toUInt64))) io.calls
          label := .header
          head := u.head + (size.toUInt64 + (handler.processEvent pos).toUInt64)
          curSize } := by
        simp only [Pipe.pass, hstep, hevent, hdone, if_neg hneg, if_neg hstop, hrest,
          hp.next hpos hwhole hskip]
      by_cases hend : pos + (size.toUInt64 + (handler.processEvent pos).toUInt64) < file.endOfData
      · have hplain : file.plainPass handler pos =
            .again (pos + (size.toUInt64 + (handler.processEvent pos).toUInt64)) := by
          simp only [plainPass, hwhole.sizeAt, if_neg hneither, if_neg hstop, if_pos hend]
        rw [hplain]
        refine .again hpass ⟨h.visited.trans (.again hplain .refl), ?_, rfl, io.calls, rfl⟩
        rw [← hpos, UInt64.add_assoc]
      · -- the pipe goes round once more and finds that it is empty
        simp only [plainPass, hwhole.sizeAt, if_neg hneither, if_neg hstop, if_neg hend]
        have hempty : file.dataFrom
            (pos + (size.toUInt64 + (handler.processEvent pos).toUInt64)) = [] := by
          rw [dataFrom, List.drop_eq_nil_iff, List.length_take]
          rw [UInt64.not_lt, UInt64.le_iff_toNat_le] at hend
          exact (min_le_left _ _).trans hend
        rw [hempty] at hpass
        have hlast : Emits p.pass p.handed u (p.handed u ++ []) .done :=
          .again hpass (hp.ends rfl rfl)
        rw [List.append_nil] at hlast
        exact .leave (hlast.map file.inFile) (.inl ⟨rfl, rfl⟩)

end DataFile

end RPerf.Session
