import RPerf.Lib.TracedParser
import RPerf.Samples.RoundTrip

/-!
# What is read of an event

The accesses of `perf_evsel__parse_sample`, from the start of the event: the words that are
read and the areas that are handed out.
-/

namespace RPerf.Samples

open Lib

def checkedFields : List SampleBit :=
  [.read, .callchain, .raw, .branchStack, .regsUser, .stackUser, .weight, .dataSrc, .transaction,
    .regsIntr]

def regsLength (mask : UInt64) (mem : Memory) (o : ℕ) : ℕ :=
  if of64 (bytesAt mem o 8) = 0 then 8 else 8 + hweight mask * 8

/-- The length that a section at `o` gives itself. -/
def sectionLength (evsel : Evsel) (swapped : Bool) (mem : Memory) (o : ℕ) : SampleBit → ℕ
  | .read =>
    8 + (if hasFormat evsel.readFormat .totalTimeEnabled then 8 else 0) +
      (if hasFormat evsel.readFormat .totalTimeRunning then 8 else 0) +
      (if hasFormat evsel.readFormat .group then (of64 (bytesAt mem o 8)).toNat * 16 else 8)
  | .callchain => 8 + (of64 (bytesAt mem o 8)).toNat * 8
  | .raw => 4 + (unswapBoth swapped (wordAt mem o)).1.toNat
  | .branchStack => 8 + (of64 (bytesAt mem o 8)).toNat * 24
  | .regsUser => regsLength evsel.sampleRegsUser mem o
  | .stackUser =>
    if of64 (bytesAt mem o 8) = 0 then 8 else 8 + (of64 (bytesAt mem o 8)).toNat + 8
  | .regsIntr => regsLength evsel.sampleRegsIntr mem o
  | _ => 8

/-- What is asked of a section besides its room in the event. -/
def SectionOk (inp : Input (2 ^ 16)) (o : ℕ) : SampleBit → Prop
  | .raw => o + 8 ≤ inp.size
  | .stackUser =>
    of64 (bytesAt inp.mem o 8) ≠ 0 →
      of64 (bytesAt inp.mem (o + 8 + (of64 (bytesAt inp.mem o 8)).toNat) 8) ≤
        of64 (bytesAt inp.mem o 8)
  | _ => True

def sectionsLength (evsel : Evsel) (swapped : Bool) (mem : Memory) : ℕ → List SampleBit → ℕ
  | _, [] => 0
  | o, b :: bs =>
    let n := if has evsel.sampleType b then sectionLength evsel swapped mem o b else 0
    n + sectionsLength evsel swapped mem (o + n) bs

def SectionsOk (evsel : Evsel) (swapped : Bool) (inp : Input (2 ^ 16)) : ℕ → List SampleBit → Prop
  | _, [] => True
  | o, b :: bs =>
    (has evsel.sampleType b = true → SectionOk inp o b) ∧
      SectionsOk evsel swapped inp
        (o + if has evsel.sampleType b then sectionLength evsel swapped inp.mem o b else 0) bs

def Fits (evsel : Evsel) (swapped : Bool) (inp : Input (2 ^ 16)) : ℕ → List SampleBit → Prop
  | o, [] => has evsel.sampleType .physAddr = true → o + 8 ≤ inp.size
  | o, b :: bs =>
    let n := if has evsel.sampleType b then sectionLength evsel swapped inp.mem o b else 0
    (has evsel.sampleType b = true → SectionOk inp o b) → o + n ≤ inp.size →
      Fits evsel swapped inp (o + n) bs

theorem fits_iff {evsel : Evsel} {swapped : Bool} {inp : Input (2 ^ 16)} {bs : List SampleBit}
    {o : ℕ} (ho : o ≤ inp.size) :
    Fits evsel swapped inp o bs ↔
      (SectionsOk evsel swapped inp o bs →
        o + sectionsLength evsel swapped inp.mem o bs ≤ inp.size →
        has evsel.sampleType .physAddr = true →
        o + sectionsLength evsel swapped inp.mem o bs + 8 ≤ inp.size) := by
  induction bs generalizing o with
  | nil => exact ⟨fun h _ _ => h, fun h => h trivial ho⟩
  | cons b bs ih =>
    simp only [Fits, SectionsOk, sectionsLength, ← Nat.add_assoc]
    constructor
    · rintro h ⟨hb, hbs⟩ hle
      exact (ih (by omega)).mp (h hb (by omega)) hbs hle
    · intro h hb hle
      exact (ih hle).mpr fun hbs => h ⟨hb, hbs⟩

section

open Lib.Parser

variable {α : Type}

theorem takesAt_overflowCheck (n : ℕ) {inp : Input (2 ^ 16)} {o : ℕ} (ho : o ≤ inp.size) :
    TakesAt (overflowCheck n) inp o 0 (o + n ≤ inp.size) :=
  (TakesAt.silent ho rfl).of_eq rfl fun _ => by omega

theorem takesAt_overflowCheckU64 {inp : Input (2 ^ 16)} {o : ℕ} (ho : o ≤ inp.size) :
    TakesAt overflowCheckU64 inp o 0 (o + 8 ≤ inp.size) :=
  (TakesAt.silent ho rfl).of_eq rfl fun _ => by omega

theorem moves_word : Moves word 8 := .reading

theorem takes_checkedWord : Takes checkedWord (fun _ _ => 8) fun _ _ => True := fun _ _ ho =>
  ((takesAt_overflowCheckU64 ho).bind fun _ _ hok _ => moves_word.takesAt hok).of_eq
    (Nat.zero_add 8).symm fun hle => by simpa using hle

theorem takes_checkedWord_bind {f : UInt64 → Parser α} {len : UInt64 → Memory → ℕ → ℕ}
    {Ok : UInt64 → Input (2 ^ 16) → ℕ → Prop} (hf : ∀ x, Takes (f x) (len x) (Ok x)) :
    Takes (checkedWord >>= f) (fun mem o => 8 + len (of64 (bytesAt mem o 8)) mem (o + 8))
      fun inp o => True ∧ Ok (of64 (bytesAt inp.mem o 8)) inp (o + 8) := by
  intro inp o ho
  refine (takes_checkedWord inp o ho).bind fun a ha _ hle => ?_
  have hrun : checkedWord.run inp o = word.run inp o :=
    Lib.Parser.run_bind_ok (overflowCheckU64_ok hle)
  obtain ⟨rfl, -⟩ := Prod.mk.inj (Except.ok.inj (hrun.symm.trans ha))
  exact hf _ inp _ hle

theorem takes_overflowCheck {n : ℕ} {p : Parser α} (hp : Moves p n) :
    Takes (overflowCheck n >>= fun _ => p) (fun _ _ => n) fun _ _ => True := fun _ _ ho =>
  ((takesAt_overflowCheck n ho).bind fun _ _ hok _ => hp.takesAt hok).of_eq
    (Nat.zero_add n).symm fun hle => by simpa using hle

theorem moves_bytes (n : ℕ) : Moves (Lib.Parser.bytes n : Parser (List UInt8)) n := .reading

theorem takes_failIf {c : Prop} [Decidable c] {p : Parser α} {len : Memory → ℕ → ℕ}
    {Ok : Input (2 ^ 16) → ℕ → Prop} (hp : Takes p len Ok) :
    Takes (failIf c >>= fun _ => p) len fun inp o => ¬ c ∧ Ok inp o := fun inp o ho =>
  ((TakesAt.silent ho rfl).bind fun _ _ _ hle => hp inp o hle).of_eq (Nat.zero_add _).symm
    fun _ => Iff.rfl

theorem takes_checkedArray (size : ℕ) (hsize : 0 < size) (decode : List UInt8 → α) (nr : UInt64) :
    Takes (checkedArray size decode nr) (fun _ _ => nr.toNat * size) fun _ _ => True := by
  have hmoves : Moves (Lib.Parser.entries size decode nr.toNat : Parser (List α))
      (nr.toNat * size) := by
    rw [Nat.mul_comm]
    exact .reading
  intro inp o ho
  refine (takes_failIf (takes_overflowCheck hmoves) inp o ho).of_eq rfl fun hle => ?_
  have hlt := inp.size_lt
  have hwrap : ¬ (2 ^ 64 - 1) / size < nr.toNat := by
    rw [Nat.div_lt_iff_lt_mul hsize]
    omega
  exact ⟨fun _ => ⟨hwrap, trivial⟩, fun _ => trivial⟩

section

variable (evsel : Evsel) (swapped : Bool)

theorem takes_parseRead :
    Takes (parseRead evsel.readFormat) (fun mem o => sectionLength evsel swapped mem o .read)
      fun inp o => SectionOk inp o .read := by
  refine Takes.of_eq (takes_checkedWord_bind fun first =>
    (takes_checkedWord.optional _ _).then fun _ => (takes_checkedWord.optional _ _).then fun _ =>
      .ite ((takes_checkedArray 16 (by decide) _ first).then fun _ => .pure _)
        (takes_checkedWord.then fun _ => .pure _)) ?_ ?_
  · intro mem o
    simp only [sectionLength, Nat.add_zero, Nat.add_assoc]
  · simp [SectionOk]

theorem takes_parseCallchain :
    Takes parseCallchain (fun mem o => sectionLength evsel swapped mem o .callchain)
      fun inp o => SectionOk inp o .callchain :=
  (takes_checkedWord_bind fun nr => takes_checkedArray 8 (by decide) of64 nr).of_eq
    (fun _ _ => rfl) fun _ _ => by simp [SectionOk]

theorem takes_parseRaw :
    Takes (parseRaw swapped) (fun mem o => sectionLength evsel swapped mem o .raw)
      fun inp o => SectionOk inp o .raw := by
  intro inp o ho
  have hhalves (hle : o + 8 ≤ inp.size) : TakesAt (halves 4) inp o 4 True := by
    refine ⟨List.forall_mem_singleton.mpr ⟨le_rfl, Int.ofNat_le.mpr hle⟩, ?_, fun _ _ => ⟨_, rfl⟩⟩
    rintro _ _ ⟨⟩
    exact ⟨trivial, by omega, rfl⟩
  have hdata (u : UInt32 × UInt32) (hu : (halves 4).run inp o = .ok (u, o + 4))
      (hle : o + 4 ≤ inp.size) : TakesAt (do
        overflowCheck (unswapBoth swapped u).1.toNat
        Lib.Parser.bytes (unswapBoth swapped u).1.toNat : Parser (List UInt8)) inp (o + 4)
        (unswapBoth swapped (wordAt inp.mem o)).1.toNat True := by
    cases hu
    exact takes_overflowCheck (moves_bytes _) inp _ hle
  refine ((takesAt_overflowCheckU64 ho).bind fun _ _ hok _ =>
    (hhalves hok).bind fun u hu _ hle => hdata u hu hle).of_eq (Nat.zero_add _).symm ?_
  simp [SectionOk]

theorem takes_parseBranchStack :
    Takes parseBranchStack (fun mem o => sectionLength evsel swapped mem o .branchStack)
      fun inp o => SectionOk inp o .branchStack :=
  (takes_checkedWord_bind fun nr =>
    takes_checkedArray 24 (by decide) BranchEntry.ofBytes nr).of_eq
    (fun _ _ => rfl) fun _ _ => by simp [SectionOk]

theorem takes_parseRegs (mask : UInt64) :
    Takes (parseRegs mask) (regsLength mask) fun _ _ => True := by
  have hmoves : Moves (Lib.Parser.vector 8 of64 (hweight mask) : Parser _) (hweight mask * 8) := by
    rw [Nat.mul_comm]
    exact .reading
  refine Takes.of_eq (takes_checkedWord_bind fun abi =>
    .ite (takes_overflowCheck hmoves.map) (.pure _)) ?_ (by simp)
  intro mem o
  unfold regsLength
  by_cases h : of64 (bytesAt mem o 8) = 0 <;> simp [h]

theorem takes_parseStack :
    Takes parseStack (fun mem o => sectionLength evsel swapped mem o .stackUser)
      fun inp o => SectionOk inp o .stackUser := by
  have hdump (offset : ℕ) (sz : UInt64) : Takes (do
      overflowCheck sz.toNat
      let data ← Lib.Parser.bytes sz.toNat
      let size ← checkedWord
      failIf (sz < size)
      return { offset := UInt16.ofNat offset, data := data.take size.toNat } : Parser StackDump)
      (fun mem o => sz.toNat + 8) fun inp o =>
        of64 (bytesAt inp.mem (o + sz.toNat) 8) ≤ sz := by
    intro inp o ho
    refine ((takesAt_overflowCheck _ ho).bind fun _ _ hok _ =>
      ((moves_bytes _).takesAt hok).bind fun data _ _ hle =>
      takes_checkedWord_bind (fun size => takes_failIf (.pure _)) inp _ hle).of_eq ?_ ?_
    · simp
    · intro hle
      simp
      omega
  have hposition : Takes (Lib.Parser.position : Parser ℕ) (fun _ _ => 0) fun _ _ => ¬ False :=
    fun _ o ho => .silent (e := efault) (a := o) ho (if_neg not_false).symm
  refine Takes.of_eq (hposition.then fun offset =>
    takes_checkedWord_bind fun sz => (Takes.pure _).ite (hdump offset sz)) ?_ ?_
  · intro mem o
    simp only [sectionLength, Nat.add_zero]
    split_ifs <;> simp [Nat.add_assoc]
  · intro inp o
    simp only [SectionOk, Nat.add_zero]
    split_ifs with h <;> simp [h]

variable (inp : Input (2 ^ 16))

theorem inside_physAddr (g : UInt64 → PerfSample) (o : ℕ) :
    InsideIff 8 (do return g (← Lib.Parser.optional (has evsel.sampleType .physAddr) 0 word))
      inp o 0 (Fits evsel swapped inp o []) := by
  intro hlo _
  refine forall_log_bind.trans ((and_iff_left fun _ _ _ => List.forall_mem_nil _).trans ?_)
  cases hasked : has evsel.sampleType .physAddr with
  | false => exact iff_of_true (List.forall_mem_nil _) fun h => by rw [hasked] at h; cases h
  | true =>
    exact List.forall_mem_singleton.trans ⟨fun h _ => Int.ofNat_le.mp h.2,
      fun h => ⟨Int.ofNat_le.mpr hlo, Int.ofNat_le.mpr (h hasked)⟩⟩

theorem inside_checked (data : List UInt64 → SampleRead → PerfSample) (o : ℕ) :
    InsideIff 8 (do
      let read ← Lib.Parser.optional (has evsel.sampleType .read) {} (parseRead evsel.readFormat)
      let callchain ← Lib.Parser.optional (has evsel.sampleType .callchain) [] parseCallchain
      parseTail evsel swapped (data callchain read)) inp o 0
        (Fits evsel swapped inp o checkedFields) :=
  .takes ((takes_parseRead evsel swapped).optional _ _) fun _ =>
  .takes ((takes_parseCallchain evsel swapped).optional _ _) fun _ =>
  .takes ((takes_parseRaw evsel swapped).optional _ _) fun _ =>
  .takes ((takes_parseBranchStack evsel swapped).optional _ _) fun _ =>
  .takes ((takes_parseRegs evsel.sampleRegsUser).optional _ _) fun _ =>
  .takes ((takes_parseStack evsel swapped).optional _ _) fun _ =>
  .takes (takes_checkedWord.optional _ _) fun _ => .takes (takes_checkedWord.optional _ _) fun _ =>
  .takes (takes_checkedWord.optional _ _) fun _ =>
  .takes ((takes_parseRegs evsel.sampleRegsIntr).optional _ _) fun _ =>
  inside_physAddr evsel swapped inp _ _

theorem inside_sections (cpumode : UInt8) (hsize : 8 + sampleSize evsel.sampleType ≤ inp.size) :
    (∀ x ∈ (parseSections evsel cpumode swapped).log inp 8, x.Within 8 inp.size) ↔
      Fits evsel swapped inp (8 + sampleSize evsel.sampleType) checkedFields := by
  have hword (b : SampleBit) (x : UInt64) := moves_word.optional (has evsel.sampleType b) x
  have hhalves (b : SampleBit) (f : UInt32 × UInt32 → UInt32 × UInt32) (x : UInt32 × UInt32) :=
    (Moves.map (g := f) (.reading : Moves (halves 8) 8)).optional (has evsel.sampleType b) x
  have hlen : sampleSize evsel.sampleType = _ := sampleSize_eq _
  simp only [List.countP_cons, List.countP_nil, Nat.add_mul, ite_mul, Nat.one_mul,
    Nat.zero_mul] at hlen
  refine ((InsideIff.moves (hword .identifier _) fun _ => .moves (hword .ip _) fun _ =>
    .moves (hhalves .tid _ _) fun _ => .moves (hword .time _) fun _ =>
    .moves (hword .addr _) fun _ => .moves (hword .id _) fun _ =>
      .moves (hword .streamId _) fun _ =>
    .moves (hhalves .cpu _ _) fun _ => .moves (hword .period _) fun _ =>
    inside_checked evsel swapped inp _ _) le_rfl (le_of_eq_of_le ?_ hsize)).trans
    (iff_of_eq (congrArg (Fits evsel swapped inp · checkedFields) ?_))
  · rw [hlen]
    ring
  · rw [hlen]
    ring

end

end

def idFields : List SampleBit := [.identifier, .cpu, .streamId, .id, .time, .tid]

def setId (event : Event) (needsSwap : Bool) (o : ℤ) (data : PerfSample) : SampleBit → PerfSample
  | .identifier | .id => { data with id := event.word o }
  | .cpu => { data with cpu := (unswapFirst needsSwap (event.halves o)).1 }
  | .streamId => { data with streamId := event.word o }
  | .time => { data with time := event.word o }
  | .tid =>
    { data with
      pid := (unswapBoth needsSwap (event.halves o)).1
      tid := (unswapBoth needsSwap (event.halves o)).2 }
  | _ => data

structure IdState where
  pos : ℤ
  data : PerfSample
  log : List Access := []

section

variable (evsel : Evsel) (event : Event) (needsSwap : Bool)

def readId (r : IdState) (b : SampleBit) : IdState where
  pos := if has evsel.sampleType b then r.pos - 8 else r.pos
  data := if has evsel.sampleType b then setId event needsSwap r.pos r.data b else r.data
  log := if has evsel.sampleType b then r.log ++ [⟨r.pos, 8⟩] else r.log

def lastWord : ℤ := 8 + (((event.header.size.toNat : ℤ) - 8) / 8 - 1) * 8

/-- `perf_evsel__parse_id_sample` with its accesses. -/
def readIds (data : PerfSample) : IdState :=
  idFields.foldl (readId evsel event needsSwap) { pos := lastWord event, data }

theorem readIds_data (data : PerfSample) :
    (readIds evsel event needsSwap data).data = parseIdSample evsel event needsSwap data := rfl

/-- The words read from `o` backwards. -/
def idWords (type : UInt64) : ℤ → List SampleBit → List Access
  | _, [] => []
  | o, b :: bs => if has type b then ⟨o, 8⟩ :: idWords type (o - 8) bs else idWords type o bs

theorem foldl_readId_log (bs : List SampleBit) (r : IdState) :
    (bs.foldl (readId evsel event needsSwap) r).log =
      r.log ++ idWords evsel.sampleType r.pos bs := by
  induction bs generalizing r with
  | nil => rw [List.foldl_nil, idWords, List.append_nil]
  | cons b bs ih =>
    rw [List.foldl_cons, ih, idWords, readId]
    split_ifs
    · rw [List.append_assoc, List.singleton_append]
    · rfl

theorem idWords_within_iff {type : UInt64} {size : ℕ} {bs : List SampleBit} {o : ℤ}
    (hsize : o + 8 ≤ size) :
    (∀ x ∈ idWords type o bs, x.Within 8 size) ↔
      bs.countP (has type) = 0 ∨ 8 * (bs.countP (has type) : ℤ) ≤ o := by
  induction bs generalizing o with
  | nil => simp [idWords]
  | cons b bs ih =>
    rw [idWords]
    by_cases hb : has type b = true
    · rw [if_pos hb, List.forall_mem_cons, ih (by omega), List.countP_cons_of_pos hb]
      have hfirst : (⟨o, 8⟩ : Access).Within 8 size ↔ 8 ≤ o := ⟨fun h => h.1, fun h => ⟨h, hsize⟩⟩
      rw [hfirst]
      generalize bs.countP (has type) = n
      omega
    · rw [if_neg hb, ih hsize, List.countP_cons_of_neg hb]

theorem Event.size_lt : event.header.size.toNat < 2 ^ 16 :=
  event.header.size.toNat_lt

def Event.input : Input (2 ^ 16) :=
  ⟨event.mem, event.header.size.toNat, event.size_lt⟩

def Event.cpumode : UInt8 := (event.header.misc &&& 7).toUInt8

/-- The accesses of `perf_evsel__parse_sample`. -/
def accesses : List Access :=
  if event.header.type ≠ perfRecordSample then
    if evsel.sampleIdAll then (readIds evsel event needsSwap {}).log else []
  else if event.header.size.toNat < sampleSize evsel.sampleType + 8 then []
  else (parseSections evsel event.cpumode needsSwap).log event.input 8

end

variable {evsel : Evsel} {event : Event}

def checkedStart (evsel : Evsel) : ℕ := 8 + sampleSize evsel.sampleType

def checkedEnd (evsel : Evsel) (event : Event) (needsSwap : Bool) : ℕ :=
  checkedStart evsel +
    sectionsLength evsel needsSwap event.mem (checkedStart evsel) checkedFields

/-- Everything in front of the physical address is there, and of that itself less than its eight
bytes. -/
structure PhysAddrCut (evsel : Evsel) (event : Event) (needsSwap : Bool) : Prop where
  asked : has evsel.sampleType .physAddr = true
  ok : SectionsOk evsel needsSwap event.input (checkedStart evsel) checkedFields
  there : checkedEnd evsel event needsSwap ≤ event.header.size.toNat
  cut : event.header.size.toNat < checkedEnd evsel event needsSwap + 8

/-- There is a word for each id behind the header. -/
def IdsFit (evsel : Evsel) (event : Event) : Prop :=
  8 * idFields.countP (has evsel.sampleType) ≤ event.header.size.toNat - 8

theorem ids_within_iff (needsSwap : Bool) (hheader : 8 ≤ event.header.size.toNat) :
    (∀ x ∈ (readIds evsel event needsSwap {}).log, x.Within 8 event.header.size.toNat) ↔
      IdsFit evsel event := by
  rw [readIds, foldl_readId_log, List.nil_append,
    idWords_within_iff (by simp only [lastWord]; omega)]
  simp only [IdsFit, lastWord]
  omega

theorem sections_within_iff {needsSwap : Bool}
    (hsize : checkedStart evsel ≤ event.header.size.toNat) :
    (∀ x ∈ (parseSections evsel event.cpumode needsSwap).log event.input 8,
      x.Within 8 event.header.size.toNat) ↔ ¬ PhysAddrCut evsel event needsSwap := by
  refine (inside_sections evsel needsSwap event.input event.cpumode hsize).trans
    ((fits_iff hsize).trans ?_)
  constructor
  · rintro h ⟨hasked, hok, hthere, hcut⟩
    exact absurd (h hok hthere hasked) (not_le.mpr hcut)
  · intro h hok hthere hasked
    exact not_lt.mp fun hcut => h ⟨hasked, hok, hthere, hcut⟩

/-- All that is read and handed out lies inside of the event, exactly if no physical address is cut
off and there is a word for each id. -/
theorem sample_reads_within_iff (evsel : Evsel) (event : Event) (needsSwap : Bool)
    (hheader : 8 ≤ event.header.size.toNat) :
    (∀ x ∈ accesses evsel event needsSwap, x.Within 8 event.header.size.toNat) ↔
      (event.header.type = perfRecordSample → ¬ PhysAddrCut evsel event needsSwap) ∧
        (event.header.type ≠ perfRecordSample → evsel.sampleIdAll = true → IdsFit evsel event) := by
  unfold accesses
  by_cases htype : event.header.type = perfRecordSample
  · simp only [htype, ne_eq, not_true_eq_false, if_false, true_imp_iff, false_imp_iff, and_true]
    split_ifs with hsize
    · refine ⟨fun _ hcut => ?_, fun _ => List.forall_mem_nil _⟩
      have hstart : checkedStart evsel ≤ checkedEnd evsel event needsSwap := Nat.le_add_right _ _
      have := hcut.there
      unfold checkedStart at hstart
      omega
    · exact sections_within_iff (by unfold checkedStart; omega)
  · simp only [htype, ne_eq, not_false_eq_true, if_true, true_imp_iff, false_imp_iff, true_and]
    by_cases hall : evsel.sampleIdAll = true
    · simp only [hall, if_true, true_imp_iff]
      exact ids_within_iff needsSwap hheader
    · simp [hall]

/-- A physical address behind the header. -/
def physAddrEvent (size : UInt16) : Event := { header := { type := 9, size }, mem := fun _ => 0 }

theorem sample_reads_within_physAddr :
    accesses { sampleType := 0x80000 } (physAddrEvent 16) false = [⟨8, 8⟩] ∧
      (⟨8, 8⟩ : Access).Within 8 16 := by
  have haccesses : accesses { sampleType := 0x80000 } (physAddrEvent 16) false = [⟨8, 8⟩] := rfl
  refine ⟨haccesses, ?_⟩
  refine (sample_reads_within_iff { sampleType := 0x80000 } (physAddrEvent 16) false
    (by decide)).mpr ⟨fun _ hcut => ?_, fun h => absurd rfl h⟩ _
    (haccesses ▸ List.mem_singleton_self _)
  exact absurd hcut.cut (by decide)

theorem sample_reads_outside :
    (∃ x ∈ accesses { sampleType := 0x80000 } (physAddrEvent 8) false, ¬ x.Within 8 8) ∧
      ∃ x ∈ accesses { sampleType := 2, sampleIdAll := true }
        { header := { type := 1, size := 8 }, mem := fun _ => 0 } false, ¬ x.Within 8 8 :=
  ⟨⟨⟨8, 8⟩, List.mem_singleton_self _, by decide⟩, ⟨⟨0, 8⟩, by decide, by decide⟩⟩

end RPerf.Samples
