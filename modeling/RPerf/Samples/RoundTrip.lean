import RPerf.Samples.Event

/-!
# Samples come back

What `perf_event__synthesize_sample` writes is as long as `perf_event__sample_event_size`
says, and `perf_evsel__parse_sample` finds the sample in it again.
-/

namespace RPerf.Samples

open Lib

def readBytes (readFormat : UInt64) (r : SampleRead) : List UInt8 :=
  (if hasFormat readFormat .group then le64Nat r.group.length else le64 r.one.value) ++
    (if hasFormat readFormat .totalTimeEnabled then le64 r.timeEnabled else []) ++
    (if hasFormat readFormat .totalTimeRunning then le64 r.timeRunning else []) ++
    (if hasFormat readFormat .group then r.group.flatMap SampleReadValue.bytes
      else le64 r.one.id)

def callchainBytes (callchain : List UInt64) : List UInt8 :=
  le64Nat callchain.length ++ callchain.flatMap le64

def rawBytes (first : UInt32) (data : List UInt8) : List UInt8 := le32 first ++ data

def branchStackBytes (entries : List BranchEntry) : List UInt8 :=
  le64Nat entries.length ++ entries.flatMap BranchEntry.bytes

def regsBytes (regs : RegsDump) : List UInt8 :=
  if regs.abi ≠ 0 then le64 regs.abi ++ regs.regs.toList.flatMap le64 else le64 0

def stackBytes (data : List UInt8) : List UInt8 :=
  le64Nat data.length ++ if data.length ≠ 0 then data ++ le64Nat data.length else []

section Sections

variable (type readFormat : UInt64) (s : PerfSample)

def headBytes (tid cpu : UInt32 × UInt32) : List UInt8 :=
  let on (b : SampleBit) (bytes : List UInt8) : List UInt8 := if has type b then bytes else []
  on .identifier (le64 s.id) ++ on .ip (le64 s.ip) ++ on .tid (halfBytes tid) ++
    on .time (le64 s.time) ++ on .addr (le64 s.addr) ++ on .id (le64 s.id) ++
    on .streamId (le64 s.streamId) ++ on .cpu (halfBytes cpu) ++ on .period (le64 s.period) ++
    on .read (readBytes readFormat s.read) ++ on .callchain (callchainBytes s.callchain)

def tailBytes : List UInt8 :=
  let on (b : SampleBit) (bytes : List UInt8) : List UInt8 := if has type b then bytes else []
  on .branchStack (branchStackBytes s.branchStack) ++ on .regsUser (regsBytes s.userRegs) ++
    on .stackUser (stackBytes s.userStack.data) ++ on .weight (le64 s.weight) ++
    on .dataSrc (le64 s.dataSrc) ++ on .transaction (le64 s.transaction) ++
    on .regsIntr (regsBytes s.intrRegs) ++ on .physAddr (le64 s.physAddr)

/-- A sample behind its header. -/
def sampleBytes (tid cpu : UInt32 × UInt32) (size : UInt32) : List UInt8 :=
  headBytes type readFormat s tid cpu ++
    ((if has type .raw then rawBytes size s.rawData else []) ++ tailBytes type s)

end Sections

@[simp] theorem length_le64 (x : UInt64) : (le64 x).length = 8 := length_littleEndian 8 _

@[simp] theorem length_le64Nat (n : ℕ) : (le64Nat n).length = 8 := length_le64 _

@[simp] theorem length_le32 (x : UInt32) : (le32 x).length = 4 := length_littleEndian 4 _

@[simp] theorem SampleReadValue.length_bytes (v : SampleReadValue) : v.bytes.length = 16 := by
  simp [SampleReadValue.bytes]

@[simp] theorem BranchEntry.length_bytes (e : BranchEntry) : e.bytes.length = 24 := by
  simp [BranchEntry.bytes]

@[simp] theorem length_readBytes (readFormat : UInt64) (r : SampleRead) :
    (readBytes readFormat r).length =
      8 + (if hasFormat readFormat .totalTimeEnabled then 8 else 0) +
        (if hasFormat readFormat .totalTimeRunning then 8 else 0) +
        (if hasFormat readFormat .group then r.group.length * 16 else 8) := by
  simp only [readBytes, List.length_append, apply_ite List.length, length_le64, length_le64Nat,
    length_flatMap_of_width SampleReadValue.length_bytes, List.length_nil, ite_self,
    Nat.mul_comm 16]

@[simp] theorem length_callchainBytes (callchain : List UInt64) :
    (callchainBytes callchain).length = (callchain.length + 1) * 8 := by
  rw [callchainBytes, List.length_append, length_le64Nat, length_flatMap_of_width length_le64]
  omega

@[simp] theorem length_halfBytes (u : UInt32 × UInt32) : (halfBytes u).length = 8 := by
  simp [halfBytes]

@[simp] theorem length_rawBytes (first : UInt32) (data : List UInt8) :
    (rawBytes first data).length = 4 + data.length := by
  simp [rawBytes]

@[simp] theorem length_branchStackBytes (entries : List BranchEntry) :
    (branchStackBytes entries).length = entries.length * 24 + 8 := by
  rw [branchStackBytes, List.length_append, length_le64Nat,
    length_flatMap_of_width BranchEntry.length_bytes]
  omega

@[simp] theorem length_regsBytes (regs : RegsDump) : (regsBytes regs).length = regsSize regs := by
  simp only [regsBytes, regsSize, apply_ite List.length, List.length_append, length_le64,
    length_flatMap_of_width length_le64, Vector.length_toList, Nat.mul_comm 8]

@[simp] theorem length_stackBytes (data : List UInt8) :
    (stackBytes data).length = 8 + if data.length ≠ 0 then data.length + 8 else 0 := by
  simp only [stackBytes, List.length_append, apply_ite List.length, length_le64Nat, List.length_nil]

theorem length_sampleBytes (type readFormat : UInt64) (s : PerfSample) (tid cpu : UInt32 × UInt32)
    (size : UInt32) :
    8 + (sampleBytes type readFormat s tid cpu size).length =
      sampleEventSize s type readFormat := by
  unfold sampleBytes headBytes tailBytes sampleEventSize
  simp only [List.length_append, apply_ite List.length, length_le64, length_halfBytes,
    length_readBytes, length_callchainBytes, length_rawBytes, length_branchStackBytes,
    length_regsBytes, length_stackBytes, List.length_nil]
  simp only [Nat.add_assoc]

theorem sampleSize_eq (type : UInt64) :
    sampleSize type =
      [.ip, .tid, .time, .addr, .id, .cpu, .period, .streamId, .identifier].countP
        (has type) * 8 := by
  have hbits : (List.range 64).filter (bit perfSampleMask) =
      [SampleBit.ip, .tid, .time, .addr, .id, .cpu, .period, .streamId, .identifier].map
        SampleBit.pos := by
    decide
  have hand : bit (type &&& perfSampleMask) = fun i => bit type i && bit perfSampleMask i := by
    funext i
    rw [bit, UInt64.toNat_and, Nat.testBit_and, bit, bit]
  rw [sampleSize, hweight, hand, ← List.countP_filter, hbits, List.countP_map]
  rfl

theorem sampleSize_le (s : PerfSample) (type readFormat : UInt64) :
    sampleSize type + 8 ≤ sampleEventSize s type readFormat := by
  rw [sampleSize_eq]
  unfold sampleEventSize
  iterate 11 apply Nat.le_add_right_of_le
  apply le_of_eq
  simp only [List.countP_cons, List.countP_nil, Nat.add_mul, ite_mul, Nat.one_mul, Nat.zero_mul]
  ring

section Writers

variable {slack : ℕ}

theorem writes_read (readFormat : UInt64) (r : SampleRead) :
    Writes slack (writeRead readFormat r) (readBytes readFormat r) := fun w =>
  (((writes_put _ w).step (.optional _ fun _ => writes_put _)).step
    (.optional _ fun _ => writes_put _)).step (writes_put _)

theorem writes_raw (u : UInt32 × UInt32) {data : List UInt8} (hraw : 4 ≤ data.length + slack) :
    Writes slack (writeRaw u data) (rawBytes u.1 data) :=
  writes_overlap (by rwa [length_le32])

theorem writes_regs (regs : RegsDump) : Writes slack (writeRegs regs) (regsBytes regs) :=
  .ite (fun _ => (writes_put _).append (writes_put _)) fun _ => writes_put _

theorem writes_stack (data : List UInt8) : Writes slack (writeStack data) (stackBytes data) := by
  intro w
  by_cases hdata : data.length ≠ 0
  · simp only [writeStack, stackBytes, if_pos hdata]
    exact (writes_put _ w).step ((writes_put _).append (writes_put _))
  · simp only [writeStack, stackBytes, if_neg hdata]
    exact (writes_put _ w).step Appends.refl

theorem writes_halves (c : Bool) (u v : UInt32 × UInt32) :
    Writes slack (·.optional c (·.put (halfBytes (if c then u else v))))
      (if c then halfBytes u else []) := by
  apply Writes.optional
  intro h
  simp only [h, if_true]
  exact writes_put _

end Writers

section Union

variable (type : UInt64) (s : PerfSample) (u : UInt32 × UInt32) (swapped : Bool)

def unionAtCpu : UInt32 × UInt32 :=
  if has type .tid then swapBoth swapped (s.pid, s.tid) else u

/-- The word of the processor. -/
def cpuHalves : UInt32 × UInt32 := swapFirst swapped (s.cpu, (unionAtCpu type s u swapped).2)

def unionAtRaw : UInt32 × UInt32 :=
  if has type .cpu then cpuHalves type s u swapped else unionAtCpu type s u swapped

def rawHalves : UInt32 × UInt32 :=
  swapBoth swapped (UInt32.ofNat s.rawData.length, (unionAtRaw type s u swapped).2)

/-- What is written of a sample. -/
def writtenBytes (readFormat : UInt64) : List UInt8 :=
  sampleBytes type readFormat s (swapBoth swapped (s.pid, s.tid)) (cpuHalves type s u swapped)
    (rawHalves type s u swapped).1

theorem synthesizeSample_appends (readFormat : UInt64) (slack : ℕ)
    (hraw : has type .raw → 4 ≤ s.rawData.length + slack) (w : Cursor) :
    Appends slack w (synthesizeSample type readFormat s u w swapped)
      (writtenBytes type s u swapped readFormat) := by
  have hput (c : Bool) (bs : List UInt8) :
      Writes slack (·.optional c (·.put bs)) (if c then bs else []) :=
    .optional c fun _ => writes_put bs
  have hwrite : Writes slack (·.optional (has type .raw) (writeRaw
      (if has type .raw then rawHalves type s u swapped else unionAtRaw type s u swapped)
        s.rawData))
      (if has type .raw then rawBytes (rawHalves type s u swapped).1 s.rawData else []) := by
    apply Writes.optional
    intro h
    simp only [h, if_true]
    exact writes_raw _ (hraw h)
  unfold writtenBytes sampleBytes headBytes tailBytes
  simp only [← List.append_assoc]
  apply Appends.step _ (hput _ _)
  apply Appends.step _ (.optional _ fun _ => writes_regs _)
  apply Appends.step _ (hput _ _)
  apply Appends.step _ (hput _ _)
  apply Appends.step _ (hput _ _)
  apply Appends.step _ (.optional _ fun _ => writes_stack _)
  apply Appends.step _ (.optional _ fun _ => writes_regs _)
  apply Appends.step _ (hput _ _)
  apply Appends.step _ hwrite
  apply Appends.step _ (hput _ _)
  apply Appends.step _ (.optional _ fun _ => writes_read _ _)
  apply Appends.step _ (hput _ _)
  apply Appends.step _ (writes_halves _ (cpuHalves type s u swapped) _)
  apply Appends.step _ (hput _ _)
  apply Appends.step _ (hput _ _)
  apply Appends.step _ (hput _ _)
  apply Appends.step _ (hput _ _)
  apply Appends.step _ (writes_halves _ (swapBoth swapped (s.pid, s.tid)) u)
  apply Appends.step _ (hput _ _)
  exact hput _ _ w

end Union

theorem of64_le64 (x : UInt64) : of64 (le64 x) = x := by
  have hlt : x.toNat < 256 ^ 8 := x.toNat_lt
  rw [of64, le64, ofBytes_littleEndian, Nat.mod_eq_of_lt hlt, UInt64.ofNat_toNat]

theorem of32_le32 (x : UInt32) : of32 (le32 x) = x := by
  have hlt : x.toNat < 256 ^ 4 := x.toNat_lt
  rw [of32, le32, ofBytes_littleEndian, Nat.mod_eq_of_lt hlt, UInt32.ofNat_toNat]

theorem le32_of32 {bs : List UInt8} (h : bs.length = 4) : le32 (of32 bs) = bs := by
  have hlt : ofBytes bs < UInt32.size := by
    have hlt := ofBytes_lt bs
    rwa [h] at hlt
  rw [le32, of32, UInt32.toNat_ofNat_of_lt' hlt, ← h, littleEndian_ofBytes]

@[simp] theorem bswap32_bswap32 (x : UInt32) : bswap32 (bswap32 x) = x := by
  rw [bswap32, bswap32, le32_of32 (by simp), List.reverse_reverse, of32_le32]

@[simp] theorem bswap64_bswap64 (u : UInt32 × UInt32) : bswap64 (bswap64 u) = u := by
  simp [bswap64]

@[simp] theorem unswapBoth_swapBoth (swapped : Bool) (u : UInt32 × UInt32) :
    unswapBoth swapped (swapBoth swapped u) = u := by
  cases swapped <;> simp [unswapBoth, swapBoth]

@[simp] theorem unswapFirst_swapFirst (swapped : Bool) (u : UInt32 × UInt32) :
    unswapFirst swapped (swapFirst swapped u) = u := by
  cases swapped <;> simp [unswapFirst, swapFirst]

theorem SampleReadValue.ofBytes_bytes (v : SampleReadValue) :
    SampleReadValue.ofBytes v.bytes = v := by
  simp [SampleReadValue.ofBytes, SampleReadValue.bytes, of64_le64]

theorem BranchEntry.ofBytes_bytes (e : BranchEntry) : BranchEntry.ofBytes e.bytes = e := by
  have hdrop : List.drop 16 (le64 e.from_) = [] := List.drop_eq_nil_of_le (by simp)
  simp [BranchEntry.ofBytes, BranchEntry.bytes, List.drop_append, hdrop, of64_le64]

theorem failIf_ok {c : Prop} [Decidable c] (h : ¬ c) (inp : Input (2 ^ 16)) (o : ℕ) :
    (failIf c).run inp o = .ok ((), o) :=
  if_neg h

variable {o : ℕ}

theorem overflowCheck_ok {size : ℕ} {inp : Input (2 ^ 16)} (h : o + size ≤ inp.size) :
    (overflowCheck size).run inp o = .ok ((), o) :=
  if_neg (by omega)

theorem overflowCheckU64_ok {inp : Input (2 ^ 16)} (h : o + 8 ≤ inp.size) :
    overflowCheckU64.run inp o = .ok ((), o) :=
  if_neg (by omega)

theorem parses_word (o : ℕ) (x : UInt64) : Parses word o (le64 x) x := by
  intro inp hbytes _
  rw [length_le64] at hbytes ⊢
  change Except.ok (of64 (bytesAt inp.mem o 8), _) = _
  rw [hbytes, of64_le64]
  rfl

theorem wordAt_of_bytes {mem : Memory} {u : UInt32 × UInt32} (h : bytesAt mem o 8 = halfBytes u) :
    wordAt mem o = u := by
  obtain ⟨hlow, hhigh⟩ := List.append_inj ((bytesAt_add mem o 4 4).symm.trans h) (by simp)
  rw [wordAt, hlow, hhigh, of32_le32, of32_le32]

theorem parses_halves (o : ℕ) (u : UInt32 × UInt32) : Parses (halves 8) o (halfBytes u) u := by
  intro inp hbytes _
  rw [length_halfBytes] at hbytes ⊢
  change Except.ok (wordAt inp.mem o, _) = _
  rw [wordAt_of_bytes hbytes]
  rfl

theorem parses_checkedWord (o : ℕ) (x : UInt64) : Parses checkedWord o (le64 x) x := by
  apply Parses.check _ (parses_word o x)
  intro inp hsize
  rw [length_le64] at hsize
  exact overflowCheckU64_ok hsize

section Arrays

variable {α : Type} {encode : α → List UInt8} {decode : List UInt8 → α} {size : ℕ}

theorem parses_array (hw : ∀ a, (encode a).length = size) (hdec : ∀ a, decode (encode a) = a)
    (hpos : 0 < size) (o : ℕ) (l : List α) :
    Parses (checkedArray size decode (UInt64.ofNat l.length)) o (l.flatMap encode) l := by
  apply Parses.of_lt
  intro hlen
  rw [length_flatMap_of_width hw] at hlen
  have hle : l.length ≤ size * l.length := Nat.le_mul_of_pos_left _ hpos
  have hnat : (UInt64.ofNat l.length).toNat = l.length :=
    UInt64.toNat_ofNat_of_lt' (by simp only [UInt64.size]; omega)
  have hmax : ¬ (2 ^ 64 - 1) / size < l.length := by
    rw [Nat.not_lt, Nat.le_div_iff_mul_le hpos, Nat.mul_comm]
    omega
  rw [checkedArray, hnat]
  apply Parses.check fun inp _ => failIf_ok hmax inp o
  apply Parses.check _ (Parses.entries hw hdec o l)
  intro inp hsize
  rw [length_flatMap_of_width hw, Nat.mul_comm] at hsize
  exact overflowCheck_ok hsize

end Arrays

theorem parses_callchain (o : ℕ) (callchain : List UInt64) :
    Parses parseCallchain o (callchainBytes callchain) callchain :=
  (parses_checkedWord o _).bind (parses_array length_le64 of64_le64 (by decide) _ _)

theorem parses_branchStack (o : ℕ) (entries : List BranchEntry) :
    Parses parseBranchStack o (branchStackBytes entries) entries :=
  (parses_checkedWord o _).bind
    (parses_array BranchEntry.length_bytes BranchEntry.ofBytes_bytes (by decide) _ _)

def readBack (readFormat : UInt64) (r : SampleRead) : SampleRead where
  timeEnabled := if hasFormat readFormat .totalTimeEnabled then r.timeEnabled else 0
  timeRunning := if hasFormat readFormat .totalTimeRunning then r.timeRunning else 0
  group := if hasFormat readFormat .group then r.group else []
  one := if hasFormat readFormat .group then {} else r.one

theorem parses_read (readFormat : UInt64) (o : ℕ) (r : SampleRead) :
    Parses (parseRead readFormat) o (readBytes readFormat r) (readBack readFormat r) := by
  rw [readBytes, List.append_assoc, List.append_assoc]
  have htime (b : FormatBit) (x : UInt64) (o : ℕ) :
      Parses (Lib.Parser.optional (hasFormat readFormat b) 0 checkedWord) o
        (if hasFormat readFormat b then le64 x else []) (if hasFormat readFormat b then x else 0) :=
    .optional _ _ fun _ => parses_checkedWord o x
  cases hgroup : hasFormat readFormat .group with
  | true =>
    simp only [if_true]
    apply (parses_checkedWord o _).bind
    apply (htime .totalTimeEnabled r.timeEnabled _).bind
    apply (htime .totalTimeRunning r.timeRunning _).bind
    simp only [hgroup, if_true, readBack]
    exact (parses_array SampleReadValue.length_bytes SampleReadValue.ofBytes_bytes (by decide) _
      r.group).map _
  | false =>
    simp only [Bool.false_eq_true, if_false]
    apply (parses_checkedWord o _).bind
    apply (htime .totalTimeEnabled r.timeEnabled _).bind
    apply (htime .totalTimeRunning r.timeRunning _).bind
    simp only [hgroup, Bool.false_eq_true, if_false, readBack]
    exact (parses_checkedWord _ _).map _

theorem wordAt_raw {mem : Memory} {first : UInt32} {data cs : List UInt8}
    (hbytes : bytesAt mem o (rawBytes first data ++ cs).length = rawBytes first data ++ cs)
    (hlong : 4 ≤ (data ++ cs).length) : wordAt mem o = (first, of32 ((data ++ cs).take 4)) := by
  rw [rawBytes, List.append_assoc] at hbytes
  obtain ⟨hfirst, hrest⟩ := bytesAt_append.mp hbytes
  rw [length_le32] at hfirst hrest
  rw [← Nat.add_sub_of_le hlong, bytesAt_add] at hrest
  rw [wordAt, hfirst, of32_le32, ← hrest, List.take_left' (length_bytesAt _ _ _)]

theorem parsesBefore_raw {swapped : Bool} {first : UInt32} {data cs : List UInt8}
    (hlong : 4 ≤ (data ++ cs).length)
    (hword : (unswapBoth swapped (first, of32 ((data ++ cs).take 4))).1 =
      UInt32.ofNat data.length) :
    ParsesBefore (parseRaw swapped) o (rawBytes first data) cs data := by
  intro inp hbytes hsize
  have hlt := inp.size_lt
  have hdata := (bytesAt_append.mp (bytesAt_append.mp hbytes).1).2
  rw [length_le32] at hdata
  rw [List.length_append, length_rawBytes] at hsize
  have hlong' := hlong
  rw [List.length_append] at hlong'
  have hnat : (UInt32.ofNat data.length).toNat = data.length :=
    UInt32.toNat_ofNat_of_lt' (by simp only [UInt32.size]; omega)
  have hword' : (unswapBoth swapped (wordAt inp.mem o)).1.toNat = data.length := by
    rw [wordAt_raw hbytes hlong, hword, hnat]
  have hhalves : (halves 4).run inp o = .ok (wordAt inp.mem o, o + 4) := rfl
  rw [parseRaw, Lib.Parser.run_bind_ok (overflowCheckU64_ok (by omega)),
    Lib.Parser.run_bind_ok hhalves]
  dsimp only
  rw [hword', Lib.Parser.run_bind_ok (overflowCheck_ok (by omega))]
  change Except.ok (bytesAt inp.mem (o + 4) data.length, o + 4 + data.length) = _
  rw [hdata, length_rawBytes, Nat.add_assoc]

def regsBack (regs : RegsDump) : RegsDump := if regs.abi ≠ 0 then regs else {}

theorem parses_regs (o : ℕ) {mask : UInt64} {regs : RegsDump}
    (hmask : regs.abi ≠ 0 → regs.mask = mask) :
    Parses (parseRegs mask) o (regsBytes regs) (regsBack regs) := by
  by_cases habi : regs.abi ≠ 0
  · rw [regsBytes, regsBack, if_pos habi, if_pos habi]
    apply (parses_checkedWord o _).bind
    rw [if_pos habi]
    obtain rfl := hmask habi
    apply Parses.check
    · intro inp hsize
      rw [length_flatMap_of_width length_le64, Vector.length_toList, Nat.mul_comm] at hsize
      exact overflowCheck_ok hsize
    · exact (Parses.vector length_le64 of64_le64 _ regs.regs).map _
  · rw [regsBytes, regsBack, if_neg habi, if_neg habi, ← List.append_nil (le64 0)]
    apply (parses_checkedWord o _).bind
    exact Parses.pure _ _

theorem parses_position (o : ℕ) : Parses (Lib.Parser.position : Parser ℕ) o [] o := fun _ _ _ => rfl

theorem parses_stack (o : ℕ) (data : List UInt8) :
    Parses parseStack o (stackBytes data) ⟨UInt16.ofNat o, data⟩ := by
  apply Parses.of_lt
  intro hlen
  rw [length_stackBytes] at hlen
  have hnat : (UInt64.ofNat data.length).toNat = data.length :=
    UInt64.toNat_ofNat_of_lt' (by simp only [UInt64.size]; split_ifs at hlen <;> omega)
  apply (parses_position o).bind
  apply (parses_checkedWord _ _).bind
  by_cases hdata : data.length ≠ 0
  · have hsz : UInt64.ofNat data.length ≠ 0 := by
      intro h
      rw [h] at hnat
      exact hdata hnat.symm
    rw [if_neg hsz, if_pos hdata, hnat]
    apply Parses.check
    · intro inp hsize
      rw [List.length_append] at hsize
      exact overflowCheck_ok (by omega)
    · apply (Parses.bytes _ data).bind
      rw [← List.append_nil (le64Nat _)]
      apply (parses_checkedWord _ _).bind
      apply Parses.check fun inp _ => failIf_ok (UInt64.lt_irrefl _) inp _
      rw [hnat, List.take_length]
      exact Parses.pure _ _
  · obtain rfl : data = [] := by simpa using hdata
    exact Parses.pure _ _

/-- The attributes have the mask of the registers that a sample has. -/
structure Matches (evsel : Evsel) (s : PerfSample) : Prop where
  userRegs : has evsel.sampleType .regsUser → s.userRegs.abi ≠ 0 →
    s.userRegs.mask = evsel.sampleRegsUser
  intrRegs : has evsel.sampleType .regsIntr → s.intrRegs.abi ≠ 0 →
    s.intrRegs.mask = evsel.sampleRegsIntr

/-- The fields of a sample that its type selects are those of another one. -/
structure Recovers (type readFormat : UInt64) (s d : PerfSample) : Prop where
  identifier : has type .identifier → d.id = s.id
  ip : has type .ip → d.ip = s.ip
  tid : has type .tid → d.pid = s.pid ∧ d.tid = s.tid
  time : has type .time → d.time = s.time
  addr : has type .addr → d.addr = s.addr
  id : has type .id → d.id = s.id
  streamId : has type .streamId → d.streamId = s.streamId
  cpu : has type .cpu → d.cpu = s.cpu
  period : has type .period → d.period = s.period
  timeEnabled : has type .read → hasFormat readFormat .totalTimeEnabled →
    d.read.timeEnabled = s.read.timeEnabled
  timeRunning : has type .read → hasFormat readFormat .totalTimeRunning →
    d.read.timeRunning = s.read.timeRunning
  group : has type .read → hasFormat readFormat .group → d.read.group = s.read.group
  one : has type .read → ¬ hasFormat readFormat .group → d.read.one = s.read.one
  callchain : has type .callchain → d.callchain = s.callchain
  raw : has type .raw → d.rawData = s.rawData
  branchStack : has type .branchStack → d.branchStack = s.branchStack
  userRegs : has type .regsUser → d.userRegs = regsBack s.userRegs
  userStack : has type .stackUser → d.userStack.data = s.userStack.data
  weight : has type .weight → d.weight = s.weight
  dataSrc : has type .dataSrc → d.dataSrc = s.dataSrc
  transaction : has type .transaction → d.transaction = s.transaction
  intrRegs : has type .regsIntr → d.intrRegs = regsBack s.intrRegs
  physAddr : has type .physAddr → d.physAddr = s.physAddr

section Back

variable {evsel : Evsel} {s : PerfSample}

theorem parses_optional_word (type : UInt64) (b : SampleBit) (x y : UInt64) (o : ℕ) :
    Parses (Lib.Parser.optional (has type b) y word) o (if has type b then le64 x else [])
      (if has type b then x else y) :=
  .optional _ _ fun _ => parses_word o x

theorem parses_optional_tid (type : UInt64) (swapped : Bool) (u v : UInt32 × UInt32) (o : ℕ) :
    Parses (Lib.Parser.optional (has type .tid) v (do return unswapBoth swapped (← halves 8))) o
      (if has type .tid then halfBytes (swapBoth swapped u) else [])
      (if has type .tid then u else v) := by
  apply Parses.optional
  intro _
  have hread := (parses_halves o (swapBoth swapped u)).map (unswapBoth swapped)
  rwa [unswapBoth_swapBoth] at hread

theorem parses_optional_cpu (type : UInt64) (swapped : Bool) (u v : UInt32 × UInt32) (o : ℕ) :
    Parses (Lib.Parser.optional (has type .cpu) v (do return unswapFirst swapped (← halves 8))) o
      (if has type .cpu then halfBytes (swapFirst swapped u) else [])
      (if has type .cpu then u else v) := by
  apply Parses.optional
  intro _
  have hread := (parses_halves o (swapFirst swapped u)).map (unswapFirst swapped)
  rwa [unswapFirst_swapFirst] at hread

def headSample (evsel : Evsel) (s : PerfSample) (cpumode : UInt8) (high : UInt32) : PerfSample :=
  let type := evsel.sampleType
  let ids := if has type .tid then (s.pid, s.tid) else (-1, -1)
  let id := if has type .identifier then s.id else -1
  { ip := if has type .ip then s.ip else 0
    pid := ids.1
    tid := ids.2
    time := if has type .time then s.time else -1
    addr := if has type .addr then s.addr else 0
    id := if has type .id then s.id else id
    streamId := if has type .streamId then s.streamId else -1
    cpu := (if has type .cpu then (s.cpu, high) else (-1, 0)).1
    period := if has type .period then s.period else evsel.samplePeriod
    read := if has type .read then readBack evsel.readFormat s.read else {}
    callchain := if has type .callchain then s.callchain else []
    cpumode := cpumode }

theorem parses_head (evsel : Evsel) (s : PerfSample) (cpumode : UInt8) (swapped : Bool)
    (high : UInt32) :
    LeadsTo (parseSections evsel cpumode swapped) 8
      (headBytes evsel.sampleType evsel.readFormat s (swapBoth swapped (s.pid, s.tid))
        (swapFirst swapped (s.cpu, high)))
      (parseTail evsel swapped (headSample evsel s cpumode high)) := by
  have hword := parses_optional_word evsel.sampleType
  rw [← List.append_nil (headBytes _ _ _ _ _)]
  unfold headBytes
  simp only [List.append_assoc]
  apply (hword .identifier s.id _ _).bind
  apply (hword .ip s.ip _ _).bind
  apply (parses_optional_tid _ swapped (s.pid, s.tid) _ _).bind
  apply (hword .time s.time _ _).bind
  apply (hword .addr s.addr _ _).bind
  apply (hword .id s.id _ _).bind
  apply (hword .streamId s.streamId _ _).bind
  apply (parses_optional_cpu _ swapped (s.cpu, high) _ _).bind
  apply (hword .period s.period _ _).bind
  apply (Parses.optional _ _ fun _ => parses_read _ _ _).bind
  apply (Parses.optional _ _ fun _ => parses_callchain _ _).bind
  exact LeadsTo.refl _ _

theorem parses_tail (cpumode : UInt8) (swapped : Bool) (high size : UInt32) (o : ℕ)
    (hmatch : Matches evsel s)
    (hraw : has evsel.sampleType .raw → ParsesBefore (parseRaw swapped) o
      (rawBytes size s.rawData) (tailBytes evsel.sampleType s) s.rawData) :
    ∃ d, Parses (parseTail evsel swapped (headSample evsel s cpumode high)) o
        ((if has evsel.sampleType .raw then rawBytes size s.rawData else []) ++
          tailBytes evsel.sampleType s) d ∧
      Recovers evsel.sampleType evsel.readFormat s d := by
  have hchecked (b : SampleBit) (x y : UInt64) (o : ℕ) :
      Parses (Lib.Parser.optional (has evsel.sampleType b) y checkedWord) o
        (if has evsel.sampleType b then le64 x else []) (if has evsel.sampleType b then x else y) :=
    .optional _ _ fun _ => parses_checkedWord o x
  apply Exists.intro
  constructor
  · apply ParsesBefore.bind (.optional _ _ hraw)
    unfold tailBytes
    simp only [List.append_assoc]
    apply (Parses.optional _ _ fun _ => parses_branchStack _ _).bind
    apply (Parses.optional _ _ fun h => parses_regs _ (hmatch.userRegs h)).bind
    apply (Parses.optional _ _ fun _ => parses_stack _ _).bind
    apply (hchecked .weight s.weight _ _).bind
    apply (hchecked .dataSrc s.dataSrc _ _).bind
    apply (hchecked .transaction s.transaction _ _).bind
    apply (Parses.optional _ _ fun h => parses_regs _ (hmatch.intrRegs h)).bind
    exact (parses_optional_word _ .physAddr s.physAddr _ _).map _
  · constructor <;> intro h <;> simp +contextual [h, headSample, readBack]

theorem parseSections_written (cpumode : UInt8) (swapped : Bool) {u : UInt32 × UInt32}
    (inp : Input (2 ^ 16)) (hmatch : Matches evsel s)
    (hraw : has evsel.sampleType .raw → ∀ o, ParsesBefore (parseRaw swapped) o
      (rawBytes (rawHalves evsel.sampleType s u swapped).1 s.rawData)
      (tailBytes evsel.sampleType s) s.rawData)
    (hbytes : bytesAt inp.mem 8 (writtenBytes evsel.sampleType s u swapped
      evsel.readFormat).length =
      writtenBytes evsel.sampleType s u swapped evsel.readFormat)
    (hsize : 8 + (writtenBytes evsel.sampleType s u swapped evsel.readFormat).length ≤ inp.size) :
    ∃ d m, (parseSections evsel cpumode swapped).run inp 8 = .ok (d, m) ∧
      Recovers evsel.sampleType evsel.readFormat s d := by
  have hhead := parses_head evsel s cpumode swapped (unionAtCpu evsel.sampleType s u swapped).2
  obtain ⟨d, htail, hrecovers⟩ := parses_tail cpumode swapped
    (unionAtCpu evsel.sampleType s u swapped).2 _ _ hmatch fun h => hraw h _
  exact ⟨d, _, hhead.trans htail inp hbytes hsize, hrecovers⟩

end Back

theorem parseSample_eq {evsel : Evsel} {s : PerfSample} (mem : Memory) (misc : UInt16)
    (needsSwap : Bool) (hsize : sampleEventSize s evsel.sampleType evsel.readFormat < 2 ^ 16) :
    let size := sampleEventSize s evsel.sampleType evsel.readFormat
    let header : Header := { type := perfRecordSample, misc, size := UInt16.ofNat size }
    parseSample evsel { header, mem } needsSwap =
      ((parseSections evsel (misc &&& 7).toUInt8 needsSwap).run ⟨mem, size, hsize⟩ 8).map
        Prod.fst := by
  have hheader := UInt16.toNat_ofNat_of_lt' hsize
  have hroom := sampleSize_le s evsel.sampleType evsel.readFormat
  simp only [parseSample, hheader]
  rw [if_neg (by simp), if_neg (by omega)]

/-- A sample is written into the size that is announced for it, and its fields are found there
again. -/
theorem sample_round_trip (evsel : Evsel) (s : PerfSample) (u : UInt32 × UInt32) (mem : Memory)
    (misc : UInt16) (hmatch : Matches evsel s)
    (hraw : has evsel.sampleType .raw → 4 ≤ s.rawData.length)
    (hsize : sampleEventSize s evsel.sampleType evsel.readFormat < 2 ^ 16) :
    let size := sampleEventSize s evsel.sampleType evsel.readFormat
    let w := synthesizeSample evsel.sampleType evsel.readFormat s u { mem, pos := 8 }
    let header : Header := { type := perfRecordSample, misc, size := UInt16.ofNat size }
    w.high ≤ size ∧ ∃ d, parseSample evsel { header, mem := w.mem } = .ok d ∧
      Recovers evsel.sampleType evsel.readFormat s d := by
  intro size w header
  have happends := synthesizeSample_appends evsel.sampleType s u false evsel.readFormat 0 hraw
    { mem, pos := 8 }
  have hlength : 8 + (writtenBytes evsel.sampleType s u false evsel.readFormat).length = size :=
    length_sampleBytes _ _ _ _ _ _
  have hpos : w.pos = size := happends.pos.trans hlength
  constructor
  · rw [← hpos]
    exact happends.high.trans_eq (Nat.zero_max _)
  · obtain ⟨d, m, hparse, hrecovers⟩ := parseSections_written (misc &&& 7).toUInt8 false
      ⟨w.mem, size, hsize⟩ hmatch
      (fun h _ => parsesBefore_raw ((hraw h).trans (by simp)) rfl) happends.bytes hlength.le
    refine ⟨d, ?_, hrecovers⟩
    rw [parseSample_eq w.mem misc false hsize, hparse]
    rfl

def demoEvsel : Evsel :=
  { sampleType := 0xfffff, readFormat := 0xf, sampleRegsUser := 5, sampleRegsIntr := 5 }

def demoSample : PerfSample :=
  { ip := 0x401000, pid := 7, tid := 8, time := 100, id := 3, cpu := 1, period := 10
    read := { timeEnabled := 50, timeRunning := 40, group := [⟨1, 3⟩, ⟨2, 4⟩] }
    callchain := [0x401000, 0x402000], rawData := [1, 2, 3, 4, 5]
    branchStack := [⟨0x401000, 0x402000, 1⟩]
    userRegs := { abi := 2, mask := 5, regs := ⟨#[11, 12], by decide⟩ }
    userStack := { data := [9, 9, 9] } }

theorem demoSample_round_trip :
    let size := sampleEventSize demoSample demoEvsel.sampleType demoEvsel.readFormat
    let w := synthesizeSample demoEvsel.sampleType demoEvsel.readFormat demoSample (0, 0)
      { mem := fun _ => 0, pos := 8 }
    size = 284 ∧ w.high ≤ size ∧
      ∃ d, parseSample demoEvsel
          { header := { type := 9, size := UInt16.ofNat size }, mem := w.mem } = .ok d ∧
        Recovers demoEvsel.sampleType demoEvsel.readFormat demoSample d := by
  have hmatch : Matches demoEvsel demoSample := ⟨by decide +kernel, by decide +kernel⟩
  have hsize : sampleEventSize demoSample demoEvsel.sampleType demoEvsel.readFormat = 284 := by
    decide +kernel
  exact ⟨hsize, sample_round_trip demoEvsel demoSample (0, 0) (fun _ => 0) 0 hmatch
    (by decide +kernel) (by rw [hsize]; decide)⟩

end RPerf.Samples
