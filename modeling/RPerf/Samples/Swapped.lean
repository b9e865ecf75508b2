import RPerf.Samples.RoundTrip

/-!
# Samples of the other byte order

`perf_event__synthesize_sample` with `swapped` and `perf_evsel__parse_sample` with
`needs_swap` exchange the halves of the words that have halves.
-/

namespace RPerf.Samples

open Lib

/-- The ids, the processor and the raw data that a type selects are those of another sample. -/
structure RecoversHalves (type : UInt64) (s d : PerfSample) : Prop where
  tid : has type .tid → d.pid = s.pid ∧ d.tid = s.tid
  cpu : has type .cpu → d.cpu = s.cpu
  raw : has type .raw → d.rawData = s.rawData

theorem Recovers.halves {type readFormat : UInt64} {s d : PerfSample}
    (h : Recovers type readFormat s d) : RecoversHalves type s d :=
  ⟨h.tid, h.cpu, h.raw⟩

def SizeRepeated (type : UInt64) (s : PerfSample) : Prop :=
  4 ≤ (s.rawData ++ tailBytes type s).length ∧
    of32 ((s.rawData ++ tailBytes type s).take 4) = UInt32.ofNat s.rawData.length

@[simp] theorem unswapBoth_true (u : UInt32 × UInt32) : unswapBoth true u = (u.2, u.1) := by
  simp [unswapBoth, bswap64]

theorem parseRaw_ok {swapped : Bool} {inp : Input (2 ^ 16)} {o o' : ℕ} {data : List UInt8}
    (h : (parseRaw swapped).run inp o = .ok (data, o')) :
    o + 8 ≤ inp.size ∧ data.length = (unswapBoth swapped (wordAt inp.mem o)).1.toNat := by
  obtain ⟨_, m, hcheck, h⟩ := Lib.Parser.bind_ok h
  change (if inp.size < o + 8 then Except.error efault else Except.ok ((), o)) = _ at hcheck
  split_ifs at hcheck with hroom
  cases hcheck
  obtain ⟨_, _, hhalves, h⟩ := Lib.Parser.bind_ok h
  cases hhalves
  obtain ⟨_, _, _, h⟩ := Lib.Parser.bind_ok h
  cases h
  exact ⟨Nat.le_of_not_lt hroom, length_bytesAt _ _ _⟩

theorem parseTail_ok {evsel : Evsel} {swapped : Bool} {data d : PerfSample}
    {inp : Input (2 ^ 16)} {o o' : ℕ} (hraw : has evsel.sampleType .raw)
    (h : (parseTail evsel swapped data).run inp o = .ok (d, o')) :
    ∃ m, (parseRaw swapped).run inp o = .ok (d.rawData, m) := by
  obtain ⟨rawData, m, hparse, h⟩ := Lib.Parser.bind_ok h
  iterate 8 obtain ⟨_, _, _, h⟩ := Lib.Parser.bind_ok h
  cases h
  rw [hraw] at hparse
  exact ⟨m, hparse⟩

section

variable (evsel : Evsel) (s : PerfSample) (u : UInt32 × UInt32)

theorem sizeRepeated_of_parse {mem : Memory} {size : ℕ} {hlt : size < 2 ^ 16} {cpumode : UInt8}
    {d : PerfSample} {m : ℕ} (hraw : has evsel.sampleType .raw)
    (hbytes : bytesAt mem 8 (writtenBytes evsel.sampleType s u true evsel.readFormat).length =
      writtenBytes evsel.sampleType s u true evsel.readFormat)
    (hsize : 8 + (writtenBytes evsel.sampleType s u true evsel.readFormat).length = size)
    (hparse : (parseSections evsel cpumode true).run ⟨mem, size, hlt⟩ 8 = .ok (d, m))
    (hback : d.rawData = s.rawData) : SizeRepeated evsel.sampleType s := by
  rw [writtenBytes, sampleBytes, cpuHalves] at hbytes hsize
  obtain ⟨hhead, htail⟩ := bytesAt_append.mp hbytes
  rw [List.length_append] at hsize
  rw [parses_head evsel s cpumode true _ ⟨mem, size, hlt⟩ hhead (by simp only; omega)] at hparse
  obtain ⟨m', hrawData⟩ := parseTail_ok hraw hparse
  obtain ⟨hroom, hlength⟩ := parseRaw_ok hrawData
  rw [if_pos hraw] at htail hsize
  rw [List.length_append, length_rawBytes] at hsize
  have hlong : 4 ≤ (s.rawData ++ tailBytes evsel.sampleType s).length := by
    rw [List.length_append]
    simp only at hroom
    omega
  simp only [wordAt_raw htail hlong, unswapBoth_true, hback] at hlength
  constructor
  · exact hlong
  · rw [hlength, UInt32.ofNat_toNat]

/-- What is written for the other byte order is read back exactly if the raw data start with their
own size. -/
theorem swapped_round_trip_iff (mem : Memory) (misc : UInt16) (hmatch : Matches evsel s)
    (hsize : sampleEventSize s evsel.sampleType evsel.readFormat < 2 ^ 16) :
    let size := sampleEventSize s evsel.sampleType evsel.readFormat
    let w := synthesizeSample evsel.sampleType evsel.readFormat s u { mem, pos := 8 } true
    let header : Header := { type := perfRecordSample, misc, size := UInt16.ofNat size }
    (∃ d, parseSample evsel { header, mem := w.mem } true = .ok d ∧
        RecoversHalves evsel.sampleType s d) ↔
      (has evsel.sampleType .raw → SizeRepeated evsel.sampleType s) := by
  intro size w header
  have happends := synthesizeSample_appends evsel.sampleType s u true evsel.readFormat 4
    (fun _ => Nat.le_add_left _ _) { mem, pos := 8 }
  have hlength : 8 + (writtenBytes evsel.sampleType s u true evsel.readFormat).length = size :=
    length_sampleBytes _ _ _ _ _ _
  rw [parseSample_eq w.mem misc true hsize]
  constructor
  · rintro ⟨d, hparse, hrecovers⟩ hraw
    obtain ⟨m, hsections⟩ := Lib.Parser.map_fst_ok hparse
    exact sizeRepeated_of_parse evsel s u hraw happends.bytes hlength hsections
      (hrecovers.raw hraw)
  · intro hrepeated
    have hraw (h : has evsel.sampleType .raw) (o : ℕ) : ParsesBefore (parseRaw true) o
        (rawBytes (rawHalves evsel.sampleType s u true).1 s.rawData)
        (tailBytes evsel.sampleType s) s.rawData := by
      apply parsesBefore_raw (hrepeated h).1
      rw [unswapBoth_true]
      exact (hrepeated h).2
    obtain ⟨d, m, hparse, hrecovers⟩ := parseSections_written (misc &&& 7).toUInt8 true
      ⟨w.mem, size, hsize⟩ hmatch hraw happends.bytes hlength.le
    refine ⟨d, ?_, hrecovers.halves⟩
    rw [hparse]
    rfl

end

/-- The ids, the processor and raw data, nothing else. -/
def rawEvsel : Evsel := { sampleType := 0x482 }

def rawSample (data : List UInt8) : PerfSample :=
  { pid := 7, tid := 8, cpu := 1, rawData := data }

theorem repeated_size_round_trip :
    let s := rawSample [8, 0, 0, 0, 1, 2, 3, 4]
    let w := synthesizeSample 0x482 0 s (0, 0) { mem := fun _ => 0, pos := 8 } true
    ∃ d, parseSample rawEvsel { header := { type := 9, size := 36 }, mem := w.mem } true = .ok d ∧
      RecoversHalves 0x482 s d := by
  intro s w
  have hmatch : Matches rawEvsel s := ⟨by decide +kernel, by decide +kernel⟩
  have hrepeated : SizeRepeated 0x482 s := ⟨by decide +kernel, by decide +kernel⟩
  exact (swapped_round_trip_iff rawEvsel s (0, 0) (fun _ => 0) 0 hmatch
    (by decide +kernel)).mpr fun _ => hrepeated

/-- Of eight bytes that start with the number four, four come back. -/
theorem swapped_raw_cut :
    let s := rawSample [4, 0, 0, 0, 1, 2, 3, 4]
    let w := synthesizeSample 0x482 0 s (0, 0) { mem := fun _ => 0, pos := 8 } true
    sampleEventSize s 0x482 0 = 36 ∧
      (parseSample rawEvsel { header := { type := 9, size := 36 }, mem := w.mem } true).toOption.map
        (·.rawData) =
        some [4, 0, 0, 0] := by
  decide +kernel

end RPerf.Samples
