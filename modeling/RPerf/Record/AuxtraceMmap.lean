import RPerf.Lib.ByteFormat

/-!
# Reading the AUX area

`__auxtrace_mmap__read` of `auxtrace.c` and `record__process_auxtrace` of
`builtin-record.c`, where `size_t` has 64 bits.
-/

namespace RPerf.Record

open Lib

/-- `is_power_of_2`. -/
def isPowerOf2 (n : UInt64) : Bool := n != 0 && (n &&& (n - 1)) == 0

/-- The mask of `auxtrace_mmap_params__init`. -/
def maskOf (len : UInt64) : UInt64 := if isPowerOf2 len then len - 1 else 0

/-- `struct auxtrace_mmap`, with the content of the ring and the `aux_tail` of its page. -/
structure AuxtraceMmap where
  base : Memory
  len : UInt64
  mask : UInt64
  prev : UInt64 := 0
  auxTail : UInt64 := 0
  idx : Int := 0
  tid : Int := -1
  cpu : Int := -1

/-- `struct auxtrace_record`, with what its functions return. -/
structure AuxtraceRecord where
  alignment : UInt32 := 0
  reference : UInt64 := 0
  findSnapshot : UInt64 → UInt64 → Option (UInt64 × UInt64) := fun head old => some (head, old)
  readFinish : Option Int := none

/-- `struct auxtrace_event`, behind its header. -/
structure AuxtraceEvent where
  size : UInt64
  offset : UInt64
  reference : UInt64
  idx : Int
  tid : Int
  cpu : Int
  deriving DecidableEq, Repr

/-- What `fn` is called with. -/
structure Passed where
  event : AuxtraceEvent
  data1 : List UInt8
  data2 : List UInt8
  deriving DecidableEq, Repr

def Passed.data (p : Passed) : List UInt8 := p.data1 ++ p.data2

structure Read where
  ret : Int
  mmap : AuxtraceMmap
  passed : Option Passed

def paddingOf (size : UInt64) : UInt64 := if size &&& 7 ≠ 0 then 8 - (size &&& 7) else 0

namespace AuxtraceMmap

variable (mm : AuxtraceMmap)

/-- Where a count is in the ring. -/
def offsetOf (count : UInt64) : UInt64 :=
  if mm.mask ≠ 0 then count &&& mm.mask else count % mm.len

def sizeFrom (oldOff headOff : UInt64) : UInt64 :=
  if oldOff < headOff then headOff - oldOff else mm.len - (oldOff - headOff)

def startOf (head old size : UInt64) : UInt64 :=
  if old < head ∨ size ≤ head ∨ mm.mask ≠ 0 then head - size
  else head - size - (0 - mm.len) % mm.len

def chunks (headOff size : UInt64) : UInt64 × UInt64 × UInt64 :=
  if headOff < size then (mm.len - (size - headOff), size - headOff, headOff)
  else (headOff - size, size, 0)

/-- `__auxtrace_mmap__read` when `aux_head` is this. -/
def read (itr : AuxtraceRecord) (fn : Passed → Int) (auxHead : UInt64)
    (snapshot : Option UInt64 := none) : Read :=
  match if snapshot.isSome then itr.findSnapshot auxHead mm.prev else some (auxHead, mm.prev) with
  | none => ⟨-1, mm, none⟩
  | some (head, old) =>
    if old = head then ⟨0, mm, none⟩
    else
      let headOff := mm.offsetOf head
      let size := mm.sizeFrom (mm.offsetOf old) headOff
      let size := match snapshot with
        | some snapshotSize => if snapshotSize < size then snapshotSize else size
        | none => size
      let offset := mm.startOf head old size
      let (start, len1, len2) := mm.chunks headOff size
      let unwanted := if itr.alignment ≠ 0 then len1 % itr.alignment.toUInt64 else 0
      let len1 := len1 - unwanted
      let size := size - unwanted
      let passed : Passed := {
        event := {
          size := size + paddingOf size, offset, reference := itr.reference, idx := mm.idx
          tid := mm.tid, cpu := mm.cpu }
        data1 := bytesAt mm.base start.toNat len1.toNat
        data2 := bytesAt mm.base 0 len2.toNat }
      if fn passed ≠ 0 then ⟨-1, mm, some passed⟩
      else if snapshot.isSome then ⟨1, { mm with prev := head }, some passed⟩
      else
        let ret := match itr.readFinish with
          | some err => if err < 0 then err else 1
          | none => 1
        ⟨ret, { mm with prev := head, auxTail := head }, some passed⟩

def wrap : ℕ := 2 ^ 64 / mm.len.toNat * mm.len.toNat

def headAfter (d : ℕ) : UInt64 := UInt64.ofNat ((mm.prev.toNat + d) % mm.wrap)

/-- A ring as `auxtrace_mmap__mmap` sets it up, with a counter that can be reached. -/
structure Valid : Prop where
  len_pos : 0 < mm.len.toNat
  len_lt : mm.len.toNat < 2 ^ 63
  mask : mm.mask = maskOf mm.len
  prev_lt : mm.prev.toNat < mm.wrap

end AuxtraceMmap

def processAuxtrace (file : Option (Int × Int)) (p : Passed) : Int × List UInt8 :=
  match file with
  | some (offset, err) =>
    if offset = -1 then (-1, []) else if err ≠ 0 then (err, []) else (0, written)
  | none => (0, written)
where
  written :=
    let padding := paddingOf (UInt64.ofNat p.data1.length + UInt64.ofNat p.data2.length)
    p.data1 ++ p.data2 ++ List.replicate padding.toNat 0

theorem paddingOf_toNat (size : UInt64) : (paddingOf size).toNat = (8 - size.toNat % 8) % 8 := by
  have hand : (size &&& 7).toNat = size.toNat % 8 := by
    rw [UInt64.toNat_and]
    exact Nat.and_two_pow_sub_one_eq_mod size.toNat 3
  have hlt : size.toNat % 8 < 8 := Nat.mod_lt _ (by decide)
  by_cases h : size &&& 7 = 0
  · have h0 : size.toNat % 8 = 0 := hand ▸ congrArg UInt64.toNat h
    rw [paddingOf, if_neg (by simpa using h), h0]
    rfl
  · have h0 : size.toNat % 8 ≠ 0 := by
      intro h0
      exact h (UInt64.toNat_inj.mp (hand.trans h0))
    have hle : size &&& 7 ≤ 8 := by
      rw [UInt64.le_iff_toNat_le, hand]
      exact hlt.le
    rw [paddingOf, if_pos h, UInt64.toNat_sub_of_le _ _ hle, hand]
    change 8 - _ = _
    omega

theorem exists_pow_of_maskOf {len : UInt64} (h : maskOf len ≠ 0) :
    ∃ k, len.toNat = 2 ^ k ∧ (maskOf len).toNat = 2 ^ k - 1 := by
  have hpow : isPowerOf2 len = true := by
    by_contra hpow
    exact h (if_neg hpow)
  simp only [isPowerOf2, Bool.and_eq_true, bne_iff_ne, beq_iff_eq] at hpow
  obtain ⟨h0, hand⟩ := hpow
  have hpos : len.toNat ≠ 0 := fun hz => h0 (UInt64.toNat_inj.mp hz)
  have hsub : (len - 1).toNat = len.toNat - 1 := by
    apply UInt64.toNat_sub_of_le
    rw [UInt64.le_iff_toNat_le]
    exact Nat.one_le_iff_ne_zero.mpr hpos
  have hle := Nat.log2_self_le hpos
  have hlt : len.toNat < 2 ^ (len.toNat.log2 + 1) := Nat.lt_log2_self
  have hlen : len.toNat = 2 ^ len.toNat.log2 := by
    by_contra hne
    have hbit := Nat.testBit_of_two_pow_le_and_two_pow_add_one_gt hle hlt
    have hbit' : (len.toNat - 1).testBit len.toNat.log2 = true :=
      Nat.testBit_of_two_pow_le_and_two_pow_add_one_gt (by omega) (by omega)
    have hzero : len.toNat &&& (len.toNat - 1) = 0 := by
      rw [← hsub, ← UInt64.toNat_and, hand]
      rfl
    have hboth := Nat.testBit_and len.toNat (len.toNat - 1) len.toNat.log2
    rw [hzero, hbit, hbit'] at hboth
    simp at hboth
  have hmask : maskOf len = len - 1 := if_pos (by simp [isPowerOf2, h0, hand])
  exact ⟨len.toNat.log2, hlen, by rw [hmask, hsub, ← hlen]⟩

def ringAt (mem : Memory) (len p n : ℕ) : List UInt8 :=
  (List.range n).map fun i => mem ((p + i) % len)

theorem ringAt_of_le {mem : Memory} {len p n : ℕ} (h : p % len + n ≤ len) :
    ringAt mem len p n = bytesAt mem (p % len) n := by
  apply List.map_congr_left
  intro i hi
  rw [List.mem_range] at hi
  rw [← Nat.mod_add_mod, Nat.mod_eq_of_lt (by omega)]

theorem ringAt_add (mem : Memory) (len p m n : ℕ) :
    ringAt mem len p (m + n) = ringAt mem len p m ++ ringAt mem len (p + m) n := by
  simp [ringAt, List.range_add, Function.comp_def, Nat.add_assoc]

theorem ringAt_wrap {mem : Memory} {len p n : ℕ} (hp : p % len < len) (hn : n ≤ len) :
    ringAt mem len p (len - p % len + n) =
      bytesAt mem (p % len) (len - p % len) ++ bytesAt mem 0 n := by
  have hend : (p + (len - p % len)) % len = 0 := by
    rw [← Nat.mod_add_mod, Nat.add_sub_of_le hp.le, Nat.mod_self]
  rw [ringAt_add, ringAt_of_le (by omega), ringAt_of_le (by omega), hend]

namespace AuxtraceMmap

variable {mm : AuxtraceMmap}

theorem Valid.offsetOf_toNat (h : mm.Valid) (count : UInt64) :
    (mm.offsetOf count).toNat = count.toNat % mm.len.toNat := by
  by_cases hmask : mm.mask ≠ 0
  · rw [offsetOf, if_pos hmask, UInt64.toNat_and]
    rw [h.mask] at hmask ⊢
    obtain ⟨k, hlen, hk⟩ := exists_pow_of_maskOf hmask
    rw [hk, hlen, Nat.and_two_pow_sub_one_eq_mod]
  · rw [offsetOf, if_neg hmask, UInt64.toNat_mod]

theorem len_dvd_wrap : mm.len.toNat ∣ mm.wrap := Dvd.intro_left _ rfl

theorem wrap_add_mod : mm.wrap + 2 ^ 64 % mm.len.toNat = 2 ^ 64 := by
  rw [wrap, Nat.mul_comm, Nat.div_add_mod]

theorem Valid.two_len_le_wrap (h : mm.Valid) : 2 * mm.len.toNat ≤ mm.wrap := by
  have hlt := h.len_lt
  apply Nat.mul_le_mul_right
  rw [Nat.le_div_iff_mul_le h.len_pos]
  omega

theorem wrap_le : mm.wrap ≤ 2 ^ 64 := by
  have := mm.wrap_add_mod
  omega

theorem Valid.wrap_of_mask (h : mm.Valid) (hmask : mm.mask ≠ 0) : mm.wrap = 2 ^ 64 := by
  rw [h.mask] at hmask
  obtain ⟨k, hlen, -⟩ := exists_pow_of_maskOf hmask
  have hk : k ≤ 64 := by
    by_contra hk
    have hlt := mm.len.toNat_lt
    rw [hlen] at hlt
    exact absurd (Nat.pow_lt_pow_right (by decide) (Nat.lt_of_not_le hk)) hlt.not_gt
  have hmod : 2 ^ 64 % mm.len.toNat = 0 := by
    rw [hlen]
    exact Nat.mod_eq_zero_of_dvd (Nat.pow_dvd_pow 2 hk)
  have := mm.wrap_add_mod
  omega

section Read

variable {d : ℕ}

theorem Valid.headAfter_toNat (h : mm.Valid) (d : ℕ) :
    (mm.headAfter d).toNat = (mm.prev.toNat + d) % mm.wrap := by
  have hpos : 0 < mm.wrap := lt_of_le_of_lt (Nat.zero_le _) h.prev_lt
  apply UInt64.toNat_ofNat_of_lt'
  exact lt_of_lt_of_le (Nat.mod_lt _ hpos) mm.wrap_le

theorem Valid.headAfter_cases (h : mm.Valid) (hd : d ≤ mm.len.toNat) :
    mm.prev.toNat + d < mm.wrap ∧ (mm.headAfter d).toNat = mm.prev.toNat + d ∨
      mm.wrap ≤ mm.prev.toNat + d ∧ (mm.headAfter d).toNat + mm.wrap = mm.prev.toNat + d := by
  have hprev := h.prev_lt
  have htwo := h.two_len_le_wrap
  have hpos := h.len_pos
  rw [h.headAfter_toNat]
  by_cases hlt : mm.prev.toNat + d < mm.wrap
  · exact .inl ⟨hlt, Nat.mod_eq_of_lt hlt⟩
  · have hmod : (mm.prev.toNat + d) % mm.wrap = mm.prev.toNat + d - mm.wrap := by
      rw [Nat.mod_eq_sub_mod (Nat.le_of_not_lt hlt), Nat.mod_eq_of_lt (by omega)]
    exact .inr ⟨Nat.le_of_not_lt hlt, by omega⟩

theorem Valid.offset_headAfter (h : mm.Valid) (d : ℕ) :
    (mm.offsetOf (mm.headAfter d)).toNat = (mm.prev.toNat % mm.len.toNat + d) % mm.len.toNat := by
  rw [h.offsetOf_toNat, h.headAfter_toNat, Nat.mod_mod_of_dvd _ len_dvd_wrap, Nat.mod_add_mod]

theorem Valid.offset_cases (h : mm.Valid) (hd : d ≤ mm.len.toNat) :
    let oldOff := (mm.offsetOf mm.prev).toNat
    let headOff := (mm.offsetOf (mm.headAfter d)).toNat
    oldOff < mm.len.toNat ∧
      (headOff = oldOff + d ∧ headOff < mm.len.toNat ∨ headOff + mm.len.toNat = oldOff + d) := by
  have hlt := Nat.mod_lt mm.prev.toNat h.len_pos
  simp only [h.offsetOf_toNat mm.prev, h.offset_headAfter]
  constructor
  · exact hlt
  · by_cases hend : mm.prev.toNat % mm.len.toNat + d < mm.len.toNat
    · exact .inl ⟨Nat.mod_eq_of_lt hend, by rwa [Nat.mod_eq_of_lt hend]⟩
    · rw [Nat.mod_eq_sub_mod (Nat.le_of_not_lt hend), Nat.mod_eq_of_lt (by omega)]
      exact .inr (by omega)

theorem Valid.sizeFrom_toNat (h : mm.Valid) (hpos : 0 < d) (hd : d ≤ mm.len.toNat) :
    (mm.sizeFrom (mm.offsetOf mm.prev) (mm.offsetOf (mm.headAfter d))).toNat = d := by
  obtain ⟨hold, hhead⟩ := h.offset_cases hd
  generalize mm.offsetOf mm.prev = oldOff at hold hhead
  generalize mm.offsetOf (mm.headAfter d) = headOff at hhead
  by_cases hlt : oldOff < headOff
  · have hlt' := UInt64.lt_iff_toNat_lt.mp hlt
    rw [sizeFrom, if_pos hlt, UInt64.toNat_sub_of_le _ _ (UInt64.le_of_lt hlt)]
    omega
  · have hle := UInt64.not_lt.mp hlt
    have hle' := UInt64.le_iff_toNat_le.mp hle
    have hsub := UInt64.toNat_sub_of_le _ _ hle
    have hlen : oldOff - headOff ≤ mm.len := by
      rw [UInt64.le_iff_toNat_le, hsub]
      omega
    rw [sizeFrom, if_neg hlt, UInt64.toNat_sub_of_le _ _ hlen, hsub]
    omega

theorem Valid.startOf_eq (h : mm.Valid) (hpos : 0 < d) (hd : d ≤ mm.len.toNat) {size : UInt64}
    (hsize : size.toNat = d) : mm.startOf (mm.headAfter d) mm.prev size = mm.prev := by
  have htwo := h.two_len_le_wrap
  have hprev := h.prev_lt
  have hprev' := mm.prev.toNat_lt
  apply UInt64.toNat_inj.mp
  rcases h.headAfter_cases hd with ⟨-, hhead⟩ | ⟨-, hhead⟩
  · have hlt : mm.prev < mm.headAfter d := by
      rw [UInt64.lt_iff_toNat_lt]
      omega
    have hle : size ≤ mm.headAfter d := by
      rw [UInt64.le_iff_toNat_le]
      omega
    rw [startOf, if_pos (.inl hlt), UInt64.toNat_sub_of_le _ _ hle]
    omega
  · by_cases hmask : mm.mask ≠ 0
    · have hwrap := h.wrap_of_mask hmask
      rw [startOf, if_pos (.inr (.inr hmask)), UInt64.toNat_sub, hsize]
      omega
    · -- the head is below the size, so that the remainder is subtracted
      have hcond : ¬ (mm.prev < mm.headAfter d ∨ size ≤ mm.headAfter d ∨ mm.mask ≠ 0) := by
        simp only [hmask, or_false, UInt64.le_iff_toNat_le, UInt64.lt_iff_toNat_lt]
        omega
      have hneg : (0 - mm.len).toNat = 2 ^ 64 - mm.len.toNat := by
        have hpos' := h.len_pos
        rw [UInt64.toNat_sub]
        change (2 ^ 64 - mm.len.toNat + 0) % 2 ^ 64 = _
        omega
      have hrem : ((0 - mm.len) % mm.len).toNat = 2 ^ 64 % mm.len.toNat := by
        rw [UInt64.toNat_mod, hneg, ← Nat.mod_eq_sub_mod mm.len.toNat_lt.le]
      have hsum := mm.wrap_add_mod
      rw [startOf, if_neg hcond, UInt64.toNat_sub, UInt64.toNat_sub, hrem, hsize]
      omega

theorem Valid.chunks_eq (h : mm.Valid) (hd : d ≤ mm.len.toNat) {size : UInt64}
    (hsize : size.toNat = d) :
    let (start, len1, len2) := mm.chunks (mm.offsetOf (mm.headAfter d)) size
    bytesAt mm.base start.toNat len1.toNat ++ bytesAt mm.base 0 len2.toNat =
      ringAt mm.base mm.len.toNat mm.prev.toNat d := by
  obtain ⟨hold, hhead⟩ := h.offset_cases hd
  simp only [h.offsetOf_toNat mm.prev] at hold hhead
  generalize mm.offsetOf (mm.headAfter d) = headOff at hhead ⊢
  by_cases hlt : headOff < size
  · have hsub := UInt64.toNat_sub_of_le _ _ (UInt64.le_of_lt hlt)
    rw [UInt64.lt_iff_toNat_lt] at hlt
    have hle : size - headOff ≤ mm.len := by
      rw [UInt64.le_iff_toNat_le, hsub]
      omega
    have hstart := UInt64.toNat_sub_of_le _ _ hle
    have hsplit : d = mm.len.toNat - mm.prev.toNat % mm.len.toNat + headOff.toNat := by omega
    rw [chunks, if_pos (UInt64.lt_iff_toNat_lt.mpr hlt)]
    simp only [hstart, hsub]
    rw [hsplit, ringAt_wrap hold (by omega)]
    congr 2 <;> omega
  · rw [UInt64.lt_iff_toNat_lt] at hlt
    have hstart : (headOff - size).toNat = headOff.toNat - size.toNat := by
      apply UInt64.toNat_sub_of_le
      rw [UInt64.le_iff_toNat_le]
      omega
    rw [chunks, if_neg (by rwa [UInt64.lt_iff_toNat_lt])]
    simp only [hstart, hsize]
    change _ ++ [] = _
    rw [List.append_nil, ringAt_of_le (by omega)]
    congr 1
    omega

end Read

end AuxtraceMmap

structure Passed.Covers (p : Passed) (mm : AuxtraceMmap) (d : ℕ) : Prop where
  data : p.data = ringAt mm.base mm.len.toNat mm.prev.toNat d
  offset : p.event.offset = mm.prev
  size : ∀ file, (processAuxtrace file p).1 = 0 →
    p.event.size.toNat = (processAuxtrace file p).2.length
  aligned : 8 ∣ p.event.size.toNat

theorem processAuxtrace_written {file : Option (Int × Int)} {p : Passed}
    (h : (processAuxtrace file p).1 = 0) :
    (processAuxtrace file p).2 = processAuxtrace.written p := by
  rcases file with - | ⟨offset, err⟩
  · rfl
  · simp only [processAuxtrace] at h ⊢
    split_ifs at h ⊢ with hseek herr
    · cases h
    · exact absurd h herr
    · rfl

theorem length_written {p : Passed} (h : p.data.length < 2 ^ 63) :
    (processAuxtrace.written p).length =
      p.data.length + (8 - p.data.length % 8) % 8 := by
  have hsum : p.data1.length + p.data2.length = p.data.length := List.length_append.symm
  have hnat : (UInt64.ofNat p.data1.length + UInt64.ofNat p.data2.length).toNat =
      p.data.length := by
    rw [← UInt64.ofNat_add, hsum]
    apply UInt64.toNat_ofNat_of_lt'
    simp only [UInt64.size]
    omega
  simp only [processAuxtrace.written, List.length_append, List.length_replicate, paddingOf_toNat,
    hnat, hsum]

section

variable {mm : AuxtraceMmap} {d : ℕ} {itr : AuxtraceRecord} {fn : Passed → Int}

theorem AuxtraceMmap.Valid.read (h : mm.Valid) (hpos : 0 < d) (hd : d ≤ mm.len.toNat)
    (halign : itr.alignment = 0) (hfn : ∀ p, fn p = 0) :
    ∃ p, (mm.read itr fn (mm.headAfter d)).passed = some p ∧ p.Covers mm d ∧
      (mm.read itr fn (mm.headAfter d)).mmap =
        { mm with prev := mm.headAfter d, auxTail := mm.headAfter d } := by
  have hsize := h.sizeFrom_toNat hpos hd
  have hstart := h.startOf_eq hpos hd hsize
  have hchunks := h.chunks_eq hd hsize
  have hne : mm.prev ≠ mm.headAfter d := by
    intro heq
    have hnat := congrArg UInt64.toNat heq
    have htwo := h.two_len_le_wrap
    rcases h.headAfter_cases hd with ⟨-, hhead⟩ | ⟨-, hhead⟩ <;> omega
  simp only [AuxtraceMmap.read, Option.isSome_none, Bool.false_eq_true, if_false, if_neg hne,
    halign, ne_eq, not_true_eq_false, UInt64.sub_zero, hfn, hstart]
  generalize mm.sizeFrom (mm.offsetOf mm.prev) (mm.offsetOf (mm.headAfter d)) = size at *
  generalize mm.chunks (mm.offsetOf (mm.headAfter d)) size = c at *
  obtain ⟨start, len1, len2⟩ := c
  refine ⟨_, rfl, ?_, trivial⟩
  have hlt := h.len_lt
  have hannounced : (size + paddingOf size).toNat = d + (8 - d % 8) % 8 := by
    rw [UInt64.toNat_add, paddingOf_toNat, hsize]
    omega
  constructor
  case data => exact hchunks
  case offset => rfl
  case size =>
    intro file hfile
    have hlength : (bytesAt mm.base start.toNat len1.toNat ++ bytesAt mm.base 0 len2.toNat).length
        = d := by
      rw [hchunks, ringAt, List.length_map, List.length_range]
    rw [processAuxtrace_written hfile, length_written, Passed.data, hlength]
    · exact hannounced
    · rw [Passed.data, hlength]
      omega
  case aligned =>
    simp only [hannounced]
    omega

end

/-- A read: what the ring holds by then, and how many bytes are new. -/
structure Reading where
  base : Memory
  d : ℕ

structure Taken where
  mmap : AuxtraceMmap
  d : ℕ
  passed : Option Passed

def readAll (itr : AuxtraceRecord) (fn : Passed → Int) : AuxtraceMmap → List Reading → List Taken
  | _, [] => []
  | mm, r :: rest =>
    let mm := { mm with base := r.base }
    let out := mm.read itr fn (mm.headAfter r.d)
    ⟨mm, r.d, out.passed⟩ :: readAll itr fn out.mmap rest

/-- All that has been passed. -/
def dataOf (l : List Taken) : List UInt8 := l.flatMap fun t => (t.passed.map Passed.data).getD []

def Written (trace : ℕ → UInt8) (len : ℕ) : ℕ → List Reading → Prop
  | _, [] => True
  | p, r :: rest =>
    (∀ i < r.d, r.base ((p + i) % len) = trace (p + i)) ∧ Written trace len (p + r.d) rest

def total (l : List Reading) : ℕ := (l.map Reading.d).sum

theorem total_cons (r : Reading) (l : List Reading) : total (r :: l) = r.d + total l := by
  rw [total, List.map_cons, List.sum_cons, total]

section

variable {itr : AuxtraceRecord} {fn : Passed → Int}

variable {mm : AuxtraceMmap}

theorem AuxtraceMmap.Valid.next (h : mm.Valid) (d : ℕ) :
    ({ mm with prev := mm.headAfter d, auxTail := mm.headAfter d } : AuxtraceMmap).Valid := by
  have hhead := h.headAfter_toNat d
  have hpos : 0 < mm.wrap := lt_of_le_of_lt (Nat.zero_le _) h.prev_lt
  exact { h with prev_lt := hhead.trans_lt (Nat.mod_lt _ hpos) }

theorem ringAt_written {trace : ℕ → UInt8} {base : Memory} {len wrap p d : ℕ} (hdvd : len ∣ wrap)
    (h : ∀ i < d, base ((p + i) % len) = trace (p + i)) :
    ringAt base len (p % wrap) d = (List.range' p d).map trace := by
  rw [List.range'_eq_map_range, List.map_map]
  apply List.map_congr_left
  intro i hi
  rw [Function.comp_apply, ← h i (List.mem_range.mp hi), ← Nat.mod_add_mod,
    Nat.mod_mod_of_dvd _ hdvd, Nat.mod_add_mod]

theorem readAll_covers (halign : itr.alignment = 0) (hfn : ∀ p, fn p = 0) (h : mm.Valid)
    {l : List Reading} (hl : ∀ r ∈ l, 0 < r.d ∧ r.d ≤ mm.len.toNat) :
    ∀ t ∈ readAll itr fn mm l, ∃ p, t.passed = some p ∧ p.Covers t.mmap t.d := by
  induction l generalizing mm with
  | nil => simp [readAll]
  | cons r l ih =>
    obtain ⟨hr, hrest⟩ := List.forall_mem_cons.mp hl
    have hbase : ({ mm with base := r.base } : AuxtraceMmap).Valid := { h with }
    obtain ⟨p, hpassed, hcovers, hmmap⟩ := hbase.read hr.1 hr.2 halign hfn
    rw [readAll, List.forall_mem_cons]
    constructor
    · exact ⟨p, hpassed, hcovers⟩
    · rw [hmmap]
      exact ih (hbase.next r.d) hrest

theorem dataOf_readAll (halign : itr.alignment = 0) (hfn : ∀ p, fn p = 0) {trace : ℕ → UInt8}
    (h : mm.Valid) {l : List Reading} (hl : ∀ r ∈ l, 0 < r.d ∧ r.d ≤ mm.len.toNat) {p : ℕ}
    (hp : mm.prev.toNat = p % mm.wrap) (hw : Written trace mm.len.toNat p l) :
    dataOf (readAll itr fn mm l) = (List.range' p (total l)).map trace := by
  induction l generalizing mm p with
  | nil => rfl
  | cons r l ih =>
    obtain ⟨hr, hrest⟩ := List.forall_mem_cons.mp hl
    obtain ⟨hnew, hlater⟩ := hw
    have hbase : ({ mm with base := r.base } : AuxtraceMmap).Valid := { h with }
    obtain ⟨q, hpassed, hcovers, hmmap⟩ := hbase.read hr.1 hr.2 halign hfn
    have hdata : q.data = (List.range' p r.d).map trace := by
      rw [hcovers.data]
      change ringAt r.base mm.len.toNat mm.prev.toNat r.d = _
      rw [hp, ringAt_written AuxtraceMmap.len_dvd_wrap hnew]
    have hnext : (({ mm with base := r.base } : AuxtraceMmap).headAfter r.d).toNat =
        (p + r.d) % mm.wrap := by
      rw [hbase.headAfter_toNat]
      change (mm.prev.toNat + r.d) % mm.wrap = _
      rw [hp, Nat.mod_add_mod]
    have htail := ih (hbase.next r.d) hrest hnext hlater
    rw [readAll, dataOf, List.flatMap_cons, ← dataOf, hmmap, htail, hpassed]
    change q.data ++ _ = _
    rw [hdata, ← List.map_append, List.range'_append_1, total_cons]

end

/-- The reads tile the trace. -/
theorem reads_tile (itr : AuxtraceRecord) (fn : Passed → Int) (mm : AuxtraceMmap)
    (l : List Reading) (halign : itr.alignment = 0) (hfn : ∀ p, fn p = 0) (h : mm.Valid)
    (hl : ∀ r ∈ l, 0 < r.d ∧ r.d ≤ mm.len.toNat) :
    (∀ t ∈ readAll itr fn mm l, ∃ p, t.passed = some p ∧ p.Covers t.mmap t.d) ∧
      ∀ trace, Written trace mm.len.toNat mm.prev.toNat l →
        dataOf (readAll itr fn mm l) = (List.range' mm.prev.toNat (total l)).map trace := by
  constructor
  · exact readAll_covers halign hfn h hl
  · intro trace hw
    apply dataOf_readAll halign hfn h hl _ hw
    rw [Nat.mod_eq_of_lt h.prev_lt]

def demoMmap : AuxtraceMmap := { base := fun _ => 0, len := 12, mask := maskOf 12 }

def demoReadings : List Reading :=
  [⟨fun i => UInt8.ofNat i, 5⟩, ⟨fun i => if i < 3 then UInt8.ofNat (12 + i) else UInt8.ofNat i,
    10⟩]

theorem demo_reads_tile :
    dataOf (readAll {} (fun _ => 0) demoMmap demoReadings) =
      (List.range' 0 15).map UInt8.ofNat := by
  have hvalid : demoMmap.Valid :=
    ⟨by decide +kernel, by decide +kernel, rfl, by decide +kernel⟩
  have hwritten : Written UInt8.ofNat 12 0 demoReadings := by
    simp only [Written, demoReadings]
    decide +kernel
  exact (reads_tile {} (fun _ => 0) demoMmap demoReadings rfl (fun _ => rfl) hvalid
    (by decide +kernel)).2 UInt8.ofNat hwritten

end RPerf.Record
