import Mathlib.Tactic
import RPerf.Lib.Loops

/-!
# Reading a data file through windows

`__perf_session__process_events` of `session.c`.
-/

namespace RPerf.Session

open Lib

/-- `BITS_PER_LONG`. -/
inductive BitsPerLong
  | bits32
  | bits64
  deriving DecidableEq, Repr

/-- `MMAP_SIZE`. -/
def BitsPerLong.mmapSize : BitsPerLong → UInt64
  | .bits64 => 0 - 1
  | .bits32 => 32 * 1024 * 1024

/-- `NUM_MMAPS`, a power of two. -/
def BitsPerLong.numMmaps : BitsPerLong → ℕ
  | .bits64 => 1
  | .bits32 => 128

/-- The arguments of the function, the file and the machine it runs on. -/
structure DataFile where
  bits : BitsPerLong
  pageSize : UInt64
  pageSize_pos : 0 < pageSize
  needsSwap : Bool
  bytes : List UInt8
  dataOffset : UInt64
  dataSize : UInt64
  fileSize : UInt64

structure Answers where
  mmap : ℕ → Option ℕ
  processEvent : ℕ → Int64
  sessionDone : ℕ → Bool

def headerSize : UInt64 := 8

namespace DataFile

variable (file : DataFile)

def byte (pos : ℕ) : Option UInt8 :=
  if pos < file.bytes.length then file.bytes[pos]?
  else if pos / file.pageSize.toNat <
      (file.bytes.length + file.pageSize.toNat - 1) / file.pageSize.toNat then some 0
  else none

def sizeAt (pos : ℕ) : Option UInt16 :=
  match file.byte (pos + 6), file.byte (pos + 7) with
  | some low, some high =>
    let (low, high) := if file.needsSwap then (high, low) else (low, high)
    some (low.toUInt16 + 256 * high.toUInt16)
  | _, _ => none

/-- The end of the data: the local `file_size`. -/
def endOfData : UInt64 :=
  if file.dataOffset + file.dataSize < file.fileSize then file.dataOffset + file.dataSize
  else file.fileSize

/-- The local `mmap_size`. -/
def mmapSize : UInt64 :=
  if file.bits.mmapSize > file.endOfData then file.endOfData else file.bits.mmapSize

end DataFile

/-- What `fetch_mmaped_event` finds. -/
inductive Fetch
  | fault
  | null
  | event (size : UInt16)
  deriving DecidableEq, Repr

/-- `fetch_mmaped_event`. -/
def DataFile.fetchMmapedEvent (file : DataFile) (fileOffset head : UInt64) : Fetch :=
  if head + headerSize > file.mmapSize then .null
  else
    match file.sizeAt (fileOffset.toNat + head.toNat) with
    | none => .fault
    | some size => if head + size.toUInt64 > file.mmapSize then .null else .event size

/-- The label the loop is at. -/
inductive Label
  | remap
  | more
  deriving DecidableEq, Repr

/-- The variables of the loop. -/
structure Progress where
  label : Label
  head : UInt64
  fileOffset : UInt64
  filePos : UInt64
  mapIdx : ℕ
  mmaps : List (Option UInt64)
  iteration : ℕ
  deriving DecidableEq, Repr

/-- How the loop ends: at the label `out`, with an error, or with a signal. -/
inductive Outcome
  | out
  | mmapFailed (errno : ℕ)
  | einval
  | fault
  deriving DecidableEq, Repr

namespace DataFile

variable (file : DataFile) (env : Answers)

section

variable (s : Progress)

/-- The code at `remap`. -/
def remap : Pass Progress Outcome :=
  match env.mmap s.iteration with
  | some errno => .leave (.mmapFailed errno)
  | none => .again { s with
      label := .more
      mmaps := s.mmaps.set s.mapIdx (some s.fileOffset)
      mapIdx := (s.mapIdx + 1) % file.bits.numMmaps
      filePos := s.fileOffset + s.head
      iteration := s.iteration + 1 }

def moveWindow : Progress :=
  let pageOffset := file.pageSize * (s.head / file.pageSize)
  { s with
    label := .remap
    mmaps := s.mmaps.set s.mapIdx none
    fileOffset := s.fileOffset + pageOffset
    head := s.head - pageOffset
    iteration := s.iteration + 1 }

def advance (size : UInt64) : Progress :=
  { s with head := s.head + size, filePos := s.filePos + size, iteration := s.iteration + 1 }

/-- The code at `more`. -/
def more : Pass Progress Outcome :=
  match file.fetchMmapedEvent s.fileOffset s.head with
  | .fault => .leave .fault
  | .null => .again (file.moveWindow s)
  | .event size =>
    let skip := env.processEvent s.iteration
    if size.toUInt64 < headerSize ∨ skip < 0 then .leave .einval
    else
      let s' := advance s (size.toUInt64 + skip.toUInt64)
      if env.sessionDone s.iteration then .leave .out
      else if s'.filePos < file.endOfData then .again s'
      else .leave .out

def pass : Pass Progress Outcome :=
  match s.label with
  | .remap => file.remap env s
  | .more => file.more env s

def start : Progress :=
  let pageOffset := file.pageSize * (file.dataOffset / file.pageSize)
  { label := .remap
    head := file.dataOffset - pageOffset
    fileOffset := pageOffset
    filePos := file.dataOffset
    mapIdx := 0
    mmaps := List.replicate file.bits.numMmaps none
    iteration := 0 }

/-- `__perf_session__process_events` comes to the end of its loop with an outcome. -/
def Ends (outcome : Outcome) : Prop :=
  if file.dataSize = 0 then outcome = .out else Leaves (file.pass env) file.start outcome

/-- The loop, where there is one to enter, comes to this state. -/
def Reaches : Prop :=
  file.dataSize ≠ 0 ∧ Visits (file.pass env) file.start s

def Proceeds : Prop :=
  s.label = .more →
    file.fetchMmapedEvent s.fileOffset s.head ≠ .fault ∧
      (file.fetchMmapedEvent s.fileOffset s.head = .null → file.pageSize ≤ s.head)

/-- The file position does not wrap in this iteration. -/
def NoWrap : Prop :=
  s.label = .more → ∀ size, file.fetchMmapedEvent s.fileOffset s.head = .event size →
    0 ≤ env.processEvent s.iteration →
    s.filePos.toNat + size.toNat + (env.processEvent s.iteration).toUInt64.toNat < 2 ^ 64

/-- `mmap` fails at this state. -/
def MmapFails : Prop := s.label = .remap ∧ env.mmap s.iteration ≠ none

end

variable {file env}

theorem toNat_pageOffset (x : UInt64) :
    (file.pageSize * (x / file.pageSize)).toNat =
      file.pageSize.toNat * (x.toNat / file.pageSize.toNat) := by
  have hle := Nat.mul_div_le x.toNat file.pageSize.toNat
  have hlt := x.toNat_lt
  rw [UInt64.toNat_mul, UInt64.toNat_div, Nat.mod_eq_of_lt (by omega)]

theorem toNat_sub_pageOffset (x : UInt64) :
    (x - file.pageSize * (x / file.pageSize)).toNat = x.toNat % file.pageSize.toNat := by
  have hoff : (file.pageSize * (x / file.pageSize)).toNat = _ := toNat_pageOffset x
  have hdiv := Nat.div_add_mod x.toNat file.pageSize.toNat
  have hle : file.pageSize * (x / file.pageSize) ≤ x := by
    rw [UInt64.le_iff_toNat_le]
    omega
  rw [UInt64.toNat_sub_of_le _ _ hle]
  omega

theorem sub_pageOffset_lt (x : UInt64) :
    x - file.pageSize * (x / file.pageSize) < file.pageSize := by
  rw [UInt64.lt_iff_toNat_lt, toNat_sub_pageOffset]
  exact Nat.mod_lt _ (UInt64.lt_iff_toNat_lt.mp file.pageSize_pos)

theorem pageOffset_eq_zero {x : UInt64} (h : x < file.pageSize) :
    file.pageSize * (x / file.pageSize) = 0 := by
  rw [UInt64.lt_iff_toNat_lt] at h
  rw [← UInt64.toNat_inj, toNat_pageOffset, Nat.div_eq_of_lt h, Nat.mul_zero]
  rfl

structure Aligned (file : DataFile) (s : Progress) : Prop where
  filePos : s.filePos = s.fileOffset + s.head
  head : s.label = .remap → s.head < file.pageSize

theorem aligned_start : Aligned file file.start where
  filePos := by
    simp only [start]
    grind
  head _ := sub_pageOffset_lt file.dataOffset

def todo (file : DataFile) (s : Progress) : ℕ :=
  3 * (2 ^ 64 - s.filePos.toNat) +
    match s.label with
    | .remap => 1
    | .more => if file.pageSize ≤ s.head then 2 else 0

variable {s : Progress}

theorem advance_aligned (h : Aligned file s) (hmore : s.label = .more) (size : UInt64) :
    Aligned file (advance s size) where
  filePos := by
    simp only [advance, h.filePos]
    grind
  head hl := by cases hmore.symm.trans hl

theorem moveWindow_aligned (h : Aligned file s) : Aligned file (file.moveWindow s) where
  filePos := by
    simp only [moveWindow, h.filePos]
    grind
  head _ := sub_pageOffset_lt s.head

theorem todo_advance {size : UInt16} {skip : UInt64} (hsize : ¬ size.toUInt64 < headerSize)
    (hwrap : s.filePos.toNat + size.toNat + skip.toNat < 2 ^ 64) :
    todo file (advance s (size.toUInt64 + skip)) < todo file s := by
  have hpos : (advance s (size.toUInt64 + skip)).filePos.toNat =
      s.filePos.toNat + size.toNat + skip.toNat := by
    have hsize : size.toUInt64.toNat = size.toNat := UInt16.toNat_toUInt64 size
    simp only [advance, UInt64.toNat_add, hsize]
    omega
  have hsize' : 8 ≤ size.toNat := by
    rw [UInt64.not_lt, UInt64.le_iff_toNat_le, UInt16.toNat_toUInt64] at hsize
    exact hsize
  have hlt := (advance s (size.toUInt64 + skip)).filePos.toNat_lt
  have hrank : ∀ t : Progress, (match t.label with
      | .remap => 1
      | .more => if file.pageSize ≤ t.head then 2 else 0) ≤ 2 := by
    intro t
    split
    · omega
    · split <;> omega
  have hr := hrank (advance s (size.toUInt64 + skip))
  simp only [todo]
  omega

theorem todo_moveWindow (h : s.label = .more) (hhead : file.pageSize ≤ s.head) :
    todo file (file.moveWindow s) < todo file s := by
  simp [todo, moveWindow, h, hhead]

theorem pass_satisfies (h : Aligned file s) (hproc : file.Proceeds s) (hwrap : file.NoWrap env s) :
    (file.pass env s).Satisfies (fun s' => Aligned file s' ∧ todo file s' < todo file s)
      (· ≠ .fault) := by
  cases hl : s.label with
  | remap =>
    simp only [pass, hl, remap]
    cases env.mmap s.iteration with
    | some errno => simp
    | none =>
      have hhead : ¬ file.pageSize ≤ s.head := UInt64.not_le.mpr (h.head hl)
      refine ⟨⟨rfl, nofun⟩, ?_⟩
      simp [todo, hl, hhead, h.filePos]
  | more =>
    obtain ⟨hfault, hnull⟩ := hproc hl
    simp only [pass, hl, more]
    cases hf : file.fetchMmapedEvent s.fileOffset s.head with
    | fault => exact absurd hf hfault
    | null => exact ⟨moveWindow_aligned h, todo_moveWindow hl (hnull hf)⟩
    | event size =>
      by_cases hbad : size.toUInt64 < headerSize ∨ env.processEvent s.iteration < 0
      · simp [hbad]
      · simp only [if_neg hbad]
        obtain ⟨hsize, hskip⟩ := not_or.mp hbad
        have hw := hwrap hl size hf (Int64.not_lt.mp hskip)
        split
        · simp
        · split
          · exact ⟨advance_aligned h hl _, todo_advance hsize hw⟩
          · simp

def Stuck (file : DataFile) (s : Progress) : Prop :=
  file.fetchMmapedEvent s.fileOffset s.head = .null ∧ s.head < file.pageSize

theorem Stuck.pass (h : Stuck file s) (hmap : ¬ MmapFails env s) :
    ∃ s', file.pass env s = .again s' ∧ Stuck file s' := by
  cases hl : s.label with
  | remap =>
    have hnone : env.mmap s.iteration = none := by
      by_contra hne
      exact hmap ⟨hl, hne⟩
    simp only [DataFile.pass, hl, remap, hnone]
    exact ⟨_, rfl, h⟩
  | more =>
    simp only [DataFile.pass, hl, more, h.1]
    refine ⟨_, rfl, ?_⟩
    simpa [Stuck, moveWindow, pageOffset_eq_zero h.2] using h

def Clear (file : DataFile) (env : Answers) (s : Progress) : Prop :=
  ∀ t, Visits (file.pass env) s t → file.Proceeds t ∧ file.NoWrap env t

theorem Clear.leaves (h : Clear file env s) (ha : Aligned file s) :
    ∃ o, Leaves (file.pass env) s o ∧ o ≠ .fault := by
  refine exists_leaves (I := fun s => Aligned file s ∧ Clear file env s) (todo file) ?_ s ⟨ha, h⟩
  intro s ⟨ha, hc⟩
  obtain ⟨hproc, hwrap⟩ := hc s .refl
  have hpass := pass_satisfies ha hproc hwrap
  cases hb : file.pass env s with
  | leave o =>
    rw [hb] at hpass
    exact hpass
  | again s' =>
    rw [hb] at hpass
    exact ⟨⟨hpass.1, fun t ht => hc t (.again hb ht)⟩, hpass.2⟩

theorem Leaves.proceeds {t : Progress} {o : Outcome} (h : Leaves (file.pass env) s o)
    (ho : o ≠ .fault) (hmap : ∀ u, Visits (file.pass env) s u → ¬ MmapFails env u)
    (hv : Visits (file.pass env) s t) : file.Proceeds t := by
  have ht : Leaves (file.pass env) t o := Lib.Leaves.of_visits hv h
  intro hl
  constructor
  · intro hf
    have hb : file.pass env t = .leave .fault := by simp [pass, hl, more, hf]
    cases ht with
    | leave hb' => exact ho (Pass.leave.inj (hb'.symm.trans hb))
    | again hb' _ => cases hb.symm.trans hb'
  · intro hnull
    by_contra hhead
    have hstay : ∀ u, Stuck file u ∧ Visits (file.pass env) s u →
        ∃ u', file.pass env u = .again u' ∧ Stuck file u' ∧ Visits (file.pass env) s u' := by
      rintro u ⟨hu, hvu⟩
      obtain ⟨u', hb, hu'⟩ := hu.pass (hmap u hvu)
      exact ⟨u', hb, hu', hvu.trans (.again hb .refl)⟩
    exact Lib.Leaves.exits hstay ht ⟨⟨hnull, UInt64.not_le.mp hhead⟩, hv⟩

/-- The loop ends exactly when every event it comes to can be read and fits the window or lies a
page or more behind its start, or else when `mmap` fails. -/
theorem ends_iff (file : DataFile) (env : Answers)
    (hwrap : ∀ s, file.Reaches env s → file.NoWrap env s) :
    (∃ o, file.Ends env o ∧ o ≠ .fault) ↔
      (∀ s, file.Reaches env s → file.Proceeds s) ∨
        ∃ s, file.Reaches env s ∧ MmapFails env s := by
  by_cases hsize : file.dataSize = 0
  · constructor
    · exact fun _ => .inl fun s hs => absurd hsize hs.1
    · exact fun _ => ⟨.out, by simp [Ends, hsize], nofun⟩
  simp only [Ends, Reaches, if_neg hsize] at hwrap ⊢
  constructor
  · rintro ⟨o, ho, hne⟩
    by_cases hmap : ∃ s, (file.dataSize ≠ 0 ∧ Visits (file.pass env) file.start s) ∧ MmapFails env s
    · exact .inr hmap
    · refine .inl fun s hs => Leaves.proceeds ho hne ?_ hs.2
      exact fun u hu hfail => hmap ⟨u, ⟨hsize, hu⟩, hfail⟩
  · rintro (hproc | ⟨s, hs, hl, hfail⟩)
    · refine Clear.leaves ?_ aligned_start
      exact fun t ht => ⟨hproc t ⟨hsize, ht⟩, hwrap t ⟨hsize, ht⟩⟩
    · obtain ⟨errno, herr⟩ := Option.ne_none_iff_exists'.mp hfail
      refine ⟨.mmapFailed errno, hs.2.leaves (.leave ?_), nofun⟩
      simp [pass, hl, remap, herr]

def plainAnswers : Answers := ⟨fun _ => none, fun _ => 0, fun _ => false⟩

def oneEventFile (size : UInt8) : DataFile where
  bits := .bits64
  pageSize := 4096
  pageSize_pos := by decide
  needsSwap := false
  bytes := [9, 0, 0, 0, 0, 0, size, 0, 0, 0, 0, 0, 0, 0, 0, 0]
  dataOffset := 0
  dataSize := 16
  fileSize := 16

def fullFileMapped : Progress :=
  { (oneEventFile 16).start with label := .more, mmaps := [some 0], iteration := 1 }

theorem oneEventFile_reaches (h : (oneEventFile 16).Reaches plainAnswers s) :
    s = (oneEventFile 16).start ∨ s = fullFileMapped := by
  have hmap : (oneEventFile 16).pass plainAnswers (oneEventFile 16).start =
      .again fullFileMapped := rfl
  have hread : (oneEventFile 16).pass plainAnswers fullFileMapped = .leave .out := rfl
  cases h.2 with
  | refl => exact .inl rfl
  | again hb hv =>
    cases hmap.symm.trans hb
    cases hv with
    | refl => exact .inr rfl
    | again hb' _ => cases hread.symm.trans hb'

theorem oneEventFile_fetch :
    (oneEventFile 16).fetchMmapedEvent fullFileMapped.fileOffset fullFileMapped.head =
      .event 16 := by
  decide

theorem oneEventFile_ends : ∃ o, (oneEventFile 16).Ends plainAnswers o ∧ o ≠ .fault := by
  refine (ends_iff (oneEventFile 16) plainAnswers ?_).mpr (.inl ?_)
  · intro s hs hl size hf _
    rcases oneEventFile_reaches hs with rfl | rfl
    · cases hl
    · cases oneEventFile_fetch.symm.trans hf
      decide
  · intro s hs hl
    rcases oneEventFile_reaches hs with rfl | rfl
    · cases hl
    · rw [oneEventFile_fetch]
      exact ⟨nofun, nofun⟩

theorem oneEventFile_never_ends : ¬ ∃ o, (oneEventFile 24).Ends plainAnswers o := by
  rintro ⟨o, ho⟩
  have hstuck : Stuck (oneEventFile 24) (oneEventFile 24).start :=
    ⟨by decide, by decide⟩
  refine Lib.Leaves.exits ?_ ho hstuck
  exact fun s hs => hs.pass fun hfail => hfail.2 rfl

end DataFile

end RPerf.Session
