import RPerf.Lib.Traces
import RPerf.Session.ProcessEvents

/-!
# The events of a data file

What `perf_session__process_event` is called with when a file is read.
-/

namespace RPerf.Session

open Lib

structure Handed where
  filePos : UInt64
  size : UInt16
  bytes : List UInt8
  deriving DecidableEq, Repr

structure Handler where
  processEvent : UInt64 → Int64
  sessionDone : UInt64 → Bool

namespace DataFile

variable (file : DataFile) (env : Answers) (handler : Handler)

def contents (pos n : ℕ) : List UInt8 := (List.range n).map fun i => (file.byte (pos + i)).getD 0

def handed (s : Progress) : List Handed :=
  match s.label with
  | .remap => []
  | .more =>
    match file.fetchMmapedEvent s.fileOffset s.head with
    | .event size =>
      if size.toUInt64 < headerSize then []
      else [⟨s.filePos, size, file.contents (s.fileOffset.toNat + s.head.toNat) size.toNat⟩]
    | _ => []

/-- `__perf_session__process_events` makes these calls and comes to this end. -/
def Hands (l : List Handed) (o : Outcome) : Prop :=
  if file.dataSize = 0 then l = [] ∧ o = .out
  else Emits (file.pass env) file.handed file.start l o

def plainPass (pos : UInt64) : Pass UInt64 Outcome :=
  match file.sizeAt pos.toNat with
  | none => .leave .fault
  | some size =>
    let skip := handler.processEvent pos
    if size.toUInt64 < headerSize ∨ skip < 0 then .leave .einval
    else
      let next := pos + (size.toUInt64 + skip.toUInt64)
      if handler.sessionDone pos then .leave .out
      else if next < file.endOfData then .again next
      else .leave .out

def plainHanded (pos : UInt64) : List Handed :=
  match file.sizeAt pos.toNat with
  | some size =>
    if size.toUInt64 < headerSize then [] else [⟨pos, size, file.contents pos.toNat size.toNat⟩]
  | none => []

/-- Going through the data in place makes these calls and comes to this end. -/
def Contains (l : List Handed) (o : Outcome) : Prop :=
  if file.dataSize = 0 then l = [] ∧ o = .out
  else Emits (file.plainPass handler) file.plainHanded file.dataOffset l o

structure Whole (pos : UInt64) (size : UInt16) : Prop where
  sizeAt : file.sizeAt pos.toNat = some size
  header : pos.toNat + headerSize.toNat ≤ file.endOfData.toNat
  inside : pos.toNat + size.toNat ≤ file.endOfData.toNat
  next : 0 ≤ handler.processEvent pos →
    pos.toNat + size.toNat + (handler.processEvent pos).toUInt64.toNat < 2 ^ 64

/-- All that is gone through in place is whole. -/
def WellFormed : Prop :=
  file.dataSize ≠ 0 → ∀ pos, Visits (file.plainPass handler) file.dataOffset pos →
    ∃ size, file.Whole handler pos size

/-- A window has room for a page and an event behind it. -/
def WideWindow : Prop :=
  file.bits = .bits32 → file.pageSize.toNat + 2 ^ 16 ≤ BitsPerLong.bits32.mmapSize.toNat

/-- The iterations of a run get the answers of the handler. -/
def Answered : Prop :=
  ∀ s, file.Reaches env s → s.label = .more →
    env.processEvent s.iteration = handler.processEvent s.filePos ∧
      env.sessionDone s.iteration = handler.sessionDone s.filePos

variable {file env handler} {pos : UInt64} {size : UInt16}

theorem toNat_next (hwhole : file.Whole handler pos size) (hskip : 0 ≤ handler.processEvent pos) :
    (pos + (size.toUInt64 + (handler.processEvent pos).toUInt64)).toNat =
      pos.toNat + size.toNat + (handler.processEvent pos).toUInt64.toNat := by
  have hnext := hwhole.next hskip
  rw [UInt64.toNat_add, UInt64.toNat_add, UInt16.toNat_toUInt64]
  omega

theorem WellFormed.contains (h : file.WellFormed handler) : ∃ l o, file.Contains handler l o := by
  by_cases hsize : file.dataSize = 0
  · exact ⟨[], .out, by simp [Contains, hsize]⟩
  simp only [Contains, if_neg hsize]
  have hpass : ∀ pos, Visits (file.plainPass handler) file.dataOffset pos →
      (file.plainPass handler pos).Satisfies
        (fun next => Visits (file.plainPass handler) file.dataOffset next ∧
          2 ^ 64 - next.toNat < 2 ^ 64 - pos.toNat) fun _ => True := by
    intro pos hpos
    obtain ⟨size, hwhole⟩ := h hsize pos hpos
    cases hb : file.plainPass handler pos with
    | leave o => trivial
    | again next =>
      refine ⟨hpos.trans (.again hb .refl), ?_⟩
      simp only [plainPass, hwhole.sizeAt] at hb
      split_ifs at hb with hbad hdone hend
      cases hb
      obtain ⟨hheader, hskip⟩ := not_or.mp hbad
      rw [UInt64.not_lt, UInt64.le_iff_toNat_le, UInt16.toNat_toUInt64] at hheader
      have hnext := toNat_next hwhole (Int64.not_lt.mp hskip)
      have hlt := hwhole.next (Int64.not_lt.mp hskip)
      have hconst : 0 < headerSize.toNat := by decide
      omega
  obtain ⟨o, ho, -⟩ := exists_leaves (fun pos : UInt64 => 2 ^ 64 - pos.toNat) hpass _ .refl
  obtain ⟨l, hl⟩ := ho.emits file.plainHanded
  exact ⟨l, o, hl⟩

theorem WideWindow.le_mmapSize (h : file.WideWindow) {n : ℕ} (hend : n ≤ file.endOfData.toNat)
    (hpage : n < file.pageSize.toNat + 2 ^ 16) : n ≤ file.mmapSize.toNat := by
  rw [mmapSize]
  split_ifs with hall
  · exact hend
  · cases hbits : file.bits with
    | bits32 =>
      have hwide := h hbits
      omega
    | bits64 =>
      have hlt := file.endOfData.toNat_lt
      change n ≤ 2 ^ 64 - 1
      omega

structure At (file : DataFile) (env : Answers) (handler : Handler) (pos : UInt64) (s : Progress) :
    Prop where
  reached : Visits (file.pass env) file.start s
  visited : Visits (file.plainPass handler) file.dataOffset pos
  aligned : Aligned file s
  filePos : s.filePos = pos
  noWrap : s.fileOffset.toNat + s.head.toNat = pos.toNat

theorem At.start : At file env handler file.dataOffset file.start where
  reached := .refl
  visited := .refl
  aligned := aligned_start
  filePos := rfl
  noWrap := by
    have hdiv := Nat.div_add_mod file.dataOffset.toNat file.pageSize.toNat
    simp only [DataFile.start, toNat_pageOffset, toNat_sub_pageOffset]
    exact hdiv

theorem At.fetch {s : Progress} (h : At file env handler pos s)
    (hwhole : file.Whole handler pos size) :
    file.fetchMmapedEvent s.fileOffset s.head =
      if s.head.toNat + headerSize.toNat ≤ file.mmapSize.toNat ∧
        s.head.toNat + size.toNat ≤ file.mmapSize.toNat
      then .event size else .null := by
  have hlt := file.endOfData.toNat_lt
  have hpos := h.noWrap
  have hheader := hwhole.header
  have hinside := hwhole.inside
  have hhead : (s.head + headerSize).toNat = s.head.toNat + headerSize.toNat := by
    rw [UInt64.toNat_add]
    omega
  have hevent : (s.head + size.toUInt64).toNat = s.head.toNat + size.toNat := by
    rw [UInt64.toNat_add, UInt16.toNat_toUInt64]
    omega
  rw [fetchMmapedEvent, hpos, hwhole.sizeAt]
  simp only [gt_iff_lt, UInt64.lt_iff_toNat_lt, hhead, hevent]
  split_ifs <;> first | rfl | omega

theorem At.fetch_of_lt {s : Progress} (h : At file env handler pos s)
    (hwhole : file.Whole handler pos size) (hwide : file.WideWindow)
    (hlt : s.head < file.pageSize) :
    file.fetchMmapedEvent s.fileOffset s.head = .event size := by
  have hpos := h.noWrap
  have hheader := hwhole.header
  have hinside := hwhole.inside
  have hsize : size.toNat < 2 ^ 16 := size.toNat_lt
  rw [UInt64.lt_iff_toNat_lt] at hlt
  rw [h.fetch hwhole, if_pos]
  constructor
  · have hconst : headerSize.toNat < 2 ^ 16 := by decide
    exact hwide.le_mmapSize (by omega) (by omega)
  · exact hwide.le_mmapSize (by omega) (by omega)

theorem At.remap {s : Progress} (h : At file env handler pos s) (hl : s.label = .remap)
    (hmap : ¬ MmapFails env s) :
    ∃ s', file.pass env s = .again s' ∧ At file env handler pos s' ∧ s'.label = .more ∧
      s'.fileOffset = s.fileOffset ∧ s'.head = s.head := by
  have hnone : env.mmap s.iteration = none := by
    by_contra hne
    exact hmap ⟨hl, hne⟩
  cases hb : file.pass env s with
  | leave o => simp only [DataFile.pass, hl, DataFile.remap, hnone, reduceCtorEq] at hb
  | again s' =>
    have hs' := hb
    simp only [DataFile.pass, hl, DataFile.remap, hnone, Pass.again.injEq] at hs'
    subst hs'
    exact ⟨_, rfl, {
      reached := h.reached.trans (.again hb .refl)
      visited := h.visited
      aligned := {
        filePos := rfl
        head := by
          intro hremap
          cases hremap }
      filePos := h.aligned.filePos.symm.trans h.filePos
      noWrap := h.noWrap }, rfl, rfl, rfl⟩

theorem At.moveWindow {s : Progress} (h : At file env handler pos s) (hl : s.label = .more)
    (hnull : file.fetchMmapedEvent s.fileOffset s.head = .null) :
    file.pass env s = .again (file.moveWindow s) ∧
      At file env handler pos (file.moveWindow s) := by
  have hb : file.pass env s = .again (file.moveWindow s) := by
    simp only [DataFile.pass, hl, more, hnull]
  refine ⟨hb, h.reached.trans (.again hb .refl), h.visited, moveWindow_aligned h.aligned,
    h.filePos, ?_⟩
  have hpos := h.noWrap
  have hdiv := Nat.div_add_mod s.head.toNat file.pageSize.toNat
  have hlt := pos.toNat_lt
  simp only [DataFile.moveWindow, UInt64.toNat_add, toNat_pageOffset, toNat_sub_pageOffset]
  omega

theorem At.settles {s : Progress} (h : At file env handler pos s)
    (hwhole : file.Whole handler pos size) (hwide : file.WideWindow)
    (hmap : ∀ s, Visits (file.pass env) file.start s → ¬ MmapFails env s) :
    ∃ u, Silently (file.pass env) file.handed s u ∧ At file env handler pos u ∧
      u.label = .more ∧ file.fetchMmapedEvent u.fileOffset u.head = .event size := by
  have hremap : ∀ s, At file env handler pos s → s.label = .remap →
      ∃ u, Silently (file.pass env) file.handed s u ∧ At file env handler pos u ∧
        u.label = .more ∧ file.fetchMmapedEvent u.fileOffset u.head = .event size := by
    intro s h hl
    obtain ⟨s', hb, h', hl', hoff, hhead⟩ := h.remap hl (hmap s h.reached)
    have hout : file.handed s = [] := by simp only [handed, hl]
    have hlt : s'.head < file.pageSize := hhead ▸ h.aligned.head hl
    exact ⟨s', .again hb hout .refl, h', hl', h'.fetch_of_lt hwhole hwide hlt⟩
  cases hl : s.label with
  | remap => exact hremap s h hl
  | more =>
    have hfetch := h.fetch hwhole
    split_ifs at hfetch
    · exact ⟨s, .refl, h, hl, hfetch⟩
    · obtain ⟨hb, h'⟩ := h.moveWindow hl hfetch
      obtain ⟨u, hsilent, hu⟩ := hremap _ h' rfl
      have hout : file.handed s = [] := by simp only [handed, hl, hfetch]
      exact ⟨u, .again hb hout hsilent, hu⟩

theorem At.pass {s : Progress} (h : At file env handler pos s) (hl : s.label = .more)
    (hwhole : file.Whole handler pos size)
    (hfetch : file.fetchMmapedEvent s.fileOffset s.head = .event size)
    (hanswer : env.processEvent s.iteration = handler.processEvent s.filePos ∧
      env.sessionDone s.iteration = handler.sessionDone s.filePos) :
    file.handed s = file.plainHanded pos ∧
      Follows (file.pass env) file.handed (At file env handler) Eq
        (file.plainPass handler pos) s := by
  rw [h.filePos] at hanswer
  constructor
  · simp only [handed, hl, hfetch, plainHanded, hwhole.sizeAt, h.filePos, h.noWrap]
  · by_cases hbad : size.toUInt64 < headerSize ∨ handler.processEvent pos < 0
    · have hpass : file.pass env s = .leave .einval := by
        simp only [DataFile.pass, hl, more, hfetch, hanswer.1, if_pos hbad]
      simp only [plainPass, hwhole.sizeAt, if_pos hbad]
      exact .leave (.leave hpass) rfl
    by_cases hdone : handler.sessionDone pos = true
    · have hpass : file.pass env s = .leave .out := by
        simp only [DataFile.pass, hl, more, hfetch, hanswer.1, hanswer.2, if_neg hbad, if_pos hdone]
      simp only [plainPass, hwhole.sizeAt, if_neg hbad, if_pos hdone]
      exact .leave (.leave hpass) rfl
    obtain ⟨n, hn⟩ : ∃ n, n = size.toUInt64 + (handler.processEvent pos).toUInt64 := ⟨_, rfl⟩
    have hadvance : file.pass env s =
        if pos + n < file.endOfData then .again (advance s n) else .leave .out := by
      simp only [DataFile.pass, hl, more, hfetch, hanswer.1, hanswer.2, if_neg hbad, if_neg hdone,
        advance, h.filePos, hn]
    have hplain : file.plainPass handler pos =
        if pos + n < file.endOfData then .again (pos + n) else .leave .out := by
      simp only [plainPass, hwhole.sizeAt, if_neg hbad, if_neg hdone, hn]
    split_ifs at hadvance hplain with hend
    · have hskip := Int64.not_lt.mp (not_or.mp hbad).2
      have hpos := h.noWrap
      have hlt := hwhole.next hskip
      rw [hplain]
      exact .again hadvance {
        reached := h.reached.trans (.again hadvance .refl)
        visited := h.visited.trans (.again hplain .refl)
        aligned := advance_aligned h.aligned hl _
        filePos := by simp only [advance, h.filePos]
        noWrap := by
          rw [hn, toNat_next hwhole hskip]
          simp only [advance, UInt64.toNat_add, UInt16.toNat_toUInt64]
          omega }
    · rw [hplain]
      exact .leave (.leave hadvance) rfl

theorem hands_iff_contains (hwide : file.WideWindow)
    (hmap : ∀ s, file.Reaches env s → ¬ MmapFails env s) (hanswered : file.Answered env handler)
    (hwell : file.WellFormed handler) (l : List Handed) (o : Outcome) :
    file.Hands env l o ↔ file.Contains handler l o := by
  by_cases hsize : file.dataSize = 0
  · simp [Hands, Contains, hsize]
  have hstep : ∀ pos s, At file env handler pos s → ∃ u,
      Silently (file.pass env) file.handed s u ∧ file.handed u = file.plainHanded pos ∧
        Follows (file.pass env) file.handed (At file env handler) Eq
          (file.plainPass handler pos) u := by
    intro pos s hs
    obtain ⟨size, hwhole⟩ := hwell hsize pos hs.visited
    obtain ⟨u, hsilent, hu, hl, hfetch⟩ :=
      hs.settles hwhole hwide fun s hv => hmap s ⟨hsize, hv⟩
    exact ⟨u, hsilent, hu.pass hl hwhole hfetch (hanswered u ⟨hsize, hu.reached⟩ hl)⟩
  have hforth : ∀ l o, file.Contains handler l o → file.Hands env l o := by
    intro l o h
    simp only [Contains, Hands, if_neg hsize] at h ⊢
    obtain ⟨o', ho', rfl⟩ := h.simulated hstep At.start
    exact ho'
  constructor
  · intro h
    obtain ⟨l', o', h'⟩ := hwell.contains
    have hsame := hforth l' o' h'
    simp only [Hands, if_neg hsize] at h hsame
    obtain ⟨rfl, rfl⟩ := h.unique hsame
    exact h'
  · exact hforth l o

/-- The windows are not seen. -/
theorem windows_invisible (file : DataFile) (env : Answers) (handler : Handler)
    (hwide : file.WideWindow) (hmap : ∀ s, file.Reaches env s → ¬ MmapFails env s)
    (hanswered : file.Answered env handler) (hwell : file.WellFormed handler) :
    (∃ l o, file.Contains handler l o) ∧
      ∀ l o, file.Hands env l o ↔ file.Contains handler l o :=
  ⟨hwell.contains, hands_iff_contains hwide hmap hanswered hwell⟩

theorem page_pos : (0 : UInt64) < 4096 := by decide

def shortEvent : List UInt8 := [9, 0, 0, 0, 0, 0, 8, 0]

@[irreducible] def farBytes : List UInt8 :=
  (List.replicate 8 0 ++ shortEvent) ++ (List.replicate 0x2000000 0 ++ shortEvent)

def farEvents : DataFile where
  bits := .bits32
  pageSize := 4096
  pageSize_pos := page_pos
  needsSwap := false
  bytes := farBytes
  dataOffset := 8
  dataSize := 0x2000010
  fileSize := 0x2000018

def farHandler : Handler := ⟨fun _ => 0x2000000, fun _ => false⟩

def farAnswers : Answers := ⟨fun _ => none, fun _ => 0x2000000, fun _ => false⟩

theorem farEvents_byte {pos i : ℕ} (hpos : pos = 8 ∨ pos = 0x2000010) (hi : i < 8) :
    farEvents.byte (pos + i) = some (shortEvent.getD i 0) := by
  have hget : shortEvent[i]? = some (shortEvent.getD i 0) := by
    have hlt : i < shortEvent.length := hi
    rw [List.getD_eq_getElem?_getD, List.getElem?_eq_getElem hlt, Option.getD_some]
  have hbytes : farEvents.bytes = (List.replicate 8 0 ++ shortEvent) ++
      (List.replicate 0x2000000 0 ++ shortEvent) := farBytes.eq_1
  have hfirst : (List.replicate 8 0 ++ shortEvent).length = 16 := rfl
  have hsecond : (List.replicate 0x2000000 (0 : UInt8)).length = 0x2000000 := List.length_replicate
  have hlength : farEvents.bytes.length = 0x2000018 := by
    rw [hbytes, List.length_append, hfirst, List.length_append, hsecond]
    rfl
  rw [byte, if_pos (by omega), hbytes, ← hget]
  rcases hpos with rfl | rfl
  · rw [List.getElem?_append_left (by omega), List.getElem?_append_right (Nat.le_add_right 8 i)]
    exact congrArg (shortEvent[·]?) (Nat.add_sub_cancel_left 8 i)
  · have hindex : 0x2000010 + i - 16 - 0x2000000 = i := by omega
    rw [List.getElem?_append_right (by omega), hfirst, List.getElem?_append_right (by omega),
      hsecond, hindex]

theorem farEvents_sizeAt {pos : ℕ} (hpos : pos = 8 ∨ pos = 0x2000010) :
    farEvents.sizeAt pos = some 8 := by
  rw [sizeAt, farEvents_byte hpos (by decide), farEvents_byte hpos (by decide)]
  rfl

theorem farEvents_contents {pos : ℕ} (hpos : pos = 8 ∨ pos = 0x2000010) :
    farEvents.contents pos 8 = shortEvent := by
  have hmap : farEvents.contents pos 8 = (List.range 8).map fun i => shortEvent.getD i 0 := by
    refine List.map_congr_left fun i hi => ?_
    rw [farEvents_byte hpos (List.mem_range.mp hi), Option.getD_some]
  rw [hmap]
  rfl

theorem farEvents_first : farEvents.plainPass farHandler 8 = .again 0x2000010 := by
  rw [plainPass, show (8 : UInt64).toNat = 8 from rfl, farEvents_sizeAt (.inl rfl)]
  rfl

theorem farEvents_second : farEvents.plainPass farHandler 0x2000010 = .leave .out := by
  rw [plainPass, show (0x2000010 : UInt64).toNat = 0x2000010 from rfl, farEvents_sizeAt (.inr rfl)]
  rfl

theorem farEvents_wellFormed : farEvents.WellFormed farHandler := by
  intro _ pos hpos
  have hmem : pos = 8 ∨ pos = 0x2000010 := by
    refine hpos.invariant (I := fun pos => pos = 8 ∨ pos = 0x2000010) (Q := fun _ => True) ?_
      (.inl rfl)
    rintro s (rfl | rfl)
    · rw [farEvents_first]
      exact .inr rfl
    · rw [farEvents_second]
      trivial
  rcases hmem with rfl | rfl
  · exact ⟨8, farEvents_sizeAt (.inl rfl), by decide, by decide, fun _ => by decide⟩
  · exact ⟨8, farEvents_sizeAt (.inr rfl), by decide, by decide, fun _ => by decide⟩

/-- The two events. -/
def farEventsHanded : List Handed := [⟨8, 8, shortEvent⟩, ⟨0x2000010, 8, shortEvent⟩]

theorem plainHanded_farEvents {pos : UInt64} (hpos : pos.toNat = 8 ∨ pos.toNat = 0x2000010) :
    farEvents.plainHanded pos = [⟨pos, 8, shortEvent⟩] := by
  rw [plainHanded, farEvents_sizeAt hpos]
  dsimp only
  rw [if_neg (by decide), show (8 : UInt16).toNat = 8 from rfl, farEvents_contents hpos]

theorem farEvents_contains : farEvents.Contains farHandler farEventsHanded .out := by
  have hemits : Emits (farEvents.plainPass farHandler) farEvents.plainHanded 8 _ .out :=
    .again farEvents_first (.leave farEvents_second)
  rwa [plainHanded_farEvents (.inl rfl), plainHanded_farEvents (.inr rfl)] at hemits

theorem farEvents_handed : farEvents.Hands farAnswers farEventsHanded .out :=
  ((windows_invisible farEvents farAnswers farHandler (fun _ => by decide)
    (fun _ _ h => h.2 rfl) (fun _ _ _ => ⟨rfl, rfl⟩) farEvents_wellFormed).2 _ _).mpr
    farEvents_contains

end DataFile

end RPerf.Session
