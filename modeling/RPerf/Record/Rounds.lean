import RPerf.Lib.Interleaving
import RPerf.Session.FinishedRound

/-!
# The rounds of a recording

`record__mmap_read_evlist` of `builtin-record.c` goes over the rings of all cpus and writes
what it finds to the file, followed by a FINISHED_ROUND mark where it has written anything.
-/

namespace RPerf.Record.Evlist

open Function Lib Session

/-- An event of a ring, with the time of its sample. -/
structure Stamped where
  timestamp : UInt64
  event : PerfEvent
  deriving DecidableEq, Repr

/-- What stands in the file. -/
inductive Entry
  | event (e : Stamped)
  | auxtrace (size : UInt64)
  | finishedRound
  | torn (bytes : ℕ)
  deriving DecidableEq, Repr

def Entry.size : Entry → UInt64
  | .event e => e.event.size.toUInt64
  | .auxtrace size => size
  | .finishedRound => 8
  | .torn bytes => bytes.toUInt64

def Entry.Whole : Entry → Prop
  | .torn _ => False
  | _ => True

def tornEntry (bytes : ℕ) : List Entry := if bytes = 0 then [] else [.torn bytes]

def cut : List Entry → ℕ → List Entry
  | [], _ => []
  | x :: l, bytes =>
    if x.size.toNat ≤ bytes then x :: cut l (bytes - x.size.toNat) else tornEntry bytes

/-- A ring with the events published so far, and the file descriptors that refer to it. -/
structure Ring where
  base : Bool := true
  refcnt : ℕ
  hasAux : Bool := false
  stream : List Stamped := []

/-- Where the recorder is in a pass over the rings. -/
inductive Pc
  | idle
  | visit (i : ℕ)
  | push (i head : ℕ)
  | auxtrace (i : ℕ)
  | stopped
  deriving DecidableEq, Repr

structure Recorder where
  pc : Pc := .idle
  file : List Entry := []
  bytesWritten : UInt64
  /-- `bytes_written` when the pass began -/
  atStart : UInt64 := 0
  prev : ℕ → ℕ := fun _ => 0
  /-- how many entries the file had when the last pass began -/
  started : ℕ := 0

/-- `record__write` of some entries. -/
def Recorder.write (r : Recorder) (l : List Entry) : Recorder :=
  { r with
    file := r.file ++ l
    bytesWritten := l.foldl (fun n x => n + x.size) r.bytesWritten }

/-- What a failing `record__write` leaves; `counted` went through in the writes before. -/
def Recorder.breakOff (r : Recorder) (counted : UInt64) (l : List Entry) : Recorder :=
  { r with
    file := r.file ++ l
    bytesWritten := r.bytesWritten + counted }

/-- How the writes of a step end. -/
inductive Outcome
  | goes (aux : UInt64)
  | breaks (counted : UInt64) (bytes : ℕ)
  | fails
  deriving DecidableEq, Repr

/-- The kernel publishes an event, or hangs up one of the descriptors of a ring. -/
inductive KernelStep
  | publish (i : ℕ) (e : Stamped)
  | hup (i : ℕ)
  deriving DecidableEq, Repr

/-- `perf_mmap__consume`. -/
def Ring.consume (ring : Ring) (prev : ℕ) : Ring :=
  if ring.refcnt = 1 ∧ ring.stream.length = prev ∧ ring.hasAux = false then
    { ring with base := false, refcnt := 0 }
  else ring

/-- `record__mmap_read_evlist`, step by step, called again and again. -/
def recorderStep (nrMmaps : ℕ) (o : Outcome) (r : Recorder) (g : ℕ → Ring) :
    Option (Recorder × (ℕ → Ring)) :=
  match r.pc with
  | .idle => some ({ r with
      pc := .visit 0
      atStart := r.bytesWritten
      started := r.file.length }, g)
  | .visit i =>
    if i < nrMmaps then
      if (g i).base then some ({ r with pc := .push i (g i).stream.length }, g)
      else some ({ r with pc := .auxtrace i }, g)
    else if r.bytesWritten ≠ r.atStart then
      match o with
      | .goes _ => some ({ r.write [.finishedRound] with pc := .idle }, g)
      | .breaks _ bytes =>
        some ({ r.breakOff 0 (cut [.finishedRound] bytes) with pc := .stopped }, g)
      | .fails => none
    else some ({ r with pc := .idle }, g)
  | .push i head =>
    if r.prev i = head then some ({ r with pc := .auxtrace i }, g)
    else
      let events := ((g i).stream.take head).drop (r.prev i)
      match o with
      | .goes _ =>
        some ({ r.write (events.map .event) with
            pc := .auxtrace i
            prev := update r.prev i head },
          update g i ((g i).consume head))
      | .breaks counted bytes =>
        some ({ r.breakOff counted (cut (events.map .event) bytes) with pc := .stopped }, g)
      | .fails => none
  | .auxtrace i =>
    match o with
    | .goes aux =>
      some ({ r.write (if aux = 0 then [] else [.auxtrace aux]) with pc := .visit (i + 1) }, g)
    | .breaks counted bytes =>
      some ({ r.breakOff counted (tornEntry bytes) with pc := .visit (i + 1) }, g)
    | .fails => some ({ r with pc := .stopped }, g)
  | .stopped => none

def kernelStep (nrMmaps : ℕ) (b : KernelStep) (g : ℕ → Ring) : Option (ℕ → Ring) :=
  match b with
  | .publish i e =>
    if i < nrMmaps ∧ 2 ≤ (g i).refcnt then
      some (update g i { g i with stream := (g i).stream ++ [e] })
    else none
  | .hup i =>
    if 2 ≤ (g i).refcnt then some (update g i { g i with refcnt := (g i).refcnt - 1 }) else none

def program (nrMmaps : ℕ) : Program Unit Recorder (ℕ → Ring) Outcome KernelStep where
  process _ := recorderStep nrMmaps
  environment := kernelStep nrMmaps

/-- Before the first pass. -/
def opened (bytesWritten : UInt64) (events : ℕ → ℕ) (hasAux : ℕ → Bool) :
    Concurrent Unit Recorder (ℕ → Ring) :=
  ⟨fun _ => { bytesWritten }, fun i => { refcnt := events i + 1, hasAux := hasAux i }⟩

/-- The events in some entries. -/
def events : List Entry → List Stamped
  | [] => []
  | .event e :: l => e :: events l
  | _ :: l => events l

/-- Their timestamps. -/
def times (l : List Entry) : List UInt64 := (events l).map Stamped.timestamp

structure Seen where
  old : List UInt64 := []
  prev : List UInt64 := []
  cur : List UInt64 := []

def Seen.add (s : Seen) : Entry → Seen
  | .event e => { s with cur := s.cur ++ [e.timestamp] }
  | .auxtrace _ => s
  | .torn _ => s
  | .finishedRound => ⟨s.old ++ s.prev, s.cur, []⟩

def Seen.after (s : Seen) (l : List Entry) : Seen := l.foldl Seen.add s

def Paced : Seen → List Entry → Prop
  | _, [] => True
  | s, .event e :: l => (∀ t ∈ s.old, t ≤ e.timestamp) ∧ Paced (s.add (.event e)) l
  | s, x :: l => Paced (s.add x) l

/-- An event comes out no later than a pass after later ones that are in the file. -/
def Prompt (c : Concurrent Unit Recorder (ℕ → Ring)) : Lib.Turn Unit Outcome KernelStep → Prop
  | .environment (.publish _ e) =>
    ∀ t ∈ times ((c.locals ()).file.take (c.locals ()).started), t ≤ e.timestamp
  | _ => True

instance (c : Concurrent Unit Recorder (ℕ → Ring)) (turn : Lib.Turn Unit Outcome KernelStep) :
    Decidable (Prompt c turn) :=
  match turn with
  | .environment (.publish _ _) => List.decidableBAll _ _
  | .environment (.hup _) => isTrue trivial
  | .process _ _ => isTrue trivial

@[simp] theorem events_append (l l' : List Entry) : events (l ++ l') = events l ++ events l' := by
  induction l with
  | nil => rfl
  | cons x l ih => cases x <;> simp [events, ih]

@[simp] theorem events_map_event (l : List Stamped) : events (l.map .event) = l := by
  induction l with
  | nil => rfl
  | cons e l ih => simp [events, ih]

theorem times_append (l l' : List Entry) : times (l ++ l') = times l ++ times l' := by
  simp [times]

theorem Seen.after_append (s : Seen) (l l' : List Entry) :
    s.after (l ++ l') = (s.after l).after l' := List.foldl_append

theorem Seen.after_all (s : Seen) (l : List Entry) :
    (s.after l).old ++ (s.after l).prev ++ (s.after l).cur =
      s.old ++ s.prev ++ s.cur ++ times l := by
  induction l generalizing s with
  | nil => simp [Seen.after, times, events]
  | cons x l ih =>
    rw [Seen.after, List.foldl_cons, ← Seen.after, ih]
    cases x <;> simp [Seen.add, times, events]

theorem Seen.after_events (s : Seen) (l : List Stamped) :
    (s.after (l.map .event)).old = s.old ∧ (s.after (l.map .event)).prev = s.prev := by
  induction l generalizing s with
  | nil => exact ⟨rfl, rfl⟩
  | cons e l ih => exact ih (s.add (.event e))

variable {l : List Entry} {s : Seen}

theorem Paced.append {l' : List Entry} (h : Paced s l) (h' : Paced (s.after l) l') :
    Paced s (l ++ l') := by
  induction l generalizing s with
  | nil => exact h'
  | cons x l ih =>
    cases x with
    | event e => exact ⟨h.1, ih h.2 h'⟩
    | auxtrace size => exact ih (s := s.add (.auxtrace size)) h h'
    | torn bytes => exact ih (s := s.add (.torn bytes)) h h'
    | finishedRound => exact ih (s := s.add .finishedRound) h h'

theorem paced_events {l : List Stamped} (h : ∀ e ∈ l, ∀ t ∈ s.old, t ≤ e.timestamp) :
    Paced s (l.map .event) := by
  induction l generalizing s with
  | nil => trivial
  | cons e l ih =>
    rw [List.forall_mem_cons] at h
    exact ⟨h.1, ih (s := s.add (.event e)) h.2⟩

theorem paced_of_events_nil (h : events l = []) : Paced s l := by
  induction l generalizing s with
  | nil => trivial
  | cons x l ih =>
    cases x with
    | event e => cases h
    | auxtrace size => exact ih (s := s.add (.auxtrace size)) h
    | torn bytes => exact ih (s := s.add (.torn bytes)) h
    | finishedRound => exact ih (s := s.add .finishedRound) h

@[simp] theorem events_tornEntry (bytes : ℕ) : events (tornEntry bytes) = [] := by
  rw [tornEntry]
  split <;> rfl

theorem cut_events (l : List Stamped) (bytes : ℕ) :
    ∃ n rest, cut (l.map .event) bytes = (l.take n).map .event ++ tornEntry rest := by
  induction l generalizing bytes with
  | nil => exact ⟨0, 0, rfl⟩
  | cons e l ih =>
    rw [List.map_cons, cut]
    split_ifs
    · obtain ⟨n, rest, h⟩ := ih (bytes - (Entry.event e).size.toNat)
      exact ⟨n + 1, rest, by rw [h]; rfl⟩
    · exact ⟨0, bytes, rfl⟩

theorem events_cut_mark (bytes : ℕ) : events (cut [.finishedRound] bytes) = [] := by
  rw [cut]
  split_ifs
  · rfl
  · exact events_tornEntry bytes

def NotBefore (r : Recorder) (g : ℕ → Ring) (n i k : ℕ) : Prop :=
  ∀ e ∈ (g i).stream.drop k, ∀ t ∈ times (r.file.take n), t ≤ e.timestamp

structure InPass (nrMmaps : ℕ) (r : Recorder) (g : ℕ → Ring) (before j : ℕ) : Prop where
  le : before ≤ r.started
  old : (Seen.after {} r.file).old ⊆ times (r.file.take before)
  prev : (Seen.after {} r.file).old ++ (Seen.after {} r.file).prev ⊆ times (r.file.take r.started)
  unread : ∀ i < nrMmaps, NotBefore r g before i (r.prev i)
  done : ∀ i < nrMmaps, i < j → NotBefore r g r.started i (r.prev i)

def Pc.Holds (nrMmaps : ℕ) (r : Recorder) (g : ℕ → Ring) : Pc → Prop
  | .idle => (Seen.after {} r.file).old ⊆ times (r.file.take r.started) ∧
      ∀ i < nrMmaps, NotBefore r g r.started i (r.prev i)
  | .visit j => ∃ before, InPass nrMmaps r g before j
  | .push j head => ∃ before, InPass nrMmaps r g before j ∧ NotBefore r g r.started j head
  | .auxtrace j => ∃ before, InPass nrMmaps r g before (j + 1)
  | .stopped => True

def Held (nrMmaps : ℕ) (r : Recorder) (g : ℕ → Ring) : Prop :=
  ∃ i n, r.prev i ≤ n ∧ n ≤ (g i).stream.length ∧ (r.pc ≠ .stopped → n = r.prev i) ∧
    (events r.file).Perm
      ((List.range nrMmaps).flatMap fun k => (g k).stream.take (update r.prev i n k))

/-- What holds in every run. -/
structure Copied (nrMmaps : ℕ) (r : Recorder) (g : ℕ → Ring) : Prop where
  read : ∀ i, r.prev i ≤ (g i).stream.length
  held : Held nrMmaps r g
  unmapped : ∀ i, (g i).base = false → (g i).stream.length = r.prev i ∧ (g i).refcnt = 0
  pushing : ∀ i head, r.pc = .push i head →
    i < nrMmaps ∧ r.prev i ≤ head ∧ head ≤ (g i).stream.length

structure Recording (nrMmaps : ℕ) (r : Recorder) (g : ℕ → Ring) : Prop
    extends Copied nrMmaps r g where
  started : r.started ≤ r.file.length
  paced : Paced {} r.file
  pc : r.pc.Holds nrMmaps r g

section Steps

variable {nrMmaps : ℕ} {r : Recorder} {g : ℕ → Ring} {before j : ℕ}

variable {g' : ℕ → Ring} {r' : Recorder} {n i head : ℕ} {l : List Entry} {b : KernelStep}

theorem NotBefore.mono {n' k : ℕ} (h : NotBefore r g n i k) (hle : n' ≤ n) :
    NotBefore r g n' i k := by
  intro e he t ht
  apply h e he t
  obtain ⟨m, rfl⟩ := Nat.exists_eq_add_of_le hle
  rw [List.take_add, times_append]
  exact List.mem_append_left _ ht

theorem opened_copied (nrMmaps : ℕ) (bytesWritten : UInt64) (fds : ℕ → ℕ) (hasAux : ℕ → Bool) :
    Copied nrMmaps ((opened bytesWritten fds hasAux).locals ())
      (opened bytesWritten fds hasAux).shared where
  read i := le_rfl
  held := ⟨0, 0, le_rfl, le_rfl, fun _ => rfl, by simp [opened, events]⟩
  unmapped i h := by cases h
  pushing i head h := by cases h

theorem opened_recording (nrMmaps : ℕ) (bytesWritten : UInt64) (fds : ℕ → ℕ) (hasAux : ℕ → Bool) :
    Recording nrMmaps ((opened bytesWritten fds hasAux).locals ())
      (opened bytesWritten fds hasAux).shared where
  toCopied := opened_copied nrMmaps bytesWritten fds hasAux
  started := le_rfl
  paced := trivial
  pc := by
    refine ⟨List.nil_subset _, ?_⟩
    intro i _ e he
    cases he

theorem InPass.next (h : InPass nrMmaps r g before j) (hle : r.started ≤ r.file.length) {j' : ℕ}
    (hfile : r'.file = r.file ++ l)
    (hold : ∀ s : Seen, (s.after l).old = s.old ∧ (s.after l).prev = s.prev)
    (hstarted : r'.started = r.started) (hstream : ∀ i, (g' i).stream = (g i).stream)
    (hunread : ∀ i < nrMmaps, NotBefore r g before i (r'.prev i))
    (hdone : ∀ i < nrMmaps, i < j' → NotBefore r g r.started i (r'.prev i)) :
    InPass nrMmaps r' g' before j' := by
  have hseen : (Seen.after {} r'.file).old = (Seen.after {} r.file).old ∧
      (Seen.after {} r'.file).prev = (Seen.after {} r.file).prev := by
    rw [hfile, Seen.after_append]
    exact hold _
  have htake : ∀ n ≤ r.started, r'.file.take n = r.file.take n := by
    intro n hn
    rw [hfile, List.take_append_of_le_length (hn.trans hle)]
  have hnot : ∀ {n i k}, n ≤ r.started → NotBefore r g n i k → NotBefore r' g' n i k := by
    intro n i k hn hk
    rw [NotBefore, hstream, htake n hn]
    exact hk
  exact {
    le := hstarted ▸ h.le
    old := by
      rw [hseen.1, htake _ h.le]
      exact h.old
    prev := by
      rw [hseen.1, hseen.2, hstarted, htake _ le_rfl]
      exact h.prev
    unread := fun i hi => hnot h.le (hunread i hi)
    done := fun i hi hj => hstarted ▸ hnot le_rfl (hdone i hi hj) }

theorem InPass.move (h : InPass nrMmaps r g before j) (hle : r.started ≤ r.file.length) (pc : Pc)
    {j' : ℕ} (hdone : ∀ i < nrMmaps, i < j' → NotBefore r g r.started i (r.prev i)) :
    InPass nrMmaps { r with pc } g before j' :=
  h.next hle (List.append_nil _).symm (fun _ => ⟨rfl, rfl⟩) rfl (fun _ => rfl) h.unread hdone

theorem inPass_start (hidle : Pc.Holds nrMmaps r g .idle) (hle : r.started ≤ r.file.length)
    (hfile : r'.file = r.file) (hprev : r'.prev = r.prev) (hstarted : r'.started = r.file.length) :
    InPass nrMmaps r' g r.started 0 where
  le := hstarted ▸ hle
  old := hfile ▸ hidle.1
  prev := by
    rw [hstarted, hfile, List.take_length]
    have hall := Seen.after_all {} r.file
    simp only [List.nil_append] at hall
    rw [← hall]
    exact List.subset_append_left _ _
  unread i hi := by
    rw [NotBefore, hfile, hprev]
    exact hidle.2 i hi
  done i _ hi := absurd hi (Nat.not_lt_zero i)

theorem InPass.finish (h : InPass nrMmaps r g before j) (hj : nrMmaps ≤ j)
    (hle : r.started ≤ r.file.length) (hl : l = [] ∨ l = [.finishedRound])
    (hfile : r'.file = r.file ++ l) (hprev : r'.prev = r.prev) (hstarted : r'.started = r.started) :
    Pc.Holds nrMmaps r' g .idle := by
  have htake : r'.file.take r'.started = r.file.take r.started := by
    rw [hfile, hstarted, List.take_append_of_le_length hle]
  constructor
  · rw [htake, hfile, Seen.after_append]
    rcases hl with rfl | rfl
    · exact fun t ht => h.prev (List.mem_append_left _ ht)
    · exact h.prev
  · intro i hi
    rw [NotBefore, htake, hprev]
    exact h.done i hi (hi.trans_le hj)

theorem perm_flatMap_of_append {α : Type*} {f f' : ℕ → List α} {x : List α} (hi : f' i = f i ++ x)
    (hother : ∀ k, k ≠ i → f' k = f k) {l : List ℕ} (hl : l.Nodup) (hmem : i ∈ l) :
    (l.flatMap f').Perm (l.flatMap f ++ x) := by
  induction l with
  | nil => cases hmem
  | cons k l ih =>
    rw [List.nodup_cons] at hl
    rw [List.flatMap_cons, List.flatMap_cons, List.append_assoc]
    by_cases hk : k = i
    · subst hk
      have hrest : l.flatMap f' = l.flatMap f :=
        List.flatMap_congr fun m hm => hother m fun hmk => hl.1 (hmk ▸ hm)
      rw [hi, hrest, List.append_assoc]
      exact List.perm_append_comm.append_left _
    · rw [hother k hk]
      rcases List.mem_cons.mp hmem with hik | hmem
      · exact absurd hik.symm hk
      · exact (ih hl.2 hmem).append_left _

theorem consume_stream (ring : Ring) (prev : ℕ) : (ring.consume prev).stream = ring.stream := by
  rw [Ring.consume]
  split <;> rfl

theorem update_consume_stream (g : ℕ → Ring) (j head i : ℕ) :
    (update g j ((g j).consume head) i).stream = (g i).stream := by
  by_cases hi : i = j
  · subst hi
    rw [update_self, consume_stream]
  · rw [update_of_ne hi]

theorem Copied.perm (h : Copied nrMmaps r g) (hpc : r.pc ≠ .stopped) :
    (events r.file).Perm ((List.range nrMmaps).flatMap fun k => (g k).stream.take (r.prev k)) := by
  obtain ⟨i, n, -, -, hn, hperm⟩ := h.held
  rwa [hn hpc, update_eq_self] at hperm

theorem Copied.of_write (h : Copied nrMmaps r g) (hpc : r.pc ≠ .stopped)
    (hfile : r'.file = r.file ++ l) (hl : events l = []) (hprev : r'.prev = r.prev)
    (hpushing : ∀ i head, r'.pc = .push i head →
      i < nrMmaps ∧ r.prev i ≤ head ∧ head ≤ (g i).stream.length) : Copied nrMmaps r' g where
  read := hprev ▸ h.read
  held := by
    refine ⟨0, r'.prev 0, le_rfl, hprev ▸ h.read 0, fun _ => rfl, ?_⟩
    rw [update_eq_self, hfile, events_append, hl, List.append_nil, hprev]
    exact h.perm hpc
  unmapped := hprev ▸ h.unmapped
  pushing := hprev ▸ hpushing

theorem Copied.perm_push (h : Copied nrMmaps r g) (hpc : r.pc = .push j head) (hn : r.prev j ≤ n) :
    (events r.file ++ ((g j).stream.take n).drop (r.prev j)).Perm
      ((List.range nrMmaps).flatMap fun k => (g k).stream.take (update r.prev j n k)) := by
  obtain ⟨hj, -, -⟩ := h.pushing j head hpc
  have hrunning : r.pc ≠ .stopped := by
    rw [hpc]
    exact Pc.noConfusion
  apply ((h.perm hrunning).append_right _).trans
  apply List.Perm.symm
  apply perm_flatMap_of_append (i := j) _ _ List.nodup_range (List.mem_range.mpr hj)
  · have hsplit := List.take_append_drop (r.prev j) ((g j).stream.take n)
    rw [List.take_take, min_eq_left hn] at hsplit
    rw [update_self, hsplit]
  · intro k hk
    rw [update_of_ne hk]

theorem Copied.push (h : Copied nrMmaps r g) (hpc : r.pc = .push j head) :
    Copied nrMmaps
      { r.write ((((g j).stream.take head).drop (r.prev j)).map .event) with
        pc := .auxtrace j
        prev := update r.prev j head }
      (update g j ((g j).consume head)) := by
  obtain ⟨hj, hprev, hhead⟩ := h.pushing j head hpc
  have hread : ∀ i, update r.prev j head i ≤ (update g j ((g j).consume head) i).stream.length := by
    simp only [update_consume_stream]
    exact (forall_update_iff r.prev fun i p => p ≤ (g i).stream.length).mpr
      ⟨hhead, fun i _ => h.read i⟩
  refine ⟨hread, ⟨j, update r.prev j head j, le_rfl, hread j, fun _ => rfl, ?_⟩, ?_, ?_⟩
  · simp only [update_consume_stream, update_eq_self, Recorder.write, events_append,
      events_map_event]
    exact h.perm_push hpc hprev
  · intro i hbase
    simp only [update_consume_stream]
    by_cases hi : i = j
    · subst hi
      simp only [update_self] at hbase ⊢
      rw [Ring.consume] at hbase ⊢
      split_ifs at hbase ⊢ with hlast
      · exact ⟨hlast.2.1, rfl⟩
      · obtain ⟨hlen, hrefs⟩ := h.unmapped i hbase
        exact ⟨by omega, hrefs⟩
    · simp only [update_of_ne hi] at hbase ⊢
      exact h.unmapped i hbase
  · intro i head hpush
    cases hpush

theorem Copied.breakOff (h : Copied nrMmaps r g) (hpc : r.pc = .push j head) (counted : UInt64)
    {rest : ℕ} :
    Copied nrMmaps
      { r.breakOff counted
          (((((g j).stream.take head).drop (r.prev j)).take n).map .event ++ tornEntry rest) with
        pc := .stopped } g := by
  obtain ⟨hj, hprev, hhead⟩ := h.pushing j head hpc
  refine ⟨h.read, ⟨j, min head (r.prev j + n), ?_, ?_, fun hstop => absurd rfl hstop, ?_⟩,
    h.unmapped, ?_⟩
  · exact le_min hprev (Nat.le_add_right _ _)
  · exact (min_le_left _ _).trans hhead
  · have hsome : (((g j).stream.take head).drop (r.prev j)).take n =
        ((g j).stream.take (min head (r.prev j + n))).drop (r.prev j) := by
      rw [List.take_drop, List.take_take, min_comm]
    simp only [Recorder.breakOff, events_append, events_map_event, events_tornEntry,
      List.append_nil]
    rw [hsome]
    exact h.perm_push hpc (le_min hprev (Nat.le_add_right _ _))
  · intro i head hpush
    cases hpush

theorem Copied.recorder (h : Copied nrMmaps r g) {o : Outcome}
    (hstep : recorderStep nrMmaps o r g = some (r', g')) : Copied nrMmaps r' g' := by
  have hnil : r.file = r.file ++ [] := (List.append_nil _).symm
  cases hpc : r.pc with
  | idle =>
    simp only [recorderStep, hpc, Option.some.injEq, Prod.mk.injEq] at hstep
    obtain ⟨rfl, rfl⟩ := hstep
    exact h.of_write (by simp [hpc]) hnil rfl rfl (by simp)
  | visit i =>
    have hrunning : r.pc ≠ .stopped := by simp [hpc]
    simp only [recorderStep, hpc] at hstep
    split_ifs at hstep with hi hbase hwritten
    · cases hstep
      refine h.of_write hrunning hnil rfl rfl ?_
      rintro _ _ ⟨⟩
      exact ⟨hi, h.read i, le_rfl⟩
    · cases hstep
      exact h.of_write hrunning hnil rfl rfl (by simp)
    · cases o with
      | goes aux =>
        cases hstep
        exact h.of_write (l := [.finishedRound]) hrunning rfl rfl rfl (by simp)
      | breaks counted bytes =>
        cases hstep
        exact h.of_write hrunning rfl (events_cut_mark bytes) rfl (by simp)
      | fails => cases hstep
    · cases hstep
      exact h.of_write hrunning hnil rfl rfl (by simp)
  | push i head =>
    simp only [recorderStep, hpc] at hstep
    split_ifs at hstep with hsame
    · cases hstep
      exact h.of_write (by simp [hpc]) hnil rfl rfl (by simp)
    · cases o with
      | goes aux =>
        cases hstep
        exact h.push hpc
      | breaks counted bytes =>
        cases hstep
        obtain ⟨n, rest, hcut⟩ := cut_events (((g i).stream.take head).drop (r.prev i)) bytes
        rw [hcut]
        exact h.breakOff hpc counted
      | fails => cases hstep
  | auxtrace i =>
    have hrunning : r.pc ≠ .stopped := by simp [hpc]
    simp only [recorderStep, hpc] at hstep
    cases o with
    | goes aux =>
      cases hstep
      exact h.of_write hrunning rfl (by split <;> rfl) rfl (by simp)
    | breaks counted bytes =>
      cases hstep
      exact h.of_write hrunning rfl (events_tornEntry bytes) rfl (by simp)
    | fails =>
      cases hstep
      exact h.of_write hrunning hnil rfl rfl (by simp)
  | stopped => simp [recorderStep, hpc] at hstep

theorem InPass.push (h : InPass nrMmaps r g before j) (hle : r.started ≤ r.file.length)
    (hnot : NotBefore r g r.started j head) (l : List Stamped) :
    InPass nrMmaps
      { r.write (l.map .event) with
        pc := .auxtrace j
        prev := update r.prev j head }
      (update g j ((g j).consume head)) before (j + 1) := by
  refine h.next hle rfl (Seen.after_events · l) rfl (update_consume_stream g j head) ?_ ?_
  · exact (forall_update_iff r.prev fun i p => i < nrMmaps → NotBefore r g before i p).mpr
      ⟨fun _ => hnot.mono h.le, fun i _ => h.unread i⟩
  · exact (forall_update_iff r.prev fun i p => i < nrMmaps → i < j + 1 →
      NotBefore r g r.started i p).mpr
        ⟨fun _ _ => hnot, fun i hne hi hij => h.done i hi (by omega)⟩

theorem InPass.paced (h : InPass nrMmaps r g before j) (hpaced : Paced {} r.file)
    (hj : j < nrMmaps) {l : List Stamped} (hl : l ⊆ (g j).stream.drop (r.prev j)) :
    Paced {} (r.file ++ l.map .event) := by
  apply hpaced.append
  apply paced_events
  intro e he t ht
  exact h.unread j hj e (hl he) t (h.old ht)

theorem Recording.recorder (h : Recording nrMmaps r g) {o : Outcome}
    (hstep : recorderStep nrMmaps o r g = some (r', g')) : Recording nrMmaps r' g' := by
  suffices hnext : r'.started ≤ r'.file.length ∧ Paced {} r'.file ∧ r'.pc.Holds nrMmaps r' g' from
    ⟨h.toCopied.recorder hstep, hnext.1, hnext.2.1, hnext.2.2⟩
  have hholds := h.pc
  have hle := h.started
  have hpaced := h.paced
  have hgrow : ∀ l : List Entry, r.started ≤ (r.file ++ l).length := by
    intro l
    rw [List.length_append]
    exact hle.trans (Nat.le_add_right _ _)
  cases hpc : r.pc with
  | idle =>
    simp only [recorderStep, hpc, Option.some.injEq, Prod.mk.injEq] at hstep
    obtain ⟨rfl, rfl⟩ := hstep
    rw [hpc] at hholds
    exact ⟨le_rfl, hpaced, r.started, inPass_start hholds hle rfl rfl rfl⟩
  | visit i =>
    rw [hpc] at hholds
    obtain ⟨before, hin⟩ := hholds
    simp only [recorderStep, hpc] at hstep
    split_ifs at hstep with hi hbase hwritten
    · cases hstep
      refine ⟨hle, hpaced, before, hin.move hle _ hin.done, ?_⟩
      intro e he
      rw [List.drop_length] at he
      cases he
    · cases hstep
      refine ⟨hle, hpaced, before, hin.move hle _ ?_⟩
      intro k hk hki
      rcases Nat.lt_succ_iff_lt_or_eq.mp hki with hlt | rfl
      · exact hin.done k hk hlt
      · intro e he
        rw [← (h.unmapped k (by simpa using hbase)).1, List.drop_length] at he
        cases he
    · cases o with
      | goes aux =>
        cases hstep
        exact ⟨hgrow _, hpaced.append (paced_of_events_nil rfl),
          hin.finish (not_lt.mp hi) hle (.inr rfl) rfl rfl rfl⟩
      | breaks counted bytes =>
        cases hstep
        exact ⟨hgrow _, hpaced.append (paced_of_events_nil (events_cut_mark bytes)), trivial⟩
      | fails => cases hstep
    · cases hstep
      exact ⟨hle, hpaced,
        hin.finish (not_lt.mp hi) hle (.inl rfl) (List.append_nil _).symm rfl rfl⟩
  | push i head =>
    obtain ⟨hi, -, -⟩ := h.pushing i head hpc
    have hsome : ((g i).stream.take head).drop (r.prev i) ⊆ (g i).stream.drop (r.prev i) :=
      ((List.take_sublist head _).drop (r.prev i)).subset
    rw [hpc] at hholds
    obtain ⟨before, hin, hnot⟩ := hholds
    simp only [recorderStep, hpc] at hstep
    split_ifs at hstep with hsame
    · cases hstep
      refine ⟨hle, hpaced, before, hin.move hle _ ?_⟩
      intro k hk hki
      rcases Nat.lt_succ_iff_lt_or_eq.mp hki with hlt | rfl
      · exact hin.done k hk hlt
      · rwa [← hsame] at hnot
    · cases o with
      | goes aux =>
        cases hstep
        exact ⟨hgrow _, hin.paced hpaced hi hsome, before, hin.push hle hnot _⟩
      | breaks counted bytes =>
        cases hstep
        refine ⟨hgrow _, ?_, trivial⟩
        obtain ⟨n, rest, hcut⟩ := cut_events (((g i).stream.take head).drop (r.prev i)) bytes
        simp only [Recorder.breakOff, hcut]
        rw [← List.append_assoc]
        exact (hin.paced hpaced hi (List.Subset.trans (List.take_subset _ _) hsome)).append
          (paced_of_events_nil (events_tornEntry rest))
      | fails => cases hstep
  | auxtrace i =>
    rw [hpc] at hholds
    obtain ⟨before, hin⟩ := hholds
    simp only [recorderStep, hpc] at hstep
    cases o with
    | goes aux =>
      cases hstep
      refine ⟨hgrow _, hpaced.append (paced_of_events_nil (by split <;> rfl)), before,
        hin.next hle rfl ?_ rfl (fun _ => rfl) hin.unread hin.done⟩
      intro s
      split <;> exact ⟨rfl, rfl⟩
    | breaks counted bytes =>
      cases hstep
      refine ⟨hgrow _, hpaced.append (paced_of_events_nil (events_tornEntry bytes)), before,
        hin.next hle rfl ?_ rfl (fun _ => rfl) hin.unread hin.done⟩
      intro s
      rw [tornEntry]
      split <;> exact ⟨rfl, rfl⟩
    | fails =>
      cases hstep
      exact ⟨hle, hpaced, trivial⟩
  | stopped => simp [recorderStep, hpc] at hstep

structure Published (g g' : ℕ → Ring) : Prop where
  stream : ∀ i, ∃ l, (g' i).stream = (g i).stream ++ l
  base : ∀ i, (g' i).base = false → g' i = g i

theorem Published.length_le (hpub : Published g g') (i : ℕ) :
    (g i).stream.length ≤ (g' i).stream.length := by
  obtain ⟨l, hl⟩ := hpub.stream i
  simp [hl]

theorem Published.take (hpub : Published g g') (hn : n ≤ (g i).stream.length) :
    (g' i).stream.take n = (g i).stream.take n := by
  obtain ⟨l, hl⟩ := hpub.stream i
  rw [hl, List.take_append_of_le_length hn]

theorem Copied.published (h : Copied nrMmaps r g) (hpub : Published g g') :
    Copied nrMmaps r g' where
  read i := (h.read i).trans (hpub.length_le i)
  held := by
    obtain ⟨i, n, hle, hn, hstop, hperm⟩ := h.held
    refine ⟨i, n, hle, hn.trans (hpub.length_le i), hstop, ?_⟩
    have htake : ∀ k, (g' k).stream.take (update r.prev i n k) =
        (g k).stream.take (update r.prev i n k) := fun k =>
      hpub.take ((forall_update_iff r.prev fun k m => m ≤ (g k).stream.length).mpr
        ⟨hn, fun k _ => h.read k⟩ k)
    simpa only [htake] using hperm
  unmapped i hbase := by
    have hsame := hpub.base i hbase
    rw [hsame] at hbase ⊢
    exact h.unmapped i hbase
  pushing i head hpc := by
    obtain ⟨hi, hprev, hhead⟩ := h.pushing i head hpc
    exact ⟨hi, hprev, hhead.trans (hpub.length_le i)⟩

theorem Copied.kernel (h : Copied nrMmaps r g) (hstep : kernelStep nrMmaps b g = some g') :
    Published g g' := by
  have hmapped : ∀ i, 2 ≤ (g i).refcnt → (g i).base ≠ false := by
    intro i hrefs hbase
    have := (h.unmapped i hbase).2
    omega
  have hupdate : ∀ i ring, (∃ l, ring.stream = (g i).stream ++ l) → ring.base ≠ false →
      Published g (update g i ring) := by
    intro i ring hstream hbase
    constructor
    · exact (forall_update_iff g fun k ring => ∃ l, ring.stream = (g k).stream ++ l).mpr
        ⟨hstream, fun k _ => ⟨[], (List.append_nil _).symm⟩⟩
    · exact (forall_update_iff g fun k ring => ring.base = false → ring = g k).mpr
        ⟨fun h => absurd h hbase, fun _ _ _ => rfl⟩
  cases b with
  | publish i e =>
    simp only [kernelStep, Option.ite_none_right_eq_some, Option.some.injEq] at hstep
    obtain ⟨⟨-, hrefs⟩, rfl⟩ := hstep
    exact hupdate i _ ⟨[e], rfl⟩ (hmapped i hrefs)
  | hup i =>
    simp only [kernelStep, Option.ite_none_right_eq_some, Option.some.injEq] at hstep
    obtain ⟨hrefs, rfl⟩ := hstep
    exact hupdate i _ ⟨[], (List.append_nil _).symm⟩ (hmapped i hrefs)

theorem NotBefore.kernel {k : ℕ} (h : NotBefore r g n i k) (hn : n ≤ r.started)
    (hstep : kernelStep nrMmaps b g = some g')
    (hprompt : ∀ i e, b = .publish i e → ∀ t ∈ times (r.file.take r.started), t ≤ e.timestamp) :
    NotBefore r g' n i k := by
  cases b with
  | publish j e =>
    simp only [kernelStep, Option.ite_none_right_eq_some, Option.some.injEq] at hstep
    obtain ⟨-, rfl⟩ := hstep
    by_cases hij : i = j
    · subst hij
      intro e' he' t ht
      rw [update_self, List.drop_append] at he'
      rcases List.mem_append.mp he' with hmem | hmem
      · exact h e' hmem t ht
      · cases List.mem_singleton.mp (List.mem_of_mem_drop hmem)
        obtain ⟨m, hm⟩ := Nat.exists_eq_add_of_le hn
        apply hprompt i e rfl
        rw [hm, List.take_add, times_append]
        exact List.mem_append_left _ ht
    · rwa [NotBefore, update_of_ne hij]
  | hup j =>
    simp only [kernelStep, Option.ite_none_right_eq_some, Option.some.injEq] at hstep
    obtain ⟨-, rfl⟩ := hstep
    by_cases hij : i = j
    · subst hij
      rwa [NotBefore, update_self]
    · rwa [NotBefore, update_of_ne hij]

theorem Recording.kernel (h : Recording nrMmaps r g) (hstep : kernelStep nrMmaps b g = some g')
    (hprompt : ∀ i e, b = .publish i e → ∀ t ∈ times (r.file.take r.started), t ≤ e.timestamp) :
    Recording nrMmaps r g' := by
  have hkeep : ∀ {n i k}, n ≤ r.started → NotBefore r g n i k → NotBefore r g' n i k :=
    fun hn hk => hk.kernel hn hstep hprompt
  have hinPass : ∀ {before j}, InPass nrMmaps r g before j → InPass nrMmaps r g' before j :=
    fun hin => ⟨hin.le, hin.old, hin.prev, fun i hi => hkeep hin.le (hin.unread i hi),
      fun i hi hj => hkeep le_rfl (hin.done i hi hj)⟩
  refine ⟨h.toCopied.published (h.toCopied.kernel hstep), h.started, h.paced, ?_⟩
  have hholds := h.pc
  cases hpc : r.pc with
  | idle =>
    rw [hpc] at hholds
    exact ⟨hholds.1, fun i hi => hkeep le_rfl (hholds.2 i hi)⟩
  | visit i =>
    rw [hpc] at hholds
    obtain ⟨before, hin⟩ := hholds
    exact ⟨before, hinPass hin⟩
  | push i head =>
    rw [hpc] at hholds
    obtain ⟨before, hin, hnot⟩ := hholds
    exact ⟨before, hinPass hin, hkeep le_rfl hnot⟩
  | auxtrace i =>
    rw [hpc] at hholds
    obtain ⟨before, hin⟩ := hholds
    exact ⟨before, hinPass hin⟩
  | stopped => trivial

end Steps

section Runs

variable {nrMmaps : ℕ} {bytesWritten : UInt64} {fds : ℕ → ℕ} {hasAux : ℕ → Bool}
  {turns : List (Lib.Turn Unit Outcome KernelStep)} {c : Concurrent Unit Recorder (ℕ → Ring)}

theorem copied_run (hrun : (program nrMmaps).run (opened bytesWritten fds hasAux) turns = some c) :
    Copied nrMmaps (c.locals ()) c.shared := by
  refine (Program.run_asserts (P := fun _ _ => True) (I := fun _ => True)
    (A := fun _ => Copied nrMmaps) ?_ (fun _ _ _ _ _ _ _ _ _ hj => absurd rfl hj) ?_
    (Program.along_of_forall (fun _ _ _ => trivial) _) hrun
    ⟨trivial, fun _ => opened_copied nrMmaps bytesWritten fds hasAux⟩).locals ()
  · intro c _ o r g _ h hact
    exact ⟨trivial, (h.locals ()).recorder hact⟩
  · intro c b g _ h hact
    exact ⟨trivial, fun _ => (h.locals ()).published ((h.locals ()).kernel hact)⟩

theorem recording_run (hrun : (program nrMmaps).run (opened bytesWritten fds hasAux) turns = some c)
    (hprompt : (program nrMmaps).Along Prompt (opened bytesWritten fds hasAux) turns) :
    Recording nrMmaps (c.locals ()) c.shared := by
  refine (Program.run_asserts (I := fun _ => True) (A := fun _ => Recording nrMmaps) ?_
    (fun _ _ _ _ _ _ _ _ _ hj => absurd rfl hj) ?_ hprompt hrun
    ⟨trivial, fun _ => opened_recording nrMmaps bytesWritten fds hasAux⟩).locals ()
  · intro c _ o r g _ h hact
    exact ⟨trivial, (h.locals ()).recorder hact⟩
  · intro c b g hP h hact
    refine ⟨trivial, fun _ => (h.locals ()).kernel hact ?_⟩
    rintro i e rfl
    exact hP

end Runs

/-- The answers an entry of the file meets when it is processed. -/
structure Answer where
  first : Session.Memory
  second : Session.Memory
  turns : ℕ → Session.Turn

/-- `perf_session__process_event` on the entries of a file from `offset` on. -/
def sessionOps (answers : ℕ → Answer) : ℕ → UInt64 → List Entry → List Op
  | _, _, [] => []
  | n, offset, x :: l =>
    let rest := sessionOps answers (n + 1) (offset + x.size) l
    match x with
    | .event e =>
      .queue ⟨e.timestamp, offset, e.event⟩ (answers n).first (answers n).second
        (answers n).turns :: rest
    | .auxtrace _ => rest
    | .finishedRound => .flush .round (answers n).turns :: rest
    | .torn _ => []

/-- The events of a file as the session queues them. -/
def items (offset : UInt64) : List Entry → List Item
  | [] => []
  | .event e :: l =>
    ⟨e.timestamp, offset, e.event⟩ :: items (offset + (Entry.event e).size) l
  | x :: l => items (offset + x.size) l

theorem items_events (offset : UInt64) (l : List Entry) :
    (items offset l).map (fun x => (⟨x.timestamp, x.event⟩ : Stamped)) = events l := by
  induction l generalizing offset with
  | nil => rfl
  | cons x l ih => cases x <;> simp [items, events, ih]

theorem offered_sessionOps {answers : ℕ → Answer} (hwhole : ∀ x ∈ l, x.Whole)
    (hts : ∀ e ∈ events l, ¬ OrderedEvents.refuses e.timestamp) (n : ℕ) (offset : UInt64) :
    (sessionOps answers n offset l).flatMap Op.offered = items offset l := by
  induction l generalizing n offset with
  | nil => rfl
  | cons x l ih =>
    rw [List.forall_mem_cons] at hwhole
    cases x with
    | event e =>
      rw [events, List.forall_mem_cons] at hts
      simp [sessionOps, items, Op.offered, hts.1, ih hwhole.2 hts.2]
    | auxtrace size => exact ih hwhole.2 hts _ _
    | finishedRound =>
      simp only [sessionOps, List.flatMap_cons, Op.offered, List.nil_append]
      exact ih hwhole.2 hts _ _
    | torn bytes => exact hwhole.1.elim

theorem inOrder_sessionOps {answers : ℕ → Answer} {n : ℕ} {offset : UInt64} {oe : OrderedEvents}
    {old prev cur : List Item} (h : oe.Rounds old prev cur)
    (hpaced : Paced ⟨old.map Item.timestamp, prev.map Item.timestamp, cur.map Item.timestamp⟩ l)
    (hts : ∀ e ∈ events l, ¬ OrderedEvents.refuses e.timestamp)
    (hserved : OrderedEvents.Along OrderedEvents.Served oe (sessionOps answers n offset l)) :
    oe.InOrder (sessionOps answers n offset l) := by
  induction l generalizing n offset oe old prev cur with
  | nil => exact ⟨trivial, _, rfl, h.inOrder⟩
  | cons x l ih =>
    cases x with
    | event e =>
      rw [events, List.forall_mem_cons] at hts
      have hold : ∀ x ∈ old, x.timestamp ≤ e.timestamp := fun x hx =>
        hpaced.1 _ (List.mem_map_of_mem hx)
      obtain ⟨hsmooth, oe', hstep, h'⟩ := h.arrive
        (a := ⟨⟨e.timestamp, offset, e.event⟩, (answers n).first, (answers n).second,
          (answers n).turns⟩) hserved.1 hts.1 hold
      apply OrderedEvents.InOrder.cons hsmooth hstep
      apply ih h' _ hts.2 (hserved.2 _ hstep)
      simpa [Seen.add] using hpaced.2
    | auxtrace size => exact ih h hpaced hts hserved
    | finishedRound =>
      have hob : OrderedEvents.Obliging (answers n).turns := hserved.1
      have hsmooth : OrderedEvents.Smooth oe (.flush .round (answers n).turns) := ⟨hob, trivial⟩
      apply OrderedEvents.InOrder.cons hsmooth rfl
      apply ih (h.finish hob) _ hts (hserved.2 _ rfl)
      simpa [Paced, Seen.add] using hpaced
    | torn bytes => exact ⟨trivial, _, rfl, h.inOrder⟩

/-- From the rings to the delivery. -/
theorem recording_delivered_in_order (nrMmaps : ℕ) (bytesWritten : UInt64) (fds : ℕ → ℕ)
    (hasAux : ℕ → Bool) (turns : List (Lib.Turn Unit Outcome KernelStep))
    (c : Concurrent Unit Recorder (ℕ → Ring))
    (hrun : (program nrMmaps).run (opened bytesWritten fds hasAux) turns = some c) :
    (∃ i n, (c.locals ()).prev i ≤ n ∧ n ≤ (c.shared i).stream.length ∧
        ((c.locals ()).pc ≠ .stopped → n = (c.locals ()).prev i) ∧
        (events (c.locals ()).file).Perm ((List.range nrMmaps).flatMap fun k =>
          (c.shared k).stream.take (update (c.locals ()).prev i n k))) ∧
      ((program nrMmaps).Along Prompt (opened bytesWritten fds hasAux) turns →
        (∀ x ∈ (c.locals ()).file, x.Whole) →
        (∀ i < nrMmaps, ∀ e ∈ (c.shared i).stream, ¬ OrderedEvents.refuses e.timestamp) →
        ∀ (maxAllocSize : UInt64) (copyOnQueue : Bool) (answers : ℕ → Answer) (offset : UInt64),
          OrderedEvents.Along OrderedEvents.Served (OrderedEvents.init maxAllocSize copyOnQueue)
            (sessionOps answers 0 offset (c.locals ()).file) →
          ∃ oe, (OrderedEvents.init maxAllocSize copyOnQueue).run
              (sessionOps answers 0 offset (c.locals ()).file) =
                some (oe, items offset (c.locals ()).file) ∧
            (items offset (c.locals ()).file).map
              (fun x => (⟨x.timestamp, x.event⟩ : Stamped)) = events (c.locals ()).file ∧
            oe.nrUnorderedEvents = 0 ∧
            ∀ answer, OrderedEvents.Obliging answer → oe.events.length < 2 ^ 32 →
              (oe.flush .final answer).2.events = [] ∧
              StableSort Item.time ((oe.flush .final answer).2.delivered.map OrderedEvent.toItem)
                (items offset (c.locals ()).file)) := by
  have hheld := (copied_run hrun).held
  refine ⟨hheld, ?_⟩
  intro hprompt hwhole hts maxAllocSize copyOnQueue answers offset hserved
  have h := recording_run hrun hprompt
  have hfile : ∀ e ∈ events (c.locals ()).file, ¬ OrderedEvents.refuses e.timestamp := by
    intro e he
    obtain ⟨i, n, -, -, -, hperm⟩ := hheld
    obtain ⟨k, hk, htake⟩ := List.mem_flatMap.mp (hperm.mem_iff.mp he)
    exact hts k (List.mem_range.mp hk) e (List.mem_of_mem_take htake)
  obtain ⟨halong, r, hdone, hzero⟩ := inOrder_sessionOps
    (OrderedEvents.rounds_init maxAllocSize copyOnQueue) h.paced hfile hserved
  obtain ⟨oe, hall, hsorts⟩ := (OrderedEvents.sorts_init maxAllocSize copyOnQueue).run halong
  rw [offered_sessionOps hwhole hfile] at hall hsorts
  cases hdone.symm.trans hall
  exact ⟨oe, hall, items_events offset _, hzero, fun answer hob hlen =>
    hsorts.flush_final hob hlen⟩

example : ((program 1).run (opened 0 (fun _ => 1) fun _ => false)
    [.environment (.publish 0 ⟨5, ⟨8, []⟩⟩), .environment (.publish 0 ⟨6, ⟨8, []⟩⟩),
      .process () (.goes 0), .process () (.goes 0), .process () (.breaks 0 12)]).map
    (fun c => ((c.locals ()).file, (c.locals ()).prev 0)) =
      some ([.event ⟨5, ⟨8, []⟩⟩, .torn 4], 0) := by decide +kernel

/-- Two rings. -/
def lateTurns : List (Lib.Turn Unit Outcome KernelStep) :=
  [.process () (.goes 0), .environment (.publish 0 ⟨5, ⟨8, []⟩⟩), .process () (.goes 0),
    .process () (.goes 0), .process () (.goes 0), .process () (.goes 0), .process () (.goes 0),
    .environment (.publish 1 ⟨3, ⟨8, []⟩⟩), .process () (.goes 0), .process () (.goes 0)] ++
  List.replicate 8 (.process () (.goes 0))

def lateFile : List Entry :=
  [.event ⟨5, ⟨8, []⟩⟩, .finishedRound, .event ⟨3, ⟨8, []⟩⟩, .finishedRound]

/-- Plenty of memory, and everything is delivered. -/
def plainAnswer : Answer := ⟨⟨true, true⟩, ⟨true, true⟩, OrderedEvents.obliging⟩

theorem lateTurns_prompt :
    (program 2).Along Prompt (opened 0 (fun _ => 1) fun _ => false) lateTurns := by
  decide +kernel

theorem lateFile_whole : ∀ x ∈ lateFile, x.Whole := by
  simp [lateFile, Entry.Whole]

theorem lateFile_served : OrderedEvents.Along OrderedEvents.Served
    (OrderedEvents.init (0 - 1) false) (sessionOps (fun _ => plainAnswer) 0 0 lateFile) := by
  apply OrderedEvents.along_cons (fun _ => ⟨_, _, rfl⟩) rfl
  apply OrderedEvents.along_cons (fun _ => rfl) rfl
  apply OrderedEvents.along_cons (fun _ => ⟨_, _, rfl⟩) rfl
  exact OrderedEvents.along_cons (fun _ => rfl) rfl trivial

theorem late_event_delivered_in_order :
    ∃ c, (program 2).run (opened 0 (fun _ => 1) fun _ => false) lateTurns = some c ∧
      (c.locals ()).file = lateFile ∧
      ∃ oe, (OrderedEvents.init (0 - 1) false).run
          (sessionOps (fun _ => plainAnswer) 0 0 lateFile) = some (oe, items 0 lateFile) ∧
        oe.nrUnorderedEvents = 0 := by
  have hend : ((program 2).run (opened 0 (fun _ => 1) fun _ => false) lateTurns).map
      (fun c => ((c.locals ()).file, (c.shared 0).stream, (c.shared 1).stream)) =
        some (lateFile, [⟨5, ⟨8, []⟩⟩], [⟨3, ⟨8, []⟩⟩]) := by decide +kernel
  obtain ⟨c, hrun, hc⟩ := Option.map_eq_some_iff.mp hend
  simp only [Prod.mk.injEq] at hc
  obtain ⟨hfile, hzero, hone⟩ := hc
  have hts : ∀ i < 2, ∀ e ∈ (c.shared i).stream, ¬ OrderedEvents.refuses e.timestamp := by
    intro i hi
    interval_cases i
    · rw [hzero]
      decide
    · rw [hone]
      decide
  have h := recording_delivered_in_order 2 0 (fun _ => 1) (fun _ => false) lateTurns c hrun
  obtain ⟨oe, hall, -, hnone, -⟩ := h.2 lateTurns_prompt (hfile ▸ lateFile_whole) hts (0 - 1) false
    (fun _ => plainAnswer) 0 (hfile ▸ lateFile_served)
  rw [hfile] at hall
  exact ⟨c, hrun, hfile, oe, hall, hnone⟩

end RPerf.Record.Evlist
