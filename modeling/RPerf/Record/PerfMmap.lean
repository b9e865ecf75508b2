import RPerf.Lib.Interleaving
import RPerf.Lib.Loops
import RPerf.Record.AuxtraceMmap

/-!
# Recording a ring buffer

`perf_mmap__push` and what it calls, of `mmap.c`.
-/

namespace RPerf.Record

open Lib

/-- What `perf_mmap__push` finds to push. -/
inductive Pushing
  | nothing
  | overrun
  | chunks (l : List (UInt64 × UInt64))
  deriving DecidableEq, Repr

/-- What `perf_mmap__push` pushes of a range. -/
def pushChunks (mask start stop : UInt64) : Pushing :=
  if start = stop then .nothing
  else
    let size := stop - start
    if size > mask + 1 then .overrun
    else if (start &&& mask) + size ≠ stop &&& mask then
      let size := mask + 1 - (start &&& mask)
      let start' := start + size
      .chunks [(start &&& mask, size), (start' &&& mask, stop - start')]
    else .chunks [(start &&& mask, size)]

/-- The mask of a ring of `2 ^ k` bytes; it is an `int`. -/
def IsMask (mask : UInt64) (k : ℕ) : Prop := mask.toNat + 1 = 2 ^ k ∧ k ≤ 30

def offsets (l : List (UInt64 × UInt64)) : List ℕ :=
  l.flatMap fun c => List.range' c.1.toNat c.2.toNat

section Chunks

variable {mask : UInt64} {k : ℕ}

theorem IsMask.toNat_and (h : IsMask mask k) (x : UInt64) :
    (x &&& mask).toNat = x.toNat % 2 ^ k := by
  have hmask : mask.toNat = 2 ^ k - 1 := by
    have := h.1
    omega
  rw [UInt64.toNat_and, hmask, Nat.and_two_pow_sub_one_eq_mod]

theorem IsMask.dvd (h : IsMask mask k) : 2 ^ k ∣ 2 ^ 64 :=
  Nat.pow_dvd_pow 2 (h.2.trans (by decide))

theorem IsMask.size_le (h : IsMask mask k) : 2 ^ k ≤ 2 ^ 30 := Nat.pow_le_pow_right (by decide) h.2

theorem IsMask.toNat_succ (h : IsMask mask k) : (mask + 1).toNat = 2 ^ k := by
  have hle := h.size_le
  have hsucc := h.1
  rw [UInt64.toNat_add]
  change (mask.toNat + 1) % 2 ^ 64 = _
  omega

theorem IsMask.toNat_ofNat_and (h : IsMask mask k) (p : ℕ) :
    (UInt64.ofNat p &&& mask).toNat = p % 2 ^ k := by
  rw [h.toNat_and, UInt64.toNat_ofNat', Nat.mod_mod_of_dvd _ h.dvd]

theorem toNat_ofNat_add_sub {p d : ℕ} (hd : d < 2 ^ 64) :
    (UInt64.ofNat (p + d) - UInt64.ofNat p).toNat = d := by
  rw [UInt64.ofNat_add, UInt64.add_comm, UInt64.add_sub_cancel, UInt64.toNat_ofNat_of_lt' hd]

theorem range'_mod {p n size : ℕ} (h : p % size + n ≤ size) (hpos : 0 < size) :
    (List.range' p n).map (· % size) = List.range' (p % size) n := by
  induction n generalizing p with
  | zero => rfl
  | succ n ih =>
    rw [List.range'_succ, List.map_cons, List.range'_succ]
    congr 1
    by_cases hn : n = 0
    · rw [hn]
      rfl
    · have hnext : (p + 1) % size = p % size + 1 := by
        rw [Nat.add_mod, Nat.mod_eq_of_lt (a := 1) (by omega), Nat.mod_eq_of_lt (by omega)]
      rw [← hnext]
      exact ih (by omega)

theorem pushChunks_spec (h : IsMask mask k) {p d : ℕ} (hd : d ≤ 2 ^ k) :
    (d = 0 ∧ pushChunks mask (.ofNat p) (.ofNat (p + d)) = .nothing) ∨
      ∃ l, pushChunks mask (.ofNat p) (.ofNat (p + d)) = .chunks l ∧
        offsets l = (List.range' p d).map (· % 2 ^ k) := by
  have hle := h.size_le
  have hsize : (UInt64.ofNat (p + d) - UInt64.ofNat p).toNat = d :=
    toNat_ofNat_add_sub (by omega)
  have hpos : 0 < 2 ^ k := Nat.two_pow_pos k
  have hlt := Nat.mod_lt p hpos
  have hstart := h.toNat_ofNat_and p
  by_cases hzero : d = 0
  · subst hzero
    exact .inl ⟨rfl, if_pos rfl⟩
  refine .inr ?_
  have hne : UInt64.ofNat p ≠ UInt64.ofNat (p + d) := by
    intro heq
    rw [← heq, UInt64.sub_self] at hsize
    exact hzero hsize.symm
  have hkeep : ¬ UInt64.ofNat (p + d) - UInt64.ofNat p > mask + 1 := by
    rw [gt_iff_lt, UInt64.lt_iff_toNat_lt, hsize, h.toNat_succ]
    omega
  by_cases hwrap : (UInt64.ofNat p &&& mask) + (UInt64.ofNat (p + d) - UInt64.ofNat p) ≠
      UInt64.ofNat (p + d) &&& mask
  · -- the range goes around the end of the ring, or just to it
    have hover : 2 ^ k ≤ p % 2 ^ k + d := by
      by_contra hin
      have hmod : (p + d) % 2 ^ k = p % 2 ^ k + d := by
        rw [← Nat.mod_add_mod, Nat.mod_eq_of_lt (by omega)]
      apply hwrap
      apply UInt64.toNat_inj.mp
      rw [UInt64.toNat_add, hsize, hstart, h.toNat_ofNat_and, hmod]
      exact Nat.mod_eq_of_lt (by omega)
    have hfirst : (mask + 1 - (UInt64.ofNat p &&& mask)).toNat = 2 ^ k - p % 2 ^ k := by
      rw [UInt64.toNat_sub_of_le, h.toNat_succ, hstart]
      rw [UInt64.le_iff_toNat_le, h.toNat_succ, hstart]
      omega
    have hmid : UInt64.ofNat p + (mask + 1 - (UInt64.ofNat p &&& mask)) =
        UInt64.ofNat (p + (2 ^ k - p % 2 ^ k)) := by
      rw [UInt64.ofNat_add, ← hfirst, UInt64.ofNat_toNat]
    have hzero' : (p + (2 ^ k - p % 2 ^ k)) % 2 ^ k = 0 := by
      rw [← Nat.mod_add_mod, Nat.add_sub_of_le hlt.le, Nat.mod_self]
    have hsecond : (UInt64.ofNat (p + d) - UInt64.ofNat (p + (2 ^ k - p % 2 ^ k))).toNat =
        p % 2 ^ k + d - 2 ^ k := by
      have hsplit : p + d = p + (2 ^ k - p % 2 ^ k) + (p % 2 ^ k + d - 2 ^ k) := by omega
      rw [hsplit, toNat_ofNat_add_sub (by omega)]
    refine ⟨_, by rw [pushChunks, if_neg hne, if_neg hkeep, if_pos hwrap], ?_⟩
    have hcounts : List.range' p d = List.range' p (2 ^ k - p % 2 ^ k) ++
        List.range' (p + (2 ^ k - p % 2 ^ k)) (p % 2 ^ k + d - 2 ^ k) := by
      rw [List.range'_append_1]
      congr 1
      omega
    rw [hcounts, List.map_append, range'_mod (by omega) hpos, range'_mod (by omega) hpos, hzero']
    simp only [offsets, List.flatMap_cons, List.flatMap_nil, List.append_nil, hmid, hstart, hfirst,
      h.toNat_ofNat_and, hzero', hsecond]
  · rw [not_not] at hwrap
    have hin : p % 2 ^ k + d ≤ 2 ^ k := by
      have hnat := congrArg UInt64.toNat hwrap
      rw [UInt64.toNat_add, hsize, hstart, h.toNat_ofNat_and] at hnat
      have hlt' := Nat.mod_lt (p + d) hpos
      omega
    refine ⟨_, by rw [pushChunks, if_neg hne, if_neg hkeep, if_neg (not_not.mpr hwrap)], ?_⟩
    rw [range'_mod hin hpos]
    simp only [offsets, List.flatMap_cons, List.flatMap_nil, List.append_nil, hstart, hsize]

end Chunks

structure Shared where
  data : Memory
  dataHead : UInt64 := 0
  dataTail : UInt64 := 0
  refcnt : ℕ
  mapped : Bool := true
  stream : List UInt8 := []

/-- Where the recorder is in `perf_mmap__push`. -/
inductive Pc
  | idle
  | pushing (head : UInt64) (chunks : List (UInt64 × UInt64))
  | pushed (head : UInt64)
  | consumed
  deriving DecidableEq, Repr

structure Recorder where
  pc : Pc := .idle
  prev : UInt64 := 0
  file : List UInt8 := []
  overrun : Bool := false
  failed : Bool := false

/-- Does the next byte get to the file? -/
inductive Write
  | succeeds
  | fails
  deriving DecidableEq, Repr

inductive KernelStep
  | store (i : ℕ) (b : UInt8)
  | publish (n : ℕ)
  | hup
  deriving DecidableEq, Repr

/-- The mask of a ring, and whether an AUX area belongs to it. -/
structure RingConfig where
  mask : UInt64
  hasAux : Bool := false

namespace RingConfig

variable (cfg : RingConfig)

def recorderStep (w : Write) (r : Recorder) (g : Shared) : Option (Recorder × Shared) :=
  match r.pc with
  | .idle =>
    if g.mapped = false then none
    else
      match pushChunks cfg.mask r.prev g.dataHead with
      | .nothing => some (r, g)
      | .overrun => some ({ r with pc := .pushed g.dataHead, overrun := true }, g)
      | .chunks l => some ({ r with pc := .pushing g.dataHead l }, g)
  | .pushing head [] => some ({ r with pc := .pushed head }, g)
  | .pushing head ((offset, size) :: l) =>
    if size = 0 then some ({ r with pc := .pushing head l }, g)
    else
      match w with
      | .fails => some ({ r with pc := .idle, failed := true }, g)
      | .succeeds => some ({ r with
          pc := .pushing head ((offset + 1, size - 1) :: l)
          file := r.file ++ [g.data offset.toNat] }, g)
  | .pushed head => some ({ r with pc := .consumed, prev := head }, { g with dataTail := head })
  | .consumed =>
    -- `perf_mmap__put` of the last reference unmaps the ring
    if g.refcnt = 1 ∧ g.dataHead = r.prev ∧ cfg.hasAux = false then
      some ({ r with pc := .idle }, { g with refcnt := 0, mapped := false })
    else some ({ r with pc := .idle }, g)

/-- The kernel makes a step. -/
def kernelStep (b : KernelStep) (g : Shared) : Option Shared :=
  let used := (g.dataHead - g.dataTail).toNat
  let size := cfg.mask.toNat + 1
  match b with
  | .store i b =>
    if used + i < size then
      some { g with data := Function.update g.data ((g.dataHead.toNat + i) % size) b }
    else none
  | .publish n =>
    if used + n ≤ size ∧ 2 ≤ g.refcnt then
      some { g with
        dataHead := g.dataHead + .ofNat n
        stream := g.stream ++ ringAt g.data size g.dataHead.toNat n }
    else none
  | .hup => if 2 ≤ g.refcnt then some { g with refcnt := g.refcnt - 1 } else none

/-- The recorder and the kernel. -/
def program : Program Unit Recorder Shared Write KernelStep where
  process _ := cfg.recorderStep
  environment := cfg.kernelStep

end RingConfig

/-- A ring as `perf_mmap__mmap` leaves it, with this many events. -/
def mapped (data : Memory) (events : ℕ) : Concurrent Unit Recorder Shared :=
  ⟨fun _ => {}, { data, refcnt := events + 1 }⟩

structure RingHolds (k T : ℕ) (g : Shared) : Prop where
  head : g.dataHead = .ofNat g.stream.length
  tail : g.dataTail = .ofNat T
  tail_le : T ≤ g.stream.length
  room : g.stream.length ≤ T + 2 ^ k
  data : ∀ i (h : i < g.stream.length), T ≤ i → g.data (i % 2 ^ k) = g.stream[i]
  refs : g.mapped = true → 1 ≤ g.refcnt

def Pc.Progress (k T : ℕ) (file stream : List UInt8) : Pc → Prop
  | .idle | .consumed => file = stream.take T
  | .pushing head chunks => ∃ p q, head = .ofNat q ∧ T ≤ p ∧ p ≤ q ∧ q ≤ stream.length ∧
      file = stream.take p ∧ offsets chunks = (List.range' p (q - p)).map (· % 2 ^ k)
  | .pushed head => ∃ q, head = .ofNat q ∧ T ≤ q ∧ q ≤ stream.length ∧ file = stream.take q

structure Recording (k T : ℕ) (r : Recorder) (g : Shared) : Prop where
  ring : RingHolds k T g
  prev : r.prev = .ofNat T
  overrun : r.overrun = false
  progress : r.pc.Progress k T r.file g.stream
  unmapped : g.mapped = false → r.pc = .idle ∧ T = g.stream.length ∧ g.refcnt = 0

section Steps

variable {cfg : RingConfig} {k T : ℕ} {r r' : Recorder} {g g' : Shared}

theorem RingHolds.used (h : RingHolds k T g) (hk : k ≤ 30) :
    (g.dataHead - g.dataTail).toNat = g.stream.length - T := by
  have hpow : 2 ^ k ≤ 2 ^ 30 := Nat.pow_le_pow_right (by decide) hk
  have hroom := h.room
  have hsplit : g.stream.length = T + (g.stream.length - T) := by
    have := h.tail_le
    omega
  rw [h.head, h.tail, hsplit, toNat_ofNat_add_sub (by omega)]
  omega

theorem RingHolds.head_mod (h : RingHolds k T g) (hdvd : 2 ^ k ∣ 2 ^ 64) (i : ℕ) :
    (g.dataHead.toNat + i) % 2 ^ k = (g.stream.length + i) % 2 ^ k := by
  rw [h.head, UInt64.toNat_ofNat', ← Nat.mod_add_mod, Nat.mod_mod_of_dvd _ hdvd, Nat.mod_add_mod]

variable {pc : Pc} {size head : UInt64}

theorem Pc.Progress.append {file stream : List UInt8} (h : pc.Progress k T file stream)
    (hT : T ≤ stream.length) (bs : List UInt8) : pc.Progress k T file (stream ++ bs) := by
  have htake : ∀ p, p ≤ stream.length → stream.take p = (stream ++ bs).take p := by
    intro p hp
    rw [List.take_append_of_le_length hp]
  cases pc with
  | idle => exact Eq.trans h (htake T hT)
  | consumed => exact Eq.trans h (htake T hT)
  | pushing head chunks =>
    obtain ⟨p, q, hq, hTp, hpq, hlen, hfile, hoff⟩ := h
    refine ⟨p, q, hq, hTp, hpq, ?_, hfile.trans (htake p (by omega)), hoff⟩
    rw [List.length_append]
    omega
  | pushed head =>
    obtain ⟨q, hq, hTq, hlen, hfile⟩ := h
    refine ⟨q, hq, hTq, ?_, hfile.trans (htake q hlen)⟩
    rw [List.length_append]
    omega

theorem Recording.kernel (h : Recording k T r g) (hmask : IsMask cfg.mask k) {b : KernelStep}
    (hstep : cfg.kernelStep b g = some g') : Recording k T r g' := by
  have hused := h.ring.used hmask.2
  have hsize := hmask.1
  have hpow := hmask.size_le
  have htail := h.ring.tail_le
  have hroom := h.ring.room
  cases b with
  | store i b =>
    simp only [RingConfig.kernelStep, hused, hsize] at hstep
    split_ifs at hstep with hfree
    cases hstep
    have hkept : ∀ j (hj : j < g.stream.length), T ≤ j →
        Function.update g.data ((g.dataHead.toNat + i) % 2 ^ k) b (j % 2 ^ k) = g.stream[j] := by
      intro j hj hTj
      have hother : j % 2 ^ k ≠ (g.dataHead.toNat + i) % 2 ^ k := by
        rw [h.ring.head_mod hmask.dvd]
        intro heq
        have hmod : (g.stream.length + i - j) % 2 ^ k = 0 := Nat.sub_mod_eq_zero_of_mod_eq heq.symm
        have hlt : g.stream.length + i - j < 2 ^ k := by omega
        rw [Nat.mod_eq_of_lt hlt] at hmod
        omega
      rw [Function.update_of_ne hother]
      exact h.ring.data j hj hTj
    exact { h with ring := { h.ring with data := hkept } }
  | publish n =>
    simp only [RingConfig.kernelStep, hused, hsize] at hstep
    split_ifs at hstep with hfree
    cases hstep
    have hlen : (g.stream ++ ringAt g.data (2 ^ k) g.dataHead.toNat n).length =
        g.stream.length + n := by
      rw [List.length_append, ringAt, List.length_map, List.length_range]
    refine { h with ring := ?_, progress := h.progress.append htail _, unmapped := ?_ }
    · exact {
        head := by
          change g.dataHead + UInt64.ofNat n = UInt64.ofNat (g.stream ++ _).length
          rw [hlen, h.ring.head, UInt64.ofNat_add]
        tail := h.ring.tail
        tail_le := htail.trans (hlen ▸ Nat.le_add_right _ _)
        room := by
          change (g.stream ++ _).length ≤ _
          omega
        data := by
          intro i hi hTi
          change g.data (i % 2 ^ k) = (g.stream ++ _)[i]
          by_cases hold : i < g.stream.length
          · rw [List.getElem_append_left hold]
            exact h.ring.data i hold hTi
          · rw [List.getElem_append_right (by omega)]
            simp only [ringAt, List.getElem_map, List.getElem_range]
            rw [h.ring.head_mod hmask.dvd]
            congr 2
            omega
        refs := h.ring.refs }
    · intro hmapped
      have := (h.unmapped hmapped).2.2
      omega
  | hup =>
    simp only [RingConfig.kernelStep] at hstep
    split_ifs at hstep with hrefs
    cases hstep
    refine { h with ring := { h.ring with refs := fun _ => ?_ }, unmapped := ?_ }
    · change 1 ≤ g.refcnt - 1
      omega
    · intro hmapped
      have := (h.unmapped hmapped).2.2
      omega

theorem Recording.progress_of (h : Recording k T r g) (hpc : r.pc = pc) :
    pc.Progress k T r.file g.stream := hpc ▸ h.progress

theorem Recording.mapped (h : Recording k T r g) (hpc : r.pc = pc) (hne : pc ≠ .idle) :
    g.mapped = true := by
  by_contra hmapped
  exact hne (hpc ▸ (h.unmapped (Bool.not_eq_true _ ▸ hmapped)).1)

theorem Recording.next (h : Recording k T r g) (hmapped : g.mapped = true)
    (hprev : r'.prev = r.prev) (hoverrun : r'.overrun = r.overrun)
    (hprogress : r'.pc.Progress k T r'.file g.stream) : Recording k T r' g where
  ring := h.ring
  prev := hprev.trans h.prev
  overrun := hoverrun.trans h.overrun
  progress := hprogress
  unmapped hfalse := by cases hmapped.symm.trans hfalse

theorem Recording.idle (h : Recording k T r g) (hmask : IsMask cfg.mask k) (hpc : r.pc = .idle)
    (hmapped : g.mapped = true) :
    T = g.stream.length ∧ pushChunks cfg.mask r.prev g.dataHead = .nothing ∨
      ∃ l, pushChunks cfg.mask r.prev g.dataHead = .chunks l ∧
        Recording k T { r with pc := .pushing g.dataHead l } g := by
  have htail := h.ring.tail_le
  have hroom := h.ring.room
  have hsplit : g.stream.length = T + (g.stream.length - T) := by omega
  have hspec := pushChunks_spec hmask (p := T) (d := g.stream.length - T) (by omega)
  rw [← hsplit, ← h.prev, ← h.ring.head] at hspec
  rcases hspec with ⟨hzero, hnothing⟩ | ⟨l, hchunks, hoff⟩
  · exact .inl ⟨by omega, hnothing⟩
  · exact .inr ⟨l, hchunks, h.next hmapped rfl rfl
      ⟨T, g.stream.length, h.ring.head, le_rfl, htail, le_rfl, h.progress_of hpc, hoff⟩⟩

theorem range'_of_pos {n : ℕ} (hn : 0 < n) (s : ℕ) :
    List.range' s n = s :: List.range' (s + 1) (n - 1) := by
  rw [← List.range'_succ, Nat.sub_add_cancel hn]

theorem toNat_pred (hsize : size ≠ 0) : 0 < size.toNat ∧ (size - 1).toNat = size.toNat - 1 := by
  have hpos : 0 < size.toNat := Nat.pos_of_ne_zero fun hzero => hsize (UInt64.toNat_inj.mp hzero)
  exact ⟨hpos, UInt64.toNat_sub_of_le _ _ (UInt64.le_iff_toNat_le.mpr hpos)⟩

theorem offsets_cons_zero (offset : UInt64) (l : List (UInt64 × UInt64)) :
    offsets ((offset, 0) :: l) = offsets l := by
  simp [offsets]

theorem offsets_cons {offset : UInt64} (hsize : size ≠ 0) (hoff : offset.toNat + 1 < 2 ^ 64)
    (l : List (UInt64 × UInt64)) :
    offsets ((offset, size) :: l) = offset.toNat :: offsets ((offset + 1, size - 1) :: l) := by
  obtain ⟨hpos, hrest⟩ := toNat_pred hsize
  have hnext : (offset + 1).toNat = offset.toNat + 1 := by
    rw [UInt64.toNat_add]
    exact Nat.mod_eq_of_lt hoff
  simp only [offsets, List.flatMap_cons, hnext, hrest, range'_of_pos hpos, List.cons_append]

theorem Recording.pushing (h : Recording k T r g) (hmask : IsMask cfg.mask k) {offset : UInt64}
    {l : List (UInt64 × UInt64)} (hpc : r.pc = .pushing head ((offset, size) :: l)) :
    (size = 0 → Recording k T { r with pc := .pushing head l } g) ∧
      (size ≠ 0 → Recording k T { r with
        pc := .pushing head ((offset + 1, size - 1) :: l)
        file := r.file ++ [g.data offset.toNat] } g) := by
  have hmapped := h.mapped hpc (by simp)
  obtain ⟨p, q, hq, hTp, hpq, hlen, hfile, hoff⟩ := h.progress_of hpc
  constructor
  · rintro rfl
    rw [offsets_cons_zero] at hoff
    exact h.next hmapped rfl rfl ⟨p, q, hq, hTp, hpq, hlen, hfile, hoff⟩
  · intro hsize
    have hpos := (toNat_pred hsize).1
    have hlt : p < q := by
      have hlength := congrArg List.length hoff
      simp only [offsets, List.flatMap_cons, List.length_append, List.length_range',
        List.length_map] at hlength
      omega
    rw [range'_of_pos (Nat.sub_pos_of_lt hlt)] at hoff
    have hbyte : offset.toNat = p % 2 ^ k := by
      have hhead := congrArg List.head? hoff
      simpa [offsets, range'_of_pos hpos] using hhead
    have hbound : offset.toNat + 1 < 2 ^ 64 := by
      have hmod := Nat.mod_lt p (Nat.two_pow_pos k)
      have hpow := hmask.size_le
      omega
    rw [offsets_cons hsize hbound, List.map_cons, List.cons.injEq, Nat.sub_sub] at hoff
    refine h.next hmapped rfl rfl ⟨p + 1, q, hq, by omega, hlt, hlen, ?_, hoff.2⟩
    have hp : p < g.stream.length := by omega
    rw [hfile, hbyte, h.ring.data p hp hTp, List.take_add_one, List.getElem?_eq_getElem hp]
    rfl

theorem Recording.pushing_nil (h : Recording k T r g) (hpc : r.pc = .pushing head []) :
    Recording k T { r with pc := .pushed head } g := by
  obtain ⟨p, q, hq, hTp, hpq, hlen, hfile, hoff⟩ := h.progress_of hpc
  have hdone : p = q := by
    have hlength := congrArg List.length hoff
    simp only [offsets, List.flatMap_nil, List.length_nil, List.length_map,
      List.length_range'] at hlength
    omega
  exact h.next (h.mapped hpc (by simp)) rfl rfl ⟨q, hq, by omega, hlen, hdone ▸ hfile⟩

theorem Recording.pushed (h : Recording k T r g) (hpc : r.pc = .pushed head) :
    ∃ T', Recording k T' { r with pc := .consumed, prev := head } { g with dataTail := head } := by
  have hmapped := h.mapped hpc (by simp)
  obtain ⟨q, hq, hTq, hlen, hfile⟩ := h.progress_of hpc
  have hroom := h.ring.room
  refine ⟨q, {
    ring := { h.ring with
      tail := hq
      tail_le := hlen
      room := hroom.trans (by omega)
      data := fun i hi hqi => h.ring.data i hi (by omega) }
    prev := hq
    overrun := h.overrun
    progress := hfile
    unmapped := ?_ }⟩
  intro hfalse
  cases hmapped.symm.trans hfalse

theorem Recording.unmap (h : Recording k T r g) (hmask : IsMask cfg.mask k) (hpc : r.pc = .consumed)
    (hempty : g.dataHead = r.prev) :
    Recording k T { r with pc := .idle } { g with refcnt := 0, mapped := false } := by
  have hcopied := h.progress_of hpc
  have hall : T = g.stream.length := by
    have hused := h.ring.used hmask.2
    have htail := h.ring.tail_le
    rw [hempty, h.prev, h.ring.tail, UInt64.sub_self] at hused
    change 0 = _ at hused
    omega
  refine { h with
    ring := { h.ring with refs := ?_ }
    progress := hcopied
    unmapped := fun _ => ⟨rfl, hall, rfl⟩ }
  intro hfalse
  cases hfalse

theorem Recording.consumed (h : Recording k T r g) (hpc : r.pc = .consumed) :
    Recording k T { r with pc := .idle } g := by
  have hcopied := h.progress_of hpc
  exact h.next (h.mapped hpc (by simp)) rfl rfl hcopied

theorem Recording.recorder (h : Recording k T r g) (hmask : IsMask cfg.mask k) {w : Write}
    (hstep : cfg.recorderStep w r g = some (r', g')) :
    r'.failed = true ∨ ∃ T', Recording k T' r' g' := by
  cases hpc : r.pc with
  | idle =>
    simp only [RingConfig.recorderStep, hpc] at hstep
    split_ifs at hstep with hmapped
    rw [Bool.not_eq_false] at hmapped
    rcases h.idle hmask hpc hmapped with ⟨-, hnothing⟩ | ⟨l, hchunks, hl⟩
    · rw [hnothing] at hstep
      cases hstep
      exact .inr ⟨T, h⟩
    · rw [hchunks] at hstep
      cases hstep
      exact .inr ⟨T, hl⟩
  | pushing head chunks =>
    cases chunks with
    | nil =>
      simp only [RingConfig.recorderStep, hpc, Option.some.injEq, Prod.mk.injEq] at hstep
      obtain ⟨rfl, rfl⟩ := hstep
      exact .inr ⟨T, h.pushing_nil hpc⟩
    | cons chunk l =>
      obtain ⟨offset, size⟩ := chunk
      obtain ⟨hnext, hcopy⟩ := h.pushing hmask hpc
      simp only [RingConfig.recorderStep, hpc] at hstep
      split_ifs at hstep with hsize
      · cases hstep
        exact .inr ⟨T, hnext hsize⟩
      · cases w with
        | fails =>
          cases hstep
          exact .inl rfl
        | succeeds =>
          cases hstep
          exact .inr ⟨T, hcopy hsize⟩
  | pushed head =>
    simp only [RingConfig.recorderStep, hpc, Option.some.injEq, Prod.mk.injEq] at hstep
    obtain ⟨rfl, rfl⟩ := hstep
    exact .inr (h.pushed hpc)
  | consumed =>
    simp only [RingConfig.recorderStep, hpc] at hstep
    split_ifs at hstep with hlast
    · cases hstep
      exact .inr ⟨T, h.unmap hmask hpc hlast.2.1⟩
    · cases hstep
      exact .inr ⟨T, h.consumed hpc⟩

theorem recorderStep_failed {w : Write} (hfailed : r.failed = true)
    (hstep : cfg.recorderStep w r g = some (r', g')) : r'.failed = true := by
  unfold RingConfig.recorderStep at hstep
  split at hstep
  · split_ifs at hstep
    split at hstep <;> cases hstep <;> exact hfailed
  · cases hstep
    exact hfailed
  · split_ifs at hstep
    · cases hstep
      exact hfailed
    · cases w <;> cases hstep
      · exact hfailed
      · rfl
  · cases hstep
    exact hfailed
  · split_ifs at hstep <;> cases hstep <;> exact hfailed

end Steps

def Sound (k : ℕ) (c : Concurrent Unit Recorder Shared) : Prop :=
  (c.locals ()).failed = true ∨ ∃ T, Recording k T (c.locals ()) c.shared

theorem sound_mapped (k : ℕ) (data : Memory) (events : ℕ) : Sound k (mapped data events) := by
  refine .inr ⟨0, ?_⟩
  exact {
    ring := {
      head := rfl
      tail := rfl
      tail_le := le_rfl
      room := Nat.zero_le _
      data := fun i hi => absurd hi (Nat.not_lt_zero i)
      refs := fun _ => Nat.le_add_left 1 events }
    prev := rfl
    overrun := rfl
    progress := rfl
    unmapped := by
      intro hfalse
      cases hfalse }

theorem Sound.run {cfg : RingConfig} {k : ℕ} (hmask : IsMask cfg.mask k)
    {turns : List (Turn Unit Write KernelStep)} {c c' : Concurrent Unit Recorder Shared}
    (h : Sound k c) (hrun : cfg.program.run c turns = some c') : Sound k c' := by
  refine Program.run_keeps (P := fun _ _ => True) (I := Sound k) ?_
    (Program.along_of_forall (fun _ _ _ => trivial) c) hrun h
  intro c turn c' _ h hstep
  cases turn with
  | process i w =>
    obtain ⟨⟨r, g⟩, hact, rfl⟩ := Option.map_eq_some_iff.mp hstep
    rcases h with hfailed | ⟨T, h⟩
    · exact .inl (recorderStep_failed hfailed hact)
    · exact h.recorder hmask hact
  | environment b =>
    obtain ⟨g, hact, rfl⟩ := Option.map_eq_some_iff.mp hstep
    rcases h with hfailed | ⟨T, h⟩
    · exact .inl hfailed
    · exact .inr ⟨T, h.kernel hmask hact⟩

def Alone (cfg : RingConfig) : Recorder × Shared → Recorder × Shared → Prop :=
  Relation.ReflTransGen fun a b => cfg.recorderStep .succeeds a.1 a.2 = some b

section Alone

variable {cfg : RingConfig} {k T : ℕ} {r : Recorder} {g : Shared}

theorem Alone.turns {a b : Recorder × Shared} (h : Alone cfg a b) :
    ∃ turns : List (Turn Unit Write KernelStep), (∀ t ∈ turns, t = .process () .succeeds) ∧
      cfg.program.run ⟨fun _ => a.1, a.2⟩ turns = some ⟨fun _ => b.1, b.2⟩ := by
  induction h using Relation.ReflTransGen.head_induction_on with
  | refl => exact ⟨[], by simp, rfl⟩
  | head hstep _ ih =>
    obtain ⟨turns, hall, hrun⟩ := ih
    refine ⟨.process () .succeeds :: turns, List.forall_mem_cons.mpr ⟨rfl, hall⟩, ?_⟩
    simp only [Program.run, Program.step, RingConfig.program, hstep, Option.map_some,
      Option.bind_some]
    exact hrun

theorem Recording.copies (h : Recording k T r g) (hmask : IsMask cfg.mask k) {head : UInt64}
    {chunks : List (UInt64 × UInt64)} (hpc : r.pc = .pushing head chunks) :
    ∃ r', Alone cfg (r, g) (r', g) ∧ Recording k T r' g ∧ r'.pc = .pushed head := by
  induction hn : (chunks.map fun c => c.2.toNat + 1).sum using Nat.strongRecOn
    generalizing r chunks with
  | _ n ih =>
    cases chunks with
    | nil =>
      refine ⟨_, .single ?_, h.pushing_nil hpc, rfl⟩
      simp only [RingConfig.recorderStep, hpc]
    | cons chunk l =>
      obtain ⟨offset, size⟩ := chunk
      obtain ⟨hnext, hcopy⟩ := h.pushing hmask hpc
      simp only [List.map_cons, List.sum_cons] at hn
      by_cases hsize : size = 0
      · obtain ⟨r', halone, hr'⟩ := ih _ (by omega) (hnext hsize) rfl rfl
        refine ⟨r', .head ?_ halone, hr'⟩
        simp only [RingConfig.recorderStep, hpc, if_pos hsize]
      · obtain ⟨hpos, hrest⟩ := toNat_pred hsize
        obtain ⟨r', halone, hr'⟩ := ih _
          (by simp only [List.map_cons, List.sum_cons, hrest]; omega) (hcopy hsize) rfl rfl
        refine ⟨r', .head ?_ halone, hr'⟩
        simp only [RingConfig.recorderStep, hpc, if_neg hsize]

theorem Recording.finishes (h : Recording k T r g) (hmask : IsMask cfg.mask k) {head : UInt64}
    (hpc : r.pc = .pushed head) :
    ∃ r' g' T', Alone cfg (r, g) (r', g') ∧ Recording k T' r' g' ∧ r'.pc = .idle ∧
      r'.prev = head ∧ g'.stream = g.stream ∧ g'.dataHead = g.dataHead := by
  obtain ⟨T', hconsumed⟩ := h.pushed hpc
  have hwrite : cfg.recorderStep .succeeds r g =
      some ({ r with pc := .consumed, prev := head }, { g with dataTail := head }) := by
    simp only [RingConfig.recorderStep, hpc]
  by_cases hlast : g.refcnt = 1 ∧ g.dataHead = head ∧ cfg.hasAux = false
  · have hput : cfg.recorderStep .succeeds { r with pc := .consumed, prev := head }
        { g with dataTail := head } = some ({ r with pc := .idle, prev := head },
          { g with dataTail := head, refcnt := 0, mapped := false }) := by
      simp only [RingConfig.recorderStep, if_pos hlast]
    exact ⟨_, _, T', .head hwrite (.single hput), hconsumed.unmap hmask rfl hlast.2.1, rfl, rfl,
      rfl, rfl⟩
  · have hkeep : cfg.recorderStep .succeeds { r with pc := .consumed, prev := head }
        { g with dataTail := head } = some ({ r with pc := .idle, prev := head },
          { g with dataTail := head }) := by
      simp only [RingConfig.recorderStep, if_neg hlast]
    exact ⟨_, _, T', .head hwrite (.single hkeep), hconsumed.consumed rfl, rfl, rfl, rfl, rfl⟩

/-- From wherever it is, the recorder gets to be idle. -/
theorem Recording.rests (h : Recording k T r g) (hmask : IsMask cfg.mask k) :
    ∃ r' g' T', Alone cfg (r, g) (r', g') ∧ Recording k T' r' g' ∧ r'.pc = .idle ∧
      g'.stream = g.stream := by
  cases hpc : r.pc with
  | idle => exact ⟨r, g, T, .refl, h, hpc, rfl⟩
  | pushing head chunks =>
    obtain ⟨r', halone, h', hpc'⟩ := h.copies hmask hpc
    obtain ⟨r'', g'', T', halone', h'', hidle, -, hstream, -⟩ := h'.finishes hmask hpc'
    exact ⟨r'', g'', T', halone.trans halone', h'', hidle, hstream⟩
  | pushed head =>
    obtain ⟨r', g', T', halone, h', hidle, -, hstream, -⟩ := h.finishes hmask hpc
    exact ⟨r', g', T', halone, h', hidle, hstream⟩
  | consumed =>
    by_cases hlast : g.refcnt = 1 ∧ g.dataHead = r.prev ∧ cfg.hasAux = false
    · refine ⟨_, _, T, .single ?_, h.unmap hmask hpc hlast.2.1, rfl, rfl⟩
      simp only [RingConfig.recorderStep, hpc, if_pos hlast]
    · refine ⟨_, _, T, .single ?_, h.consumed hpc, rfl, rfl⟩
      simp only [RingConfig.recorderStep, hpc, if_neg hlast]

/-- One more push brings the file up to date. -/
theorem Recording.catchesUp (h : Recording k T r g) (hmask : IsMask cfg.mask k)
    (hpc : r.pc = .idle) :
    ∃ r' g', Alone cfg (r, g) (r', g') ∧ r'.file = g.stream := by
  have hfile : r.file = g.stream.take T := h.progress_of hpc
  cases hmapped : g.mapped with
  | false =>
    refine ⟨r, g, .refl, ?_⟩
    rw [hfile, (h.unmapped hmapped).2.1, List.take_length]
  | true =>
    rcases h.idle hmask hpc hmapped with ⟨hall, -⟩ | ⟨l, hchunks, hl⟩
    · refine ⟨r, g, .refl, ?_⟩
      rw [hfile, hall, List.take_length]
    · have hread : cfg.recorderStep .succeeds r g =
          some ({ r with pc := .pushing g.dataHead l }, g) := by
        simp [RingConfig.recorderStep, hpc, hmapped, hchunks]
      obtain ⟨r₁, halone₁, h₁, hpc₁⟩ := hl.copies hmask rfl
      obtain ⟨r₂, g₂, T₂, halone₂, h₂, hpc₂, hprev, hstream, hhead⟩ := h₁.finishes hmask hpc₁
      refine ⟨r₂, g₂, .head hread (halone₁.trans halone₂), ?_⟩
      have hfile₂ : r₂.file = g₂.stream.take T₂ := h₂.progress_of hpc₂
      have hused := h₂.ring.used hmask.2
      rw [h₂.ring.tail, ← h₂.prev, hprev, hhead, UInt64.sub_self] at hused
      change 0 = _ at hused
      have hle := h₂.ring.tail_le
      rw [hfile₂, ← hstream, List.take_of_length_le]
      omega

end Alone

/-- The file is a part of what the kernel has published, whatever the kernel does while the recorder
copies and as long as no write fails. -/
theorem push_loses_nothing (cfg : RingConfig) (k : ℕ) (data : Memory) (events : ℕ)
    (turns : List (Turn Unit Write KernelStep)) (c : Concurrent Unit Recorder Shared)
    (hmask : IsMask cfg.mask k) (hrun : cfg.program.run (mapped data events) turns = some c)
    (hwrites : (c.locals ()).failed = false) :
    (c.locals ()).file <+: c.shared.stream ∧
      (c.locals ()).overrun = false ∧
      ((c.locals ()).pc = .idle → (c.locals ()).prev = .ofNat (c.locals ()).file.length) ∧
      (c.shared.mapped = false → (c.locals ()).file = c.shared.stream) ∧
      ∃ more c', (∀ t ∈ more, t = .process () .succeeds) ∧
        cfg.program.run c more = some c' ∧ (c'.locals ()).file = c.shared.stream := by
  rcases (sound_mapped k data events).run hmask hrun with hfailed | ⟨T, h⟩
  · cases hwrites.symm.trans hfailed
  have htail := h.ring.tail_le
  have hfile : (c.locals ()).pc = .idle → (c.locals ()).file = c.shared.stream.take T :=
    fun hidle => h.progress_of hidle
  refine ⟨?_, h.overrun, ?_, ?_, ?_⟩
  · cases hpc : (c.locals ()).pc with
    | idle => exact hfile hpc ▸ List.take_prefix _ _
    | consumed => exact h.progress_of hpc ▸ List.take_prefix _ _
    | pushing head chunks =>
      obtain ⟨p, q, -, -, -, -, hcopied, -⟩ := h.progress_of hpc
      exact hcopied ▸ List.take_prefix _ _
    | pushed head =>
      obtain ⟨q, -, -, -, hcopied⟩ := h.progress_of hpc
      exact hcopied ▸ List.take_prefix _ _
  · intro hidle
    rw [hfile hidle, List.length_take, min_eq_left htail, h.prev]
  · intro hmapped
    obtain ⟨hidle, hall, -⟩ := h.unmapped hmapped
    rw [hfile hidle, hall, List.take_length]
  · obtain ⟨r₁, g₁, T₁, halone₁, h₁, hidle, hstream⟩ := h.rests hmask
    obtain ⟨r₂, g₂, halone₂, hfile⟩ := h₁.catchesUp hmask hidle
    obtain ⟨more, hall, hmore⟩ := Alone.turns (halone₁.trans halone₂)
    exact ⟨more, _, hall, hmore, hfile.trans hstream⟩

/-- A ring of eight bytes. -/
theorem push_while_kernel_writes :
    let cfg : RingConfig := { mask := 7 }
    let turns : List (Turn Unit Write KernelStep) :=
      [.environment (.store 0 11), .environment (.store 1 22), .environment (.publish 2),
        .process () .succeeds, .process () .succeeds, .environment (.store 0 33),
        .environment (.publish 1), .process () .succeeds, .environment .hup]
    ∃ c, cfg.program.run (mapped (fun _ => 0) 1) turns = some c ∧
      (c.locals ()).file = [11, 22] ∧ c.shared.stream = [11, 22, 33] ∧
      (c.locals ()).file <+: c.shared.stream := by
  intro cfg turns
  have hmask : IsMask cfg.mask 3 := ⟨rfl, by decide⟩
  have hend : (cfg.program.run (mapped (fun _ => 0) 1) turns).map
      (fun c => ((c.locals ()).file, c.shared.stream, (c.locals ()).failed)) =
        some ([11, 22], [11, 22, 33], false) := by decide +kernel
  obtain ⟨c, hrun, hc⟩ := Option.map_eq_some_iff.mp hend
  simp only [Prod.mk.injEq] at hc
  obtain ⟨hfile, hstream, hfailed⟩ := hc
  exact ⟨c, hrun, hfile, hstream, (push_loses_nothing cfg 3 _ 1 turns c hmask hrun hfailed).1⟩

end RPerf.Record
