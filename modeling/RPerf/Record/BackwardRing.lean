import RPerf.Record.PerfMmap

/-!
# Rings that are written backwards

`backward_rb_find_range` of `mmap.c`.
-/

namespace RPerf.Record

open Lib

section

variable (data : Memory)

def headerSizeAt (offset : ℕ) : UInt16 :=
  .ofNat (ofBytes (bytesAt data (offset + 6) 2))

/-- The variables of `backward_rb_find_range`; `pheader` is an offset. -/
structure FindRange where
  evtHead : UInt64
  pheader : UInt64
  deriving DecidableEq, Repr

/-- One iteration of `backward_rb_find_range`. -/
def findRangePass (mask head : UInt64) (s : FindRange) : Pass FindRange UInt64 :=
  if s.evtHead - head ≥ mask + 1 then
    .leave (if s.evtHead - head > mask + 1
      then s.evtHead - (headerSizeAt data s.pheader.toNat).toUInt64
      else s.evtHead)
  else
    let pheader := s.evtHead &&& mask
    let size := headerSizeAt data pheader.toNat
    if size = 0 then .leave s.evtHead else .again ⟨s.evtHead + size.toUInt64, pheader⟩

/-- `backward_rb_find_range` comes to this end; the start is the head. -/
def BackwardRbFindRange (mask head stop : UInt64) : Prop :=
  Leaves (findRangePass data mask head) ⟨head, head &&& mask⟩ stop

def Pushing.bytes : Pushing → Option (List UInt8)
  | .nothing => some []
  | .overrun => none
  | .chunks l => some ((offsets l).map data)

end

/-- An event: its header has its size, which is a multiple of eight. -/
structure IsEvent (e : List UInt8) : Prop where
  size : ofBytes ((e.drop 6).take 2) = e.length
  header : 8 ≤ e.length
  aligned : 8 ∣ e.length
  small : e.length < 2 ^ 16

/-- The data and the head of a ring. -/
structure Backward where
  data : Memory
  head : UInt64

def Backward.empty : Backward := ⟨fun _ => 0, 0⟩

def Backward.write (size : ℕ) (b : Backward) (e : List UInt8) : Backward :=
  let head := b.head - .ofNat e.length
  let place i := (i + size - head.toNat % size) % size
  ⟨fun i => if i < size then e.getD (place i) (b.data i) else b.data i, head⟩

def Backward.after (size : ℕ) : List (List UInt8) → Backward
  | [] => .empty
  | e :: l => (Backward.after size l).write size e

def fitting : ℕ → List (List UInt8) → List (List UInt8)
  | _, [] => []
  | room, e :: l => if e.length ≤ room then e :: fitting (room - e.length) l else []

structure Lies (k : ℕ) (events : List (List UInt8)) (b : Backward) : Prop where
  aligned : 8 ∣ b.head.toNat
  bytes : ∀ i, i < 2 ^ k → i < events.flatten.length →
    some (b.data ((b.head.toNat + i) % 2 ^ k)) = events.flatten[i]?
  blank : ∀ i, i < 2 ^ k → events.flatten.length ≤ i →
    b.data ((b.head.toNat + i) % 2 ^ k) = 0

variable {k : ℕ} {events : List (List UInt8)}

theorem dvd_length_flatten (h : ∀ e ∈ events, IsEvent e) : 8 ∣ events.flatten.length := by
  rw [List.length_flatten]
  apply List.dvd_sum
  intro n hn
  obtain ⟨e, he, rfl⟩ := List.mem_map.mp hn
  exact (h e he).aligned

theorem toNat_sub_ofNat (head : UInt64) (n : ℕ) (hk : k ≤ 64) (i : ℕ) :
    ((head - .ofNat n).toNat + (n + i)) % 2 ^ k = (head.toNat + i) % 2 ^ k := by
  have hdvd : 2 ^ k ∣ 2 ^ 64 := Nat.pow_dvd_pow 2 hk
  have hback : ((head - .ofNat n).toNat + n) % 2 ^ 64 = head.toNat % 2 ^ 64 := by
    have hsum := congrArg UInt64.toNat (UInt64.sub_add_cancel head (.ofNat n))
    rw [UInt64.toNat_add, UInt64.toNat_ofNat', Nat.add_mod_mod] at hsum
    rw [hsum, Nat.mod_eq_of_lt head.toNat_lt]
  have hmod : ((head - .ofNat n).toNat + n) % 2 ^ k = head.toNat % 2 ^ k := by
    rw [← Nat.mod_mod_of_dvd _ hdvd, hback, Nat.mod_mod_of_dvd _ hdvd]
  rw [← Nat.add_assoc, ← Nat.mod_add_mod, hmod, Nat.mod_add_mod]

theorem write_data (b : Backward) (e : List UInt8) {i : ℕ} (hi : i < 2 ^ k) :
    (b.write (2 ^ k) e).data (((b.write (2 ^ k) e).head.toNat + i) % 2 ^ k) =
      e.getD i (b.data (((b.write (2 ^ k) e).head.toNat + i) % 2 ^ k)) := by
  have hpos : 0 < 2 ^ k := Nat.two_pow_pos k
  generalize hhead : (b.write (2 ^ k) e).head = head
  have hdef : b.head - .ofNat e.length = head := hhead
  have hplace : ((head.toNat + i) % 2 ^ k + 2 ^ k - head.toNat % 2 ^ k) % 2 ^ k = i := by
    have hlt := Nat.mod_lt head.toNat hpos
    rw [← Nat.mod_add_mod]
    rcases Nat.lt_or_ge (head.toNat % 2 ^ k + i) (2 ^ k) with hin | hover
    · have hback : head.toNat % 2 ^ k + i + 2 ^ k - head.toNat % 2 ^ k = i + 2 ^ k := by omega
      rw [Nat.mod_eq_of_lt hin, hback, Nat.add_mod_right, Nat.mod_eq_of_lt hi]
    · have hback : head.toNat % 2 ^ k + i - 2 ^ k + 2 ^ k - head.toNat % 2 ^ k = i := by omega
      have hover' : head.toNat % 2 ^ k + i - 2 ^ k < 2 ^ k := by omega
      rw [Nat.mod_eq_sub_mod hover, Nat.mod_eq_of_lt hover', hback, Nat.mod_eq_of_lt hi]
  simp only [Backward.write, hdef, if_pos (Nat.mod_lt _ hpos), hplace]

theorem Lies.write {b : Backward} (h : Lies k events b) (hk : k ≤ 30) {e : List UInt8}
    (he : IsEvent e) : Lies k (e :: events) (b.write (2 ^ k) e) := by
  have hk64 : k ≤ 64 := hk.trans (by decide)
  have hold : ∀ i, e.length ≤ i → i < 2 ^ k →
      (b.write (2 ^ k) e).data (((b.write (2 ^ k) e).head.toNat + i) % 2 ^ k) =
        b.data ((b.head.toNat + (i - e.length)) % 2 ^ k) := by
    intro i hle hi
    have hmove := toNat_sub_ofNat b.head e.length hk64 (i - e.length)
    rw [Nat.add_sub_of_le hle] at hmove
    rw [write_data b e hi, List.getD_eq_getElem?_getD, List.getElem?_eq_none hle, Option.getD_none]
    exact congrArg b.data hmove
  constructor
  case aligned =>
    obtain ⟨m, hm⟩ := h.aligned
    obtain ⟨n, hn⟩ := he.aligned
    have hsmall := he.small
    have hlt := b.head.toNat_lt
    change 8 ∣ (b.head - UInt64.ofNat e.length).toNat
    rw [UInt64.toNat_sub, UInt64.toNat_ofNat_of_lt' (by change _ < 2 ^ 64; omega)]
    omega
  case bytes =>
    intro i hi hlen
    rw [List.flatten_cons, List.length_append] at hlen
    rw [List.flatten_cons]
    by_cases hnew : i < e.length
    · rw [write_data b e hi, List.getElem?_append_left hnew, List.getD_eq_getElem?_getD,
        List.getElem?_eq_getElem hnew, Option.getD_some]
    · rw [List.getElem?_append_right (by omega), hold i (by omega) hi]
      exact h.bytes _ (by omega) (by omega)
  case blank =>
    intro i hi hlen
    rw [List.flatten_cons, List.length_append] at hlen
    rw [hold i (by omega) hi]
    exact h.blank _ (by omega) (by omega)

theorem lies_after (hk : k ≤ 30) (h : ∀ e ∈ events, IsEvent e) :
    Lies k events (Backward.after (2 ^ k) events) := by
  induction events with
  | nil =>
    exact {
      aligned := Nat.dvd_zero 8
      bytes := fun i _ hi => absurd hi (Nat.not_lt_zero i)
      blank := fun _ _ _ => rfl }
  | cons e l ih =>
    rw [List.forall_mem_cons] at h
    exact (ih h.2).write hk h.1

section Range

variable {k : ℕ} {mask : UInt64} {b : Backward} {events : List (List UInt8)} {o : ℕ}

theorem toNat_add_ofNat_sub (head : UInt64) (ho : o < 2 ^ 64) :
    (head + .ofNat o - head).toNat = o := by
  rw [UInt64.add_comm, UInt64.add_sub_cancel, UInt64.toNat_ofNat_of_lt' ho]

theorem toNat_add_ofNat_and (hmask : IsMask mask k) (head : UInt64) (o : ℕ) :
    ((head + .ofNat o) &&& mask).toNat = (head.toNat + o) % 2 ^ k := by
  rw [hmask.toNat_and, UInt64.toNat_add, UInt64.toNat_ofNat', Nat.add_mod_mod,
    Nat.mod_mod_of_dvd _ hmask.dvd]

theorem aligned_mod {x i : ℕ} (hk : 3 ≤ k) (hx : 8 ∣ x) (hi : i < 8) :
    x % 2 ^ k + i = (x + i) % 2 ^ k := by
  have hdvd : 8 ∣ 2 ^ k := (Nat.pow_dvd_pow 2 hk : 2 ^ 3 ∣ 2 ^ k)
  have hmod : 8 ∣ x % 2 ^ k := (Nat.dvd_mod_iff hdvd).mpr hx
  have hlt := Nat.mod_lt x (Nat.two_pow_pos k)
  have hin : x % 2 ^ k + i < 2 ^ k := by omega
  rw [← Nat.mod_add_mod, Nat.mod_eq_of_lt hin]

theorem Lies.headerSizeAt_eq (h : Lies k events b) (hmask : IsMask mask k) (hk : 3 ≤ k)
    (ho : 8 ∣ o) :
    headerSizeAt b.data ((b.head + .ofNat o) &&& mask).toNat =
      .ofNat (ofBytes [b.data ((b.head.toNat + (o + 6)) % 2 ^ k),
        b.data ((b.head.toNat + (o + 7)) % 2 ^ k)]) := by
  have hx : 8 ∣ b.head.toNat + o := Nat.dvd_add h.aligned ho
  have hsix := aligned_mod hk hx (show 6 < 8 by decide)
  have hseven := aligned_mod hk hx (show 7 < 8 by decide)
  rw [headerSizeAt, toNat_add_ofNat_and hmask, ← Nat.add_assoc, ← Nat.add_assoc, ← hsix, ← hseven]
  rfl

theorem room_for_header (hk : 3 ≤ k) (ho : 8 ∣ o) (hlt : o < 2 ^ k) : o + 8 ≤ 2 ^ k := by
  have hdvd : 8 ∣ 2 ^ k := (Nat.pow_dvd_pow 2 hk : 2 ^ 3 ∣ 2 ^ k)
  omega

theorem Lies.size_of_event (h : Lies k events b) (hmask : IsMask mask k) (hk : 3 ≤ k)
    (hevents : ∀ e ∈ events, IsEvent e) {pre rest : List (List UInt8)} {e : List UInt8}
    (hsplit : events = pre ++ e :: rest) (hlt : pre.flatten.length < 2 ^ k) :
    headerSizeAt b.data ((b.head + .ofNat pre.flatten.length) &&& mask).toNat =
      .ofNat e.length := by
  subst hsplit
  obtain ⟨hpre, he, -⟩ := List.forall_mem_append.mp hevents |>.imp_right List.forall_mem_cons.mp
  have hdvd := dvd_length_flatten hpre
  have hroom := room_for_header hk hdvd hlt
  have hheader := he.header
  have hbyte : ∀ i, i < 8 → b.data ((b.head.toNat + (pre.flatten.length + i)) % 2 ^ k) =
      e.getD i 0 := by
    intro i hi
    have hlen : pre.flatten.length + i < (pre ++ e :: rest).flatten.length := by
      rw [List.flatten_append, List.flatten_cons, List.length_append, List.length_append]
      omega
    have hdata := h.bytes _ (by omega) hlen
    rw [List.flatten_append, List.flatten_cons, List.getElem?_append_right (by omega),
      Nat.add_sub_cancel_left, List.getElem?_append_left (by omega)] at hdata
    rw [List.getD_eq_getElem?_getD, ← hdata, Option.getD_some]
  have htwo : [e.getD 6 0, e.getD 7 0] = (e.drop 6).take 2 := by
    have hsix : 6 < e.length := by omega
    have hseven : 7 < e.length := by omega
    rw [List.drop_eq_getElem_cons hsix, List.drop_eq_getElem_cons hseven]
    simp only [List.getD_eq_getElem?_getD, List.getElem?_eq_getElem hsix,
      List.getElem?_eq_getElem hseven]
    rfl
  rw [h.headerSizeAt_eq hmask hk hdvd, hbyte 6 (by decide), hbyte 7 (by decide), htwo, he.size]

theorem Lies.size_of_blank (h : Lies k events b) (hmask : IsMask mask k) (hk : 3 ≤ k)
    (hevents : ∀ e ∈ events, IsEvent e) (hlt : events.flatten.length < 2 ^ k) :
    headerSizeAt b.data ((b.head + .ofNat events.flatten.length) &&& mask).toNat = 0 := by
  have hdvd := dvd_length_flatten hevents
  have hroom := room_for_header hk hdvd hlt
  rw [h.headerSizeAt_eq hmask hk hdvd, h.blank _ (by omega) (by omega),
    h.blank _ (by omega) (by omega)]
  rfl

theorem fitting_of_room_zero {l : List (List UInt8)} (h : ∀ e ∈ l, IsEvent e) :
    fitting 0 l = [] := by
  cases l with
  | nil => rfl
  | cons e l =>
    have hheader := (h e List.mem_cons_self).header
    exact if_neg (by omega)

theorem IsMask.around_iff (hmask : IsMask mask k) (head : UInt64) (ho : o < 2 ^ 64) :
    head + .ofNat o - head ≥ mask + 1 ↔ 2 ^ k ≤ o := by
  rw [ge_iff_le, UInt64.le_iff_toNat_le, toNat_add_ofNat_sub _ ho, hmask.toNat_succ]

theorem IsMask.beyond_iff (hmask : IsMask mask k) (head : UInt64) (ho : o < 2 ^ 64) :
    head + .ofNat o - head > mask + 1 ↔ 2 ^ k < o := by
  rw [gt_iff_lt, UInt64.lt_iff_toNat_lt, toNat_add_ofNat_sub _ ho, hmask.toNat_succ]

theorem Lies.range_from (h : Lies k events b) (hmask : IsMask mask k) (hk : 3 ≤ k)
    (hevents : ∀ e ∈ events, IsEvent e) {pre rest : List (List UInt8)}
    (hsplit : events = pre ++ rest) (hlt : pre.flatten.length < 2 ^ k) (pheader : UInt64) :
    Leaves (findRangePass b.data mask b.head) ⟨b.head + .ofNat pre.flatten.length, pheader⟩
      (b.head + .ofNat (pre.flatten.length +
        (fitting (2 ^ k - pre.flatten.length) rest).flatten.length)) := by
  have hpow := hmask.size_le
  induction rest generalizing pre pheader with
  | nil =>
    have hinside := mt (hmask.around_iff b.head (by omega)).mp (Nat.not_le.mpr hlt)
    rw [List.append_nil] at hsplit
    subst hsplit
    refine .leave ?_
    simp only [findRangePass, if_neg hinside, h.size_of_blank hmask hk hevents hlt, fitting]
    rfl
  | cons e rest ih =>
    have hinside := mt (hmask.around_iff b.head (by omega)).mp (Nat.not_le.mpr hlt)
    have he : IsEvent e := hevents e (hsplit ▸ by simp)
    have hrest : ∀ e ∈ rest, IsEvent e := fun e' he' => hevents e' (hsplit ▸ by simp [he'])
    have hheader := he.header
    have hsmall := he.small
    have hsize := h.size_of_event hmask hk hevents hsplit hlt
    have hnat : (UInt16.ofNat e.length).toNat = e.length := UInt16.toNat_ofNat_of_lt' hsmall
    have hne : UInt16.ofNat e.length ≠ 0 := by
      intro hzero
      rw [hzero] at hnat
      change 0 = _ at hnat
      omega
    have hadd : (UInt16.ofNat e.length).toUInt64 = UInt64.ofNat e.length := by
      apply UInt64.toNat_inj.mp
      rw [UInt16.toNat_toUInt64, hnat, UInt64.toNat_ofNat_of_lt' (by change _ < 2 ^ 64; omega)]
    have hstep : findRangePass b.data mask b.head
        ⟨b.head + .ofNat pre.flatten.length, pheader⟩ =
          .again ⟨b.head + .ofNat (pre.flatten.length + e.length),
            (b.head + .ofNat pre.flatten.length) &&& mask⟩ := by
      simp only [findRangePass, if_neg hinside, hsize, if_neg hne, hadd, UInt64.ofNat_add,
        UInt64.add_assoc]
    refine .again hstep ?_
    by_cases haround : 2 ^ k ≤ pre.flatten.length + e.length
    · -- the ring has been gone around, and this event may have lost its end
      have hlt64 : pre.flatten.length + e.length < 2 ^ 64 := by omega
      have hcond := (hmask.around_iff b.head hlt64).mpr haround
      refine .leave ?_
      by_cases hbeyond : 2 ^ k < pre.flatten.length + e.length
      · have hcond' := (hmask.beyond_iff b.head hlt64).mpr hbeyond
        have hfit : fitting (2 ^ k - pre.flatten.length) (e :: rest) = [] := if_neg (by omega)
        simp only [findRangePass, if_pos hcond, if_pos hcond', hsize, hadd, hfit, List.flatten_nil,
          List.length_nil, Nat.add_zero]
        rw [UInt64.ofNat_add, ← UInt64.add_assoc, UInt64.add_sub_cancel]
      · have hcond' := mt (hmask.beyond_iff b.head hlt64).mp hbeyond
        have hfit : fitting (2 ^ k - pre.flatten.length) (e :: rest) = [e] := by
          rw [fitting, if_pos (by omega), show 2 ^ k - pre.flatten.length - e.length = 0 by omega,
            fitting_of_room_zero hrest]
        simp only [findRangePass, if_pos hcond, if_neg hcond', hfit, List.flatten_cons,
          List.flatten_nil, List.append_nil]
    · have hlength : (pre ++ [e]).flatten.length = pre.flatten.length + e.length := by simp
      have hnext := @ih (pre ++ [e]) (by rw [hsplit, List.append_assoc]; rfl)
        (by omega) ((b.head + .ofNat pre.flatten.length) &&& mask)
      have hfit : fitting (2 ^ k - pre.flatten.length) (e :: rest) =
          e :: fitting (2 ^ k - (pre.flatten.length + e.length)) rest := by
        rw [fitting, if_pos (by omega), Nat.sub_sub]
      rw [hlength] at hnext
      rw [hfit, List.flatten_cons, List.length_append, ← Nat.add_assoc]
      exact hnext

end Range

theorem isPrefix_fitting (room : ℕ) (l : List (List UInt8)) : fitting room l <+: l := by
  induction l generalizing room with
  | nil => exact List.prefix_rfl
  | cons e l ih =>
    rw [fitting]
    split_ifs
    · exact (List.prefix_cons_inj e).mpr (ih _)
    · exact List.nil_prefix

theorem length_fitting_le (room : ℕ) (l : List (List UInt8)) :
    (fitting room l).flatten.length ≤ room := by
  induction l generalizing room with
  | nil => exact Nat.zero_le room
  | cons e l ih =>
    rw [fitting]
    split_ifs with hle
    · have := ih (room - e.length)
      rw [List.flatten_cons, List.length_append]
      omega
    · exact Nat.zero_le room

/-- No more whole events fit. -/
theorem fitting_maximal {room : ℕ} {pre l : List (List UInt8)} (hpre : pre <+: l)
    (hle : pre.flatten.length ≤ room) : pre <+: fitting room l := by
  induction l generalizing room pre with
  | nil => exact hpre
  | cons e l ih =>
    cases pre with
    | nil => exact List.nil_prefix
    | cons e' pre =>
      obtain ⟨rfl, htail⟩ := List.cons_prefix_cons.mp hpre
      rw [List.flatten_cons, List.length_append] at hle
      rw [fitting, if_pos (by omega)]
      exact (List.prefix_cons_inj e').mpr (ih htail (by omega))

theorem Lies.ring_eq {b : Backward} (h : Lies k events b) {pre : List (List UInt8)}
    (hpre : pre <+: events) (hle : pre.flatten.length ≤ 2 ^ k) :
    ((List.range' b.head.toNat pre.flatten.length).map (· % 2 ^ k)).map b.data = pre.flatten := by
  obtain ⟨rest, rfl⟩ := hpre
  apply List.ext_getElem
  · simp
  · intro i hi hi'
    have hdata := h.bytes i (by omega) (by
      rw [List.flatten_append, List.length_append]
      omega)
    rw [List.flatten_append, List.getElem?_append_left hi', List.getElem?_eq_getElem hi'] at hdata
    simp only [List.getElem_map, List.getElem_range', Nat.one_mul]
    exact Option.some.inj hdata

/-- Of a ring that has been written backwards the newest events are pushed, whole and in order, as
many of them as fit the ring. -/
theorem backward_pushes_whole_events (mask : UInt64) (k : ℕ) (events : List (List UInt8))
    (hmask : IsMask mask k) (hk : 3 ≤ k) (hevents : ∀ e ∈ events, IsEvent e) :
    ∃ stop whole, BackwardRbFindRange (Backward.after (2 ^ k) events).data mask
        (Backward.after (2 ^ k) events).head stop ∧
      (pushChunks mask (Backward.after (2 ^ k) events).head stop).bytes
        (Backward.after (2 ^ k) events).data = some whole.flatten ∧
      whole <+: events ∧
      ∀ pre, pre <+: events → pre.flatten.length ≤ 2 ^ k → pre <+: whole := by
  have h := lies_after hmask.2 hevents
  generalize Backward.after (2 ^ k) events = b at h
  have hrange := h.range_from hmask hk hevents (List.nil_append events).symm (Nat.two_pow_pos k)
    (b.head &&& mask)
  have hle := length_fitting_le (2 ^ k) events
  have hprefix := isPrefix_fitting (2 ^ k) events
  simp only [List.flatten_nil, List.length_nil, Nat.zero_add, Nat.sub_zero] at hrange
  refine ⟨b.head + .ofNat (fitting (2 ^ k) events).flatten.length, fitting (2 ^ k) events, ?_, ?_,
    hprefix, fun pre hpre hroom => fitting_maximal hpre hroom⟩
  · have hzero : b.head + .ofNat 0 = b.head := UInt64.add_zero _
    rwa [hzero] at hrange
  · have hring := h.ring_eq hprefix hle
    have hspec := pushChunks_spec hmask (p := b.head.toNat) hle
    rw [UInt64.ofNat_add, UInt64.ofNat_toNat] at hspec
    rcases hspec with ⟨hzero, hnothing⟩ | ⟨l, hchunks, hoff⟩
    · rw [hnothing, List.eq_nil_of_length_eq_zero hzero]
      rfl
    · rw [hchunks, Pushing.bytes, hoff, hring]

/-- An event of sixteen bytes that is filled with a byte. -/
def demoEvent (fill : UInt8) : List UInt8 :=
  [9, 0, 0, 0, 0, 0, 16, 0] ++ List.replicate 8 fill

/-- Of three such events in a ring of thirty-two bytes the two newest are whole. -/
theorem two_of_three_events :
    ∃ stop whole, BackwardRbFindRange
        (Backward.after (2 ^ 5) [demoEvent 3, demoEvent 2, demoEvent 1]).data 31
        (Backward.after (2 ^ 5) [demoEvent 3, demoEvent 2, demoEvent 1]).head stop ∧
      whole <+: [demoEvent 3, demoEvent 2, demoEvent 1] ∧
      [demoEvent 3, demoEvent 2] <+: whole := by
  have hevents : ∀ e ∈ [demoEvent 3, demoEvent 2, demoEvent 1], IsEvent e := by
    intro e he
    have hfill : ∃ fill, e = demoEvent fill := by
      simp only [List.mem_cons, List.not_mem_nil, or_false] at he
      rcases he with rfl | rfl | rfl <;> exact ⟨_, rfl⟩
    obtain ⟨fill, rfl⟩ := hfill
    have hlength : (demoEvent fill).length = 16 := rfl
    exact { size := rfl, header := by omega, aligned := by omega, small := by omega }
  obtain ⟨stop, whole, hrange, -, hprefix, hmax⟩ :=
    backward_pushes_whole_events 31 5 _ ⟨rfl, by decide⟩ (by decide) hevents
  exact ⟨stop, whole, hrange, hprefix, hmax _ (by decide) (by decide)⟩

end RPerf.Record
