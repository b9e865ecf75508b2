import Mathlib.Tactic
import RPerf.Lib.Loops
import RPerf.Lib.SearchTree

/-!
# The maps of a thread

`map.c`: the maps of a type are kept in a tree ordered by their start, and a new map takes
its addresses away from the maps it overlaps.
-/

namespace RPerf.Symbols

open Lib

/-- The function `map->map_ip` points to. -/
inductive MapIp
  | map
  | identity
  deriving DecidableEq, Repr

/-- The fields of `struct map` that the tree and the translation use; `stop` is `end`. -/
structure Map (δ : Type) where
  start : UInt64
  stop : UInt64
  pgoff : UInt64
  dso : δ
  kind : MapIp
  deriving DecidableEq, Repr

namespace Map

variable {δ : Type}

/-- `map__map_ip` or `identity__map_ip`. -/
def mapIp (m : Map δ) (ip : UInt64) : UInt64 :=
  match m.kind with
  | .map => ip - m.start + m.pgoff
  | .identity => ip

/-- The address is in the map. -/
def Contains (m : Map δ) (ip : UInt64) : Prop := m.start ≤ ip ∧ ip < m.stop

/-- `map__overlap`. -/
def overlap (l r : Map δ) : Bool :=
  let (l, r) := if l.start > r.start then (r, l) else (l, r)
  l.stop > r.start

/-- The key of the tree. -/
def key (m : Map δ) : ℕ := m.start.toNat

/-- Where `maps__find` goes on from a map. -/
def side (ip : UInt64) (m : Map δ) : Ordering :=
  if ip < m.start then .lt else if ip ≥ m.stop then .gt else .eq

end Map

/-- `maps__find`, in a tree of any shape. -/
def find {δ : Type} (t : SearchTree (Map δ)) (ip : UInt64) : Option (Map δ) :=
  t.search (Map.side ip)

structure Cursor (δ : Type) where
  before : List (Map δ)
  next : List (Map δ)
  clones : ℕ
  deriving DecidableEq, Repr

namespace Cursor

variable {δ : Type}

def insert (c : Cursor δ) (m : Map δ) : Cursor δ :=
  match c.next with
  | [] => { c with before := place Map.key m c.before }
  | n :: _ =>
    if m.start < n.start then { c with before := place Map.key m c.before }
    else { c with next := place Map.key m c.next }

def putBack (clone : ℕ → Bool) (c : Cursor δ) (m : Map δ) : Option (Cursor δ) :=
  if clone c.clones then some { c.insert m with clones := c.clones + 1 } else none

end Cursor

/-- The loop of `maps__fixup_overlappings` ends with a return value and the maps of the tree. -/
structure Fixed (δ : Type) where
  err : Int
  maps : List (Map δ)

section Fixup

variable {δ : Type} (map : Map δ) (clone : ℕ → Bool)

/-- `-ENOMEM`. -/
def enomem : Int := -12

def restoreParts (pos : Map δ) (c : Cursor δ) : Pass (Cursor δ) (Option (Fixed δ)) :=
  let front := if map.start > pos.start then c.putBack clone { pos with stop := map.start }
    else some c
  match front with
  | none => .leave (some ⟨enomem, c.before ++ c.next⟩)
  | some c =>
    let back := if map.stop < pos.stop then c.putBack clone { pos with start := map.stop }
      else some c
    match back with
    | none => .leave (some ⟨enomem, c.before ++ c.next⟩)
    | some c => .again c

/-- One pass of `maps__fixup_overlappings`: `next` becomes `pos`. -/
def fixupPass (c : Cursor δ) : Pass (Cursor δ) (Option (Fixed δ)) :=
  match c.next with
  | [] => .leave (some ⟨0, c.before⟩)
  | pos :: next =>
    if pos.overlap map then restoreParts map clone pos { c with next }
    else .again { c with before := c.before ++ [pos], next }

/-- `maps__fixup_overlappings`. -/
def fixupOverlappings (maps : List (Map δ)) : Option (Fixed δ) :=
  loop (fixupPass map clone) (fun _ => none) (maps.length + 1) ⟨[], maps, 0⟩

/-- `thread__insert_map` once the unwinder is prepared. -/
def insertMap (maps : List (Map δ)) : Option (List (Map δ)) :=
  (fixupOverlappings map clone maps).map fun r => place Map.key map r.maps

end Fixup

variable {δ : Type}

/-- `a` ends before `b` starts. -/
def Map.Precedes (a b : Map δ) : Prop := a.start ≤ b.start ∧ a.stop ≤ b.start

/-- The maps of a tree, in order and pairwise disjoint in the sense of `map__overlap`. -/
structure Group (maps : List (Map δ)) : Prop where
  ordered : Ordered Map.key maps
  disjoint : maps.Pairwise fun a b => a.overlap b = false

theorem Map.overlap_of_le {l r : Map δ} (h : l.start ≤ r.start) :
    l.overlap r = decide (r.start < l.stop) := by
  simp [overlap, UInt64.not_lt.mpr h]

theorem Map.overlap_of_lt {l r : Map δ} (h : r.start < l.start) :
    l.overlap r = decide (l.start < r.stop) := by
  simp [overlap, h]

variable {map pos new m x : Map δ} {maps : List (Map δ)} {ip : UInt64} {c : Cursor δ}
  {t : SearchTree (Map δ)} {clone : ℕ → Bool}

theorem group_iff : Group maps ↔ maps.Pairwise Map.Precedes := by
  constructor
  · rintro ⟨hord, hdisj⟩
    apply (hord.and hdisj).imp
    intro a b ⟨hle, hov⟩
    have hle : a.start ≤ b.start := UInt64.le_iff_toNat_le.mpr hle
    rw [Map.overlap_of_le hle, decide_eq_false_iff_not, UInt64.not_lt] at hov
    exact ⟨hle, hov⟩
  · intro h
    refine ⟨h.imp fun hab => UInt64.le_iff_toNat_le.mp hab.1, h.imp fun hab => ?_⟩
    rw [Map.overlap_of_le hab.1, decide_eq_false_iff_not, UInt64.not_lt]
    exact hab.2

theorem locates_side (ip : UInt64) (maps : List (Map δ)) :
    SearchTree.Locates (Map.side ip) (·.start.toNat) (·.stop.toNat) ip.toNat maps where
  lt m _ := by
    rw [← UInt64.lt_iff_toNat_lt]
    grind [Map.side]
  gt m _ := by
    rw [← UInt64.le_iff_toNat_le, ← UInt64.le_iff_toNat_le, ← UInt64.not_lt]
    grind [Map.side]

theorem find_eq_some_iff (h : t.toList.Pairwise Map.Precedes) :
    find t ip = some m ↔ m ∈ t.toList ∧ m.Contains ip := by
  rw [find, SearchTree.search_eq_some_iff (locates_side ip t.toList), Map.Contains,
    UInt64.le_iff_toNat_le, UInt64.lt_iff_toNat_lt]
  exact h.imp fun hab => ⟨UInt64.le_iff_toNat_le.mp hab.1, UInt64.le_iff_toNat_le.mp hab.2⟩

def putParts (map pos : Map δ) : List (Map δ) :=
  (if map.start > pos.start then [{ pos with stop := map.start }] else []) ++
    (if map.stop < pos.stop then [{ pos with start := map.stop }] else [])

def parts (map pos : Map δ) : List (Map δ) :=
  if pos.overlap map then putParts map pos else [pos]

theorem Map.overlap_eq_false_iff (hmap : map.start < map.stop) :
    pos.overlap map = false ↔ pos.Precedes map ∨ map.Precedes pos := by
  by_cases hle : pos.start ≤ map.start
  · rw [Map.overlap_of_le hle, decide_eq_false_iff_not]
    simp only [Precedes, UInt64.lt_iff_toNat_lt, UInt64.le_iff_toNat_le] at *
    omega
  · rw [Map.overlap_of_lt (UInt64.not_le.mp hle), decide_eq_false_iff_not]
    simp only [Precedes, UInt64.lt_iff_toNat_lt, UInt64.le_iff_toNat_le] at *
    omega

theorem Map.of_overlap (hmap : map.start < map.stop) (h : pos.overlap map = true) :
    pos.start < map.stop ∧ (pos.start < map.start → map.start < pos.stop) := by
  rw [← Bool.not_eq_false, overlap_eq_false_iff hmap] at h
  simp only [Precedes, UInt64.lt_iff_toNat_lt, UInt64.le_iff_toNat_le] at *
  omega

theorem precedes_of_mem_parts (hmap : map.start < map.stop) (hx : x ∈ parts map pos) :
    pos.start ≤ x.start ∧ x.stop ≤ pos.stop ∧ (x.start = pos.start ∨ x.start < pos.stop) ∧
      (x.Precedes map ∨ map.Precedes x) := by
  rw [parts] at hx
  by_cases hov : pos.overlap map = true
  · have hloc := Map.of_overlap hmap hov
    rw [if_pos hov, putParts, List.mem_append] at hx
    rcases hx with hx | hx
    · split_ifs at hx with hlt
      · rw [List.mem_singleton.mp hx]
        refine ⟨UInt64.le_refl _, ?_, .inl rfl, .inl ⟨UInt64.le_of_lt hlt, UInt64.le_refl _⟩⟩
        exact UInt64.le_of_lt (hloc.2 hlt)
      · cases hx
    · split_ifs at hx with hlt
      · rw [List.mem_singleton.mp hx]
        exact ⟨UInt64.le_of_lt hloc.1, UInt64.le_refl _, .inr hlt,
          .inr ⟨UInt64.le_of_lt hmap, UInt64.le_refl _⟩⟩
      · cases hx
  · rw [if_neg hov, List.mem_singleton] at hx
    rw [hx]
    rw [Bool.not_eq_true] at hov
    exact ⟨UInt64.le_refl _, UInt64.le_refl _, .inl rfl, (Map.overlap_eq_false_iff hmap).mp hov⟩

theorem exists_part (hpos : pos.Contains ip) (hip : ¬ map.Contains ip) :
    ∃ x ∈ parts map pos, x.Contains ip ∧ x.dso = pos.dso ∧ x.kind = pos.kind ∧
      x.pgoff = pos.pgoff ∧
      (x.start = pos.start ∨ pos.overlap map = true ∧ map.stop < pos.stop ∧
        x.start = map.stop) := by
  by_cases hov : pos.overlap map = true
  · simp only [parts, putParts, if_pos hov]
    by_cases hfront : ip < map.start
    · refine ⟨{ pos with stop := map.start }, ?_, ⟨hpos.1, hfront⟩, rfl, rfl, rfl, .inl rfl⟩
      have hlt : map.start > pos.start := by
        have h1 := hpos.1
        simp only [gt_iff_lt, UInt64.lt_iff_toNat_lt, UInt64.le_iff_toNat_le] at *
        omega
      simp [hlt]
    · have hback : map.stop ≤ ip := by
        by_contra hlt
        exact hip ⟨UInt64.not_lt.mp hfront, UInt64.not_le.mp hlt⟩
      have hlt : map.stop < pos.stop := by
        have h2 := hpos.2
        simp only [UInt64.lt_iff_toNat_lt, UInt64.le_iff_toNat_le] at *
        omega
      exact ⟨{ pos with start := map.stop }, by simp [hlt], ⟨hback, hpos.2⟩, rfl, rfl, rfl,
        .inr ⟨hov, hlt, rfl⟩⟩
  · exact ⟨pos, by simp [parts, hov], hpos, rfl, rfl, rfl, .inl rfl⟩

theorem pairwise_flatMap_parts (hmap : map.start < map.stop) (h : maps.Pairwise Map.Precedes) :
    (maps.flatMap (parts map)).Pairwise Map.Precedes := by
  rw [List.pairwise_flatMap]
  constructor
  · intro pos _
    rw [parts]
    by_cases hov : pos.overlap map = true
    · have hloc := Map.of_overlap hmap hov
      rw [if_pos hov, putParts]
      split_ifs with hfront hback <;> simp only [List.append_nil, List.nil_append,
        List.singleton_append, List.pairwise_cons, List.Pairwise.nil, List.mem_singleton, forall_eq,
        and_true, List.not_mem_nil, false_imp_iff, implies_true]
      simp only [Map.Precedes, gt_iff_lt, UInt64.lt_iff_toNat_lt, UInt64.le_iff_toNat_le] at *
      omega
    · rw [if_neg hov]
      exact List.pairwise_singleton _ _
  · apply h.imp
    intro p q hpq x hx y hy
    obtain ⟨-, hxstop, hxstart, -⟩ := precedes_of_mem_parts hmap hx
    obtain ⟨hystart, -⟩ := precedes_of_mem_parts hmap hy
    have hstop : p.stop ≤ y.start := UInt64.le_trans hpq.2 hystart
    refine ⟨?_, UInt64.le_trans hxstop hstop⟩
    rcases hxstart with heq | hlt
    · rw [heq]
      exact UInt64.le_trans hpq.1 hystart
    · exact UInt64.le_trans (UInt64.le_of_lt hlt) hstop

theorem contains_of_part (hnew : new.start < new.stop) (hx : x ∈ parts new pos)
    (hip : x.Contains ip) : pos.Contains ip := by
  obtain ⟨hstart, hstop, -⟩ := precedes_of_mem_parts hnew hx
  exact ⟨UInt64.le_trans hstart hip.1, UInt64.lt_of_lt_of_le hip.2 hstop⟩

/-- How many copies the walk asks for. -/
def copies (map : Map δ) (maps : List (Map δ)) : ℕ :=
  (maps.map fun pos => if pos.overlap map then (putParts map pos).length else 0).sum

def Loses (maps : List (Map δ)) (map : Map δ) (maps' : List (Map δ)) : Prop :=
  ∃ pos ∈ maps, ∃ ip, pos.Contains ip ∧ ¬ map.Contains ip ∧ ∀ m ∈ maps', ¬ m.Contains ip

theorem Cursor.putBack_eq (clone : ℕ → Bool) (hnext : ∀ n ∈ c.next, m.start < n.start) :
    c.putBack clone m =
      if clone c.clones then some ⟨place Map.key m c.before, c.next, c.clones + 1⟩ else none := by
  rw [Cursor.putBack, Cursor.insert]
  cases hn : c.next with
  | nil => simp
  | cons n rest => simp [hnext n (by simp [hn])]

theorem restoreParts_spec (hfront : pos.start < map.start → map.start < pos.stop)
    (hback : map.stop < pos.stop →
      ∃ ip, pos.Contains ip ∧ ¬ map.Contains ip ∧ map.start ≤ ip)
    (hnext : ∀ n ∈ c.next, pos.stop ≤ n.start) :
    (restoreParts map clone pos c).Satisfies
      (fun c' => c' = ⟨(putParts map pos).foldl (fun l x => place Map.key x l) c.before, c.next,
          c.clones + (putParts map pos).length⟩ ∧
        ∀ i < (putParts map pos).length, clone (c.clones + i) = true)
      (fun out => (∃ i < (putParts map pos).length, clone (c.clones + i) = false) ∧
        ∃ l ip, out = some ⟨enomem, l ++ c.next⟩ ∧ pos.Contains ip ∧ ¬ map.Contains ip ∧
          ∀ m ∈ l, m ∈ c.before ∨ ¬ m.Contains ip) := by
  have hbehind : ∀ x : UInt64, x < pos.stop → ∀ n ∈ c.next, x < n.start :=
    fun x hx n hn => UInt64.lt_of_lt_of_le hx (hnext n hn)
  have hsecond : ∀ (l : List (Map δ)) (clones : ℕ), map.stop < pos.stop →
      (∀ m ∈ l, m ∈ c.before ∨ m = { pos with stop := map.start }) →
      Cursor.putBack clone ⟨l, c.next, clones⟩ { pos with start := map.stop } =
        (if clone clones then
          some ⟨place Map.key { pos with start := map.stop } l, c.next, clones + 1⟩ else none) ∧
      ∃ ip, pos.Contains ip ∧ ¬ map.Contains ip ∧ ∀ m ∈ l, m ∈ c.before ∨ ¬ m.Contains ip := by
    intro l clones hlt hl
    refine ⟨Cursor.putBack_eq clone (hbehind _ hlt), ?_⟩
    obtain ⟨ip, hpos, hout, hle⟩ := hback hlt
    refine ⟨ip, hpos, hout, fun m hm => (hl m hm).imp_right ?_⟩
    rintro rfl hip
    exact UInt64.not_le.mpr hip.2 hle
  by_cases h1 : pos.start < map.start
  · have hstart : pos.start < pos.stop := UInt64.lt_trans h1 (hfront h1)
    have hput : c.putBack clone { pos with stop := map.start } = _ :=
      Cursor.putBack_eq clone (hbehind _ hstart)
    by_cases hc1 : clone c.clones = true
    · by_cases h2 : map.stop < pos.stop
      · obtain ⟨hput2, ip, hpos, hout, hl⟩ := hsecond
          (place Map.key { pos with stop := map.start } c.before) (c.clones + 1) h2
          fun m hm => (mem_place.mp hm).symm
        by_cases hc2 : clone (c.clones + 1) = true
        · simp only [restoreParts, putParts, gt_iff_lt, h1, h2, if_true, hput, hput2, hc1, hc2]
          refine ⟨rfl, ?_⟩
          intro i hi
          have hi' : i < 2 := hi
          interval_cases i
          · exact hc1
          · exact hc2
        · simp only [restoreParts, putParts, gt_iff_lt, h1, h2, if_true, hput, hput2, hc1, hc2]
          exact ⟨⟨1, by simp, by simpa using hc2⟩, _, ip, rfl, hpos, hout, hl⟩
      · simp only [restoreParts, putParts, gt_iff_lt, h1, h2, if_true, if_false, hput, hc1]
        refine ⟨rfl, ?_⟩
        intro i hi
        have hi' : i < 1 := hi
        interval_cases i
        exact hc1
    · simp only [restoreParts, putParts, gt_iff_lt, h1, if_true, hput, hc1]
      refine ⟨⟨0, by simp, by simpa using hc1⟩, _, pos.start, rfl, ⟨UInt64.le_refl _, hstart⟩, ?_,
        fun m hm => .inl hm⟩
      exact fun hc => UInt64.not_le.mpr h1 hc.1
  · by_cases h2 : map.stop < pos.stop
    · obtain ⟨hput2, ip, hpos, hout, hl⟩ := hsecond c.before c.clones h2 fun m hm => .inl hm
      by_cases hc2 : clone c.clones = true
      · simp only [restoreParts, putParts, gt_iff_lt, h1, h2, if_true, if_false, hput2, hc2]
        refine ⟨rfl, ?_⟩
        intro i hi
        have hi' : i < 1 := hi
        interval_cases i
        exact hc2
      · simp only [restoreParts, putParts, gt_iff_lt, h1, h2, if_true, if_false, hput2, hc2]
        exact ⟨⟨0, by simp, by simpa using hc2⟩, _, ip, rfl, hpos, hout, hl⟩
    · simp only [restoreParts, putParts, gt_iff_lt, h1, h2, if_false]
      exact ⟨rfl, fun i hi => absurd hi (Nat.not_lt_zero i)⟩

structure Midway (map : Map δ) (clone : ℕ → Bool) (maps : List (Map δ)) (c : Cursor δ) : Prop where
  passed : ∃ passed, maps = passed ++ c.next ∧ c.before = passed.flatMap (parts map) ∧
    c.clones = copies map passed
  cloned : ∀ i < c.clones, clone i = true

def Ends (map : Map δ) (clone : ℕ → Bool) (maps : List (Map δ)) (out : Option (Fixed δ)) : Prop :=
  out = some ⟨0, maps.flatMap (parts map)⟩ ∧ (∀ i < copies map maps, clone i = true) ∨
    ∃ r, out = some r ∧ (∃ i < copies map maps, clone i = false) ∧ Loses maps map r.maps

theorem place_behind {l : List (Map δ)} (h : ∀ b ∈ l, b.start ≤ m.start) :
    place Map.key m l = l ++ [m] := by
  have hle : ∀ b ∈ l, Map.key b ≤ Map.key m := fun b hb => UInt64.le_iff_toNat_le.mp (h b hb)
  have hplace := place_append [] hle
  rwa [List.append_nil] at hplace

theorem foldl_place_parts (hmap : map.start < map.stop) (hov : pos.overlap map = true)
    {before : List (Map δ)} (hbefore : ∀ b ∈ before, b.start ≤ pos.start) :
    (putParts map pos).foldl (fun l x => place Map.key x l) before = before ++ parts map pos := by
  have hlt := (Map.of_overlap hmap hov).1
  have hfront : place Map.key { pos with stop := map.start } before =
      before ++ [{ pos with stop := map.start }] := place_behind hbefore
  have hback : ∀ l : List (Map δ), (∀ b ∈ l, b.start ≤ pos.start) →
      place Map.key { pos with start := map.stop } l = l ++ [{ pos with start := map.stop }] :=
    fun l hl => place_behind fun b hb => UInt64.le_trans (hl b hb) (UInt64.le_of_lt hlt)
  rw [parts, if_pos hov, putParts]
  split_ifs
  · simp only [List.cons_append, List.nil_append, List.foldl_cons, List.foldl_nil, hfront]
    rw [hback _ (by simpa [or_imp, forall_and] using hbefore), List.append_assoc]
    rfl
  · simp [hfront]
  · simp [hback before hbefore]
  · simp

theorem not_contains_of_precedes {a b : Map δ} (h : a.Precedes b) (hb : b.Contains ip) :
    ¬ a.Contains ip := fun ha =>
  UInt64.not_lt.mpr (UInt64.le_trans h.2 hb.1) ha.2

theorem not_contains_behind {a b : Map δ} (h : a.Precedes b) (ha : a.Contains ip) :
    ¬ b.Contains ip := fun hb => not_contains_of_precedes h hb ha

theorem fixupPass_midway (hmap : map.start < map.stop) (hgroup : maps.Pairwise Map.Precedes)
    (h : Midway map clone maps c) :
    (fixupPass map clone c).Satisfies
      (fun c' => Midway map clone maps c' ∧ c'.next.length < c.next.length)
      (Ends map clone maps) := by
  obtain ⟨⟨passed, hmaps, hbefore, hcount⟩, hcloned⟩ := h
  rw [fixupPass]
  cases hn : c.next with
  | nil =>
    rw [hn, List.append_nil] at hmaps
    subst hmaps
    exact .inl ⟨by rw [hbefore], hcount ▸ hcloned⟩
  | cons pos next =>
    rw [hn] at hmaps
    have hcopies : copies map maps = c.clones +
        (if pos.overlap map then (putParts map pos).length else 0) + copies map next := by
      rw [hmaps, hcount]
      simp [copies, Nat.add_assoc]
    have hgroup' := hgroup
    rw [hmaps, List.pairwise_append, List.pairwise_cons] at hgroup'
    obtain ⟨-, ⟨hnext, -⟩, hpassed⟩ := hgroup'
    have hpos : pos ∈ maps := by simp [hmaps]
    by_cases hov : pos.overlap map = true
    · obtain ⟨hstart, hfront⟩ := Map.of_overlap hmap hov
      simp only [if_pos hov] at hcopies ⊢
      have hback : map.stop < pos.stop →
          ∃ ip, pos.Contains ip ∧ ¬ map.Contains ip ∧ map.start ≤ ip := fun hlt =>
        ⟨map.stop, ⟨UInt64.le_of_lt hstart, hlt⟩, fun hc => UInt64.lt_irrefl _ hc.2,
          UInt64.le_of_lt hmap⟩
      apply Pass.Satisfies.mono (restoreParts_spec (c := { c with next }) hfront hback
        fun n hn => (hnext n hn).2)
      · rintro c' ⟨rfl, hmade⟩
        refine ⟨⟨⟨passed ++ [pos], by simp [hmaps], ?_, ?_⟩, ?_⟩, by simp⟩
        · rw [foldl_place_parts hmap hov]
          · simp [hbefore]
          · intro b hb
            rw [hbefore, List.mem_flatMap] at hb
            obtain ⟨q, hq, hb⟩ := hb
            have hqpos := hpassed q hq pos (by simp)
            obtain ⟨-, -, heq | hlt, -⟩ := precedes_of_mem_parts hmap hb
            · exact heq ▸ hqpos.1
            · exact UInt64.le_trans (UInt64.le_of_lt hlt) hqpos.2
        · simp [copies, hov, hcount]
        · intro i hi
          by_cases hlt : i < c.clones
          · exact hcloned i hlt
          · obtain ⟨d, rfl⟩ := Nat.exists_eq_add_of_le (Nat.not_lt.mp hlt)
            exact hmade d (by simpa using hi)
      · rintro out ⟨⟨i, hi, hfail⟩, l, ip, rfl, hip, hout, hl⟩
        refine .inr ⟨_, rfl, ⟨c.clones + i, by omega, hfail⟩, pos, hpos, ip, hip, hout, ?_⟩
        intro m hm
        rcases List.mem_append.mp hm with hm | hm
        · rcases hl m hm with hm | hm
          · simp only [hbefore, List.mem_flatMap] at hm
            obtain ⟨q, hq, hm⟩ := hm
            exact fun hmip => not_contains_of_precedes (hpassed q hq pos (by simp)) hip
              (contains_of_part hmap hm hmip)
          · exact hm
        · exact not_contains_behind (hnext m hm) hip
    · have hparts : parts map pos = [pos] := by simp [parts, hov]
      simp only [if_neg hov]
      refine ⟨⟨⟨passed ++ [pos], by simp [hmaps], by simp [hbefore, hparts], ?_⟩, hcloned⟩, by simp⟩
      simp [copies, hov, hcount]

/-- The walk with a map that is not empty. -/
theorem fixupOverlappings_ends (clone : ℕ → Bool) (hmap : map.start < map.stop)
    (hgroup : maps.Pairwise Map.Precedes) :
    Ends map clone maps (fixupOverlappings map clone maps) :=
  loop_total (fun c : Cursor δ => c.next.length) (fun _ hc => fixupPass_midway hmap hgroup hc) _ _
    (Nat.lt_succ_self _) ⟨⟨[], rfl, rfl, rfl⟩, fun i hi => absurd hi (Nat.not_lt_zero i)⟩

theorem Map.overlap_empty_iff (hmap : map.stop ≤ map.start) :
    pos.overlap map = true ↔ pos.Contains map.start := by
  by_cases hle : pos.start ≤ map.start
  · simp [Map.overlap_of_le hle, Map.Contains, hle]
  · rw [Map.overlap_of_lt (UInt64.not_le.mp hle), decide_eq_true_iff]
    refine iff_of_false ?_ fun hc => hle hc.1
    rw [UInt64.not_lt]
    exact UInt64.le_trans hmap (UInt64.le_of_lt (UInt64.not_le.mp hle))

def MidwayEmpty (map : Map δ) (maps : List (Map δ)) (c : Cursor δ) : Prop :=
  (maps = c.before ++ c.next ∧ ∀ pos ∈ c.before, ¬ pos.Contains map.start) ∨
    (∃ pos ∈ maps, pos.Contains map.start) ∧ (∃ m ∈ c.before, m.Contains map.start) ∧
      ∀ pos ∈ c.next, ¬ pos.Contains map.start

def EndsEmpty (map : Map δ) (maps : List (Map δ)) (out : Option (Fixed δ)) : Prop :=
  ∃ r, out = some r ∧
    ((∀ pos ∈ maps, ¬ pos.Contains map.start) ∧ r.maps = maps ∨
      (∃ pos ∈ maps, pos.Contains map.start) ∧
        (Loses maps map r.maps ∨ ∃ m ∈ r.maps, m.Contains map.start))

theorem mem_foldl_place {l before : List (Map δ)} (h : x ∈ l ∨ x ∈ before) :
    x ∈ l.foldl (fun l x => place Map.key x l) before := by
  induction l generalizing before with
  | nil => exact h.resolve_left List.not_mem_nil
  | cons y l ih =>
    apply ih
    rw [mem_place]
    rcases h with h | h
    · exact (List.mem_cons.mp h).symm.imp_right .inl
    · exact .inr (.inr h)

theorem fixupPass_midwayEmpty (hmap : map.stop ≤ map.start) (hgroup : maps.Pairwise Map.Precedes)
    (h : MidwayEmpty map maps c) :
    (fixupPass map clone c).Satisfies
      (fun c' => MidwayEmpty map maps c' ∧ c'.next.length < c.next.length)
      (EndsEmpty map maps) := by
  have hempty : ∀ ip, ¬ map.Contains ip := fun ip hc =>
    UInt64.not_lt.mpr (UInt64.le_trans hmap hc.1) hc.2
  rw [fixupPass]
  cases hn : c.next with
  | nil =>
    refine ⟨_, rfl, ?_⟩
    rcases h with ⟨hmaps, hnone⟩ | ⟨hsome, hput, -⟩
    · rw [hn, List.append_nil] at hmaps
      exact .inl ⟨hmaps ▸ hnone, hmaps.symm⟩
    · exact .inr ⟨hsome, .inr hput⟩
  | cons pos next =>
    rcases h with ⟨hmaps, hnone⟩ | ⟨hsome, ⟨m, hm, hmip⟩, hrest⟩
    · rw [hn] at hmaps
      by_cases hov : pos.overlap map = true
      · have hin := (Map.overlap_empty_iff hmap).mp hov
        have hgroup' := hgroup
        rw [hmaps, List.pairwise_append, List.pairwise_cons] at hgroup'
        obtain ⟨-, ⟨hnext, -⟩, hpassed⟩ := hgroup'
        have hpos : pos ∈ maps := by simp [hmaps]
        have hlt : map.stop < pos.stop := UInt64.lt_of_le_of_lt hmap hin.2
        simp only [if_pos hov]
        apply Pass.Satisfies.mono (restoreParts_spec (c := { c with next }) (fun _ => hin.2)
          (fun _ => ⟨map.start, hin, hempty _, UInt64.le_refl _⟩) fun n hn => (hnext n hn).2)
        · rintro c' ⟨rfl, -⟩
          refine ⟨.inr ⟨⟨pos, hpos, hin⟩, ⟨{ pos with start := map.stop }, ?_, hmap, hin.2⟩, ?_⟩,
            by simp⟩
          · apply mem_foldl_place
            simp [putParts, hlt]
          · exact fun n hn => not_contains_behind (hnext n hn) hin
        · rintro out ⟨-, l, ip, rfl, hip, hout, hl⟩
          refine ⟨_, rfl, .inr ⟨⟨pos, hpos, hin⟩, .inl ⟨pos, hpos, ip, hip, hout, ?_⟩⟩⟩
          intro m hm
          rcases List.mem_append.mp hm with hm | hm
          · rcases hl m hm with hm | hm
            · exact not_contains_of_precedes (hpassed m hm pos (by simp)) hip
            · exact hm
          · exact not_contains_behind (hnext m hm) hip
      · simp only [if_neg hov]
        refine ⟨.inl ⟨by simp [hmaps], ?_⟩, by simp⟩
        have hout : ¬ pos.Contains map.start := fun hc => hov ((Map.overlap_empty_iff hmap).mpr hc)
        simpa [or_imp, forall_and] using ⟨hnone, hout⟩
    · rw [hn, List.forall_mem_cons] at hrest
      have hov : ¬ pos.overlap map = true := fun ho => hrest.1 ((Map.overlap_empty_iff hmap).mp ho)
      simp only [if_neg hov]
      exact ⟨.inr ⟨hsome, ⟨m, List.mem_append_left _ hm, hmip⟩, hrest.2⟩, by simp⟩

/-- The walk with an empty map. -/
theorem fixupOverlappings_endsEmpty (clone : ℕ → Bool) (hmap : map.stop ≤ map.start)
    (hgroup : maps.Pairwise Map.Precedes) : EndsEmpty map maps (fixupOverlappings map clone maps) :=
  loop_total (fun c : Cursor δ => c.next.length) (fun _ hc => fixupPass_midwayEmpty hmap hgroup hc)
    _ _ (Nat.lt_succ_self _) (.inl ⟨rfl, fun _ hpos => absurd hpos List.not_mem_nil⟩)

/-- Disjoint maps, the new one at its addresses, and the old ones at all others. -/
structure Preserves (maps : List (Map δ)) (new : Map δ) (maps' : List (Map δ)) : Prop where
  group : Group maps'
  inside : ∀ t : SearchTree (Map δ), t.toList = maps' → ∀ ip, new.Contains ip →
    find t ip = some new
  outside : ∀ t t' : SearchTree (Map δ), t.toList = maps → t'.toList = maps' → ∀ ip,
    ¬ new.Contains ip →
    (find t' ip).map (fun m => (m.dso, m.mapIp ip)) = (find t ip).map fun m => (m.dso, m.mapIp ip)

theorem pairwise_inserted (hnew : new.start < new.stop) (hgroup : maps.Pairwise Map.Precedes) :
    (place Map.key new (maps.flatMap (parts new))).Pairwise Map.Precedes := by
  have hparts := pairwise_flatMap_parts hnew hgroup
  have hclear : ∀ x ∈ maps.flatMap (parts new), x.Precedes new ∨ new.Precedes x := by
    intro x hx
    obtain ⟨pos, -, hx⟩ := List.mem_flatMap.mp hx
    exact (precedes_of_mem_parts hnew hx).2.2.2
  apply pairwise_place (group_iff.mpr hparts).ordered hparts
  · intro x hx hle
    have hx' := hclear x hx
    simp only [Map.key, Map.Precedes, UInt64.lt_iff_toNat_lt, UInt64.le_iff_toNat_le] at *
    omega
  · intro x hx hlt
    have hx' := hclear x hx
    simp only [Map.key, Map.Precedes, UInt64.lt_iff_toNat_lt, UInt64.le_iff_toNat_le] at *
    omega

/-- The tail of a map behind the new one is translated as before. -/
def KeepsTails (maps : List (Map δ)) (new : Map δ) : Prop :=
  ∀ pos ∈ maps, pos.overlap new = true → new.stop < pos.stop → pos.kind = .identity

theorem find_outside (hnew : new.start < new.stop) (hgroup : maps.Pairwise Map.Precedes)
    (hkeep : KeepsTails maps new) {t' : SearchTree (Map δ)} (ht : t.toList = maps)
    (ht' : t'.toList = place Map.key new (maps.flatMap (parts new))) (hip : ¬ new.Contains ip) :
    (find t' ip).map (fun m => (m.dso, m.mapIp ip)) =
      (find t ip).map fun m => (m.dso, m.mapIp ip) := by
  have hpair := pairwise_inserted hnew hgroup
  rw [← ht'] at hpair
  rw [← ht] at hgroup
  cases hf : find t ip with
  | some pos =>
    obtain ⟨hpos, hposip⟩ := (find_eq_some_iff hgroup).mp hf
    rw [ht] at hpos
    obtain ⟨x, hx, hxip, hdso, hkind, hpgoff, hstart⟩ := exists_part hposip hip
    have hx' : x ∈ t'.toList := by
      rw [ht', mem_place]
      exact .inr (List.mem_flatMap.mpr ⟨pos, hpos, hx⟩)
    rw [(find_eq_some_iff hpair).mpr ⟨hx', hxip⟩]
    have hmap : x.mapIp ip = pos.mapIp ip := by
      rcases hstart with hstart | ⟨hov, hlt, -⟩
      · simp [Map.mapIp, hkind, hstart, hpgoff]
      · have hid := hkeep pos hpos hov hlt
        simp [Map.mapIp, hkind, hid]
    simp [hdso, hmap]
  | none =>
    cases hf' : find t' ip with
    | none => rfl
    | some x =>
      obtain ⟨hx, hxip⟩ := (find_eq_some_iff hpair).mp hf'
      rw [ht', mem_place] at hx
      rcases hx with rfl | hx
      · exact absurd hxip hip
      · obtain ⟨pos, hpos, hx⟩ := List.mem_flatMap.mp hx
        have hfound := (find_eq_some_iff hgroup).mpr ⟨ht ▸ hpos, contains_of_part hnew hx hxip⟩
        cases hf.symm.trans hfound

theorem mapIp_tail_ne (hkind : pos.kind = .map) (hlt : pos.start < new.stop) :
    ({ pos with start := new.stop } : Map δ).mapIp new.stop ≠ pos.mapIp new.stop := by
  simp only [Map.mapIp, hkind]
  intro h
  have hstart : pos.start = new.stop := by grind
  exact UInt64.lt_irrefl _ (hstart ▸ hlt)

theorem find_eq_none (h : ∀ m ∈ t.toList, ¬ m.Contains ip) : find t ip = none := by
  cases hf : find t ip with
  | none => rfl
  | some m =>
    obtain ⟨hm, hside⟩ := SearchTree.mem_of_search hf
    refine absurd ?_ (h m hm)
    rwa [(locates_side ip t.toList).eq_iff hm, ← UInt64.le_iff_toNat_le,
      ← UInt64.lt_iff_toNat_lt] at hside

/-- An address without a map is not kept. -/
theorem not_preserves_of_loses {maps' : List (Map δ)} (hgroup : maps.Pairwise Map.Precedes)
    (h : Loses maps new maps') : ¬ Preserves maps new (place Map.key new maps') := by
  obtain ⟨pos, hpos, ip, hip, hout, hlost⟩ := h
  intro hpres
  have hfind : find (SearchTree.ofList maps) ip = some pos := by
    rw [find_eq_some_iff (by simpa using hgroup), SearchTree.toList_ofList]
    exact ⟨hpos, hip⟩
  have hnone : find (SearchTree.ofList (place Map.key new maps')) ip = none := by
    apply find_eq_none
    intro m hm
    rw [SearchTree.toList_ofList, mem_place] at hm
    rcases hm with rfl | hm
    · exact hout
    · exact hlost m hm
  have heq := hpres.outside _ _ (SearchTree.toList_ofList _) (SearchTree.toList_ofList _) ip hout
  rw [hfind, hnone] at heq
  cases heq

/-- With memory for the copies. -/
theorem preserves_parts_iff (hnew : new.start < new.stop) (hgroup : maps.Pairwise Map.Precedes) :
    Preserves maps new (place Map.key new (maps.flatMap (parts new))) ↔ KeepsTails maps new := by
  have hpair := pairwise_inserted hnew hgroup
  constructor
  · intro h pos hpos hov hlt
    by_contra hne
    have hkind : pos.kind = .map := by
      cases hk : pos.kind with
      | map => rfl
      | identity => exact absurd hk hne
    have hstart := (Map.of_overlap hnew hov).1
    have hout : ¬ new.Contains new.stop := fun hc => UInt64.lt_irrefl _ hc.2
    have hfind : find (SearchTree.ofList maps) new.stop = some pos := by
      rw [find_eq_some_iff (by simpa using hgroup), SearchTree.toList_ofList]
      exact ⟨hpos, UInt64.le_of_lt hstart, hlt⟩
    have hfind' : find (SearchTree.ofList (place Map.key new (maps.flatMap (parts new)))) new.stop =
        some { pos with start := new.stop } := by
      rw [find_eq_some_iff (by simpa using hpair), SearchTree.toList_ofList, mem_place]
      refine ⟨.inr (List.mem_flatMap.mpr ⟨pos, hpos, ?_⟩), UInt64.le_refl _, hlt⟩
      simp [parts, putParts, hov, hlt]
    have heq := h.outside _ _ (SearchTree.toList_ofList _) (SearchTree.toList_ofList _) _ hout
    rw [hfind, hfind', Option.map_some, Option.map_some, Option.some.injEq, Prod.mk.injEq] at heq
    exact mapIp_tail_ne hkind hstart heq.2
  · intro hkeep
    refine ⟨group_iff.mpr hpair, ?_, ?_⟩
    · intro t ht ip hip
      rw [← ht] at hpair
      exact (find_eq_some_iff hpair).mpr ⟨by rw [ht]; exact mem_place.mpr (.inl rfl), hip⟩
    · exact fun t t' ht ht' ip hip => find_outside hnew hgroup hkeep ht ht' hip

theorem preserves_empty (hnew : new.stop ≤ new.start) (hgroup : maps.Pairwise Map.Precedes)
    (hnone : ∀ pos ∈ maps, ¬ pos.Contains new.start) :
    Preserves maps new (place Map.key new maps) := by
  have hempty : ∀ ip, ¬ new.Contains ip := fun ip hc =>
    UInt64.not_lt.mpr (UInt64.le_trans hnew hc.1) hc.2
  have hpair : (place Map.key new maps).Pairwise Map.Precedes := by
    apply pairwise_place (group_iff.mpr hgroup).ordered hgroup
    · intro pos hpos hle
      have hle : pos.start ≤ new.start := UInt64.le_iff_toNat_le.mpr hle
      exact ⟨hle, UInt64.not_lt.mp fun hlt => hnone pos hpos ⟨hle, hlt⟩⟩
    · intro pos _ hlt
      have hlt : new.start < pos.start := UInt64.lt_iff_toNat_lt.mpr hlt
      exact ⟨UInt64.le_of_lt hlt, UInt64.le_trans hnew (UInt64.le_of_lt hlt)⟩
  refine ⟨group_iff.mpr hpair, fun _ _ ip hip => absurd hip (hempty ip), ?_⟩
  intro t t' ht ht' ip _
  suffices hsame : find t' ip = find t ip by rw [hsame]
  ext m
  rw [find_eq_some_iff (ht' ▸ hpair), find_eq_some_iff (ht ▸ hgroup), ht, ht', mem_place]
  constructor
  · rintro ⟨rfl | hm, hip⟩
    · exact absurd hip (hempty ip)
    · exact ⟨hm, hip⟩
  · exact fun ⟨hm, hip⟩ => ⟨.inr hm, hip⟩

/-- **What an insertion preserves.** In a group of disjoint maps the walk always ends. -/
theorem insertMap_preserves_iff (maps : List (Map δ)) (new : Map δ) (clone : ℕ → Bool)
    (hgroup : Group maps) :
    ∃ maps', insertMap new clone maps = some maps' ∧
      (Preserves maps new maps' ↔
        if new.start < new.stop then
          (∀ i < copies new maps, clone i = true) ∧ KeepsTails maps new
        else ∀ pos ∈ maps, ¬ pos.Contains new.start) := by
  rw [group_iff] at hgroup
  split_ifs with hnew
  · rcases fixupOverlappings_ends clone hnew hgroup with
      ⟨hdone, hcloned⟩ | ⟨r, hdone, ⟨i, hi, hfail⟩, hloses⟩
    · refine ⟨_, by rw [insertMap, hdone]; rfl, ?_⟩
      rw [preserves_parts_iff hnew hgroup, and_iff_right hcloned]
    · refine ⟨_, by rw [insertMap, hdone]; rfl, ?_⟩
      refine iff_of_false (not_preserves_of_loses hgroup hloses) ?_
      rintro ⟨hcloned, -⟩
      rw [hcloned i hi] at hfail
      cases hfail
  · have hempty := UInt64.not_lt.mp hnew
    obtain ⟨r, hdone, ⟨hnone, hmaps⟩ | ⟨⟨pos, hpos, hin⟩, hbad⟩⟩ :=
      fixupOverlappings_endsEmpty clone hempty hgroup
    · refine ⟨place Map.key new r.maps, by rw [insertMap, hdone]; rfl, iff_of_true ?_ hnone⟩
      rw [hmaps]
      exact preserves_empty hempty hgroup hnone
    · refine ⟨_, by rw [insertMap, hdone]; rfl, iff_of_false ?_ fun hnone => hnone pos hpos hin⟩
      rcases hbad with hloses | ⟨m, hm, hmin⟩
      · exact not_preserves_of_loses hgroup hloses
      · intro hpres
        have hprec : m.Precedes new := rel_of_pairwise_place
          (fun (a b : Map δ) hab => (UInt64.le_iff_toNat_le.mp hab.1 : a.key ≤ b.key))
            (group_iff.mp hpres.group) hm
          (UInt64.le_iff_toNat_le.mp hmin.1)
        exact UInt64.not_le.mpr hmin.2 hprec.2

/-- A file mapped at `0x1000`, and another map in the middle of it. -/
def demoMaps : List (Map String) := [⟨0x1000, 0x4000, 0, "lib", .map⟩]

def demoMap : Map String := ⟨0x2000, 0x3000, 0, "new", .map⟩

/-- The same, mapped without a file. -/
def demoAnon : List (Map String) := [⟨0x1000, 0x4000, 0, "anon", .identity⟩]

theorem group_singleton (m : Map δ) : Group [m] :=
  group_iff.mpr (List.pairwise_singleton _ _)

theorem demoAnon_preserved :
    ∃ maps', insertMap demoMap (fun _ => true) demoAnon = some maps' ∧
      Preserves demoAnon demoMap maps' := by
  obtain ⟨maps', hins, hiff⟩ := insertMap_preserves_iff demoAnon demoMap (fun _ => true)
    (group_singleton _)
  refine ⟨maps', hins, hiff.mpr ?_⟩
  rw [if_pos (by decide)]
  refine ⟨fun _ _ => rfl, ?_⟩
  intro pos hpos _ _
  rw [List.mem_singleton.mp hpos]

/-- The tail of the file at `0x3000` was at offset `0x2000`, and is at offset 0 afterwards. -/
theorem demoMaps_tail_moves :
    ∃ maps' t', insertMap demoMap (fun _ => true) demoMaps = some maps' ∧
      t'.toList = maps' ∧
      (find (SearchTree.ofList demoMaps) 0x3000).map (fun m => (m.dso, m.mapIp 0x3000)) =
        some ("lib", 0x2000) ∧
      (find t' 0x3000).map (fun m => (m.dso, m.mapIp 0x3000)) = some ("lib", 0) :=
  ⟨_, SearchTree.ofList [⟨0x1000, 0x2000, 0, "lib", .map⟩, demoMap,
    ⟨0x3000, 0x4000, 0, "lib", .map⟩],
    rfl, by decide, by decide, by decide⟩

end RPerf.Symbols
