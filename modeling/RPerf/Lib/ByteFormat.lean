import Mathlib.Data.Nat.Digits.Defs
import Mathlib.Tactic

/-!
# Binary formats

A writer goes through a memory from one position to the next, a parser reads from there.
-/

namespace RPerf.Lib

def littleEndian (w n : ℕ) : List UInt8 := (List.range w).map fun i => UInt8.ofNat (n / 256 ^ i)

def ofBytes (l : List UInt8) : ℕ := Nat.ofDigits 256 (l.map UInt8.toNat)

@[simp] theorem length_littleEndian (w n : ℕ) : (littleEndian w n).length = w := by
  simp [littleEndian]

theorem littleEndian_succ (w n : ℕ) :
    littleEndian (w + 1) n = UInt8.ofNat n :: littleEndian w (n / 256) := by
  rw [littleEndian, List.range_succ_eq_map, List.map_cons, List.map_map, littleEndian]
  simp [Function.comp_def, pow_succ', Nat.div_div_eq_div_mul]

theorem ofBytes_littleEndian (w n : ℕ) : ofBytes (littleEndian w n) = n % 256 ^ w := by
  induction w generalizing n with
  | zero => simp [littleEndian, ofBytes, Nat.mod_one]
  | succ w ih =>
    have hcons : ofBytes (littleEndian (w + 1) n) =
        n % 256 + 256 * ofBytes (littleEndian w (n / 256)) := by
      rw [littleEndian_succ, ofBytes, List.map_cons, Nat.ofDigits_cons]
      simp [ofBytes]
    rw [hcons, ih, pow_succ', Nat.mod_mul]

theorem ofBytes_lt (l : List UInt8) : ofBytes l < 256 ^ l.length := by
  have hlt := Nat.ofDigits_lt_base_pow_length (l := l.map UInt8.toNat) (b := 256) (by decide) (by
    intro x hx
    obtain ⟨y, -, rfl⟩ := List.mem_map.mp hx
    exact y.toNat_lt)
  rwa [List.length_map] at hlt

theorem littleEndian_ofBytes (l : List UInt8) : littleEndian l.length (ofBytes l) = l := by
  induction l with
  | nil => rfl
  | cons b l ih =>
    have hcons : ofBytes (b :: l) = b.toNat + 256 * ofBytes l := by
      rw [ofBytes, List.map_cons, Nat.ofDigits_cons, ofBytes]
    have hb : b.toNat < 256 := b.toNat_lt
    have hdiv : ofBytes (b :: l) / 256 = ofBytes l := by omega
    have hhead : UInt8.ofNat (ofBytes (b :: l)) = b := by
      apply UInt8.toNat_inj.mp
      rw [UInt8.toNat_ofNat', hcons]
      omega
    rw [List.length_cons, littleEndian_succ, hdiv, hhead, ih]

abbrev Memory := ℕ → UInt8

def bytesAt (mem : Memory) (o n : ℕ) : List UInt8 := (List.range n).map fun i => mem (o + i)

@[simp] theorem length_bytesAt (mem : Memory) (o n : ℕ) : (bytesAt mem o n).length = n := by
  simp [bytesAt]

theorem bytesAt_add (mem : Memory) (o m n : ℕ) :
    bytesAt mem o (m + n) = bytesAt mem o m ++ bytesAt mem (o + m) n := by
  simp [bytesAt, List.range_add, Function.comp_def, Nat.add_assoc]

variable {o : ℕ} {bs cs : List UInt8} {mem : Memory}

theorem bytesAt_congr {mem' : Memory} {n : ℕ} (h : ∀ i, o ≤ i → i < o + n → mem' i = mem i) :
    bytesAt mem' o n = bytesAt mem o n := by
  apply List.map_congr_left
  intro i hi
  rw [List.mem_range] at hi
  exact h (o + i) (by omega) (by omega)

theorem bytesAt_append {a b : List UInt8} :
    bytesAt mem o (a ++ b).length = a ++ b ↔
      bytesAt mem o a.length = a ∧ bytesAt mem (o + a.length) b.length = b := by
  rw [List.length_append, bytesAt_add]
  constructor
  · intro h
    exact List.append_inj h (length_bytesAt mem o a.length)
  · rintro ⟨ha, hb⟩
    rw [ha, hb]

def store (mem : Memory) (o : ℕ) (bs : List UInt8) : Memory := fun i =>
  if o ≤ i ∧ i < o + bs.length then bs.getD (i - o) 0 else mem i

theorem store_of_lt {i : ℕ} (h : i < o) : store mem o bs i = mem i := by
  rw [store, if_neg]
  omega

theorem bytesAt_store (mem : Memory) (o : ℕ) (bs : List UInt8) :
    bytesAt (store mem o bs) o bs.length = bs := by
  apply List.ext_getElem (length_bytesAt _ _ _)
  intro i hi hi'
  simp [bytesAt, store, hi']

/-- A position in a memory that is written to, with the end of what has been written. -/
structure Cursor where
  mem : Memory
  pos : ℕ
  high : ℕ := 0

def Cursor.poke (w : Cursor) (bs : List UInt8) : Cursor :=
  { w with mem := store w.mem w.pos bs, high := max w.high (w.pos + bs.length) }

def Cursor.advance (w : Cursor) (n : ℕ) : Cursor := { w with pos := w.pos + n }

def Cursor.put (w : Cursor) (bs : List UInt8) : Cursor := (w.poke bs).advance bs.length

def Cursor.optional (w : Cursor) (c : Bool) (f : Cursor → Cursor) : Cursor := if c then f w else w

structure Appends (slack : ℕ) (w w' : Cursor) (bs : List UInt8) : Prop where
  pos : w'.pos = w.pos + bs.length
  bytes : bytesAt w'.mem w.pos bs.length = bs
  frame : ∀ i < w.pos, w'.mem i = w.mem i
  high : w'.high ≤ max w.high (w'.pos + slack)

/-- A writer of these bytes. -/
def Writes (slack : ℕ) (f : Cursor → Cursor) (bs : List UInt8) : Prop :=
  ∀ w, Appends slack w (f w) bs

section Writers

variable {slack : ℕ}

theorem Appends.refl (w : Cursor) : Appends slack w w [] :=
  ⟨rfl, rfl, fun _ _ => rfl, le_max_left _ _⟩

variable {bs cs : List UInt8} {f : Cursor → Cursor}

theorem Appends.step {w w' : Cursor} (h : Appends slack w w' bs) (hf : Writes slack f cs) :
    Appends slack w (f w') (bs ++ cs) := by
  have hw' := hf w'
  constructor
  · rw [hw'.pos, h.pos, List.length_append, Nat.add_assoc]
  · rw [bytesAt_append]
    constructor
    · rw [bytesAt_congr, h.bytes]
      intro i _ hi
      exact hw'.frame i (h.pos ▸ hi)
    · rw [← h.pos]
      exact hw'.bytes
  · intro i hi
    rw [hw'.frame i (by rw [h.pos]; omega), h.frame i hi]
  · have hle := hw'.high
    have hle' := h.high
    have hpos := hw'.pos
    omega

theorem writes_put (bs : List UInt8) : Writes slack (·.put bs) bs := fun w =>
  ⟨rfl, bytesAt_store w.mem w.pos bs, fun _ hi => store_of_lt hi,
    max_le_max le_rfl (Nat.le_add_right _ _)⟩

theorem Writes.append {g : Cursor → Cursor} (hf : Writes slack f bs) (hg : Writes slack g cs) :
    Writes slack (fun w => g (f w)) (bs ++ cs) :=
  fun w => (hf w).step hg

theorem Writes.optional (c : Bool) (hf : c = true → Writes slack f bs) :
    Writes slack (·.optional c f) (if c then bs else []) := by
  intro w
  cases c with
  | true => exact hf rfl w
  | false => exact Appends.refl w

theorem Writes.ite {g : Cursor → Cursor} {p : Prop} [Decidable p] (hf : p → Writes slack f bs)
    (hg : ¬ p → Writes slack g cs) :
    Writes slack (fun w => if p then f w else g w) (if p then bs else cs) := by
  intro w
  by_cases hp : p
  · simp only [if_pos hp]
    exact hf hp w
  · simp only [if_neg hp]
    exact hg hp w

theorem writes_overlap {keep rest : List UInt8} (h : rest.length ≤ bs.length + slack) :
    Writes slack (fun w => ((w.poke (keep ++ rest)).advance keep.length).put bs) (keep ++ bs) := by
  intro w
  constructor
  · simp [Cursor.put, Cursor.advance, Cursor.poke, Nat.add_assoc]
  · rw [bytesAt_append]
    constructor
    · have hkeep := (bytesAt_append.mp (bytesAt_store w.mem w.pos (keep ++ rest))).1
      rw [bytesAt_congr, hkeep]
      intro i _ hi
      exact store_of_lt hi
    · exact bytesAt_store _ _ bs
  · intro i hi
    have hi' : i < w.pos + keep.length := by omega
    exact (store_of_lt hi').trans (store_of_lt hi)
  · simp only [Cursor.put, Cursor.advance, Cursor.poke, List.length_append]
    omega

end Writers

structure Input (limit : ℕ) where
  mem : Memory
  size : ℕ
  size_lt : size < limit

/-- Bytes that are read, or handed out as an area; they may lie in front of the input. -/
structure Access where
  pos : ℤ
  len : ℕ
  deriving DecidableEq, Repr

structure Parser (limit : ℕ) (α : Type) where
  run : Input limit → ℕ → Except Int (α × ℕ)
  log : Input limit → ℕ → List Access

variable {limit : ℕ} {α β : Type}

instance : Monad (Parser limit) where
  pure a := ⟨fun _ o => .ok (a, o), fun _ _ => []⟩
  bind p f :=
    { run := fun inp o => p.run inp o >>= fun x => (f x.1).run inp x.2
      log := fun inp o => p.log inp o ++
        match p.run inp o with
        | .ok (a, o') => (f a).log inp o'
        | .error _ => [] }

/-- A parser that makes no access. -/
def Parser.silent (f : Input limit → ℕ → Except Int (α × ℕ)) : Parser limit α := ⟨f, fun _ _ => []⟩

/-- A parser of the next `n` bytes. -/
def Parser.reading (n : ℕ) (f : Input limit → ℕ → α × ℕ) : Parser limit α :=
  ⟨fun inp o => .ok (f inp o), fun _ o => [⟨o, n⟩]⟩

def Parser.position : Parser limit ℕ := .silent fun _ o => .ok (o, o)

def Parser.optional (c : Bool) (default : α) (p : Parser limit α) : Parser limit α :=
  if c then p else pure default

/-- The next `n` bytes. -/
def Parser.bytes (n : ℕ) : Parser limit (List UInt8) :=
  .reading n fun inp o => (bytesAt inp.mem o n, o + n)

def entriesAt (mem : Memory) (w : ℕ) (decode : List UInt8 → α) (o n : ℕ) : List α :=
  (List.range n).map fun i => decode (bytesAt mem (o + w * i) w)

@[simp] theorem length_entriesAt (mem : Memory) (w : ℕ) (decode : List UInt8 → α) (o n : ℕ) :
    (entriesAt mem w decode o n).length = n := by
  simp [entriesAt]

/-- A list of `n` entries. -/
def Parser.entries (w : ℕ) (decode : List UInt8 → α) (n : ℕ) : Parser limit (List α) :=
  .reading (w * n) fun inp o => (entriesAt inp.mem w decode o n, o + w * n)

def Parser.vector (w : ℕ) (decode : List UInt8 → α) (n : ℕ) : Parser limit (Vector α n) :=
  .reading (w * n) fun inp o => (⟨(entriesAt inp.mem w decode o n).toArray, by simp⟩, o + w * n)

variable (p : Parser limit α)

def LeadsTo (o : ℕ) (bs : List UInt8) (q : Parser limit α) : Prop :=
  ∀ inp : Input limit, bytesAt inp.mem o bs.length = bs → o + bs.length ≤ inp.size →
    p.run inp o = q.run inp (o + bs.length)

def Parses (o : ℕ) (bs : List UInt8) (a : α) : Prop :=
  LeadsTo p o bs (pure a)

def ParsesBefore (o : ℕ) (bs cs : List UInt8) (a : α) : Prop :=
  ∀ inp : Input limit, bytesAt inp.mem o (bs ++ cs).length = bs ++ cs →
    o + (bs ++ cs).length ≤ inp.size → p.run inp o = .ok (a, o + bs.length)

theorem Parses.of_lt {p : Parser limit α} {a : α} (h : o + bs.length < limit → Parses p o bs a) :
    Parses p o bs a := fun inp hbytes hsize =>
  h (lt_of_le_of_lt hsize inp.size_lt) inp hbytes hsize

theorem Parses.pure (a : α) (o : ℕ) : Parses (pure a : Parser limit α) o [] a := fun _ _ _ => rfl

theorem LeadsTo.refl (o : ℕ) : LeadsTo p o [] p := fun _ _ _ => rfl

theorem LeadsTo.trans {p q r : Parser limit α} (hp : LeadsTo p o bs q)
    (hq : LeadsTo q (o + bs.length) cs r) : LeadsTo p o (bs ++ cs) r := by
  intro inp hbytes hsize
  obtain ⟨hbs, hcs⟩ := bytesAt_append.mp hbytes
  rw [List.length_append] at hsize ⊢
  rw [hp inp hbs (by omega), hq inp hcs (by omega), Nat.add_assoc]

theorem Parser.run_bind_ok {p : Parser limit α} {f : α → Parser limit β} {inp : Input limit} {a : α}
    {o' : ℕ} (h : p.run inp o = .ok (a, o')) : (p >>= f).run inp o = (f a).run inp o' := by
  change (p.run inp o >>= fun x => (f x.1).run inp x.2) = _
  rw [h]
  rfl

theorem ParsesBefore.bind {p : Parser limit α} {f : α → Parser limit β} {q : Parser limit β} {a : α}
    (hp : ParsesBefore p o bs cs a) (hf : LeadsTo (f a) (o + bs.length) cs q) :
    LeadsTo (p >>= f) o (bs ++ cs) q := by
  intro inp hbytes hsize
  have hfirst := hp inp hbytes hsize
  have hcs := (bytesAt_append.mp hbytes).2
  rw [List.length_append] at hsize ⊢
  rw [Parser.run_bind_ok hfirst, hf inp hcs (by omega), Nat.add_assoc]

theorem Parses.before {p : Parser limit α} {a : α} (hp : Parses p o bs a) (cs : List UInt8) :
    ParsesBefore p o bs cs a := by
  intro inp hbytes hsize
  rw [List.length_append] at hsize
  exact hp inp (bytesAt_append.mp hbytes).1 (by omega)

theorem Parses.bind {p : Parser limit α} {f : α → Parser limit β} {q : Parser limit β} {a : α}
    (hp : Parses p o bs a) (hf : LeadsTo (f a) (o + bs.length) cs q) :
    LeadsTo (p >>= f) o (bs ++ cs) q :=
  (hp.before cs).bind hf

theorem Parser.bind_ok {p : Parser limit α} {f : α → Parser limit β} {inp : Input limit} {o' : ℕ}
    {b : β} (h : (p >>= f).run inp o = .ok (b, o')) :
    ∃ a m, p.run inp o = .ok (a, m) ∧ (f a).run inp m = .ok (b, o') := by
  change (p.run inp o >>= fun x => (f x.1).run inp x.2) = _ at h
  rcases hp : p.run inp o with e | ⟨a, m⟩
  · rw [hp] at h
    cases h
  · rw [hp] at h
    exact ⟨a, m, rfl, h⟩

/-- The value of a parser that has come to an end. -/
theorem Parser.map_fst_ok {r : Except Int (α × ℕ)} {a : α} (h : r.map Prod.fst = .ok a) :
    ∃ m, r = .ok (a, m) := by
  rcases r with e | ⟨b, m⟩
  · cases h
  · cases h
    exact ⟨m, rfl⟩

theorem Parses.map {p : Parser limit α} {a : α} (f : α → β) (hp : Parses p o bs a) :
    Parses (do return f (← p)) o bs (f a) := by
  have h := hp.bind (f := fun a => Pure.pure (f a)) (Parses.pure (f a) _)
  rwa [List.append_nil] at h

theorem Parses.optional {p : Parser limit α} {a : α} (c : Bool) (default : α)
    (hp : c = true → Parses p o bs a) :
    Parses (Parser.optional c default p) o (if c then bs else []) (if c then a else default) := by
  cases c with
  | true => exact hp rfl
  | false => exact Parses.pure default o

theorem ParsesBefore.optional {p : Parser limit α} {a : α} (c : Bool) (default : α)
    (hp : c = true → ParsesBefore p o bs cs a) :
    ParsesBefore (Parser.optional c default p) o (if c then bs else []) cs
      (if c then a else default) := by
  cases c with
  | true => exact hp rfl
  | false => exact (Parses.pure default o).before cs

theorem Parses.check {p : Parser limit Unit} {q : Parser limit α} {a : α}
    (hp : ∀ inp : Input limit, o + bs.length ≤ inp.size → p.run inp o = .ok ((), o))
    (hq : Parses q o bs a) : Parses (do p; q) o bs a := by
  intro inp hbytes hsize
  rw [Parser.run_bind_ok (hp inp hsize)]
  exact hq inp hbytes hsize

theorem Parses.bytes (o : ℕ) (bs : List UInt8) :
    Parses (Parser.bytes bs.length : Parser limit _) o bs bs := by
  intro inp hbytes _
  change Except.ok (bytesAt inp.mem o bs.length, _) = _
  rw [hbytes]
  rfl

theorem length_flatMap_of_width {encode : α → List UInt8} {w : ℕ}
    (hw : ∀ a, (encode a).length = w) (l : List α) : (l.flatMap encode).length = w * l.length := by
  induction l with
  | nil => rfl
  | cons a l ih =>
    rw [List.flatMap_cons, List.length_append, hw, ih, List.length_cons, Nat.mul_succ, Nat.add_comm]

section Entries

variable {encode : α → List UInt8} {decode : List UInt8 → α} {w : ℕ}

theorem entriesAt_flatMap (hw : ∀ a, (encode a).length = w) (hdec : ∀ a, decode (encode a) = a)
    {mem : Memory} {o : ℕ} {l : List α}
    (hbytes : bytesAt mem o (l.flatMap encode).length = l.flatMap encode) :
    entriesAt mem w decode o l.length = l := by
  induction l generalizing o with
  | nil => rfl
  | cons a l ih =>
    rw [List.flatMap_cons] at hbytes
    obtain ⟨ha, hl⟩ := bytesAt_append.mp hbytes
    rw [hw] at ha hl
    have hstep : (fun i => decode (bytesAt mem (o + w * i) w)) ∘ Nat.succ =
        fun i => decode (bytesAt mem (o + w + w * i) w) := by
      funext i
      rw [Function.comp_apply, Nat.mul_succ, Nat.add_comm (w * i), Nat.add_assoc]
    have htail := ih hl
    rw [entriesAt] at htail ⊢
    rw [List.length_cons, List.range_succ_eq_map, List.map_cons, List.map_map, hstep, htail,
      Nat.mul_zero, Nat.add_zero, ha, hdec]

theorem Parses.entries (hw : ∀ a, (encode a).length = w) (hdec : ∀ a, decode (encode a) = a)
    (o : ℕ) (l : List α) :
    Parses (Parser.entries w decode l.length : Parser limit _) o (l.flatMap encode) l := by
  intro inp hbytes _
  change Except.ok (entriesAt inp.mem w decode o l.length, _) = _
  rw [entriesAt_flatMap hw hdec hbytes, length_flatMap_of_width hw]
  rfl

theorem Parses.vector (hw : ∀ a, (encode a).length = w) (hdec : ∀ a, decode (encode a) = a)
    (o : ℕ) {n : ℕ} (v : Vector α n) :
    Parses (Parser.vector w decode n : Parser limit _) o (v.toList.flatMap encode) v := by
  intro inp hbytes _
  have hv := entriesAt_flatMap hw hdec hbytes
  rw [Vector.length_toList] at hv
  rw [length_flatMap_of_width hw, Vector.length_toList]
  change Except.ok (_, _) = Except.ok (_, _)
  congr 2
  apply Vector.toList_inj.mp
  exact hv

end Entries

end RPerf.Lib
