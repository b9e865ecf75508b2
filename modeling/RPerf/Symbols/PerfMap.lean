import Mathlib.Data.Nat.Digits.Defs
import Mathlib.Tactic
import RPerf.Lib.SearchTree

/-!
# The perf map file

`perf_map_write_entry` writes one line for a compiled method, and `dso__load_perf_map` reads
the file back into a tree of symbols ordered by their start, which `dso__find_symbol`
searches with a cache of one result in front.
-/

namespace RPerf.Symbols

open Lib

/-- `'\n'`. -/
def newline : UInt8 := 10

/-- `' '`. -/
def space : UInt8 := 32

def cString (s : List UInt8) : List UInt8 := s.takeWhile (· ≠ 0)

def hexDigit (d : ℕ) : UInt8 := if d < 10 then 48 + UInt8.ofNat d else 87 + UInt8.ofNat d

def printHex (n : ℕ) : List UInt8 :=
  if n = 0 then [hexDigit 0] else (Nat.digits 16 n).reverse.map hexDigit

/-- The arguments of `perf_map_write_entry`. -/
structure MapEntry where
  codeAddr : UInt64
  codeSize : UInt32
  entry : List UInt8
  deriving DecidableEq, Repr

/-- `perf_map_write_entry`: the format is `"%lx %x %s\n"`. -/
def MapEntry.write (e : MapEntry) : List UInt8 :=
  printHex e.codeAddr.toNat ++ space :: printHex e.codeSize.toNat ++ space :: cString e.entry ++
    [newline]

def hex (ch : UInt8) : Option ℕ :=
  if 48 ≤ ch ∧ ch ≤ 57 then some (ch.toNat - 48)
  else if 97 ≤ ch ∧ ch ≤ 102 then some (ch.toNat - 97 + 10)
  else if 65 ≤ ch ∧ ch ≤ 70 then some (ch.toNat - 65 + 10)
  else none

def hex2u64Loop (val : UInt64) (n : ℕ) : List UInt8 → UInt64 × ℕ
  | [] => (val, n)
  | c :: s =>
    match hex c with
    | none => (val, n)
    | some d => hex2u64Loop ((val <<< 4) ||| UInt64.ofNat d) (n + 1) s

/-- `hex2u64`. -/
def hex2u64 (s : List UInt8) : UInt64 × ℕ := hex2u64Loop 0 0 s

/-- `struct symbol`; `stop` is `end`. -/
structure Symbol where
  start : UInt64
  stop : UInt64
  name : List UInt8
  deriving DecidableEq, Repr

/-- `symbol__new`, when `calloc` succeeds. -/
def Symbol.new (start len : UInt64) (name : List UInt8) : Symbol :=
  { start, stop := if len ≠ 0 then start + len else start, name := cString name }

/-- A number stored in an `int`. -/
def toInt (n : ℕ) : ℤ :=
  if n % 2 ^ 32 < 2 ^ 31 then ((n % 2 ^ 32 : ℕ) : ℤ) else ((n % 2 ^ 32 : ℕ) : ℤ) - 2 ^ 32

def lines : List UInt8 → List (List UInt8)
  | [] => []
  | c :: file =>
    if c = newline then [c] :: lines file
    else
      match lines file with
      | [] => [[c]]
      | line :: rest => (c :: line) :: rest

def parseLine (line : List UInt8) : Option Symbol :=
  let lineLen := toInt line.length - 1
  -- `line[--line_len] = '\0'`
  let line := line.set lineLen.toNat 0
  let (start, n) := hex2u64 line
  let len := n + 1
  if (len : ℤ) + 2 ≥ lineLen then none
  else
    let (size, n) := hex2u64 (line.drop len)
    let len := len + n + 1
    if (len : ℤ) + 2 ≥ lineLen then none
    else some (Symbol.new start size (line.drop len))

def Symbol.key (s : Symbol) : ℕ := s.start.toNat

/-- The fields of `struct dso` for one type of map. -/
structure Dso where
  symbols : SearchTree Symbol
  lastAddr : UInt64
  lastSymbol : Option Symbol

def symbolsInsert (balance : SearchTree Symbol → SearchTree Symbol) (t : SearchTree Symbol)
    (s : Symbol) : SearchTree Symbol := balance (t.insert Symbol.key s)

section Load

variable (balance : SearchTree Symbol → SearchTree Symbol) (calloc : ℕ → Bool)

def loadLines : ℕ → Int32 → SearchTree Symbol → List (List UInt8) → Int32 × SearchTree Symbol
  | _, nrSyms, t, [] => (nrSyms, t)
  | i, nrSyms, t, line :: rest =>
    if toInt line.length < 0 then (nrSyms, t)
    else
      match parseLine line with
      | none => loadLines i nrSyms t rest
      | some s =>
        if calloc i then loadLines (i + 1) (nrSyms + 1) (symbolsInsert balance t s) rest
        else (-1, t)

/-- `dso__load_perf_map`, with `none` for a file that cannot be opened. -/
def loadPerfMap (dso : Dso) : Option (List UInt8) → Int32 × Dso
  | none => (-1, dso)
  | some file =>
    let (ret, symbols) := loadLines balance calloc 0 0 dso.symbols (lines file)
    (ret, { dso with symbols })

end Load

/-- Where `symbols__find` goes on from a symbol. -/
def Symbol.side (ip : UInt64) (s : Symbol) : Ordering :=
  if ip < s.start then .lt
  else if ip > s.stop ∨ (ip = s.stop ∧ ip ≠ s.start) then .gt
  else .eq

/-- `symbols__find`. -/
def symbolsFind (t : SearchTree Symbol) (ip : UInt64) : Option Symbol := t.search (Symbol.side ip)

def Dso.findSymbol (dso : Dso) (addr : UInt64) : Option Symbol × Dso :=
  let dso := if dso.lastAddr ≠ addr ∨ dso.lastSymbol = none then
    { dso with lastAddr := addr, lastSymbol := symbolsFind dso.symbols addr } else dso
  (dso.lastSymbol, dso)

/-- The results of a sequence of lookups. -/
def Dso.findSymbols (dso : Dso) : List UInt64 → List (Option Symbol)
  | [] => []
  | addr :: addrs => (dso.findSymbol addr).1 :: (dso.findSymbol addr).2.findSymbols addrs

/-- An object without symbols. -/
def Dso.new : Dso := ⟨.leaf, 0, none⟩

theorem hex_hexDigit {d : ℕ} (h : d < 16) : hex (hexDigit d) = some d := by
  interval_cases d <;> rfl

theorem shift_or (a : ℕ) {d : ℕ} (h : d < 16) :
    (UInt64.ofNat a <<< 4) ||| UInt64.ofNat d = UInt64.ofNat (d + 16 * a) := by
  have hor : (a % 2 ^ 60) <<< 4 + d = (a % 2 ^ 60) <<< 4 ||| d := Nat.shiftLeft_add_eq_or_of_lt h _
  have hshift : (a % 2 ^ 64) <<< 4 % 2 ^ 64 = (a % 2 ^ 60) <<< 4 := by
    simp only [Nat.shiftLeft_eq]
    omega
  rw [← UInt64.toNat_inj, UInt64.toNat_or, UInt64.toNat_shiftLeft, UInt64.toNat_ofNat',
    UInt64.toNat_ofNat', UInt64.toNat_ofNat']
  change ((a % 2 ^ 64) <<< 4 % 2 ^ 64) ||| (d % 2 ^ 64) = _
  rw [hshift, Nat.mod_eq_of_lt (a := d) (by omega), ← hor, Nat.shiftLeft_eq]
  omega

theorem hex2u64Loop_digits {ds : List ℕ} (hds : ∀ d ∈ ds, d < 16) {rest : List UInt8}
    (hrest : ∀ c ∈ rest.head?, hex c = none) (a n : ℕ) :
    hex2u64Loop (UInt64.ofNat a) n (ds.map hexDigit ++ rest) =
      (UInt64.ofNat (ds.foldl (fun a d => d + 16 * a) a), n + ds.length) := by
  induction ds generalizing a n with
  | nil =>
    cases rest with
    | nil => rfl
    | cons c rest => simp [hex2u64Loop, hrest c (by simp)]
  | cons d ds ih =>
    rw [List.forall_mem_cons] at hds
    simp only [List.map_cons, List.cons_append, hex2u64Loop, hex_hexDigit hds.1, shift_or a hds.1]
    rw [ih hds.2]
    simp [Nat.add_assoc, Nat.add_comm 1]

theorem exists_digits (n : ℕ) :
    ∃ ds : List ℕ, printHex n = ds.map hexDigit ∧ ds ≠ [] ∧ (∀ d ∈ ds, d < 16) ∧
      ds.foldl (fun a d => d + 16 * a) 0 = n := by
  by_cases hn : n = 0
  · exact ⟨[0], by simp [printHex, hn], by simp, by simp, by simp [hn]⟩
  · refine ⟨(Nat.digits 16 n).reverse, by simp [printHex, hn], ?_, ?_, ?_⟩
    · simpa [Nat.digits_ne_nil_iff_ne_zero] using hn
    · intro d hd
      exact Nat.digits_lt_base (by omega) (List.mem_reverse.mp hd)
    · rw [List.foldl_reverse]
      have hval := Nat.ofDigits_digits 16 n
      rw [Nat.ofDigits_eq_foldr] at hval
      simpa using hval

theorem hex2u64_printHex (n : ℕ) {rest : List UInt8} (hrest : ∀ c ∈ rest.head?, hex c = none) :
    hex2u64 (printHex n ++ rest) = (UInt64.ofNat n, (printHex n).length) := by
  obtain ⟨ds, hprint, -, hds, hval⟩ := exists_digits n
  have hloop := hex2u64Loop_digits hds hrest 0 0
  rw [hval] at hloop
  rw [hex2u64, hprint, List.length_map]
  simpa using hloop

theorem length_printHex_pos (n : ℕ) : 0 < (printHex n).length := by
  obtain ⟨ds, hprint, hne, -⟩ := exists_digits n
  rw [hprint, List.length_map]
  exact List.length_pos_iff.mpr hne

theorem printHex_text {n : ℕ} {c : UInt8} (hc : c ∈ printHex n) : c ≠ newline ∧ c ≠ 0 := by
  obtain ⟨ds, hprint, -, hds, -⟩ := exists_digits n
  rw [hprint, List.mem_map] at hc
  obtain ⟨d, hd, rfl⟩ := hc
  have hlt := hds d hd
  interval_cases d <;> decide

structure MapEntry.Readable (e : MapEntry) : Prop where
  size_pos : 0 < e.codeSize
  end_lt : e.codeAddr.toNat + e.codeSize.toNat < 2 ^ 64
  name_length : 3 ≤ e.entry.length
  name_text : ∀ c ∈ e.entry, c ≠ newline ∧ c ≠ 0
  line_length : e.write.length < 2 ^ 31

/-- The symbol an entry stands for. -/
def MapEntry.symbol (e : MapEntry) : Symbol :=
  ⟨e.codeAddr, e.codeAddr + e.codeSize.toUInt64, e.entry⟩

theorem cString_append_zero {s : List UInt8} (h : ∀ c ∈ s, c ≠ 0) (rest : List UInt8) :
    cString (s ++ 0 :: rest) = s := by
  rw [cString, List.takeWhile_append_of_pos (by simpa using h)]
  simp

theorem cString_eq_self {s : List UInt8} (h : ∀ c ∈ s, c ≠ 0) : cString s = s := by
  induction s with
  | nil => rfl
  | cons c s ih =>
    rw [List.forall_mem_cons] at h
    rw [cString, List.takeWhile_cons_of_pos (by simpa using h.1)]
    exact congrArg (c :: ·) (ih h.2)

variable {e : MapEntry}

theorem MapEntry.Readable.write_eq (h : e.Readable) :
    e.write = (printHex e.codeAddr.toNat ++ space ::
      (printHex e.codeSize.toNat ++ space :: e.entry)) ++ [newline] := by
  rw [MapEntry.write, cString_eq_self fun c hc => (h.name_text c hc).2]
  simp

theorem lines_append {body : List UInt8} (h : ∀ c ∈ body, c ≠ newline) (file : List UInt8) :
    lines (body ++ newline :: file) = (body ++ [newline]) :: lines file := by
  induction body with
  | nil => simp [lines]
  | cons c body ih =>
    rw [List.forall_mem_cons] at h
    simp [lines, h.1, ih h.2]

theorem lines_write (h : e.Readable) (file : List UInt8) :
    lines (e.write ++ file) = e.write :: lines file := by
  rw [h.write_eq, List.append_assoc, List.singleton_append]
  apply lines_append
  intro c hc
  simp only [List.mem_append, List.mem_cons] at hc
  rcases hc with hc | rfl | hc | rfl | hc
  · exact (printHex_text hc).1
  · decide
  · exact (printHex_text hc).1
  · decide
  · exact (h.name_text c hc).1

theorem toInt_of_lt {n : ℕ} (h : n < 2 ^ 31) : toInt n = n := by
  have hmod : n % 2 ^ 32 = n := Nat.mod_eq_of_lt (by omega)
  rw [toInt, hmod, if_pos h]

theorem parseLine_write (h : e.Readable) : parseLine e.write = some e.symbol := by
  have hlen := h.line_length
  have hname := h.name_length
  have hspace : ∀ {s : List UInt8}, ∀ c ∈ (space :: s).head?, hex c = none := by
    rintro s c ⟨⟩
    rfl
  have hq := length_printHex_pos e.codeSize.toNat
  rw [h.write_eq] at hlen ⊢
  set body := printHex e.codeAddr.toNat ++ space :: (printHex e.codeSize.toNat ++ space :: e.entry)
    with hbody
  have hlineLen : toInt (body ++ [newline]).length - 1 = body.length := by
    rw [toInt_of_lt hlen, List.length_append]
    simp
  have hset : (body ++ [newline]).set body.length 0 = body ++ [0] := by
    simp
  have hlength : body.length = (printHex e.codeAddr.toNat).length +
      ((printHex e.codeSize.toNat).length + (e.entry.length + 1) + 1) := by
    simp [hbody]
  have hstart : hex2u64 (body ++ [0]) =
      (UInt64.ofNat e.codeAddr.toNat, (printHex e.codeAddr.toNat).length) := by
    rw [hbody, List.append_assoc]
    exact hex2u64_printHex _ hspace
  have hdrop : (body ++ [0]).drop ((printHex e.codeAddr.toNat).length + 1) =
      printHex e.codeSize.toNat ++ space :: (e.entry ++ [0]) := by
    rw [hbody, List.append_assoc, ← List.drop_drop, List.drop_left]
    simp
  have hsize : hex2u64 ((body ++ [0]).drop ((printHex e.codeAddr.toNat).length + 1)) =
      (UInt64.ofNat e.codeSize.toNat, (printHex e.codeSize.toNat).length) := by
    rw [hdrop]
    exact hex2u64_printHex _ hspace
  have hdrop' : (body ++ [0]).drop
      ((printHex e.codeAddr.toNat).length + 1 + (printHex e.codeSize.toNat).length + 1) =
      e.entry ++ [0] := by
    rw [Nat.add_assoc _ _ 1, ← List.drop_drop, hdrop, ← List.drop_drop, List.drop_left]
    simp
  simp only [parseLine, hlineLen, Int.toNat_natCast, hset, hstart, hsize, hdrop']
  rw [if_neg (by omega), if_neg (by push_cast; omega)]
  have hwide : UInt64.ofNat e.codeSize.toNat = e.codeSize.toUInt64 := by
    simp
  have hne : e.codeSize.toUInt64 ≠ 0 := by
    have hpos := UInt32.lt_iff_toNat_lt.mp h.size_pos
    intro hzero
    rw [← UInt64.toNat_inj, UInt32.toNat_toUInt64] at hzero
    rw [hzero] at hpos
    exact lt_irrefl _ hpos
  rw [Symbol.new, hwide, if_pos hne, UInt64.ofNat_toNat,
    cString_append_zero fun c hc => (h.name_text c hc).2]
  rfl

theorem lines_flatMap {entries : List MapEntry} (h : ∀ e ∈ entries, e.Readable) :
    lines (entries.flatMap MapEntry.write) = entries.map MapEntry.write := by
  induction entries with
  | nil => rfl
  | cons e entries ih =>
    rw [List.forall_mem_cons] at h
    rw [List.flatMap_cons, lines_write h.1, ih h.2, List.map_cons]

section Tree

variable {balance : SearchTree Symbol → SearchTree Symbol} {calloc : ℕ → Bool}

theorem symbolsInsert_toList (hbal : ∀ t, (balance t).toList = t.toList) {t : SearchTree Symbol}
    (ht : Ordered Symbol.key t.toList) (s : Symbol) :
    (symbolsInsert balance t s).toList = place Symbol.key s t.toList := by
  rw [symbolsInsert, hbal, SearchTree.toList_insert s ht]

theorem loadLines_toList (hbal : ∀ t, (balance t).toList = t.toList)
    (hcalloc : ∀ i, calloc i = true) {entries : List MapEntry} (h : ∀ e ∈ entries, e.Readable)
    {t : SearchTree Symbol} (ht : Ordered Symbol.key t.toList) (i : ℕ) (nrSyms : Int32) :
    let t' := (loadLines balance calloc i nrSyms t (entries.map MapEntry.write)).2
    Ordered Symbol.key t'.toList ∧ t'.toList.Perm (entries.map MapEntry.symbol ++ t.toList) := by
  induction entries generalizing t i nrSyms with
  | nil => exact ⟨ht, .refl _⟩
  | cons e entries ih =>
    rw [List.forall_mem_cons] at h
    have hint : ¬ toInt e.write.length < 0 := by
      rw [toInt_of_lt h.1.line_length]
      omega
    have hins := symbolsInsert_toList hbal ht e.symbol
    have ht' : Ordered Symbol.key (symbolsInsert balance t e.symbol).toList := by
      rw [hins]
      exact ht.place
    obtain ⟨hord, hperm⟩ := ih h.2 ht' (i + 1) (nrSyms + 1)
    simp only [List.map_cons, loadLines, if_neg hint, parseLine_write h.1, hcalloc i, if_true]
    refine ⟨hord, hperm.trans ?_⟩
    rw [hins]
    exact ((place_perm _ _).append_left _).trans List.perm_middle

end Tree

/-- The address is in the range of the entry. -/
def MapEntry.Contains (e : MapEntry) (ip : UInt64) : Prop :=
  e.codeAddr.toNat ≤ ip.toNat ∧ ip.toNat < e.codeAddr.toNat + e.codeSize.toNat

theorem MapEntry.Readable.stop (h : e.Readable) :
    e.symbol.stop.toNat = e.codeAddr.toNat + e.codeSize.toNat := by
  have hlt := h.end_lt
  simp only [MapEntry.symbol, UInt64.toNat_add, UInt32.toNat_toUInt64]
  omega

theorem MapEntry.Readable.contains_iff (h : e.Readable) {ip : UInt64} :
    e.Contains ip ↔ e.symbol.start.toNat ≤ ip.toNat ∧ ip.toNat < e.symbol.stop.toNat := by
  rw [h.stop]
  rfl

theorem MapEntry.Readable.start_lt_stop (h : e.Readable) :
    e.symbol.start.toNat < e.symbol.stop.toNat := by
  have hpos := UInt32.lt_iff_toNat_lt.mp h.size_pos
  rw [h.stop]
  exact Nat.lt_add_of_pos_right hpos

theorem locates_symbol (ip : UInt64) {l : List Symbol} (h : ∀ s ∈ l, s.start.toNat < s.stop.toNat) :
    SearchTree.Locates (Symbol.side ip) (·.start.toNat) (·.stop.toNat) ip.toNat l where
  lt s _ := by
    rw [← UInt64.lt_iff_toNat_lt]
    grind [Symbol.side]
  gt s hs := by
    have hlt := h s hs
    simp only [Symbol.side, gt_iff_lt, UInt64.lt_iff_toNat_lt, ← UInt64.toNat_inj, ne_eq]
    split_ifs with hleft hright
    · simp only [false_iff]
      omega
    · simp only [true_iff]
      omega
    · simp only [false_iff]
      omega

theorem pairwise_apart {l : List Symbol} (hord : Ordered Symbol.key l)
    (hlt : ∀ s ∈ l, s.start.toNat < s.stop.toNat)
    (hdisj : l.Pairwise fun a b => ∀ ip : UInt64,
      ¬ ((a.start.toNat ≤ ip.toNat ∧ ip.toNat < a.stop.toNat) ∧
        b.start.toNat ≤ ip.toNat ∧ ip.toNat < b.stop.toNat)) :
    l.Pairwise (SearchTree.Apart (·.start.toNat) (·.stop.toNat)) := by
  apply (hord.and hdisj).imp_of_mem
  intro a b _ hb ⟨hle, hnot⟩
  refine ⟨hle, ?_⟩
  by_contra hover
  exact hnot b.start ⟨⟨hle, Nat.not_le.mp hover⟩, le_rfl, hlt b hb⟩

theorem symbolsFind_eq_some_iff {entries : List MapEntry} {t : SearchTree Symbol}
    (hread : ∀ e ∈ entries, e.Readable)
    (hdisj : entries.Pairwise fun a b => ∀ ip, ¬ (a.Contains ip ∧ b.Contains ip))
    (hord : Ordered Symbol.key t.toList) (hperm : t.toList.Perm (entries.map MapEntry.symbol))
    {ip : UInt64} {s : Symbol} :
    symbolsFind t ip = some s ↔ ∃ e ∈ entries, e.Contains ip ∧ e.symbol = s := by
  have hsym : ∀ s ∈ t.toList, ∃ e ∈ entries, e.symbol = s := by
    intro s hs
    simpa using hperm.mem_iff.mp hs
  have hlt : ∀ s ∈ t.toList, s.start.toNat < s.stop.toNat := by
    intro s hs
    obtain ⟨e, he, rfl⟩ := hsym s hs
    exact (hread e he).start_lt_stop
  have hapart : t.toList.Pairwise (SearchTree.Apart (·.start.toNat) (·.stop.toNat)) := by
    apply pairwise_apart hord hlt
    rw [hperm.pairwise_iff fun hab ip hba => hab ip hba.symm, List.pairwise_map]
    apply hdisj.imp_of_mem
    intro a b ha hb hab ip
    rw [← (hread a ha).contains_iff, ← (hread b hb).contains_iff]
    exact hab ip
  rw [symbolsFind, SearchTree.search_eq_some_iff (locates_symbol ip hlt) hapart]
  constructor
  · rintro ⟨hs, hip⟩
    obtain ⟨e, he, rfl⟩ := hsym s hs
    exact ⟨e, he, (hread e he).contains_iff.mpr hip, rfl⟩
  · rintro ⟨e, he, hip, rfl⟩
    exact ⟨hperm.mem_iff.mpr (List.mem_map_of_mem he), (hread e he).contains_iff.mp hip⟩

def Dso.Cached (dso : Dso) : Prop :=
  dso.lastSymbol = none ∨ dso.lastSymbol = symbolsFind dso.symbols dso.lastAddr

theorem Dso.Cached.findSymbol {dso : Dso} (h : dso.Cached) (addr : UInt64) :
    (dso.findSymbol addr).1 = symbolsFind dso.symbols addr ∧
      (dso.findSymbol addr).2.symbols = dso.symbols ∧ (dso.findSymbol addr).2.Cached := by
  by_cases hmiss : dso.lastAddr ≠ addr ∨ dso.lastSymbol = none
  · simp [Dso.findSymbol, hmiss, Cached]
  · obtain ⟨haddr, hsome⟩ := not_or.mp hmiss
    rw [not_ne_iff] at haddr
    have hfound := h.resolve_left hsome
    simp only [Dso.findSymbol, if_neg hmiss]
    exact ⟨haddr ▸ hfound, trivial, h⟩

theorem Dso.Cached.findSymbols {dso : Dso} (h : dso.Cached) (addrs : List UInt64) :
    dso.findSymbols addrs = addrs.map (symbolsFind dso.symbols) := by
  induction addrs generalizing dso with
  | nil => rfl
  | cons addr addrs ih =>
    obtain ⟨hfound, hsame, hcached⟩ := h.findSymbol addr
    rw [Dso.findSymbols, ih hcached, hsame, hfound, List.map_cons]

/-- The file of entries with disjoint ranges, written in any order, is read back as one symbol for
each entry. -/
theorem perf_map_round_trip (entries : List MapEntry)
    (balance : SearchTree Symbol → SearchTree Symbol) (calloc : ℕ → Bool)
    (hbal : ∀ t, (balance t).toList = t.toList) (hcalloc : ∀ i, calloc i = true)
    (hread : ∀ e ∈ entries, e.Readable)
    (hdisj : entries.Pairwise fun a b => ∀ ip, ¬ (a.Contains ip ∧ b.Contains ip)) :
    let dso := (loadPerfMap balance calloc Dso.new (some (entries.flatMap MapEntry.write))).2
    dso.symbols.toList.Perm (entries.map MapEntry.symbol) ∧
      ∀ addrs, List.Forall₂
        (fun addr found => ∀ s, found = some s ↔ ∃ e ∈ entries, e.Contains addr ∧ e.symbol = s)
        addrs (dso.findSymbols addrs) := by
  intro dso
  have hload := loadLines_toList hbal hcalloc hread (t := .leaf) ordered_nil 0 0
  rw [← lines_flatMap hread, SearchTree.toList, List.append_nil] at hload
  obtain ⟨hord, hperm⟩ := hload
  refine ⟨hperm, ?_⟩
  intro addrs
  have hcached : dso.Cached := .inl rfl
  rw [hcached.findSymbols, List.forall₂_map_right_iff, List.forall₂_same]
  intro addr _ s
  exact symbolsFind_eq_some_iff hread hdisj hord hperm

def demoEntries : List MapEntry :=
  [⟨0x7f2000, 0x10, [97, 98, 99]⟩, ⟨0x7f1ff0, 0x10, [49, 32, 102]⟩]

theorem demoEntries_readable : ∀ e ∈ demoEntries, e.Readable := by
  intro e he
  simp only [demoEntries, List.mem_cons, List.not_mem_nil, or_false] at he
  rcases he with rfl | rfl <;>
    exact ⟨by decide, by decide, by decide, by simp [newline],
      by simp [MapEntry.write, printHex, cString]⟩

theorem demoEntries_round_trip :
    (loadPerfMap id (fun _ => true) Dso.new (some (demoEntries.flatMap MapEntry.write))).2.symbols
      |>.toList.Perm (demoEntries.map MapEntry.symbol) := by
  refine (perf_map_round_trip demoEntries id (fun _ => true) (fun _ => rfl) (fun _ => rfl)
    demoEntries_readable ?_).1
  rw [demoEntries, List.pairwise_pair]
  rintro ip ⟨⟨h1, h2⟩, h3, h4⟩
  simp at h1 h4
  omega

end RPerf.Symbols
