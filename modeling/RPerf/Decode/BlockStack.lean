import RPerf.Decode.Stack

/-!
# The blocks of the stack in memory

`struct intel_pt_stack` as its functions see it: a pointer to the top block, one to the
spare block, and the fill of the top block; each block points to the one below it.
-/

namespace RPerf.Decode

/-- `struct intel_pt_blk`. -/
structure Blk where
  prev : Option ℕ
  ip : Block

/-- `struct intel_pt_stack` with the memory of its blocks. -/
structure BlkStack where
  blk : Option ℕ := none
  spare : Option ℕ := none
  pos : ℕ := 0
  mem : ℕ → Option Blk := fun _ => none
  next : ℕ := 0

namespace BlkStack

section

variable (s : BlkStack)

/-- `intel_pt_pop_blk`. -/
def popBlk : Option BlkStack := do
  let a ← s.blk
  let b ← s.mem a
  match s.spare with
  | none => some { s with blk := b.prev, spare := some a }
  | some _ => some { s with blk := b.prev, mem := Function.update s.mem a none }

def takeTop : Option (UInt64 × BlkStack) := do
  let a ← s.blk
  let b ← s.mem a
  if 0 < s.pos ∧ s.pos ≤ blkSize then some (b.ip (s.pos - 1), { s with pos := s.pos - 1 })
  else none

/-- `intel_pt_pop`. -/
def pop : Option (UInt64 × BlkStack) :=
  if s.pos = 0 then
    match s.blk with
    | none => some (0, s)
    | some _ =>
      s.popBlk.bind fun s =>
        match s.blk with
        | none => some (0, s)
        | some _ => { s with pos := blkSize }.takeTop
  else s.takeTop

def allocBlk (malloc : Option Block) : Option (Bool × BlkStack) :=
  match s.spare with
  | some a => do
    let b ← s.mem a
    some (true,
      { s with
        blk := some a
        spare := none
        pos := 0
        mem := Function.update s.mem a (some { b with prev := s.blk }) })
  | none =>
    match malloc with
    | none => some (false, s)
    | some garbage =>
      some (true,
        { s with
          blk := some s.next
          pos := 0
          mem := Function.update s.mem s.next (some { prev := s.blk, ip := garbage })
          next := s.next + 1 })

def store (ip : UInt64) : Option BlkStack := do
  let a ← s.blk
  let b ← s.mem a
  if s.pos < blkSize then
    some { s with
      pos := s.pos + 1
      mem := Function.update s.mem a (some { b with ip := Function.update b.ip s.pos ip }) }
  else none

/-- `intel_pt_push`. -/
def push (malloc : Option Block) (ip : UInt64) : Option (Bool × BlkStack) :=
  if s.blk = none ∨ s.pos = blkSize then
    (s.allocBlk malloc).bind fun
      | (true, s) => (s.store ip).map (true, ·)
      | (false, s) => some (false, s)
  else (s.store ip).map (true, ·)

end

/-- The loop of `intel_pt_clear_stack`. -/
def clearLoop : ℕ → BlkStack → Option BlkStack
  | 0, _ => none
  | fuel + 1, s =>
    match s.blk with
    | none => some { s with pos := 0 }
    | some _ => s.popBlk.bind (clearLoop fuel)

def clear (s : BlkStack) : Option BlkStack := clearLoop (s.next + 1) s

inductive Chain (mem : ℕ → Option Blk) : ℕ → Option ℕ → List ℕ → List Block → Prop
  | nil {n : ℕ} : Chain mem n none [] []
  | cons {n a : ℕ} {prev : Option ℕ} {b c : Block} {addrs : List ℕ} {blks : List Block} :
    mem a = some { prev, ip := b } → (∀ i < n, b i = c i) → Chain mem blkSize prev addrs blks →
    Chain mem n (some a) (a :: addrs) (c :: blks)

structure Holds (s : BlkStack) (n : ℕ) (blks : List Block) (spare : Bool) (addrs : List ℕ) :
    Prop where
  chain : Chain s.mem n s.blk addrs blks
  nodup : (s.spare.toList ++ addrs).Nodup
  below : ∀ a ∈ s.spare.toList ++ addrs, a < s.next
  kept : ∀ a, s.spare = some a → ∃ b, s.mem a = some b
  spare : s.spare.isSome = spare

/-- The memory is that of a stack. -/
def Represents (s : BlkStack) (t : Stack) : Prop :=
  s.pos = t.pos ∧ ∃ addrs, Holds s t.pos t.blks t.spare.isSome addrs

variable {s : BlkStack} {n : ℕ} {blks : List Block} {spare : Bool} {addrs : List ℕ}

theorem Chain.update {mem : ℕ → Option Blk} {p : Option ℕ} (h : Chain mem n p addrs blks) {a : ℕ}
    (ha : a ∉ addrs) (x : Option Blk) : Chain (Function.update mem a x) n p addrs blks := by
  induction h with
  | nil => exact .nil
  | cons hmem hagree _ ih =>
    rw [List.mem_cons, not_or] at ha
    exact .cons (by rw [Function.update_of_ne (Ne.symm ha.1), hmem]) hagree (ih ha.2)

theorem Chain.mono {mem : ℕ → Option Blk} {p : Option ℕ} {m : ℕ} (h : Chain mem n p addrs blks)
    (hm : m ≤ n) : Chain mem m p addrs blks := by
  cases h with
  | nil => exact .nil
  | cons hmem hagree hrest => exact .cons hmem (fun i hi => hagree i (hi.trans_le hm)) hrest

theorem Holds.blk_eq_none (h : Holds s n blks spare addrs) : s.blk = none ↔ blks = [] := by
  obtain ⟨hchain, -, -, -, -⟩ := h
  cases hblk : s.blk with
  | none =>
    rw [hblk] at hchain
    cases hchain
    simp
  | some a =>
    rw [hblk] at hchain
    cases hchain
    simp

variable {t : Stack} {c : Block}

theorem Holds.blk_eq_some (h : Holds s n (c :: blks) spare addrs) : ∃ a, s.blk = some a := by
  rw [← Option.ne_none_iff_exists', Ne, h.blk_eq_none]
  simp

theorem Holds.length_le (h : Holds s n blks spare addrs) : addrs.length ≤ s.next := by
  have hnodup : addrs.Nodup := h.nodup.of_append_right
  have hsub : addrs ⊆ List.range s.next := fun a ha =>
    List.mem_range.mpr (h.below a (List.mem_append_right _ ha))
  simpa using (hnodup.subperm hsub).length_le

theorem Holds.popBlk (h : Holds s n (c :: blks) spare addrs) :
    ∃ s' addrs', s.popBlk = some s' ∧ Holds s' blkSize blks true addrs' ∧ s'.pos = s.pos ∧
      addrs.length = addrs'.length + 1 := by
  obtain ⟨hchain, hnodup, hbelow, hkept, hspare⟩ := h
  cases hblk : s.blk with
  | none =>
    rw [hblk] at hchain
    cases hchain
  | some a =>
    rw [hblk] at hchain
    cases hchain with
    | @cons _ _ prev b _ addrs _ hmem hagree hrest =>
      cases hsp : s.spare with
      | none =>
        rw [hsp] at hnodup hbelow
        refine ⟨{ s with blk := prev, spare := some a }, addrs, ?_,
          ⟨hrest, hnodup, hbelow, ?_, rfl⟩, rfl, rfl⟩
        · simp [BlkStack.popBlk, hblk, hmem, hsp]
        · intro x hx
          cases hx
          exact ⟨_, hmem⟩
      | some sp =>
        have hne : sp ≠ a := by
          rintro rfl
          simp [hsp] at hnodup
        have hnot : a ∉ addrs := by
          rw [hsp] at hnodup
          simp only [Option.toList_some, List.singleton_append, List.nodup_cons] at hnodup
          exact hnodup.2.1
        refine ⟨{ s with blk := prev, mem := Function.update s.mem a none }, addrs, ?_,
          ⟨hrest.update hnot none, ?_, ?_, ?_, ?_⟩, rfl, rfl⟩
        · simp [BlkStack.popBlk, hblk, hmem, hsp]
        · exact hnodup.sublist ((List.sublist_cons_self a addrs).append_left _)
        · intro x hx
          refine hbelow x ?_
          rw [List.mem_append] at hx ⊢
          exact hx.imp_right (List.mem_cons_of_mem a)
        · intro x hx
          rw [hsp, Option.some.injEq] at hx
          subst hx
          obtain ⟨b', hb'⟩ := hkept sp hsp
          exact ⟨b', (Function.update_of_ne hne none s.mem).trans hb'⟩
        · simp [hsp]

theorem Holds.takeTop (h : Holds s (n + 1) (c :: blks) spare addrs) (hpos : s.pos = n + 1)
    (hn : n + 1 ≤ blkSize) :
    s.takeTop = some (c n, { s with pos := n }) ∧
      Holds { s with pos := n } n (c :: blks) spare addrs := by
  refine ⟨?_, ⟨h.chain.mono n.le_succ, h.nodup, h.below, h.kept, h.spare⟩⟩
  have hchain := h.chain
  cases hblk : s.blk with
  | none =>
    rw [hblk] at hchain
    cases hchain
  | some a =>
    rw [hblk] at hchain
    cases hchain with
    | cons hmem hagree hrest =>
      simp [BlkStack.takeTop, hblk, hmem, hpos, hn, hagree n n.lt_succ_self]

theorem Holds.store (h : Holds s n (c :: blks) spare addrs) (hpos : s.pos = n) (hn : n < blkSize)
    (ip : UInt64) :
    ∃ s', s.store ip = some s' ∧ s'.pos = n + 1 ∧
      Holds s' (n + 1) (Function.update c n ip :: blks) spare addrs := by
  obtain ⟨hchain, hnodup, hbelow, hkept, hspare⟩ := h
  cases hblk : s.blk with
  | none =>
    rw [hblk] at hchain
    cases hchain
  | some a =>
    rw [hblk] at hchain
    cases hchain with
    | @cons _ _ prev b _ addrs _ hmem hagree hrest =>
      have hnot : a ∉ addrs := (List.nodup_cons.mp hnodup.of_append_right).1
      refine ⟨{ s with
          pos := n + 1
          mem := Function.update s.mem a (some { prev, ip := Function.update b n ip }) },
        ?_, rfl, ?_, hnodup, hbelow, ?_, hspare⟩
      · simp [BlkStack.store, hblk, hmem, hpos, hn]
      · simp only [hblk]
        refine .cons (Function.update_self a _ s.mem) ?_ (hrest.update hnot _)
        intro i hi
        by_cases heq : i = n
        · rw [heq, Function.update_self, Function.update_self]
        · rw [Function.update_of_ne heq, Function.update_of_ne heq, hagree i (by omega)]
      · intro x hx
        by_cases heq : x = a
        · subst heq
          exact ⟨_, Function.update_self x _ s.mem⟩
        · obtain ⟨b', hb'⟩ := hkept x hx
          exact ⟨b', (Function.update_of_ne heq _ s.mem).trans hb'⟩

theorem Holds.allocBlk (h : Holds s blkSize blks spare addrs) {malloc : Option Block}
    (hmalloc : spare = true ∨ malloc.isSome) (c : Block) :
    ∃ s' addrs', s.allocBlk malloc = some (true, s') ∧ s'.pos = 0 ∧
      Holds s' 0 (c :: blks) false addrs' := by
  obtain ⟨hchain, hnodup, hbelow, hkept, hspare⟩ := h
  cases hsp : s.spare with
  | some a =>
    obtain ⟨b, hb⟩ := hkept a hsp
    rw [hsp] at hnodup hbelow
    have hnot : a ∉ addrs := (List.nodup_cons.mp hnodup).1
    refine ⟨{ s with
        blk := some a
        spare := none
        pos := 0
        mem := Function.update s.mem a (some { b with prev := s.blk }) },
      a :: addrs, ?_, rfl, ?_, hnodup, hbelow, by simp, rfl⟩
    · simp [BlkStack.allocBlk, hsp, hb]
    · exact .cons (Function.update_self a _ s.mem) (by omega) (hchain.update hnot _)
  | none =>
    have hsome : malloc.isSome := hmalloc.resolve_left (by simp [← hspare, hsp])
    obtain ⟨garbage, rfl⟩ := Option.isSome_iff_exists.mp hsome
    rw [hsp] at hnodup hbelow
    have hnot : s.next ∉ addrs := fun hmem => absurd (hbelow s.next (by simpa using hmem))
      (by omega)
    refine ⟨{ s with
        blk := some s.next
        pos := 0
        mem := Function.update s.mem s.next (some { prev := s.blk, ip := garbage })
        next := s.next + 1 },
      s.next :: addrs, ?_, rfl, ?_, ?_, ?_, ?_, by simp [hsp]⟩
    · simp [BlkStack.allocBlk, hsp]
    · exact .cons (Function.update_self s.next _ s.mem) (by omega) (hchain.update hnot _)
    · simpa [hsp, hnot] using hnodup
    · intro x hx
      simp only [hsp, Option.toList_none, List.nil_append, List.mem_cons] at hx
      rcases hx with rfl | hx
      · exact Nat.lt_succ_self _
      · exact (hbelow x (by simpa using hx)).trans (Nat.lt_succ_self _)
    · simp [hsp]

theorem Holds.allocBlk_fails (h : Holds s n blks false addrs) :
    s.allocBlk none = some (false, s) := by
  have hsp : s.spare = none := by simpa using h.spare
  simp [BlkStack.allocBlk, hsp]

theorem Holds.clearLoop : ∀ (fuel : ℕ) {s : BlkStack} {n : ℕ} {blks : List Block} {spare : Bool}
    {addrs : List ℕ}, Holds s n blks spare addrs → addrs.length < fuel →
    ∃ s', BlkStack.clearLoop fuel s = some s' ∧ s'.pos = 0 ∧
      Holds s' 0 [] (spare || !blks.isEmpty) []
  | 0, _, _, _, _, _, _, hfuel => absurd hfuel (Nat.not_lt_zero _)
  | fuel + 1, s, n, blks, spare, addrs, h, hfuel => by
    cases blks with
    | nil =>
      have hblk : s.blk = none := h.blk_eq_none.mpr rfl
      have haddrs : addrs = [] := by
        have hchain := h.chain
        rw [hblk] at hchain
        cases hchain
        rfl
      subst haddrs
      refine ⟨{ s with pos := 0 }, ?_, rfl, ?_⟩
      · simp [BlkStack.clearLoop, hblk]
      · exact ⟨h.chain.mono (Nat.zero_le n), h.nodup, h.below, h.kept, by simp [h.spare]⟩
    | cons c blks =>
      obtain ⟨s', addrs', hpop, hs', _, hlen⟩ := h.popBlk
      obtain ⟨s'', hclear, hpos, hs''⟩ := Holds.clearLoop fuel hs' (by omega)
      obtain ⟨a, ha⟩ := h.blk_eq_some
      refine ⟨s'', ?_, hpos, by simpa using hs''⟩
      simp [BlkStack.clearLoop, ha, hpop, hclear]

theorem represents_init : Represents {} {} :=
  ⟨rfl, [], .nil, List.nodup_nil, by simp, by simp, rfl⟩

theorem Represents.pop (h : Represents s t) :
    ∃ s', s.pop = some (t.pop.1, s') ∧ Represents s' t.pop.2 := by
  obtain ⟨hpos, addrs, hs⟩ := h
  obtain ⟨blks, spare, pos, pos_le, pos_nil⟩ := t
  simp only at hpos hs
  cases blks with
  | nil =>
    have hzero : pos = 0 := pos_nil rfl
    have hblk : s.blk = none := hs.blk_eq_none.mpr rfl
    refine ⟨s, ?_, hpos, addrs, hs⟩
    simp [BlkStack.pop, Stack.pop, hpos, hzero, hblk]
  | cons c blks =>
    obtain ⟨a, ha⟩ := hs.blk_eq_some
    cases pos with
    | succ n =>
      obtain ⟨htake, hs'⟩ := hs.takeTop hpos pos_le
      refine ⟨{ s with pos := n }, ?_, ?_, addrs, ?_⟩
      · rw [BlkStack.pop, if_neg (by omega), htake]
        simp [Stack.pop]
      · simp [Stack.pop]
      · simpa [Stack.pop] using hs'
    | zero =>
      obtain ⟨s', addrs', hpopBlk, hs', hpos', _⟩ := hs.popBlk
      cases blks with
      | nil =>
        have hblk' : s'.blk = none := hs'.blk_eq_none.mpr rfl
        refine ⟨s', ?_, ?_, addrs', ?_⟩
        · simp [BlkStack.pop, Stack.pop, hpos, ha, hpopBlk, hblk']
        · simp [Stack.pop, hpos', hpos]
        · exact ⟨hs'.chain.mono (Nat.zero_le _), hs'.nodup, hs'.below, hs'.kept, hs'.spare⟩
      | cons c' blks =>
        obtain ⟨a', ha'⟩ := hs'.blk_eq_some
        have hfull : Holds { s' with pos := blkSize } (blkSize - 1 + 1) (c' :: blks) true addrs' :=
          ⟨hs'.chain, hs'.nodup, hs'.below, hs'.kept, hs'.spare⟩
        obtain ⟨htake, hs''⟩ := hfull.takeTop rfl le_rfl
        refine ⟨{ s' with pos := blkSize - 1 }, ?_, ?_, addrs', ?_⟩
        · simp only [ha'] at htake
          simp [BlkStack.pop, Stack.pop, hpos, ha, hpopBlk, ha', htake]
        · simp [Stack.pop]
        · simpa [Stack.pop, Stack.keep] using hs''

theorem Holds.full {blks : List Block} {spare : Bool} {addrs : List ℕ} {pos : ℕ}
    (h : Holds s pos blks spare addrs) (hle : pos ≤ blkSize)
    (hroom : ¬ (blks ≠ [] ∧ pos < blkSize)) :
    Holds s blkSize blks spare addrs := by
  cases blks with
  | nil =>
    have hchain := h.chain
    have hblk := h.blk_eq_none.mpr rfl
    rw [hblk] at hchain
    cases hchain
    exact ⟨hblk ▸ .nil, h.nodup, h.below, h.kept, h.spare⟩
  | cons c blks =>
    have heq : pos = blkSize := le_antisymm hle (by simpa using hroom)
    exact heq ▸ h

theorem Holds.allocAndPush {blks : List Block} {spare : Bool} {addrs : List ℕ}
    (h : Holds s blkSize blks spare addrs) {malloc : Option Block}
    (hmalloc : spare = true ∨ malloc.isSome) (ip : UInt64) (c : Block) :
    ∃ s' addrs', ((s.allocBlk malloc).bind fun
        | (true, s) => (s.store ip).map (true, ·)
        | (false, s) => some (false, s)) = some (true, s') ∧ s'.pos = 1 ∧
      Holds s' 1 (Function.update c 0 ip :: blks) false addrs' := by
  obtain ⟨s', addrs', halloc, hpos', hs'⟩ := h.allocBlk hmalloc c
  obtain ⟨s'', hstore, hpos'', hs''⟩ := hs'.store hpos' (by decide) ip
  exact ⟨s'', addrs', by simp [halloc, hstore], hpos'', hs''⟩

theorem push_of_full {malloc : Bool} {ip : UInt64} (hroom : ¬ (t.blks ≠ [] ∧ t.pos < blkSize)) :
    t.push malloc ip = Stack.push.allocAndPush t malloc ip := by
  obtain ⟨blks, spare, pos, pos_le, pos_nil⟩ := t
  cases blks with
  | nil => rfl
  | cons c blks =>
    have hnot : ¬ pos < blkSize := fun hlt => hroom ⟨by simp, hlt⟩
    simp [Stack.push, hnot]

theorem Represents.push (h : Represents s t) (malloc : Option Block) (ip : UInt64) :
    (∃ s' t', s.push malloc ip = some (true, s') ∧ t.push malloc.isSome ip = some t' ∧
        Represents s' t') ∨
      malloc = none ∧ s.push malloc ip = some (false, s) ∧ t.push malloc.isSome ip = none := by
  obtain ⟨hpos, addrs, hs⟩ := h
  by_cases hroom : t.blks ≠ [] ∧ t.pos < blkSize
  · obtain ⟨blks, spare, pos, pos_le, pos_nil⟩ := t
    obtain ⟨hne, hlt⟩ := hroom
    simp only at hpos hs hne hlt
    obtain ⟨c, blks, rfl⟩ := List.exists_cons_of_ne_nil hne
    obtain ⟨s', hstore, hpos', hs'⟩ := hs.store hpos hlt ip
    refine .inl ⟨s', _, ?_, by simp [Stack.push, hlt]; rfl, hpos', addrs, hs'⟩
    rw [BlkStack.push, if_neg, hstore]
    · rfl
    · rw [hs.blk_eq_none]
      simp only [reduceCtorEq, false_or]
      omega
  · -- a new block is needed, and all there are are full
    have hfull := hs.full t.pos_le hroom
    have hneed : s.blk = none ∨ s.pos = blkSize := by
      rw [hs.blk_eq_none, hpos]
      by_contra hno
      rw [not_or] at hno
      exact hroom ⟨hno.1, lt_of_le_of_ne t.pos_le hno.2⟩
    rw [push_of_full hroom, BlkStack.push, if_pos hneed]
    obtain ⟨blks, spare, pos, pos_le, pos_nil⟩ := t
    by_cases hmalloc : spare.isSome = true ∨ malloc.isSome
    · cases spare with
      | some b =>
        obtain ⟨s', addrs', hrun, hpos', hs'⟩ := hfull.allocAndPush hmalloc ip b
        exact .inl ⟨s', _, hrun, rfl, hpos', addrs', hs'⟩
      | none =>
        obtain ⟨s', addrs', hrun, hpos', hs'⟩ := hfull.allocAndPush hmalloc ip fun _ => 0
        have hsome : malloc.isSome = true := by simpa using hmalloc
        rw [hsome]
        exact .inl ⟨s', _, hrun, rfl, hpos', addrs', hs'⟩
    · rw [not_or] at hmalloc
      have hspare : spare = none := by simpa using hmalloc.1
      have hnone : malloc = none := by simpa using hmalloc.2
      subst hspare hnone
      refine .inr ⟨rfl, ?_, rfl⟩
      simp [hs.allocBlk_fails]

theorem Represents.clear (h : Represents s t) :
    ∃ s', s.clear = some s' ∧ Represents s' t.clear := by
  obtain ⟨hpos, addrs, hs⟩ := h
  obtain ⟨s', hclear, hpos', hs'⟩ := hs.clearLoop (s.next + 1) (Nat.lt_succ_of_le hs.length_le)
  refine ⟨s', hclear, hpos', [], ?_⟩
  have hspare : ∀ (blks : List Block) (sp : Option Block),
      (blks.foldl (fun sp b => some (sp.getD b)) sp).isSome = (sp.isSome || !blks.isEmpty) := by
    intro blks
    induction blks with
    | nil => simp
    | cons b blks ih => intro sp; simp [ih]
  simpa [Stack.clear, hspare] using hs'

/-- An operation on the stack; `malloc` is as for `allocBlk`. -/
inductive Op
  | push (malloc : Option Block) (ip : UInt64)
  | pop
  | clear

/-- What an operation returns. -/
inductive Ret
  | pushed (ok : Bool)
  | popped (ip : UInt64)
  | cleared
  deriving DecidableEq

def step (s : BlkStack) : Op → Option (Ret × BlkStack)
  | .push malloc ip => (s.push malloc ip).map fun r => (.pushed r.1, r.2)
  | .pop => s.pop.map fun r => (.popped r.1, r.2)
  | .clear => s.clear.map (.cleared, ·)

def run (s : BlkStack) : List Op → Option (List Ret × BlkStack)
  | [] => some ([], s)
  | op :: ops => (s.step op).bind fun r => (r.2.run ops).map fun r' => (r.1 :: r'.1, r'.2)

inductive ListStep (l : List UInt64) : Op → Ret → List UInt64 → Prop
  | push {malloc : Option Block} {ip : UInt64} :
    ListStep l (.push malloc ip) (.pushed true) (ip :: l)
  | nomem {ip : UInt64} : ListStep l (.push none ip) (.pushed false) l
  | pop : ListStep l .pop (.popped (l.headD 0)) l.tail
  | clear : ListStep l .clear .cleared []

inductive ListRun : List UInt64 → List Op → List Ret → List UInt64 → Prop
  | nil {l : List UInt64} : ListRun l [] [] l
  | cons {l l' l'' : List UInt64} {op : Op} {ops : List Op} {ret : Ret} {rets : List Ret} :
    ListStep l op ret l' → ListRun l' ops rets l'' → ListRun l (op :: ops) (ret :: rets) l''

theorem Represents.step (h : Represents s t) (op : Op) :
    ∃ ret s' t', s.step op = some (ret, s') ∧ Represents s' t' ∧
      ListStep t.contents op ret t'.contents := by
  cases op with
  | push malloc ip =>
    rcases h.push malloc ip with ⟨s', t', hpush, htpush, h'⟩ | ⟨rfl, hpush, _⟩
    · refine ⟨.pushed true, s', t', by simp [BlkStack.step, hpush], h', ?_⟩
      rw [Stack.push_contents htpush]
      exact .push
    · exact ⟨.pushed false, s, t, by simp [BlkStack.step, hpush], h, .nomem⟩
  | pop =>
    obtain ⟨s', hpop, h'⟩ := h.pop
    obtain ⟨hhead, htail⟩ := t.pop_contents
    refine ⟨.popped t.pop.1, s', t.pop.2, by simp [BlkStack.step, hpop], h', ?_⟩
    rw [hhead, htail]
    exact .pop
  | clear =>
    obtain ⟨s', hclear, h'⟩ := h.clear
    exact ⟨.cleared, s', t.clear, by simp [BlkStack.step, hclear], h', .clear⟩

theorem Represents.run : ∀ (ops : List Op) {s : BlkStack} {t : Stack}, Represents s t →
    ∃ rets s' t', s.run ops = some (rets, s') ∧ Represents s' t' ∧
      ListRun t.contents ops rets t'.contents
  | [], s, t, h => ⟨[], s, t, rfl, h, .nil⟩
  | op :: ops, s, t, h => by
    obtain ⟨ret, s₁, t₁, hstep, h₁, hlist⟩ := h.step op
    obtain ⟨rets, s₂, t₂, hrun, h₂, hlists⟩ := Represents.run ops h₁
    exact ⟨ret :: rets, s₂, t₂, by simp [BlkStack.run, hstep, hrun], h₂, .cons hlist hlists⟩

/-- From an empty stack on, every sequence of operations has a result, and returns what it returns
on a list of addresses. -/
theorem stack_is_lifo (ops : List Op) :
    ∃ rets s t, ({} : BlkStack).run ops = some (rets, s) ∧ Represents s t ∧
      ListRun [] ops rets t.contents ∧ s.pos ≤ blkSize ∧
      ∀ malloc ip s', s.push malloc ip = some (false, s') → malloc = none ∧ s' = s := by
  obtain ⟨rets, s, t, hrun, h, hlist⟩ := represents_init.run ops
  refine ⟨rets, s, t, hrun, h, hlist, h.1 ▸ t.pos_le, ?_⟩
  intro malloc ip s' hpush
  rcases h.push malloc ip with ⟨s'', _, hok, _⟩ | ⟨hnone, hfail, _⟩
  · rw [hok] at hpush
    cases hpush
  · rw [hfail] at hpush
    cases hpush
    exact ⟨hnone, rfl⟩

end BlkStack

end RPerf.Decode
