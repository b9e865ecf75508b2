import RPerf.Code.CacheTransparency

/-!
# What a walk reads

The walk copies sixteen bytes at the address of each instruction, however long the
instruction is, and asks whether the map has ended only behind it.
-/

namespace RPerf.Code

open Lib Decode

variable {D : Type*}

/-- `a` is one of the bytes copied for the instruction at `ip`. -/
def Window (ip a : UInt64) : Prop := ∃ i < insnBufSz, a = ip + UInt64.ofNat i

variable {ip : UInt64} {find : UInt64 → Option (Map D)}

theorem read_congr {env env' : Env D} (h : ∀ a, Window ip a → env'.mem a = env.mem a) :
    env'.read ip = env.read ip :=
  List.map_congr_left fun i hi => h _ ⟨i, List.mem_range.mp hi, rfl⟩

/-- The address lies in the map. -/
def Map.Has (m : Map D) (a : UInt64) : Prop := m.start ≤ a ∧ a < m.endAddr

/-- The map found directly behind `m`. -/
def Adjacent (find : UInt64 → Option (Map D)) (m m' : Map D) : Prop :=
  find m.endAddr = some m' ∧ m'.start = m.endAddr

/-- There are sixteen bytes from `ip` on in the map, or in the map and the next one. -/
def Room (find : UInt64 → Option (Map D)) (m : Map D) (ip : UInt64) : Prop :=
  ip.toNat + insnBufSz ≤ m.endAddr.toNat ∨
    ∃ m', Adjacent find m m' ∧ ip.toNat + insnBufSz ≤ m'.endAddr.toNat

theorem Room.lt {m : Map D} (h : Room find m ip) : ip.toNat + 16 < 2 ^ 64 := by
  unfold Room insnBufSz at h
  rcases h with h | ⟨m', -, h⟩
  · have := m.endAddr.toNat_lt
    omega
  · have := m'.endAddr.toNat_lt
    omega

theorem Window.toNat {a : UInt64} (h : Window ip a) (hlt : ip.toNat + 16 < 2 ^ 64) :
    ip.toNat ≤ a.toNat ∧ a.toNat < ip.toNat + 16 := by
  obtain ⟨i, hi, rfl⟩ := h
  have hi' : i < 16 := hi
  rw [UInt64.toNat_add, UInt64.toNat_ofNat', Nat.mod_eq_of_lt (by omega : i < 2 ^ 64),
    Nat.mod_eq_of_lt (by omega)]
  omega

theorem window_self (ip : UInt64) : Window ip ip := ⟨0, by decide, (UInt64.add_zero ip).symm⟩

theorem room_iff {m : Map D} (hip : ip < m.endAddr) :
    (∀ a, Window ip a → m.Has a ∨ ∃ m', Adjacent find m m' ∧ m'.Has a) ↔
      m.start ≤ ip ∧ Room find m ip := by
  constructor
  · intro h
    have hlt : ip.toNat + 16 < 2 ^ 64 := by
      by_contra hge
      have hip := ip.toNat_lt
      have htop : (ip + UInt64.ofNat (2 ^ 64 - 1 - ip.toNat)).toNat = 2 ^ 64 - 1 := by
        rw [toNat_add_ofNat] <;> omega
      have hout (m : Map D) : ¬ m.Has (ip + UInt64.ofNat (2 ^ 64 - 1 - ip.toNat)) := by
        rintro ⟨-, hhas⟩
        rw [UInt64.lt_iff_toNat_lt, htop] at hhas
        have := m.endAddr.toNat_lt
        omega
      obtain hm | ⟨m', -, hm⟩ := h _ ⟨2 ^ 64 - 1 - ip.toNat, by unfold insnBufSz; omega, rfl⟩
      · exact hout m hm
      · exact hout m' hm
    have hself : m.Has ip := by
      obtain hm | ⟨m', hadj, hm⟩ := h ip (window_self ip)
      · exact hm
      · exact absurd (hadj.2 ▸ hm.1) (UInt64.not_le.mpr hip)
    have hlast : (ip + UInt64.ofNat 15).toNat = ip.toNat + 15 := toNat_add_ofNat (by omega)
    refine ⟨hself.1, ?_⟩
    obtain ⟨-, hm⟩ | ⟨m', hadj, -, hm⟩ := h _ ⟨15, by decide, rfl⟩
    · rw [UInt64.lt_iff_toNat_lt, hlast] at hm
      exact .inl hm
    · rw [UInt64.lt_iff_toNat_lt, hlast] at hm
      exact .inr ⟨m', hadj, hm⟩
  · rintro ⟨hstart, hroom⟩ a ha
    obtain ⟨hle, hlt⟩ := ha.toNat hroom.lt
    have hstart : m.start ≤ a := UInt64.le_trans hstart (UInt64.le_iff_toNat_le.mpr hle)
    by_cases hend : a < m.endAddr
    · exact .inl ⟨hstart, hend⟩
    · have hend' := UInt64.le_iff_toNat_le.mp (UInt64.not_lt.mp hend)
      rcases hroom with hfits | ⟨m', hadj, hfits⟩
      · have : ip.toNat + 16 ≤ m.endAddr.toNat := hfits
        omega
      · have : ip.toNat + 16 ≤ m'.endAddr.toNat := hfits
        refine .inr ⟨m', hadj, ?_, UInt64.lt_iff_toNat_lt.mpr (by omega)⟩
        rw [hadj.2]
        exact UInt64.not_lt.mp hend

section

variable [DecidableEq D]

/-- The call comes to decode the instruction at `ip`, in the map `m` it has found last. -/
def Decodes (env : Env D) (w : World D) (c : Call D) (find : UInt64 → Option (Map D)) (m : Map D)
    (ip : UInt64) : Prop :=
  ¬ (c.toIp ≠ 0 ∧ c.ip = c.toIp) ∧ c.maps env = some find ∧
    ∃ s, Visits (walkPass env c find) { ip := c.ip, world := w } s ∧ s.map = some m ∧ s.ip = ip

theorem walkNextInsn_reads (env : Env D) (w : World D) (c : Call D) (mem : UInt64 → UInt8)
    (h : ∀ find m ip a, Decodes env w c find m ip → Window ip a → mem a = env.mem a) :
    walkNextInsn { env with mem } w c = walkNextInsn env w c := by
  unfold walkNextInsn
  dsimp only
  split_ifs with hto
  · rfl
  have hsame : c.maps { env with mem } = c.maps env := rfl
  rw [hsame]
  cases hmaps : c.maps env with
  | none => rfl
  | some find =>
    refine loop_congr walkBound _ fun s hs => ?_
    cases hmap : s.map with
    | none =>
      simp only [walkPass, hmap]
      rfl
    | some m =>
      have hread : Env.read { env with mem } s.ip = env.read s.ip :=
        read_congr fun a ha => h find m s.ip a ⟨hto, hmaps, s, hs, hmap, rfl⟩ ha
      simp only [walkPass, hmap, nextInsn, hread]
      rfl

structure StraightOn (env : Env D) (c : Call D) (m : Map D) (cnt ip : UInt64) (i : Insn) :
    Prop where
  decoded : env.getInsn (env.read ip) (env.is64Bit m.dso) = some i
  noBranch : i.branch = .noBranch
  limit : c.maxInsnCnt ≠ 0 → cnt + 1 < c.maxInsnCnt
  target : c.toIp ≠ 0 → i.next ip ≠ c.toIp

def Call.worldIn (c : Call D) (env : Env D) (w : World D) : List (Map D) → World D
  | [] => w
  | [m] => c.asked env m (w.statusSeen m.dso).2
  | m :: m' :: ms => ((c.worldIn env w (m' :: ms)).statusSeen m.dso).2

def Admits (env : Env D) (w : World D) (c : Call D) (ms : List (Map D)) (m : Map D) : Prop :=
  ((c.worldIn env w ms).statusSeen m.dso).1 = false ∧
    (ms = [] → c.served env m (w.statusSeen m.dso).2 = none)

/-- The straight line of code from the call's address on, through maps that follow each other. -/
inductive OnLine (env : Env D) (w : World D) (c : Call D) (find : UInt64 → Option (Map D)) :
    Option (Map D) → List (Map D) → UInt64 → UInt64 → Prop
  | start : ¬ (c.toIp ≠ 0 ∧ c.ip = c.toIp) → c.maps env = some find →
      OnLine env w c find none [] 0 c.ip
  | enter {ms cnt ip m} : OnLine env w c find none ms cnt ip → find ip = some m →
      Admits env w c ms m → OnLine env w c find (some m) (m :: ms) cnt ip
  | next {m ms cnt ip i} : OnLine env w c find (some m) ms cnt ip → StraightOn env c m cnt ip i →
      i.next ip < m.endAddr → OnLine env w c find (some m) ms (cnt + 1) (i.next ip)
  | leave {m ms cnt ip i} : OnLine env w c find (some m) ms cnt ip → StraightOn env c m cnt ip i →
      m.endAddr ≤ i.next ip → OnLine env w c find none ms (cnt + 1) (i.next ip)

variable {env : Env D} {w : World D} {c : Call D} {find : UInt64 → Option (Map D)}

variable {ms : List (Map D)} {m : Map D} {ip cnt : UInt64} {s s' : Walk D}

theorem OnLine.entered (h : OnLine env w c find (some m) ms cnt ip) : ms ≠ [] := by
  generalize hm : some m = o at h
  induction h with
  | start => cases hm
  | enter => exact List.cons_ne_nil _ _
  | next _ _ _ ih => exact ih hm
  | leave => cases hm

theorem OnLine.first (h : OnLine env w c find none [] cnt ip) : ip = c.ip := by
  generalize hm : (none : Option (Map D)) = o at h
  generalize hms : ([] : List (Map D)) = ms at h
  cases h with
  | start => rfl
  | enter => cases hm
  | next => cases hm
  | leave h _ _ => exact absurd hms.symm h.entered

theorem OnLine.lt_end (hholds : ∀ ip m, find ip = some m → m.Has ip)
    (h : OnLine env w c find (some m) ms cnt ip) : ip < m.endAddr := by
  cases h with
  | enter _ hfind _ => exact (hholds _ _ hfind).2
  | next _ _ hlt => exact hlt

theorem OnLine.maps {m : Option (Map D)} (h : OnLine env w c find m ms cnt ip) :
    ¬ (c.toIp ≠ 0 ∧ c.ip = c.toIp) ∧ c.maps env = some find := by
  induction h with
  | start hto hmaps => exact ⟨hto, hmaps⟩
  | enter _ _ _ ih => exact ih
  | next _ _ _ ih => exact ih
  | leave _ _ _ ih => exact ih

/-- The walk in its current map. -/
def Walk.inMap (s : Walk D) (m : Map D) (w : World D) : Walk D :=
  { s with map := some m, startOffset := m.mapIp s.ip, startIp := s.ip, world := w }

theorem enterMap_again_iff (hip : ms = [] → s.ip = c.ip) (hone : s.oneMap = true ↔ ms = [])
    (hw : s.world = c.worldIn env w ms) :
    enterMap env c find s = .again s' ↔
      ∃ m, find s.ip = some m ∧ Admits env w c ms m ∧
        s.inMap m (c.worldIn env w (m :: ms)) = s' := by
  unfold enterMap
  cases hfind : find s.ip with
  | none => simp
  | some m =>
    simp only [Option.some.injEq, exists_eq_left', Admits, ← hw]
    by_cases hseen : (s.world.statusSeen m.dso).1 = true
    · simp [hseen]
    rw [Bool.not_eq_true] at hseen
    cases ms with
    | nil =>
      obtain rfl : s.world = w := hw
      obtain hone : s.oneMap = true := hone.mpr rfl
      by_cases hto : c.toIp = 0
      · simp only [hseen, hto, hone, Bool.false_eq_true, if_false, and_self, if_true,
          Call.worldIn, Call.asked, Call.served, ← hip rfl, Walk.inMap]
        cases (World.cacheLookup _ env m.dso (m.mapIp s.ip)).1 with
        | none => simp
        | some e =>
          by_cases hmax : c.maxInsnCnt = 0 ∨ e.insnCnt ≤ c.maxInsnCnt
          · simp only [hmax, if_true, Option.filter_some, decide_true, reduceCtorEq, and_false,
              false_and, imp_false, not_true_eq_false]
          · simp only [hmax, if_false, Option.filter_some, decide_false, Bool.false_eq_true,
              Pass.again.injEq, implies_true, and_self, true_and]
      · simp [hseen, hto, Call.worldIn, Call.asked, Call.served, Walk.inMap]
    | cons m' ms =>
      have hone : s.oneMap = false := by simpa using hone
      simp [hseen, hone, Call.worldIn, ← hw, Walk.inMap]

def Walk.behind (s : Walk D) (m : Map D) (i : Insn) : Walk D :=
  let s := { s with insn := i, insnCnt := s.insnCnt + 1, ip := i.next s.ip }
  if m.endAddr ≤ s.ip then { s with map := none, oneMap := false } else s

theorem nextInsn_again_iff :
    nextInsn env c m s = .again s' ↔
      ∃ i, StraightOn env c m s.insnCnt s.ip i ∧ s.behind m i = s' := by
  unfold nextInsn Walk.behind
  constructor
  · split
    · exact fun h => nomatch h
    · next i hget =>
      dsimp only
      split_ifs with hbr hmax hto hend
      · exact fun h => nomatch h
      · exact fun h => nomatch h
      · exact fun h => nomatch h
      · rintro ⟨⟩
        refine ⟨i, ⟨hget, not_not.mp hbr, fun h => ?_, fun h heq => hto ⟨h, heq⟩⟩, if_pos hend⟩
        exact UInt64.not_le.mp fun hle => hmax ⟨h, hle⟩
      · rintro ⟨⟩
        refine ⟨i, ⟨hget, not_not.mp hbr, fun h => ?_, fun h heq => hto ⟨h, heq⟩⟩, if_neg hend⟩
        exact UInt64.not_le.mp fun hle => hmax ⟨h, hle⟩
  · rintro ⟨i, ⟨hget, hbr, hmax, hto⟩, rfl⟩
    have hmax' : ¬ (c.maxInsnCnt ≠ 0 ∧ c.maxInsnCnt ≤ s.insnCnt + 1) :=
      fun h => UInt64.not_le.mpr (hmax h.1) h.2
    have hto' : ¬ (c.toIp ≠ 0 ∧ i.next s.ip = c.toIp) := fun h => hto h.1 h.2
    simp only [hget, hbr, ne_eq, not_true_eq_false, if_false, hmax', hto']
    split_ifs <;> rfl

structure Walk.StandsOn (env : Env D) (w : World D) (c : Call D) (find : UInt64 → Option (Map D))
    (ms : List (Map D)) (s : Walk D) : Prop where
  line : OnLine env w c find s.map ms s.insnCnt s.ip
  world : s.world = c.worldIn env w ms
  oneMap : s.map = none → (s.oneMap = true ↔ ms = [])

theorem Walk.StandsOn.enter (h : s.StandsOn env w c find ms) (hmap : s.map = none)
    (hfind : find s.ip = some m) (hadm : Admits env w c ms m) :
    (s.inMap m (c.worldIn env w (m :: ms))).StandsOn env w c find (m :: ms) where
  line := .enter (hmap ▸ h.line) hfind hadm
  world := rfl
  oneMap h := nomatch h

theorem Walk.StandsOn.behind {i : Insn} (h : s.StandsOn env w c find ms) (hmap : s.map = some m)
    (hgoes : StraightOn env c m s.insnCnt s.ip i) : (s.behind m i).StandsOn env w c find ms := by
  have hline := hmap ▸ h.line
  unfold Walk.behind
  dsimp only
  split_ifs with hend
  · refine ⟨.leave hline hgoes hend, h.world, fun _ => ?_⟩
    simpa using hline.entered
  · refine ⟨?_, h.world, fun hn => absurd (hmap.symm.trans hn) (by simp)⟩
    have hnext := hline.next hgoes (UInt64.not_le.mp hend)
    simpa only [hmap] using hnext

theorem walkPass_again_iff (h : s.StandsOn env w c find ms) :
    walkPass env c find s = .again s' ↔
      (s.map = none ∧ ∃ m, find s.ip = some m ∧ Admits env w c ms m ∧
        s.inMap m (c.worldIn env w (m :: ms)) = s') ∨
      ∃ m, s.map = some m ∧ ∃ i, StraightOn env c m s.insnCnt s.ip i ∧ s.behind m i = s' := by
  unfold walkPass
  cases hmap : s.map with
  | none =>
    have hline := h.line
    rw [hmap] at hline
    have hip : ms = [] → s.ip = c.ip := by
      rintro rfl
      exact hline.first
    simp [enterMap_again_iff hip (h.oneMap hmap) h.world]
  | some m => simp [nextInsn_again_iff]

theorem Visits.standsOn {t : Walk D} (hv : Visits (walkPass env c find) s t)
    (h : s.StandsOn env w c find ms) : ∃ ms', t.StandsOn env w c find ms' := by
  induction hv generalizing ms with
  | refl => exact ⟨ms, h⟩
  | again hb _ ih =>
    obtain ⟨hmap, m, hfind, hadm, rfl⟩ | ⟨m, hmap, i, hgoes, rfl⟩ := (walkPass_again_iff h).mp hb
    · exact ih (h.enter hmap hfind hadm)
    · exact ih (h.behind hmap hgoes)

theorem OnLine.visits {m : Option (Map D)} (h : OnLine env w c find m ms cnt ip) :
    ∃ s : Walk D, Visits (walkPass env c find) { ip := c.ip, world := w } s ∧
      s.StandsOn env w c find ms ∧ s.map = m ∧ s.insnCnt = cnt ∧ s.ip = ip := by
  induction h with
  | start hto hmaps =>
    exact ⟨_, .refl, ⟨.start hto hmaps, rfl, fun _ => by simp⟩, rfl, rfl, rfl⟩
  | enter _ hfind hadm ih =>
    obtain ⟨s, hv, hs, hmap, rfl, rfl⟩ := ih
    have hpass := (walkPass_again_iff hs).mpr (.inl ⟨hmap, _, hfind, hadm, rfl⟩)
    exact ⟨_, hv.trans (.again hpass .refl), hs.enter hmap hfind hadm, rfl, rfl, rfl⟩
  | @next m ms _ _ i _ hgoes hlt ih =>
    obtain ⟨s, hv, hs, hmap, rfl, rfl⟩ := ih
    have hpass := (walkPass_again_iff hs).mpr (.inr ⟨m, hmap, i, hgoes, rfl⟩)
    have hbehind : s.behind m i =
        { s with insn := i, insnCnt := s.insnCnt + 1, ip := i.next s.ip } :=
      if_neg (UInt64.not_le.mpr hlt)
    have hstands := hs.behind hmap hgoes
    rw [hbehind] at hpass hstands
    exact ⟨_, hv.trans (.again hpass .refl), hstands, hmap, rfl, rfl⟩
  | @leave m ms _ _ i _ hgoes hle ih =>
    obtain ⟨s, hv, hs, hmap, rfl, rfl⟩ := ih
    have hpass := (walkPass_again_iff hs).mpr (.inr ⟨m, hmap, i, hgoes, rfl⟩)
    have hbehind : s.behind m i =
        { s with insn := i, insnCnt := s.insnCnt + 1, ip := i.next s.ip, map := none,
                 oneMap := false } := if_pos hle
    have hstands := hs.behind hmap hgoes
    rw [hbehind] at hpass hstands
    exact ⟨_, hv.trans (.again hpass .refl), hstands, rfl, rfl, rfl⟩

theorem decodes_iff :
    Decodes env w c find m ip ↔ ∃ ms cnt, OnLine env w c find (some m) ms cnt ip := by
  constructor
  · rintro ⟨hto, hmaps, s, hv, hmap, rfl⟩
    have hstart : Walk.StandsOn env w c find [] { ip := c.ip, world := w } :=
      ⟨.start hto hmaps, rfl, fun _ => by simp⟩
    obtain ⟨ms, hs⟩ := Visits.standsOn hv hstart
    exact ⟨ms, s.insnCnt, hmap ▸ hs.line⟩
  · rintro ⟨ms, cnt, h⟩
    obtain ⟨s, hv, -, hmap, -, hip⟩ := h.visits
    exact ⟨h.maps.1, h.maps.2, s, hv, hmap, hip⟩

theorem OnLine.start_le
    (hroom : ∀ m ms cnt ip, OnLine env w c find (some m) ms cnt ip → Room find m ip)
    (h : OnLine env w c find (some m) ms cnt ip) : m.start ≤ ip := by
  have hholds := Call.maps_holds h.maps.2
  generalize hm : some m = o at h
  induction h generalizing m with
  | start => cases hm
  | enter _ hfind _ _ =>
    cases hm
    exact (hholds _ _ hfind).1
  | @next m' ms cnt ip i hline hgoes _ ih =>
    cases hm
    have hlt := (hroom _ _ _ _ hline).lt
    have hlen := getInsn_length hgoes.decoded
    have hnext := toNat_next ip hlen (by omega)
    have hle := UInt64.le_iff_toNat_le.mp (ih rfl)
    rw [UInt64.le_iff_toNat_le, hnext]
    omega
  | leave => cases hm

/-- A call keeps to the maps it finds, and to those directly behind them, exactly if there is room
for the copy at every instruction of the straight line. -/
theorem walk_reads_mapped_iff (env : Env D) (w : World D) (c : Call D)
    (find : UInt64 → Option (Map D)) :
    (∀ m ip a, Decodes env w c find m ip → Window ip a →
        m.Has a ∨ ∃ m', Adjacent find m m' ∧ m'.Has a) ↔
      ∀ m ms cnt ip, OnLine env w c find (some m) ms cnt ip → Room find m ip := by
  constructor
  · intro h m ms cnt ip hline
    have hip := hline.lt_end (Call.maps_holds hline.maps.2)
    exact ((room_iff hip).mp fun a => h m ip a (decodes_iff.mpr ⟨ms, cnt, hline⟩)).2
  · intro hroom m ip a hdec
    obtain ⟨ms, cnt, hline⟩ := decodes_iff.mp hdec
    have hip := hline.lt_end (Call.maps_holds hline.maps.2)
    exact (room_iff hip).mpr ⟨hline.start_le hroom, hroom m ms cnt ip hline⟩ a

end

/-- Memory from `0x1000` up to an end, with nothing behind it. -/
def oneMap (endAddr : UInt64) : Layout Unit where
  find _ ip :=
    if 0x1000 ≤ ip ∧ ip < endAddr then some { start := 0x1000, endAddr, dso := () } else none
  holds h := by
    split_ifs at h with h1
    cases h
    exact h1

/-- Memory full of returns. -/
def returns : Env Unit := { anonEnv with mem := fun _ => 0xc3 }

/-- A walk from the start of the memory. -/
def returnCall (endAddr : UInt64) : Call Unit :=
  { thread := some (oneMap endAddr), ip := 0x1000, toIp := 1 }

/-- The walk decodes the return and nothing else. -/
theorem decodes_return {endAddr : UInt64} (hend : 0x1000 < endAddr) {m : Map Unit} :
    Decodes returns {} (returnCall endAddr) ((oneMap endAddr).find false) m ip ↔
      m = { start := 0x1000, endAddr, dso := () } ∧ ip = 0x1000 := by
  set first : Map Unit := { start := 0x1000, endAddr, dso := () }
  set s : Walk Unit :=
    { ip := 0x1000, world := {}, map := some first, startOffset := first.mapIp 0x1000,
      startIp := 0x1000 }
  have hfind : (oneMap endAddr).find false 0x1000 = some first := if_pos ⟨by decide, hend⟩
  have hfirst : walkPass returns (returnCall endAddr) ((oneMap endAddr).find false)
      { ip := 0x1000, world := {} } = .again s := by
    simp only [walkPass, enterMap, hfind]
    rfl
  have hleave : walkPass returns (returnCall endAddr) ((oneMap endAddr).find false) s =
      .leave ({ s with insn := { op := .ret, branch := .indirect, length := 1, buf := [0xc3] },
                       insnCnt := 1 }.out returns (returnCall endAddr) first) := rfl
  constructor
  · rintro ⟨-, -, t, hv, hmap, hip⟩
    cases hv with
    | refl => cases hmap
    | again hb hv =>
      cases hfirst.symm.trans hb
      cases hv with
      | refl => exact ⟨(Option.some.inj hmap).symm, hip.symm⟩
      | again hb' _ => cases hleave.symm.trans hb'
  · rintro ⟨rfl, rfl⟩
    exact ⟨fun h => absurd h.2 (by decide : (0x1000 : UInt64) ≠ 1), rfl, s, .again hfirst .refl,
      rfl, rfl⟩

/-- In a page there is room for the copy. -/
theorem walk_reads_mapped_page :
    Map.Has ({ start := 0x1000, endAddr := 0x2000, dso := () } : Map Unit) 0x100f := by
  have h := (walk_reads_mapped_iff returns {} (returnCall 0x2000)
    ((oneMap 0x2000).find false)).mpr ?_ _ _ 0x100f
    ((decodes_return (by decide)).mpr ⟨rfl, rfl⟩) ⟨15, by decide, by decide⟩
  · refine h.resolve_right ?_
    rintro ⟨m', ⟨hfind, -⟩, -⟩
    cases hfind
  · intro m ms cnt ip hline
    obtain ⟨rfl, rfl⟩ := (decodes_return (by decide)).mp (decodes_iff.mpr ⟨ms, cnt, hline⟩)
    exact .inl (by decide)

theorem walk_reads_past_map :
    let find := (oneMap 0x1001).find false
    let m : Map Unit := { start := 0x1000, endAddr := 0x1001, dso := () }
    Decodes returns {} (returnCall 0x1001) find m 0x1000 ∧ Window 0x1000 0x1001 ∧
      ¬ m.Has 0x1001 ∧ ∀ m', ¬ Adjacent find m m' := by
  refine ⟨(decodes_return (by decide)).mpr ⟨rfl, rfl⟩, ⟨1, by decide, by decide⟩, ?_, ?_⟩
  · rintro ⟨-, hlt⟩
    exact absurd hlt (by decide)
  · rintro m' ⟨hfind, -⟩
    cases hfind

end RPerf.Code
