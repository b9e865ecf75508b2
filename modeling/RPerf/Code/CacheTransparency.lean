import RPerf.Code.NextInsn
import Mathlib.Data.UInt

/-!
# The cache does not show

An entry of the cache stands for a walk inside one map, from an offset of its DSO to the
next branch.
-/

namespace RPerf.Code

open Lib Decode

variable {D : Type*}

inductive Runs (env : Env D) (m : Map D) : UInt64 → ℕ → UInt64 → Insn → Prop
  | branch {ip insn} : env.getInsn (env.read ip) (env.is64Bit m.dso) = some insn →
      insn.branch ≠ .noBranch → Runs env m ip 1 ip insn
  | next {ip i n a insn} : env.getInsn (env.read ip) (env.is64Bit m.dso) = some i →
      i.branch = .noBranch → i.next ip < m.endAddr → Runs env m (i.next ip) n a insn →
      Runs env m ip (n + 1) a insn

variable {env : Env D} {m m' : Map D} {insn : Insn} {ip a k : UInt64} {n : ℕ}
  {code : D → UInt64 → UInt8}

theorem Runs.pos (h : Runs env m ip n a insn) : 0 < n := by
  cases h <;> omega

theorem getInsn_length {buf : List UInt8} {x86_64 : Bool} (h : env.getInsn buf x86_64 = some insn) :
    insn.length ≤ 16 := by
  unfold Env.getInsn at h
  split at h
  · cases h
  · split_ifs at h with hlen
    cases h
    exact not_lt.mp hlen

theorem Map.mapIp_add (m : Map D) (ip k : UInt64) : m.mapIp (ip + k) = m.mapIp ip + k := by
  unfold Map.mapIp
  split_ifs
  · rfl
  · simp only [UInt64.sub_eq_add_neg]
    ac_rfl

/-- Every byte inside a map is given by its DSO and its offset; bytes behind it are left open. -/
def CodeOf (env : Env D) (code : D → UInt64 → UInt8) (m : Map D) : Prop :=
  ∀ a, m.start ≤ a → a < m.endAddr → env.mem a = code m.dso (m.mapIp a)

/-- The bytes that can be read behind the end of the map are found again `k` further on. -/
def EndRepeats (env : Env D) (m : Map D) (k : UInt64) : Prop :=
  ∀ j < insnBufSz - 1,
    env.mem (m.endAddr + UInt64.ofNat j) = env.mem (m.endAddr + UInt64.ofNat j + k)

theorem toNat_next (ip : UInt64) (hlen : insn.length ≤ 16) (h : ip.toNat + insn.length < 2 ^ 64) :
    (insn.next ip).toNat = ip.toNat + insn.length := by
  rw [Insn.next, UInt64.toNat_add, UInt64.toNat_ofNat',
    Nat.mod_eq_of_lt (by omega : insn.length < 2 ^ 64)]
  exact Nat.mod_eq_of_lt h

theorem toNat_add_ofNat {i : ℕ} (h : ip.toNat + i < 2 ^ 64) :
    (ip + UInt64.ofNat i).toNat = ip.toNat + i := by
  rw [UInt64.toNat_add, UInt64.toNat_ofNat', Nat.mod_eq_of_lt (by omega : i < 2 ^ 64),
    Nat.mod_eq_of_lt h]

theorem CodeOf.read_eq (hcode : CodeOf env code m) (hcode' : CodeOf env code m')
    (hdso : m.dso = m'.dso) (htop : m.endAddr.toNat + 16 ≤ 2 ^ 64) (hrep : EndRepeats env m k)
    (hoff : m.mapIp ip = m'.mapIp (ip + k)) (hlo : m.start ≤ ip) (hhi : ip < m.endAddr)
    (hlo' : m'.start ≤ ip + k) (hhi' : ip + k < m'.endAddr)
    (hend : m.endAddr - ip ≤ m'.endAddr - (ip + k)) : env.read ip = env.read (ip + k) := by
  refine List.map_congr_left fun i hi => ?_
  have hi : i < 16 := List.mem_range.mp hi
  rw [UInt64.le_iff_toNat_le, UInt64.toNat_sub_of_le _ _ (UInt64.le_of_lt hhi),
    UInt64.toNat_sub_of_le _ _ (UInt64.le_of_lt hhi')] at hend
  rw [UInt64.lt_iff_toNat_lt] at hhi hhi'
  rw [UInt64.le_iff_toNat_le] at hlo hlo'
  by_cases hin : ip.toNat + i < m.endAddr.toNat
  · have haddr : (ip + UInt64.ofNat i).toNat = ip.toNat + i := toNat_add_ofNat (by omega)
    have haddr' : (ip + k + UInt64.ofNat i).toNat = (ip + k).toNat + i :=
      toNat_add_ofNat (by have := m'.endAddr.toNat_lt; omega)
    rw [hcode _ (UInt64.le_iff_toNat_le.mpr (by omega)) (UInt64.lt_iff_toNat_lt.mpr (by omega)),
      hcode' _ (UInt64.le_iff_toNat_le.mpr (by omega)) (UInt64.lt_iff_toNat_lt.mpr (by omega)),
      hdso, Map.mapIp_add, Map.mapIp_add, hoff]
  · obtain ⟨j, hj⟩ := Nat.exists_eq_add_of_le (not_lt.mp hin)
    have haddr : ip + UInt64.ofNat i = m.endAddr + UInt64.ofNat j := by
      rw [← UInt64.toNat_inj, toNat_add_ofNat (by omega), toNat_add_ofNat (by omega), hj]
    have hshift : ip + k + UInt64.ofNat i = ip + UInt64.ofNat i + k := by ac_rfl
    rw [hshift, haddr]
    exact hrep j (by have : insnBufSz = 16 := rfl; omega)

theorem Runs.transfer (hcode : CodeOf env code m) (hcode' : CodeOf env code m')
    (hdso : m.dso = m'.dso) (htop : m.endAddr.toNat + 16 ≤ 2 ^ 64) (hrep : EndRepeats env m k)
    (h : Runs env m ip n a insn) (hoff : m.mapIp ip = m'.mapIp (ip + k)) (hlo : m.start ≤ ip)
    (hhi : ip < m.endAddr) (hlo' : m'.start ≤ ip + k) (hhi' : ip + k < m'.endAddr)
    (hend : m.endAddr - ip ≤ m'.endAddr - (ip + k)) : Runs env m' (ip + k) n (a + k) insn := by
  induction h with
  | @branch ip insn hget hbr =>
    have hread := hcode.read_eq hcode' hdso htop hrep hoff hlo hhi hlo' hhi' hend
    exact .branch (hread ▸ hdso ▸ hget) hbr
  | @next ip i n a insn hget hbr hin _ ih =>
    have hread := hcode.read_eq hcode' hdso htop hrep hoff hlo hhi hlo' hhi' hend
    have hlen := getInsn_length hget
    have hshift : i.next (ip + k) = i.next ip + k := by
      simp only [Insn.next]
      ac_rfl
    rw [UInt64.le_iff_toNat_le, UInt64.toNat_sub_of_le _ _ (UInt64.le_of_lt hhi),
      UInt64.toNat_sub_of_le _ _ (UInt64.le_of_lt hhi')] at hend
    rw [UInt64.lt_iff_toNat_lt] at hhi hhi'
    rw [UInt64.le_iff_toNat_le] at hlo hlo'
    have hin₀ := UInt64.lt_iff_toNat_lt.mp hin
    have hlt' := m'.endAddr.toNat_lt
    have hnext := toNat_next ip hlen (by omega)
    have hnext' := toNat_next (ip + k) hlen (by omega)
    have hin' : i.next (ip + k) < m'.endAddr := UInt64.lt_iff_toNat_lt.mpr (by omega)
    have hoff' : m.mapIp (i.next ip) = m'.mapIp (i.next (ip + k)) := by
      rw [Insn.next, Insn.next, Map.mapIp_add, Map.mapIp_add, hoff]
    rw [hshift] at hin' hoff' hnext'
    have hrest := ih hoff' (UInt64.le_iff_toNat_le.mpr (by omega)) hin
      (UInt64.le_iff_toNat_le.mpr (by omega)) hin' (by
        rw [UInt64.le_iff_toNat_le, UInt64.toNat_sub_of_le _ _ (UInt64.le_of_lt hin),
          UInt64.toNat_sub_of_le _ _ (UInt64.le_of_lt hin')]
        omega)
    rw [← hshift] at hin' hrest
    exact .next (hread ▸ hdso ▸ hget) hbr hin' hrest

theorem Runs.same (hdso : m.dso = m'.dso) (hend : m.endAddr = m'.endAddr)
    (h : Runs env m ip n a insn) : Runs env m' ip n a insn := by
  induction h with
  | branch hget hbr => exact .branch (hdso ▸ hget) hbr
  | next hget hbr hin _ ih => exact .next (hdso ▸ hget) hbr (hend ▸ hin) ih

section

variable [DecidableEq D]

theorem out_fst (s : Walk D) (env : Env D) (c : Call D) (m : Map D) :
    (s.out env c m).1 = { insn := s.insn, insnCnt := s.insnCnt, ip := s.ip } := by
  unfold Walk.out
  split_ifs <;> rfl

theorem toNat_succ {x : UInt64} (h : x.toNat + 1 < 2 ^ 64) : (x + 1).toNat = x.toNat + 1 := by
  rw [UInt64.toNat_add]
  exact Nat.mod_eq_of_lt h

theorem loop_of_runs {env : Env D} {c : Call D} {find : UInt64 → Option (Map D)} {m : Map D}
    {stuck : Walk D → Walked × World D} (hto : c.toIp = 0) {ip a : UInt64} {n : ℕ} {insn : Insn}
    (h : Runs env m ip n a insn) {s : Walk D} (hip : s.ip = ip) (hmap : s.map = some m)
    (hcnt : s.insnCnt.toNat + n < 2 ^ 64)
    (hmax : c.maxInsnCnt = 0 ∨ s.insnCnt.toNat + n ≤ c.maxInsnCnt.toNat) {fuel : ℕ}
    (hfuel : n ≤ fuel) :
    (loop (walkPass env c find) stuck fuel s).1 =
      { insn := insn, insnCnt := UInt64.ofNat (s.insnCnt.toNat + n), ip := a } := by
  induction h generalizing s fuel with
  | @branch ip insn hget hbr =>
    obtain ⟨fuel, rfl⟩ : ∃ f, fuel = f + 1 := ⟨fuel - 1, by omega⟩
    have hpass : walkPass env c find s =
        .leave ({ s with insn := insn, insnCnt := s.insnCnt + 1 }.out env c m) := by
      simp only [walkPass, hmap, nextInsn, hip, hget, ne_eq, hbr, not_false_iff, if_true]
    rw [loop_of_leave fuel hpass, out_fst, ← toNat_succ hcnt, UInt64.ofNat_toNat, ← hip]
  | @next ip i n a insn hget hbr hin hrun ih =>
    obtain ⟨fuel, rfl⟩ : ∃ f, fuel = f + 1 := ⟨fuel - 1, by omega⟩
    have hpos := hrun.pos
    have hone : (s.insnCnt + 1).toNat = s.insnCnt.toNat + 1 := toNat_succ (by omega)
    have hmax' : ¬ (c.maxInsnCnt ≠ 0 ∧ c.maxInsnCnt ≤ s.insnCnt + 1) := by
      rintro ⟨hne, hle⟩
      rw [UInt64.le_iff_toNat_le, hone] at hle
      have := hmax.resolve_left hne
      omega
    have hpass : walkPass env c find s =
        .again { s with insn := i, insnCnt := s.insnCnt + 1, ip := i.next ip } := by
      simp only [walkPass, hmap, nextInsn, hip, hget, hbr, ne_eq, not_true_eq_false, if_false,
        hmax', hto, false_and, UInt64.not_le.mpr hin]
    rw [loop_of_again _ hpass,
      ih (s := { s with insn := i, insnCnt := s.insnCnt + 1, ip := i.next ip }) rfl hmap]
    · simp only [hone]
      rw [Nat.add_assoc, Nat.add_comm 1 n]
    · simp only [hone]
      omega
    · simp only [hone]
      exact hmax.imp id fun h => by omega
    · omega

end

/-- The map the call starts in. -/
def Call.first (c : Call D) (env : Env D) : Option (Map D) :=
  (c.maps env).bind fun find => find c.ip

theorem Call.maps_holds {c : Call D} {find : UInt64 → Option (Map D)} (h : c.maps env = some find)
    (ip : UInt64) (m : Map D) (hfind : find ip = some m) : m.start ≤ ip ∧ ip < m.endAddr := by
  simp only [Call.maps] at h
  split at h
  · cases h
    exact Layout.holds _ hfind
  · split_ifs at h
    cases h
    exact Layout.holds _ hfind

theorem Call.first_holds {c : Call D} (h : c.first env = some m) :
    m.start ≤ c.ip ∧ c.ip < m.endAddr := by
  obtain ⟨find, hmaps, hfind⟩ := Option.bind_eq_some_iff.mp h
  exact Call.maps_holds hmaps c.ip m hfind

/-- The entry of call `a` may serve call `b`. -/
def Compatible (env : Env D) (a b : Call D) : Prop :=
  ∀ m m', a.first env = some m → b.first env = some m' → b.toIp = 0 → m.dso = m'.dso →
    (m.mapIp a.ip).toUInt32 = (m'.mapIp b.ip).toUInt32 →
      (a.ip = b.ip ∧ m.endAddr = m'.endAddr) ∨
      (m.mapIp a.ip = m'.mapIp b.ip ∧ m.endAddr - a.ip ≤ m'.endAddr - b.ip ∧
        m.endAddr.toNat + 16 ≤ 2 ^ 64 ∧ EndRepeats env m (b.ip - a.ip))

theorem Compatible.runs {a b : Call D} (h : Compatible env a b) (ha : a.first env = some m)
    (hb : b.first env = some m') (hto : b.toIp = 0) (hdso : m.dso = m'.dso)
    (hkey : (m.mapIp a.ip).toUInt32 = (m'.mapIp b.ip).toUInt32) (hcode : CodeOf env code m)
    (hcode' : CodeOf env code m') (hrun : Runs env m a.ip n (a.ip + k) insn) :
    Runs env m' b.ip n (b.ip + k) insn := by
  obtain ⟨hlo, hhi⟩ := Call.first_holds ha
  obtain ⟨hlo', hhi'⟩ := Call.first_holds hb
  obtain ⟨hip, hend⟩ | ⟨hoff, hend, htop, hrep⟩ := h m m' ha hb hto hdso hkey
  · rw [← hip]
    exact hrun.same hdso hend
  · have hb : a.ip + (b.ip - a.ip) = b.ip := by grind
    have htr := hrun.transfer hcode hcode' hdso htop hrep
    rw [hb, add_right_comm, hb] at htr
    exact htr hoff hlo hhi hlo' hhi' hend

def Sound (env : Env D) (past : List (Call D)) (w : World D) : Prop :=
  ∀ d c, w.caches d = some c → ∀ key e, c.Holds key e →
    ∃ p ∈ past, ∃ m, p.first env = some m ∧ m.dso = d ∧ (m.mapIp p.ip).toUInt32 = key ∧
      Runs env m p.ip e.insnCnt.toNat (p.ip + e.byteCnt) e.insn

namespace Sound

variable {env : Env D} {past : List (Call D)} {w : World D}

theorem of_caches {w' : World D} (h : Sound env past w) (heq : w'.caches = w.caches) :
    Sound env past w' := by
  rw [Sound, heq]
  exact h

theorem mono {past' : List (Call D)} (h : Sound env past w) (hsub : past ⊆ past') :
    Sound env past' w := by
  intro d c hc key e he
  obtain ⟨p, hp, hrest⟩ := h d c hc key e he
  exact ⟨p, hsub hp, hrest⟩

variable [DecidableEq D]

theorem statusSeen (h : Sound env past w) (d : D) : Sound env past (w.statusSeen d).2 := by
  unfold World.statusSeen
  split_ifs <;> exact h.of_caches rfl

theorem cache (h : Sound env past w) (d : D) : Sound env past (w.cache env d) := by
  have hsize : (w.dataSize env d).2.caches = w.caches := by
    unfold World.dataSize
    split_ifs
    · rfl
    · rfl
    · split <;> rfl
  simp only [World.cache]
  split_ifs
  · exact h
  · intro d' c hc key e he
    by_cases hd : d' = d
    · subst hd
      simp only [Function.update_self] at hc
      cases hc
      exact absurd he (AuxtraceCache.not_holds_new _ _ _ _)
    · simp only [Function.update_of_ne hd, hsize] at hc
      exact h d' c hc key e he
  · exact h.of_caches hsize

theorem cacheAdd {p : Call D} {m : Map D} {e : CacheEntry} (h : Sound env past w) (hp : p ∈ past)
    (hm : p.first env = some m) (hrun : Runs env m p.ip e.insnCnt.toNat (p.ip + e.byteCnt) e.insn) :
    Sound env past (w.cacheAdd env m.dso (m.mapIp p.ip) e) := by
  have hcache := h.cache m.dso
  unfold World.cacheAdd
  simp only
  split
  · exact hcache
  · next c hc =>
    split_ifs
    · intro d c' hc' key e' he'
      simp only [Function.update_apply] at hc'
      split_ifs at hc' with hd
      · cases hc'
        obtain ⟨rfl, rfl⟩ | he' := he'.of_add
        · exact ⟨p, hp, m, hm, hd.symm, rfl, hrun⟩
        · exact hcache d c (hd ▸ hc) key e' he'
      · exact hcache d c' hc' key e' he'
    · exact hcache.of_caches rfl

theorem cacheLookup (h : Sound env past w) (d : D) (offset : UInt64) :
    Sound env past (w.cacheLookup env d offset).2 := h.cache d

theorem found {d : D} {offset : UInt64} {e : CacheEntry} (h : Sound env past w)
    (he : (w.cacheLookup env d offset).1 = some e) :
    ∃ p ∈ past, ∃ m, p.first env = some m ∧ m.dso = d ∧
      (m.mapIp p.ip).toUInt32 = offset.toUInt32 ∧
      Runs env m p.ip e.insnCnt.toNat (p.ip + e.byteCnt) e.insn := by
  simp only [World.cacheLookup] at he
  split at he
  · cases he
  · next c hc => exact h.cache d d c hc _ e (AuxtraceCache.holds_of_lookup he)

end Sound

section

variable [DecidableEq D]

/-- What is known of a walk after `k` passes. -/
structure Tracks (env : Env D) (c : Call D) (past : List (Call D)) (k : ℕ) (s : Walk D) : Prop where
  sound : Sound env past s.world
  head : s.map = none → s.oneMap = true → s.ip = c.ip ∧ s.insnCnt = 0 ∧ k = 0
  inside : ∀ m, s.map = some m → s.oneMap = true →
    c.first env = some m ∧ s.startIp = c.ip ∧ s.startOffset = m.mapIp c.ip ∧
      s.insnCnt.toNat + 1 = k ∧ ∀ n a insn, Runs env m s.ip n a insn →
        Runs env m c.ip (s.insnCnt.toNat + n) a insn

variable {env : Env D} {c : Call D} {past : List (Call D)} {find : UInt64 → Option (Map D)}

variable {s t : Walk D} {m : Map D} {k : ℕ} {w : World D}

theorem Tracks.enterMap (h : Tracks env c past k s) (hmaps : c.maps env = some find)
    (hmap : s.map = none) :
    (enterMap env c find s).Satisfies (Tracks env c past (k + 1)) fun r => Sound env past r.2 := by
  unfold Code.enterMap
  split
  · exact h.sound
  · next m hfind =>
    have hseen := h.sound.statusSeen m.dso
    have hin : ∀ w, Sound env past w → Tracks env c past (k + 1)
        { s with map := some m, startOffset := m.mapIp s.ip, startIp := s.ip, world := w } := by
      refine fun w hw => ⟨hw, fun hn => (nomatch hn), fun m' hm' hone => ?_⟩
      cases hm'
      obtain ⟨hip, hcnt, rfl⟩ := h.head hmap hone
      have hfirst : c.first env = some m := by
        rw [Call.first, hmaps, Option.bind_some, ← hip, hfind]
      refine ⟨hfirst, hip, by rw [hip], by simp [hcnt], fun n a insn hrun => ?_⟩
      simpa [hcnt, hip] using hrun
    simp only
    split_ifs
    · exact hseen
    · have hfound := hseen.cacheLookup m.dso (m.mapIp s.ip)
      split
      · split_ifs
        · exact hfound
        · exact hin _ hfound
      · exact hin _ hfound
    · exact hin _ hseen

theorem Tracks.out {insn : Insn} (h : Tracks env c past k s) (hc : c ∈ past) (hk : k < 2 ^ 64)
    (hmap : s.map = some m) (hget : env.getInsn (env.read s.ip) (env.is64Bit m.dso) = some insn)
    (hbr : insn.branch ≠ .noBranch) :
    Sound env past ({ s with insn := insn, insnCnt := s.insnCnt + 1 }.out env c m).2 := by
  unfold Walk.out
  by_cases hone : s.oneMap = true
  · simp only [hone, not_true_eq_false, if_false]
    obtain ⟨hfirst, hip, hoff, hcnt, hrun⟩ := h.inside m hmap hone
    have hrun := hrun 1 s.ip insn (.branch hget hbr)
    rw [← toNat_succ (by omega)] at hrun
    have haddr : c.ip + (s.ip - c.ip) = s.ip := by grind
    have hadd : ∀ w, Sound env past w → Sound env past (w.cacheAdd env m.dso s.startOffset
        { insnCnt := s.insnCnt + 1, byteCnt := s.ip - s.startIp, insn := insn }) := by
      intro w hw
      rw [hip, hoff]
      exact hw.cacheAdd hc hfirst (haddr.symm ▸ hrun)
    split_ifs
    · exact h.sound.cacheLookup _ _
    · exact hadd _ (h.sound.cacheLookup _ _)
    · exact h.sound
    · exact hadd _ h.sound
  · rw [if_pos hone]
    exact h.sound

theorem Tracks.nextInsn (h : Tracks env c past k s) (hc : c ∈ past) (hk : k < 2 ^ 64)
    (hmap : s.map = some m) :
    (nextInsn env c m s).Satisfies (Tracks env c past (k + 1)) fun r => Sound env past r.2 := by
  unfold Code.nextInsn
  split
  · exact h.sound
  · next insn hget =>
    simp only
    split_ifs with hbr hmax hto hend
    · exact h.out hc hk hmap hget hbr
    · exact h.sound
    · exact h.sound
    · exact ⟨h.sound, fun _ hf => (nomatch hf), fun m' hm' => (nomatch hm')⟩
    · refine ⟨h.sound, fun hn => absurd (hn.symm.trans hmap) (by simp), fun m' hm' hone => ?_⟩
      obtain rfl : m = m' := Option.some.inj (hmap.symm.trans hm')
      obtain ⟨hfirst, hip, hoff, hcnt, hrun⟩ := h.inside m hmap hone
      have hsucc : (s.insnCnt + 1).toNat = s.insnCnt.toNat + 1 := toNat_succ (by omega)
      refine ⟨hfirst, hip, hoff, by rw [hsucc, hcnt], fun n a i hrest => ?_⟩
      have hstep := hrun (n + 1) a i
        (.next hget (not_not.mp hbr) (UInt64.not_le.mp hend) hrest)
      rw [hsucc, Nat.add_assoc, Nat.add_comm 1 n]
      exact hstep

theorem Sound.walkNextInsn (h : Sound env past w) :
    Sound env (c :: past) (walkNextInsn env w c).2 := by
  have h := h.mono (List.subset_cons_self c past)
  unfold Code.walkNextInsn
  simp only
  split_ifs
  · exact h
  split
  · exact h
  · next find hmaps =>
    refine loop_counted (I := Tracks env c (c :: past))
      (Q := fun r : Walked × World D => Sound env (c :: past) r.2) ?_ (fun s hs => hs.sound)
      (s := { ip := c.ip, world := w })
      ⟨h, fun _ _ => ⟨rfl, rfl, rfl⟩, fun m hm => (nomatch hm)⟩
    intro k s hk hs
    unfold walkPass
    split
    · next hmap => exact hs.enterMap hmaps hmap
    · next m hmap => exact hs.nextInsn List.mem_cons_self hk hmap

/-- The same world with every cache empty. -/
def World.forget (w : World D) : World D :=
  { w with caches := fun d => (w.caches d).map AuxtraceCache.drop }

theorem World.statusSeen_forget (w : World D) (d : D) :
    w.forget.statusSeen d = ((w.statusSeen d).1, (w.statusSeen d).2.forget) := by
  unfold World.statusSeen
  by_cases h : w.error d = true
  · rw [if_pos h, if_pos (show w.forget.error d = true from h)]
    rfl
  · rw [if_neg h, if_neg (show ¬ w.forget.error d = true from h)]

theorem World.dataSize_forget (w : World D) (d : D) :
    w.forget.dataSize env d = ((w.dataSize env d).1, (w.dataSize env d).2.forget) := by
  unfold World.dataSize
  by_cases hsize : w.fileSize d ≠ 0
  · rw [if_pos hsize, if_pos (show w.forget.fileSize d ≠ 0 from hsize)]
    rfl
  rw [if_neg hsize, if_neg (show ¬ w.forget.fileSize d ≠ 0 from hsize)]
  by_cases herr : w.error d = true
  · rw [if_pos herr, if_pos (show w.forget.error d = true from herr)]
  · rw [if_neg herr, if_neg (show ¬ w.forget.error d = true from herr)]
    split <;> rfl

theorem World.cacheLookup_forget (env : Env D) (w : World D) (d : D) (offset : UInt64) :
    (w.forget.cacheLookup env d offset).1 = none ∧
      (w.forget.cacheLookup env d offset).2.error = (w.cacheLookup env d offset).2.error ∧
      (w.forget.cacheLookup env d offset).2.seen = (w.cacheLookup env d offset).2.seen := by
  simp only [World.cacheLookup, World.cache, World.dataSize_forget]
  have hsome : (w.forget.caches d).isSome = (w.caches d).isSome := by simp [World.forget]
  rw [hsome]
  by_cases h : (w.caches d).isSome = true
  · obtain ⟨c, hc⟩ := Option.isSome_iff_exists.mp h
    rw [if_pos h, if_pos h]
    simp [World.forget, hc, AuxtraceCache.lookup_drop]
  · have hsize : (w.dataSize env d).2.caches d = none := by
      have hnone : w.caches d = none := by simpa using h
      simp only [World.dataSize]
      split_ifs
      · exact hnone
      · exact hnone
      · split <;> exact hnone
    rw [if_neg h, if_neg h]
    by_cases hm : env.malloc (w.dataSize env d).2.allocs = true
    · simp [World.forget, hm, AuxtraceCache.lookup, AuxtraceCache.new]
    · simp [World.forget, hm, hsize]

structure Alike (s t : Walk D) : Prop where
  same : t = { s with world := t.world }
  error : t.world.error = s.world.error
  seen : t.world.seen = s.world.seen
  crossed : s.map = none → s.oneMap = false

theorem Alike.enterMap (h : Alike s t) (hmap : s.map = none) :
    (enterMap env c find s).Related Alike (fun r r' => r.1 = r'.1) (enterMap env c find t) := by
  have hone := h.crossed hmap
  obtain ⟨hsame, herr, hseen, -⟩ := h
  generalize t.world = w at hsame herr hseen
  subst hsame
  unfold Code.enterMap
  simp only [hone, Bool.false_eq_true, and_false, if_false]
  split
  · exact .leave rfl
  · next m hfind =>
    simp only [World.statusSeen, herr, hseen]
    by_cases he : s.world.error m.dso = true
    · simp only [he, if_true]
      split_ifs
      · exact .leave rfl
      · exact .again ⟨rfl, rfl, rfl, fun hm => nomatch hm⟩
    · simp only [he]
      exact .again ⟨rfl, herr, hseen, fun hm => nomatch hm⟩

theorem Alike.nextInsn (h : Alike s t) (hmap : s.map = some m) :
    (nextInsn env c m s).Related Alike (fun r r' => r.1 = r'.1) (nextInsn env c m t) := by
  obtain ⟨hsame, herr, hseen, -⟩ := h
  generalize t.world = w at hsame herr hseen
  subst hsame
  unfold Code.nextInsn
  simp only
  split
  · exact .leave rfl
  · split_ifs
    · exact .leave (by rw [out_fst, out_fst])
    · exact .leave rfl
    · exact .leave rfl
    · exact .again ⟨rfl, herr, hseen, fun _ => rfl⟩
    · exact .again ⟨rfl, herr, hseen, fun hm => absurd (hm.symm.trans hmap) (by simp)⟩

theorem Alike.loop (h : Alike s t) (n : ℕ) :
    (loop (walkPass env c find) (fun s => s.fail .other) n s).1 =
      (loop (walkPass env c find) (fun s => s.fail .other) n t).1 := by
  refine loop_related (R := Alike) (Q := fun r r' : Walked × World D => r.1 = r'.1) ?_ ?_ n s t h
  · intro s t h
    have hmap : t.map = s.map := by rw [h.same]
    unfold walkPass
    rw [hmap]
    split
    · next hm => exact h.enterMap hm
    · next m hm => exact h.nextInsn hm
  · intro s t h
    rw [h.same]
    rfl

def Call.entered (c : Call D) (m : Map D) (w : World D) : Walk D :=
  { ip := c.ip, map := some m, startOffset := m.mapIp c.ip, startIp := c.ip, world := w }

def Call.served (c : Call D) (env : Env D) (m : Map D) (w : World D) : Option CacheEntry :=
  if c.toIp = 0 then
    (w.cacheLookup env m.dso (m.mapIp c.ip)).1.filter fun e =>
      c.maxInsnCnt = 0 ∨ e.insnCnt ≤ c.maxInsnCnt
  else none

def Call.asked (c : Call D) (env : Env D) (m : Map D) (w : World D) : World D :=
  if c.toIp = 0 then (w.cacheLookup env m.dso (m.mapIp c.ip)).2 else w

theorem walkPass_first (env : Env D) (hfind : find c.ip = some m) (w : World D) :
    walkPass env c find { ip := c.ip, world := w } =
      if (w.statusSeen m.dso).1 then
        .leave (Walk.fail { ip := c.ip, world := (w.statusSeen m.dso).2 } .noent)
      else
        match c.served env m (w.statusSeen m.dso).2 with
        | some e => .leave ({ insn := e.insn, insnCnt := e.insnCnt, ip := c.ip + e.byteCnt },
            c.asked env m (w.statusSeen m.dso).2)
        | none => .again (c.entered m (c.asked env m (w.statusSeen m.dso).2)) := by
  simp only [walkPass, enterMap, hfind]
  by_cases hseen : (w.statusSeen m.dso).1 = true
  · rw [if_pos hseen, if_pos hseen]
  rw [if_neg hseen, if_neg hseen]
  generalize (w.statusSeen m.dso).2 = w
  by_cases hto : c.toIp = 0
  · simp only [hto, and_self, if_true, Call.served, Call.asked]
    cases (w.cacheLookup env m.dso (m.mapIp c.ip)).1 with
    | none => rfl
    | some e =>
      by_cases hmax : c.maxInsnCnt = 0 ∨ e.insnCnt ≤ c.maxInsnCnt
      · simp only [hmax, if_true, Option.filter_some, decide_true]
      · simp only [hmax, if_false, Option.filter_some, decide_false]
        rfl
  · simp only [hto, false_and, if_false, Call.served, Call.asked]
    rfl

theorem entered_alike (env : Env D) (c : Call D) (m : Map D) (w : World D) :
    c.served env m w.forget = none ∧
      Alike (c.entered m (c.asked env m w)) (c.entered m (c.asked env m w.forget)) := by
  obtain ⟨hnone, herr, hseen⟩ := World.cacheLookup_forget env w m.dso (m.mapIp c.ip)
  unfold Call.served Call.asked
  split_ifs
  · exact ⟨by rw [hnone]; rfl, rfl, herr, hseen, fun hm => nomatch hm⟩
  · exact ⟨rfl, rfl, rfl, rfl, fun hm => nomatch hm⟩

theorem walkNextInsn_forget {code : D → UInt64 → UInt8} (h : Sound env past w)
    (hcode : ∀ p ∈ c :: past, ∀ m, p.first env = some m → CodeOf env code m)
    (hcompat : ∀ p ∈ past, Compatible env p c) :
    (walkNextInsn env w c).1 = (walkNextInsn env w.forget c).1 := by
  simp only [walkNextInsn]
  split_ifs
  · rfl
  cases hmaps : c.maps env with
  | none => rfl
  | some find =>
    obtain ⟨n, hn⟩ : ∃ n, walkBound = n + 1 := ⟨2 ^ 64 - 1, by norm_num [walkBound]⟩
    simp only [hn]
    cases hfind : find c.ip with
    | none =>
      have hpass : ∀ w : World D, walkPass env c find { ip := c.ip, world := w } =
          .leave (Walk.fail { ip := c.ip, world := w } .other) := by
        intro w
        simp only [walkPass, enterMap, hfind]
      rw [loop_of_leave n (hpass w), loop_of_leave n (hpass w.forget)]
      rfl
    | some m =>
      have hfirst : c.first env = some m := by
        rw [Call.first, hmaps, Option.bind_some, hfind]
      have hpass := walkPass_first env hfind w
      have hpass' := walkPass_first env hfind w.forget
      have hsound := h.statusSeen m.dso
      rw [World.statusSeen_forget] at hpass'
      generalize w.statusSeen m.dso = seen at hpass hpass' hsound
      by_cases hseen : seen.1 = true
      · rw [if_pos hseen] at hpass hpass'
        rw [loop_of_leave n hpass, loop_of_leave n hpass']
        rfl
      obtain ⟨hnone, halike⟩ := entered_alike env c m seen.2
      rw [if_neg hseen, hnone] at hpass'
      rw [if_neg hseen] at hpass
      rw [loop_of_again n hpass']
      cases hserved : c.served env m seen.2 with
      | none =>
        rw [hserved] at hpass
        rw [loop_of_again n hpass]
        exact halike.loop n
      | some e =>
        rw [hserved] at hpass
        unfold Call.served at hserved
        split_ifs at hserved with hto
        obtain ⟨hl, hmax⟩ := Option.filter_eq_some_iff.mp hserved
        obtain ⟨p, hp, m', hm', hdso, hkey, hrun⟩ := hsound.found hl
        have hrun := (hcompat p hp).runs hm' hfirst hto hdso hkey
          (hcode p (List.mem_cons_of_mem _ hp) m' hm') (hcode c List.mem_cons_self m hfirst) hrun
        have hlt := e.insnCnt.toNat_lt
        rw [decide_eq_true_eq] at hmax
        rw [loop_of_leave n hpass, loop_of_runs hto hrun rfl rfl]
        · simp [Call.entered]
        · simpa [Call.entered] using hlt
        · exact hmax.imp id fun h => by simpa [Call.entered] using UInt64.le_iff_toNat_le.mp h
        · rw [walkBound] at hn
          omega

/-- The DSO and the offset determine the bytes in the maps the calls start in. -/
def Determined (env : Env D) (calls : List (Call D)) : Prop :=
  ∃ code, ∀ c ∈ calls, ∀ m, c.first env = some m → CodeOf env code m

theorem Sound.afterCalls (h : Sound env past w) (calls : List (Call D)) :
    Sound env (calls ++ past) (afterCalls env w calls) := by
  induction calls generalizing past w with
  | nil => exact h
  | cons c calls ih =>
    refine (ih h.walkNextInsn).mono fun p hp => ?_
    simp only [List.mem_append, List.mem_cons] at hp ⊢
    tauto

/-- In a sequence of calls in which no earlier call leaves an entry that is not good for a later
one, every call returns what it returns with empty caches. -/
theorem cache_transparent (env : Env D) (w : World D) (hw : w.caches = fun _ => none)
    (calls : List (Call D)) (hcode : Determined env calls)
    (hcompat : calls.Pairwise (Compatible env)) :
    ∀ pre c post, calls = pre ++ c :: post →
      (walkNextInsn env (afterCalls env w pre) c).1 =
        (walkNextInsn env (afterCalls env w pre).forget c).1 := by
  rintro pre c post rfl
  obtain ⟨code, hcode⟩ := hcode
  have hstart : Sound env [] w := by
    intro d ch hch
    rw [hw] at hch
    cases hch
  have hsound := hstart.afterCalls pre
  rw [List.append_nil] at hsound
  refine walkNextInsn_forget hsound (fun p hp => hcode p ?_) fun p hp => ?_
  · simp only [List.mem_append, List.mem_cons] at hp ⊢
    tauto
  · exact (List.pairwise_append.mp hcompat).2.2 p hp c List.mem_cons_self

end

def decodeByte (buf : List UInt8) (_ : Bool) : Option Insn :=
  match buf.head? with
  | some 0xc3 => some { op := .ret, branch := .indirect, length := 1 }
  | some 0xeb => some { op := .jmp, branch := .unconditional, length := 2 }
  | _ => some { length := 1 }

def anonMaps : Layout Unit where
  find _ ip :=
    if 0x10000 ≤ ip ∧ ip < 0x20000 then
      some { start := 0x10000, endAddr := 0x20000, dso := (), identity := true }
    else if 0x100010000 ≤ ip ∧ ip < 0x100020000 then
      some { start := 0x100010000, endAddr := 0x100020000, dso := (), identity := true }
    else none
  holds h := by
    split_ifs at h with h1 h2
    · cases h
      exact h1
    · cases h
      exact h2

def anonEnv : Env Unit where
  mem ip := if ip = 0x10000 then 0xc3 else if ip = 0x100010001 then 0xeb else 0x90
  decode := decodeByte
  is64Bit _ := true
  hash32 key bits := key.toNat % 2 ^ bits
  stat _ := none
  malloc _ := true
  kernelStart := 0xffff800000000000
  unknownThread := anonMaps

theorem determined_anon (calls : List (Call Unit)) (h : ∀ c ∈ calls, c.thread = some anonMaps) :
    Determined anonEnv calls := by
  refine ⟨fun _ offset => anonEnv.mem offset, fun c hc m hm a _ _ => ?_⟩
  have hid : m.identity = true := by
    simp only [Call.first, Call.maps, h c hc, Option.bind_some, anonMaps] at hm
    split_ifs at hm <;> cases hm <;> rfl
  rw [Map.mapIp, if_pos hid]

/-- The second of two calls at one address is served from the cache. -/
theorem cache_transparent_twice :
    let c : Call Unit := { thread := some anonMaps, ip := 0x100010000 }
    let w := afterCalls anonEnv {} [c]
    (walkNextInsn anonEnv w c).1 = (walkNextInsn anonEnv w.forget c).1 ∧
      (walkNextInsn anonEnv w c).1.ip = 0x100010001 := by
  intro c w
  refine ⟨?_, by decide +kernel⟩
  refine cache_transparent anonEnv {} rfl [c, c] (determined_anon _ (by simp [c])) ?_ [c] c [] rfl
  refine List.pairwise_pair.mpr fun m m' hm hm' _ _ _ => .inl ⟨rfl, ?_⟩
  rw [Option.some.inj (hm.symm.trans hm')]

theorem cache_collides :
    let a : Call Unit := { thread := some anonMaps, ip := 0x10000 }
    let b : Call Unit := { thread := some anonMaps, ip := 0x100010000 }
    let w := afterCalls anonEnv {} [a]
    Determined anonEnv [a, b] ∧
      (walkNextInsn anonEnv w b).1.insn.op = .ret ∧ (walkNextInsn anonEnv w b).1.insnCnt = 1 ∧
      (walkNextInsn anonEnv w.forget b).1.insn.op = .jmp ∧
      (walkNextInsn anonEnv w.forget b).1.insnCnt = 2 := by
  intro a b w
  refine ⟨determined_anon _ (by simp [a, b]), ?_⟩
  decide +kernel

end RPerf.Code
