import RPerf.Code.CacheTransparency

/-!
# How far a walk goes

A caller of `intel_pt_walk_next_insn` that gives a maximal number of instructions counts on
it: the walk does not go further, and where it stops earlier it has failed, has come to the
address it was to stop at, or has found a branch.
-/

namespace RPerf.Code

open Lib Decode

structure Within (toIp max : UInt64) (w : Walked) : Prop where
  le : w.insnCnt ≤ max
  failed : w.err ≠ none → w.insnCnt < max
  arrived : toIp ≠ 0 → w.ip = toIp → w.insnCnt < max
  plain : w.err = none → ¬ (toIp ≠ 0 ∧ w.ip = toIp) → w.insn.branch = .noBranch → w.insnCnt = max

variable {D : Type*}

theorem Runs.isBranch {env : Env D} {m : Map D} {ip a : UInt64} {n : ℕ} {insn : Insn}
    (h : Runs env m ip n a insn) : insn.branch ≠ .noBranch := by
  induction h with
  | branch _ hbr => exact hbr
  | next _ _ _ _ ih => exact ih

variable {env : Env D} {past : List (Call D)} {c : Call D} {find : UInt64 → Option (Map D)}

structure GoesOn (env : Env D) (past : List (Call D)) (c : Call D) (s : Walk D) : Prop where
  sound : Sound env past s.world
  lt : s.insnCnt < c.maxInsnCnt
  away : c.toIp ≠ 0 → s.ip ≠ c.toIp

namespace GoesOn

variable {s : Walk D}

theorem fail (h : GoesOn env past c s) (w : World D) (err : WalkErr) :
    Within c.toIp c.maxInsnCnt ({ s with world := w }.fail err).1 := by
  have hpos : (0 : UInt64) < c.maxInsnCnt := by
    have := h.lt
    rw [UInt64.lt_iff_toNat_lt] at this ⊢
    exact Nat.zero_lt_of_lt this
  exact ⟨UInt64.le_of_lt hpos, fun _ => hpos, fun _ _ => hpos, nofun⟩

variable [DecidableEq D]

theorem enterMap (h : GoesOn env past c s) :
    (enterMap env c find s).Satisfies (GoesOn env past c)
      fun r => Within c.toIp c.maxInsnCnt r.1 := by
  unfold Code.enterMap
  split
  · exact h.fail s.world .other
  next m hfind =>
  have hseen := h.sound.statusSeen m.dso
  simp only
  split_ifs with hs hto
  · exact h.fail _ .noent
  · have hfound := hseen.cacheLookup m.dso (m.mapIp s.ip)
    split
    next e he =>
      split_ifs with hmax
      · -- an entry stands for a run to a branch, and is used only if it is short enough
        obtain ⟨p, -, m', -, -, -, hrun⟩ := hseen.found he
        have hle : e.insnCnt ≤ c.maxInsnCnt := by
          refine hmax.resolve_left fun h0 => ?_
          have := h.lt
          rw [h0] at this
          exact absurd this (UInt64.not_lt_zero)
        exact ⟨hle, nofun, fun ht => absurd hto.1 ht, fun _ _ hn => absurd hn hrun.isBranch⟩
      · exact ⟨hfound, h.lt, h.away⟩
    · exact ⟨hfound, h.lt, h.away⟩
  · exact ⟨hseen, h.lt, h.away⟩

theorem nextInsn {m : Map D} (h : GoesOn env past c s) :
    (nextInsn env c m s).Satisfies (GoesOn env past c)
      fun r => Within c.toIp c.maxInsnCnt r.1 := by
  have hsucc : s.insnCnt + 1 ≤ c.maxInsnCnt := by
    have := h.lt
    grind
  unfold Code.nextInsn
  split
  · exact h.fail s.world .other
  next insn hget =>
  simp only
  split_ifs with hbr hmax hto hend
  · have hout : ({ s with insn := insn, insnCnt := s.insnCnt + 1 }.out env c m).1 =
        { insn := insn, insnCnt := s.insnCnt + 1, ip := s.ip } := by
      unfold Walk.out
      split_ifs <;> rfl
    rw [Pass.satisfies_leave, hout]
    exact ⟨hsucc, nofun, fun ht hip => absurd hip (h.away ht), fun _ _ hn => absurd hn hbr⟩
  · exact ⟨hsucc, nofun, fun ht hip => absurd hip (h.away ht),
      fun _ _ _ => UInt64.le_antisymm hsucc hmax.2⟩
  all_goals
    have hlt : s.insnCnt + 1 < c.maxInsnCnt := by
      have := h.lt
      grind
  · exact ⟨hsucc, nofun, fun _ _ => hlt, fun _ hn => absurd hto hn⟩
  · exact ⟨h.sound, hlt, fun ht hip => hto ⟨ht, hip⟩⟩
  · exact ⟨h.sound, hlt, fun ht hip => hto ⟨ht, hip⟩⟩

end GoesOn

variable [DecidableEq D]

theorem walkNextInsn_within {w : World D} (h : Sound env past w) (hmax : c.maxInsnCnt ≠ 0) :
    Within c.toIp c.maxInsnCnt (walkNextInsn env w c).1 := by
  have hpos : (0 : UInt64) < c.maxInsnCnt := by grind
  unfold walkNextInsn
  simp only
  split_ifs with hto
  · exact ⟨UInt64.le_of_lt hpos, nofun, fun _ _ => hpos, fun _ hn => absurd hto hn⟩
  have hstart : GoesOn env past c { ip := c.ip, world := w } :=
    ⟨h, hpos, fun ht hip => hto ⟨ht, hip⟩⟩
  split
  · exact hstart.fail w .other
  next find _ =>
  refine loop_invariant (I := GoesOn env past c)
    (Q := fun r : Walked × World D => Within c.toIp c.maxInsnCnt r.1) ?_
    (fun s hs => hs.fail s.world .other) _ _ hstart
  intro s hs
  unfold walkPass
  split
  · exact hs.enterMap
  · exact hs.nextInsn

/-- An answer of `intel_pt_walk_next_insn`, after some calls that started with no cache. -/
inductive Answer (ip toIp max : UInt64) : Walked → Prop
  | walk {D : Type} [DecidableEq D] (env : Env D) (w : World D) (before : List (Call D))
      (thread : Option (Layout D)) : w.caches = (fun _ => none) →
      Answer ip toIp max (walkNextInsn env (afterCalls env w before) ⟨thread, ip, toIp, max⟩).1

def WalksCode (walk : UInt64 → UInt64 → UInt64 → Walked) : Prop :=
  ∀ ip toIp max, Answer ip toIp max (walk ip toIp max)

theorem Answer.within {ip toIp max : UInt64} {w : Walked} (h : Answer ip toIp max w)
    (hmax : max ≠ 0) : Within toIp max w := by
  obtain ⟨env, w, before, thread, hw⟩ := h
  have hstart : Sound env [] w := by
    intro d ch hch
    rw [hw] at hch
    cases hch
  exact walkNextInsn_within (c := ⟨thread, ip, toIp, max⟩) (hstart.afterCalls before) hmax

end RPerf.Code
