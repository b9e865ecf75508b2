import RPerf.Code.Execution

/-!
# Walking to an address

`intel_pt_walk_next_insn` can be given an address to stop at and a number of instructions
after which a sample is due.
-/

namespace RPerf.Code

open Lib Decode

/-- `n` instructions lead from one address to another. -/
inductive Leg (code : Program) (x : UInt64) : UInt64 → ℕ → UInt64 → Prop
  | here {ip} : Leg code x ip 0 ip
  | step {ip insn n a} : ip ≠ x → code.insnAt ip = some insn → insn.branch = .noBranch →
    Leg code x (insn.next ip) n a → Leg code x ip (n + 1) a

def Terminal (code : Program) (x a : UInt64) : Prop :=
  a = x ∨ ∃ insn, code.insnAt a = some insn ∧ insn.branch ≠ .noBranch

namespace Leg

variable {code : Program} {x ip a : UInt64} {n m : ℕ}

theorem not_terminal {insn : Insn} (hip : ip ≠ x) (hat : code.insnAt ip = some insn)
    (hno : insn.branch = .noBranch) : ¬ Terminal code x ip := by
  rintro (rfl | ⟨insn', hat', hbr⟩)
  · exact hip rfl
  · cases hat.symm.trans hat'
    exact hbr hno

theorem unique (h : Leg code x ip n a) (h' : Leg code x ip m a) (ha : Terminal code x a) :
    n = m := by
  induction h generalizing m with
  | here =>
    cases h' with
    | here => rfl
    | step hip hat hno _ => exact absurd ha (not_terminal hip hat hno)
  | step hip hat hno _ ih =>
    cases h' with
    | here => exact absurd ha (not_terminal hip hat hno)
    | step _ hat' _ h' =>
      cases hat.symm.trans hat'
      rw [ih h' ha]

theorem drop (h : Leg code x ip n a) : ∀ i ≤ n, ∃ c, Leg code x c (n - i) a := by
  induction h with
  | here =>
    intro i _
    exact ⟨_, by simpa using Leg.here⟩
  | @step ip insn n a hip hat hno h ih =>
    intro i hi
    cases i with
    | zero => exact ⟨ip, .step hip hat hno h⟩
    | succ i =>
      obtain ⟨c, hc⟩ := ih i (by omega)
      exact ⟨c, by simpa using hc⟩

theorem length_lt (h : Leg code x ip n a) (ha : Terminal code x a) : n < walkBound :=
  lt_walkBound (D := fun c m => Leg code x c m a) (fun _ _ _ hn hm => hn.unique hm ha) h.drop

theorem last (h : Leg code x ip (n + 1) a) :
    ∃ b insn, Leg code x ip n b ∧ b ≠ x ∧ code.insnAt b = some insn ∧
      insn.branch = .noBranch ∧ insn.next b = a := by
  induction n generalizing ip with
  | zero =>
    cases h with
    | step hip hat hno h =>
      cases h
      exact ⟨ip, _, .here, hip, hat, hno, rfl⟩
  | succ n ih =>
    cases h with
    | step hip hat hno h =>
      obtain ⟨b, insn, hb, hrest⟩ := ih h
      exact ⟨b, insn, .step hip hat hno hb, hrest⟩

theorem loop_eq (h : Leg code x ip n a) (ha : a ≠ x) {cnt limit : UInt64}
    (hlimit : limit = 0 ∨ cnt.toNat + n < limit.toNat) (fuel : ℕ)
    (stuck : UInt64 × UInt64 → Walked) :
    loop (code.walkPass x limit) stuck (fuel + n) (ip, cnt) =
      loop (code.walkPass x limit) stuck fuel (a, cnt + UInt64.ofNat n) := by
  induction h generalizing cnt with
  | here => simp
  | @step ip insn n a hip hat hno h ih =>
    have hnext : insn.next ip ≠ x := by
      cases h with
      | here => exact ha
      | step hip' _ _ _ => exact hip'
    have hcnt : limit ≠ 0 → (cnt + 1).toNat = cnt.toNat + 1 := by
      intro h0
      have hlt := limit.toNat_lt
      have hsum := hlimit.resolve_left h0
      rw [UInt64.toNat_add, UInt64.toNat_one, Nat.mod_eq_of_lt]
      omega
    have hdue : ¬ (limit ≠ 0 ∧ limit ≤ cnt + 1) := by
      rintro ⟨h0, hle⟩
      have hsum := hlimit.resolve_left h0
      rw [UInt64.le_iff_toNat_le, hcnt h0] at hle
      omega
    have hpass : code.walkPass x limit (ip, cnt) = .again (insn.next ip, cnt + 1) := by
      simp [Program.walkPass, hat, hno, hdue, hnext]
    have hlimit' : limit = 0 ∨ (cnt + 1).toNat + n < limit.toNat := by
      by_cases h0 : limit = 0
      · exact .inl h0
      · have hsum := hlimit.resolve_left h0
        rw [hcnt h0]
        omega
    rw [← Nat.add_assoc, loop_of_again _ hpass, ih ha hlimit', UInt64.ofNat_add, UInt64.add_assoc,
      UInt64.add_comm 1]
    rfl

end Leg

namespace Program

variable {code : Program} {x ip a limit : UInt64} {n : ℕ}

theorem walkInsn_leg (h : Leg code x ip n a) (ha : a ≠ x)
    (hlimit : limit = 0 ∨ n < limit.toNat) (hn : n < walkBound) :
    code.walkInsn ip x limit =
      loop (code.walkPass x limit) (fun s => { err := some .other, ip := s.1 }) (walkBound - n)
        (a, UInt64.ofNat n) := by
  have hip : ¬ (x ≠ 0 ∧ ip = x) := by
    rintro ⟨-, rfl⟩
    cases h with
    | here => exact ha rfl
    | step hip _ _ _ => exact hip rfl
  have hfuel : walkBound = walkBound - n + n := by omega
  rw [walkInsn, if_neg hip]
  nth_rewrite 1 [hfuel]
  rw [h.loop_eq ha (by simpa using hlimit), UInt64.zero_add]

theorem walkInsn_arrives (hx : x ≠ 0) (h : Leg code x ip n x)
    (hlimit : limit = 0 ∨ n < limit.toNat) :
    ∃ insn, code.walkInsn ip x limit = { insn := insn, insnCnt := UInt64.ofNat n, ip := x } := by
  cases n with
  | zero =>
    cases h
    exact ⟨{}, by simp [walkInsn, hx]⟩
  | succ n =>
    obtain ⟨b, insn, hb, hbx, hat, hno, hnext⟩ := h.last
    have hn : n + 1 < walkBound := h.length_lt (.inl rfl)
    obtain ⟨fuel, hfuel⟩ : ∃ fuel, walkBound - n = fuel + 1 := ⟨walkBound - n - 1, by omega⟩
    have hcnt : (UInt64.ofNat n + 1).toNat = n + 1 := by
      rw [← UInt64.ofNat_one, ← UInt64.ofNat_add]
      exact UInt64.toNat_ofNat_of_lt' hn
    have hdue : ¬ (limit ≠ 0 ∧ limit ≤ UInt64.ofNat n + 1) := by
      rintro ⟨h0, hle⟩
      have hlt := hlimit.resolve_left h0
      rw [UInt64.le_iff_toNat_le, hcnt] at hle
      omega
    refine ⟨insn, ?_⟩
    rw [walkInsn_leg hb hbx (hlimit.imp id (by omega)) (by omega), hfuel, UInt64.ofNat_add]
    apply loop_of_leave
    simp [walkPass, hat, hno, hdue, hnext, hx]

theorem walkInsn_stops (h : Leg code x ip n a) (ha : a ≠ x) {insn : Insn}
    (hat : code.insnAt a = some insn)
    (hstop : insn.branch ≠ .noBranch ∧ (limit = 0 ∨ n < limit.toNat) ∨
      insn.branch = .noBranch ∧ limit.toNat = n + 1) :
    code.walkInsn ip x limit = { insn := insn, insnCnt := UInt64.ofNat (n + 1), ip := a } := by
  have hn : n < walkBound := by
    rcases hstop with ⟨hbr, -⟩ | ⟨-, hlimit⟩
    · exact h.length_lt (.inr ⟨insn, hat, hbr⟩)
    · have hlt : limit.toNat < walkBound := limit.toNat_lt
      omega
  obtain ⟨fuel, hfuel⟩ : ∃ fuel, walkBound - n = fuel + 1 := ⟨walkBound - n - 1, by omega⟩
  have hlimit : limit = 0 ∨ n < limit.toNat := by
    rcases hstop with ⟨-, hlimit⟩ | ⟨-, hlimit⟩
    · exact hlimit
    · exact .inr (by omega)
  rw [walkInsn_leg h ha hlimit hn, hfuel, UInt64.ofNat_add]
  apply loop_of_leave
  rcases hstop with ⟨hbr, -⟩ | ⟨hno, hdue⟩
  · simp [walkPass, hat, hbr]
  · have hlimit : limit = UInt64.ofNat n + 1 := by
      rw [← UInt64.ofNat_one, ← UInt64.ofNat_add, ← hdue, UInt64.ofNat_toNat]
    have h0 : limit ≠ 0 := by
      rintro rfl
      simp at hdue
    simp [walkPass, hat, hno, ← hlimit, h0]

theorem walkInsn_insnAt (code : Program) (ip limit : UInt64) :
    (code.walkInsn ip 0 limit).err = none →
      code.insnAt (code.walkInsn ip 0 limit).ip = some (code.walkInsn ip 0 limit).insn := by
  rw [walkInsn, if_neg (by simp)]
  apply loop_invariant (I := fun _ => True)
    (Q := fun w : Walked => w.err = none → code.insnAt w.ip = some w.insn) _ _ _ _ trivial
  · intro s _
    unfold walkPass
    cases hat : code.insnAt s.1 with
    | none => simp
    | some insn =>
      simp only [ne_eq, not_true_eq_false, false_and, if_false]
      split_ifs <;> simp [hat]
  · intro s _ herr
    cases herr

theorem walkInsn_at {insn : Insn} (hat : code.insnAt ip = some insn)
    (hbr : insn.branch ≠ .noBranch) :
    code.walkInsn ip 0 limit = { insn := insn, insnCnt := 1, ip := ip } := by
  have hpass : code.walkPass 0 limit (ip, 0) = .leave { insn := insn, insnCnt := 1, ip := ip } := by
    simp [walkPass, hat, hbr]
  rw [walkInsn, if_neg (by simp), walkBound]
  exact loop_of_leave (2 ^ 64 - 1) hpass

end Program

end RPerf.Code
