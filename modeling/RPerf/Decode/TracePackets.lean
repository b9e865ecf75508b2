import RPerf.Decode.Invariants

/-!
# The packets of a call

A call of `intel_pt_decode` that gets to `intel_pt_walk_trace` handles packets there until
one of them makes it return.
-/

namespace RPerf.Decode

open Lib Packets

/-- A call gets to `intel_pt_walk_trace`, with the decoder in the second state. -/
inductive EntersTrace (cfg : Config) : Decoder → Decoder → Prop
  | inSync {c} : c.pktState = .inSync → EntersTrace cfg c c
  | tnt {c d} : c.pktState = .tnt → c.walkTnt cfg = (.again, d) → EntersTrace cfg c d
  | fupNoTip {c d} : c.pktState = .fupNoTip → c.enterSync.walkFup cfg = (.again, d) →
    EntersTrace cfg c d

def ComesTo (cfg : Config) (c : Decoder) (s : Bool × Decoder) : Prop :=
  ∃ d d', EntersTrace cfg c.startState d ∧ d.getNextPacket .trace = (.ok, d') ∧
    Visits (Decoder.tracePass cfg) (false, d') s

section

variable {cfg : Config} {c d : Decoder} {s : Bool × Decoder} {r : Status × Decoder}

theorem EntersTrace.resume (h : EntersTrace cfg c d) : c.resume cfg = d.walkTrace cfg := by
  cases h with
  | inSync hs => simp only [Decoder.resume, hs]
  | tnt hs hw => simp only [Decoder.resume, hs, hw]
  | fupNoTip hs hw => simp only [Decoder.resume, hs, hw]

theorem ComesTo.decode (h : ComesTo cfg c s) (hleave : Decoder.tracePass cfg s = .leave r)
    (hr : r.1 ≠ .nolink) : c.decode cfg = Decoder.conclude cfg r := by
  obtain ⟨d, d', henter, hget, hvisits⟩ := h
  have hmeasure : ∀ s s', Decoder.tracePass cfg s = .again s' →
      s'.2.rd.unread < s.2.rd.unread := by
    intro s s' hs
    have hpass := tracePass_unread cfg s
    rwa [hs] at hpass
  have hwalk : d.walkTrace cfg = r := by
    simp only [Decoder.walkTrace, hget]
    exact loop_of_visits hmeasure hvisits hleave _ (Nat.lt_succ_self _)
  have hpass : Decoder.decodePass cfg c = .leave r := by
    rw [Decoder.decodePass, henter.resume, hwalk]
    obtain ⟨st, e⟩ := r
    cases st <;> first | rfl | exact absurd rfl hr
  rw [Decoder.decode, loop_of_leave _ hpass]

end

def Silent (d e : Decoder) : Prop :=
  ∀ ev : FupKind, ev.shows e.st.type = true → ev.shows d.st.type = true

namespace Silent

variable {cfg : Config} {d e f : Decoder}

theorem refl (d : Decoder) : Silent d d := fun _ h => h

theorem trans (h : Silent d e) (h' : Silent e f) : Silent d f := fun ev hev => h ev (h' ev hev)

theorem of_eq (h : e.st.type = d.st.type) : Silent d e := fun _ hev => h ▸ hev

theorem instruction (h : e.st.type = { d.st.type with instruction := true }) : Silent d e := by
  intro ev hev
  rw [h] at hev
  cases ev <;> exact hev

theorem onlyInstruction (h : e.st.type = { instruction := true }) : Silent d e := by
  intro ev hev
  rw [h] at hev
  cases ev <;> cases hev

section

variable (d : Decoder) (cfg : Config)

theorem callOrRet (insn : Insn) : Silent d (d.callOrRet cfg insn).2 := by
  unfold Decoder.callOrRet
  split_ifs
  · split <;> exact .of_eq rfl
  all_goals exact .of_eq rfl

theorem arrive (insn : Insn) : Silent d (d.arrive cfg insn).2.2 := by
  have hcall := callOrRet d cfg insn
  unfold Decoder.arrive
  by_cases hno : insn.branch = .noBranch
  · rw [if_pos hno]
    exact .onlyInstruction rfl
  · rw [if_neg hno]
    rcases heq : d.callOrRet cfg insn with ⟨_ | _, d'⟩ <;> rw [heq] at hcall
    · exact hcall.trans (.of_eq rfl)
    · simp only [Decoder.unconditional]
      split_ifs <;> exact hcall.trans (.of_eq rfl)

theorem walkInsn (ip : UInt64) : Silent d (d.walkInsn cfg ip).2.2 := by
  simp only [Decoder.walkInsn]
  split
  · exact .of_eq rfl
  · split_ifs
    · exact .of_eq rfl
    · exact (instruction (e := Decoder.sampleInsn _ cfg) rfl).trans (arrive _ cfg _)
    · exact (of_eq (e := Decoder.walked d _ _) rfl).trans (arrive _ cfg _)

theorem fetched (w : Walker) (fr : Fetch × Reader) : Silent d (d.fetched w fr).2 := by
  unfold Decoder.fetched
  split <;> exact .of_eq rfl

theorem getNextPacket (w : Walker) : Silent d (d.getNextPacket w).2 :=
  fetched _ w _

theorem tntPass : (Decoder.walkTntPass cfg d).Satisfies (Silent d) fun r => Silent d r.2 := by
  have hw := walkInsn d cfg 0
  unfold Decoder.walkTntPass
  split <;> rename_i heq <;> rw [heq] at hw
  · exact hw
  · rename_i insn d'
    split_ifs
    · simp only [Pass.satisfies_leave, Decoder.tntRet]
      split_ifs <;> exact hw.trans (.of_eq rfl)
    · have hget := getNextPacket d' .tnt
      simp only [Pass.satisfies_leave, Decoder.tntIndirect]
      split <;> rename_i heq' <;> rw [heq'] at hget
      · split_ifs <;> exact hw.trans (hget.trans (.of_eq rfl))
      · exact hw.trans hget
    · simp only [Decoder.tntConditional]
      split_ifs
      · exact hw.trans (.of_eq rfl)
      · exact .onlyInstruction rfl
      · exact hw.trans (.of_eq rfl)
      · exact hw.trans (.of_eq rfl)
    · exact hw.trans (.of_eq rfl)
  · exact hw

theorem walkTnt : Silent d (d.walkTnt cfg).2 := by
  apply loop_invariant (I := Silent d) (Q := fun r : Status × Decoder => Silent d r.2) _
    (fun _ h => h) _ _ (refl d)
  intro e he
  exact (tntPass e cfg).mono (fun _ h => he.trans h) fun _ h => he.trans h

end

theorem fupEvent (h : d.fupEvent = (false, e)) : e = d := by
  unfold Decoder.fupEvent at h
  by_cases htx : d.fup.setTxFlags = true
  · rw [if_pos htx] at h
    cases h
  rw [if_neg htx] at h
  by_cases hptw : d.fup.setPtw = true
  · rw [if_pos hptw] at h
    cases h
  rw [if_neg hptw] at h
  simp only [Prod.mk.injEq, Bool.or_eq_false_iff] at h
  obtain ⟨⟨⟨hmwait, hpwre⟩, hexstop⟩, rfl⟩ := h
  simp [hmwait, hpwre, hexstop]

theorem walkFup (h : d.walkFup cfg = (.again, e)) : Silent d e := by
  have hw := walkInsn d cfg d.lastIp
  unfold Decoder.walkFup at h
  split at h <;> rename_i heq <;> rw [heq] at hw
  · cases h
  · split at h <;> rename_i heq'
    · cases h
    · cases h
      rw [fupEvent heq']
      exact hw
  · cases h
  · cases h
    exact hw.trans (.of_eq rfl)

theorem mtcSample (d : Decoder) (cfg : Config) : Silent d (d.mtcSample cfg) := by
  simp only [Decoder.mtcSample]
  split_ifs
  · exact .instruction rfl
  · exact .of_eq rfl

theorem psbendPacket (d : Decoder) (cfg : Config) :
    (Decoder.psbendPacket cfg d).Satisfies (Silent d) fun r => Silent d r.2 := by
  cases ht : d.rd.packet.type <;> simp only [Decoder.psbendPacket, ht]
  case mtc => exact mtcSample d cfg
  case fup => split_ifs <;> exact .of_eq rfl
  all_goals exact .of_eq rfl

theorem walkPsbend (d : Decoder) (cfg : Config) : Silent d (d.walkPsbend cfg).2 := by
  apply loop_invariant (I := Silent d) (Q := fun r : Status × Decoder => Silent d r.2) _
    (fun _ h => h) _ _ (refl d)
  intro e he
  have hget := getNextPacket e .psbend
  unfold Decoder.fetchPass
  split <;> rename_i heq <;> rw [heq] at hget
  · exact (psbendPacket _ cfg).mono (fun _ h => he.trans (hget.trans h)) fun _ h =>
      he.trans (hget.trans h)
  · exact he.trans hget

/-- A turn that goes on leads to `P`. -/
def GoesOn (P : Decoder → Prop) : Decoder.Turn → Prop
  | .stop _ => True
  | .next _ d | .fetch _ d => P d

section

variable (d : Decoder)

theorem fupPacket (cfg : Config) (noTip : Bool) : GoesOn (Silent d) (d.fupPacket cfg noTip) := by
  unfold Decoder.fupPacket
  by_cases hc : d.rd.packet.count = 0
  · rw [if_pos hc]
    exact refl d
  rw [if_neg hc]
  by_cases hb : cfg.branchEnable = true
  · simp only [hb, not_true_eq_false, if_false]
    rcases hr : d.setLastIp.walkFup cfg with ⟨st, e⟩
    cases st
    case again =>
      simp only
      split_ifs
      · exact (of_eq (e := d.setLastIp) rfl).trans (walkFup hr)
      · trivial
    all_goals trivial
  · rw [if_pos hb]
    split
    · trivial
    · next heq =>
      rw [fupEvent heq]
      exact of_eq rfl

theorem expectFup (noTip : Bool) {mark : Decoder → Decoder} (hmark : ∀ e, (mark e).st = e.st) :
    GoesOn (Silent d) (d.expectFup noTip mark) := by
  have hget := getNextPacket d .trace
  unfold Decoder.expectFup
  generalize d.getNextPacket .trace = r at hget ⊢
  obtain ⟨st, e⟩ := r
  cases st
  case ok =>
    simp only
    split_ifs
    · exact hget.trans (.of_eq (by rw [hmark]))
    · exact hget
  all_goals trivial

theorem modeTsxPacket (noTip : Bool) : GoesOn (Silent d) (d.modeTsxPacket noTip) := by
  have hget := getNextPacket d .trace
  unfold Decoder.modeTsxPacket
  by_cases hpge : d.pge = true
  swap
  · rw [if_pos hpge]
    exact of_eq rfl
  rw [if_neg (not_not.mpr hpge)]
  generalize d.getNextPacket .trace = r at hget ⊢
  obtain ⟨st, e⟩ := r
  cases st
  case ok =>
    simp only
    split_ifs <;> exact hget.trans (.of_eq rfl)
  all_goals trivial

theorem tracePacket (cfg : Config) (noTip : Bool) :
    GoesOn (Silent d) (d.tracePacket cfg noTip) := by
  cases ht : d.rd.packet.type <;> simp only [Decoder.tracePacket, ht]
  case tnt =>
    have hw := walkTnt { d with tnt := d.rd.packet, pktState := .tnt } cfg
    unfold Decoder.tntPacket
    split_ifs
    · exact refl d
    · split
      · next heq =>
        rw [heq] at hw
        exact hw
      · trivial
  case psb =>
    have hw := walkPsbend d.atPsb cfg
    unfold Decoder.psbPacketInSync
    generalize d.atPsb.walkPsbend cfg = r at hw ⊢
    obtain ⟨st, e⟩ := r
    cases st <;> first | exact hw | trivial
  case fup => exact fupPacket d cfg noTip
  case modeTsx => exact modeTsxPacket d noTip
  case ptwriteIp => exact expectFup _ noTip fun _ => rfl
  case exstopIp => exact expectFup _ noTip fun _ => rfl
  case tipPge =>
    simp only [Decoder.tipPgePacket]
    split_ifs <;> first | exact of_eq rfl | trivial
  case mtc =>
    simp only [Decoder.mtcPacket]
    split_ifs <;> first | exact of_eq rfl | trivial
  case cbr =>
    simp only [Decoder.cbrPacket]
    split_ifs <;> first | exact of_eq rfl | trivial
  case pwre =>
    simp only [Decoder.pwrePacket]
    split_ifs <;> first | exact of_eq rfl | trivial
  all_goals first | exact of_eq rfl | trivial

end

theorem tracePass {s t : Bool × Decoder} (h : Decoder.tracePass cfg s = .again t) :
    Silent s.2 t.2 := by
  have hturn := tracePacket s.2 cfg s.1
  unfold Decoder.tracePass at h
  split at h <;> rename_i heq <;> rw [heq] at hturn
  · cases h
  · cases h
    exact hturn
  · rename_i noTip d
    have hget := getNextPacket d .trace
    split at h <;> rename_i heq'
    · cases h
      rw [heq'] at hget
      exact hturn.trans hget
    · cases h

theorem visits {s t : Bool × Decoder} (h : Visits (Decoder.tracePass cfg) s t) :
    Silent s.2 t.2 := by
  induction h with
  | refl => exact refl _
  | again hb _ ih => exact (tracePass hb).trans ih

end Silent

theorem ComesTo.silent {cfg : Config} {c : Decoder} {s : Bool × Decoder} (h : ComesTo cfg c s)
    (ev : FupKind) : ev.shows s.2.st.type = false := by
  obtain ⟨d, d', henter, hget, hvisits⟩ := h
  have hd : Silent c.startState d := by
    cases henter with
    | inSync => exact .refl _
    | tnt _ hw =>
      have htnt := Silent.walkTnt c.startState cfg
      rwa [hw] at htnt
    | fupNoTip _ hw => exact Silent.walkFup (d := c.startState.enterSync) hw
  have hd' : Silent d d' := by
    have hfetched := Silent.getNextPacket d .trace
    rwa [hget] at hfetched
  by_contra hshows
  rw [Bool.not_eq_false] at hshows
  have hstart := (hd.trans (hd'.trans (Silent.visits hvisits))) ev hshows
  cases ev <;> cases hstart

end RPerf.Decode
