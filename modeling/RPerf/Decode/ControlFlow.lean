import RPerf.Decode.Encoder
import RPerf.Decode.Invariants

/-!
# Control flow is reconstructed

A decoder in sync, in front of the packets of an execution, returns the branches of the
execution one by one.
-/

namespace RPerf.Decode

open Lib Packets Code

/-- The decoder follows this code, with return compression and without sampling. -/
structure Config.Traces (cfg : Config) (code : Program) : Prop where
  walkInsn : cfg.walkInsn = code.walkInsn
  returnCompression : cfg.returnCompression = true
  periodType : cfg.periodType = .none
  malloc : ∀ n, cfg.malloc n = true

structure Follows (code : Program) (d : Decoder) (steps : List Step) : Prop where
  exec : Executes code d.ip steps
  row : InARow maxLoops d.prog.noProgress steps
  stuck : 2 ≤ d.prog.noProgress → ∃ j k, Ahead code d.prog.stuckIp j ∧ Ahead code d.ip k ∧ k ≤ j
  nonzero : ∀ a ∈ d.stack.contents, a ≠ 0
  calls : ∀ s ∈ steps, pushes s.insn → s.insn.next s.ip ≠ 0

/-- What following instructions leaves alone. -/
structure Kept (d e : Decoder) : Prop where
  rd : e.rd = d.rd
  tnt : e.tnt = d.tnt
  lastIp : e.lastIp = d.lastIp
  pktState : e.pktState = d.pktState
  type : e.st.type = d.st.type

section

variable {code : Program} {cfg : Config} {d e : Decoder} {steps rest : List Step}

theorem Follows.congr (h : Follows code d steps) (hip : e.ip = d.ip) (hprog : e.prog = d.prog)
    (hstack : e.stack = d.stack) : Follows code e steps where
  exec := hip ▸ h.exec
  row := hprog ▸ h.row
  stuck := by
    rw [hip, hprog]
    exact h.stuck
  nonzero := hstack ▸ h.nonzero
  calls := h.calls

theorem Follows.calls_toBranch (h : Follows code d steps) :
    ∀ s ∈ toBranch steps, pushes s.insn → s.insn.next s.ip ≠ 0 :=
  fun s hs => h.calls s ((List.dropWhile_sublist _).subset hs)

theorem restack_nonzero {stack : List UInt64} {ip : UInt64} {insn : Insn}
    (h : ∀ a ∈ stack, a ≠ 0) (hcall : pushes insn → insn.next ip ≠ 0) :
    ∀ a ∈ restack stack ip insn, a ≠ 0 := by
  intro a ha
  unfold restack at ha
  split_ifs at ha with hp hr
  · rcases List.mem_cons.mp ha with rfl | ha
    · exact hcall hp
    · exact h a ha
  · exact h a (List.mem_of_mem_tail ha)
  · exact h a ha

theorem Config.Traces.nextSample (hcfg : cfg.Traces code) (s : Sampling) (now : UInt64) :
    s.nextSample cfg now = (0, s) := by
  simp [Sampling.nextSample, hcfg.periodType]

theorem callOrRet_restack (hmalloc : ∀ n, cfg.malloc n = true) (d : Decoder) (insn : Insn) :
    ∃ stack retAddr n, d.callOrRet cfg insn =
        (true, { d with stack := stack, retAddr := retAddr, pushes := n }) ∧
      stack.contents = restack d.stack.contents d.ip insn ∧
      (insn.op = .ret → retAddr = d.stack.contents.headD 0) := by
  unfold Decoder.callOrRet
  by_cases hcall : insn.op = .call
  · rw [if_pos hcall]
    by_cases hpush : insn.branch ≠ .unconditional ∨ insn.rel ≠ 0
    · rw [if_pos hpush, hmalloc]
      obtain ⟨stack, hs⟩ := Option.isSome_iff_exists.mp (d.stack.push_isSome (insn.next d.ip))
      refine ⟨stack, d.retAddr, d.pushes + 1, by rw [hs], ?_, by simp [hcall]⟩
      rw [Stack.push_contents hs, restack, if_pos (by simpa [pushes, hcall] using hpush)]
    · rw [if_neg hpush]
      refine ⟨d.stack, d.retAddr, d.pushes, rfl, ?_, by simp [hcall]⟩
      rw [restack, if_neg (by simpa [pushes, hcall] using hpush), if_neg (by simp [hcall])]
  · rw [if_neg hcall]
    by_cases hret : insn.op = .ret
    · rw [if_pos hret]
      refine ⟨d.stack.pop.2, d.stack.pop.1, d.pushes, rfl, ?_, fun _ => d.stack.pop_contents.1⟩
      rw [d.stack.pop_contents.2, restack, if_neg (by simp [pushes, hret]), if_pos hret]
    · rw [if_neg hret]
      refine ⟨d.stack, d.retAddr, d.pushes, rfl, ?_, fun h => absurd h hret⟩
      rw [restack, if_neg (by simp [pushes, hcall]), if_neg hret]

theorem Config.Traces.walkInsn_eq (hcfg : cfg.Traces code) {n : ℕ} {a : UInt64} {insn : Insn}
    (hst : code.Straight d.ip n a) (hat : code.insnAt a = some insn)
    (hbr : insn.branch ≠ .noBranch) :
    d.walkInsn cfg 0 =
      (d.walked { d.smp with mtcInsn := true }
        { insn := insn, insnCnt := UInt64.ofNat (n + 1), ip := a }).arrive cfg insn := by
  simp only [Decoder.walkInsn, hcfg.nextSample, hcfg.walkInsn,
    Program.walkInsn_to_branch hst hat hbr]
  rw [if_neg (by simp), if_neg (by simp)]

theorem Progress.unconditional_ahead {p : Progress} {ip toIp : UInt64} {k : ℕ}
    (hip : Ahead code ip (k + 1)) (hto : Ahead code toIp k) (hrow : p.noProgress < maxLoops)
    (hstuck : 2 ≤ p.noProgress → ∃ j k, Ahead code p.stuckIp j ∧ Ahead code ip k ∧ k ≤ j) :
    (p.unconditional toIp).1 = false ∧
      (p.unconditional toIp).2.noProgress = p.noProgress + 1 ∧
      (2 ≤ (p.unconditional toIp).2.noProgress →
        ∃ j k, Ahead code (p.unconditional toIp).2.stuckIp j ∧ Ahead code toIp k ∧ k ≤ j) := by
  simp only [Progress.unconditional]
  by_cases h0 : p.noProgress = 0
  · simp [h0]
  rw [if_neg h0]
  by_cases h1 : p.noProgress = 1
  · rw [if_pos h1]
    exact ⟨rfl, rfl, fun _ => ⟨k, k, hto, hto, le_rfl⟩⟩
  rw [if_neg h1]
  obtain ⟨j, k', hj, hk', hle⟩ := hstuck (by omega)
  obtain rfl := hk'.unique hip
  have hne : toIp ≠ p.stuckIp := by
    rintro rfl
    have := hj.unique hto
    omega
  rw [if_neg (by simp only [not_or, not_lt]; exact ⟨hrow.le, hne⟩)]
  split_ifs
  · exact ⟨rfl, rfl, fun _ => ⟨k, k, hto, hto, le_rfl⟩⟩
  · exact ⟨rfl, rfl, fun _ => ⟨j, k, hj, hto, by omega⟩⟩

theorem traced_of_branch {s : Step} (hn : s.insn.branch ≠ .noBranch)
    (hu : s.insn.branch ≠ .unconditional) : s.traced = true := by
  unfold Step.traced
  cases hb : s.insn.branch with
  | noBranch => exact absurd hb hn
  | unconditional => exact absurd hb hu
  | indirect | conditional => simp

theorem InARow.of_traced {m c : ℕ} {s : Step} {rest : List Step} (htr : s.traced = true)
    (h : InARow m c (s :: rest)) : InARow m 0 rest := by
  unfold Step.traced at htr
  rw [InARow] at h
  cases hb : s.insn.branch with
  | noBranch | unconditional => simp [hb] at htr
  | indirect | conditional => simpa [hb] using h

theorem Follows.walk (hcfg : cfg.Traces code) (h : Follows code d steps)
    (hne : symbols d.stack.contents steps ≠ []) :
    ∃ s rest e, jumps steps = s.jump.toList ++ jumps rest ∧
      symbols d.stack.contents steps =
        symbol d.stack.contents s ++ symbols e.stack.contents rest ∧
      RegularInsn s.insn ∧ Kept d e ∧ Follows code { e with ip := s.after } rest ∧
      (s.insn.branch = .unconditional ∧ d.walkInsn cfg 0 = (.ret, s.insn, e) ∧ e.ip = s.after ∧
          e.st.fromIp = s.ip ∧ e.st.toIp = s.after ∨
        s.traced = true ∧ d.walkInsn cfg 0 = (.ok, s.insn, e) ∧ e.ip = s.ip ∧
          (s.insn.op = .ret → e.retAddr = d.stack.contents.headD 0)) := by
  have ht : steps.any Step.traced := by
    by_contra hany
    exact hne ((symbols_eq_nil_iff _ _).mpr (by simpa using hany))
  obtain ⟨n, s, rest, hs, hst, hbr, hat, hexec⟩ := h.exec.toBranch ht
  have hsyms := symbols_toBranch h.exec d.stack.contents
  rw [hs] at hsyms
  have hjumps : jumps steps = s.jump.toList ++ jumps rest := by
    rw [← jumps_toBranch, hs]
    exact jumps_cons (hsyms ▸ hne)
  have hcalls := h.calls_toBranch
  have hrow := h.row.toBranch
  have hany := any_toBranch steps
  rw [hs] at hcalls hrow hany
  have hwalk := hcfg.walkInsn_eq (d := d) hst hat hbr
  generalize hd₁ : d.walked { d.smp with mtcInsn := true }
    { insn := s.insn, insnCnt := UInt64.ofNat (n + 1), ip := s.ip } = d₁ at hwalk
  obtain ⟨stack, retAddr, m, hcall, hcont, hret⟩ := callOrRet_restack hcfg.malloc d₁ s.insn
  have hnonzero : ∀ a ∈ stack.contents, a ≠ 0 := by
    rw [hcont]
    subst hd₁
    exact restack_nonzero h.nonzero (hcalls s List.mem_cons_self)
  have hsplit : symbols d.stack.contents steps =
      symbol d.stack.contents s ++ symbols stack.contents rest := by
    rw [hcont, ← hsyms]
    subst hd₁
    rfl
  rw [Decoder.arrive, if_neg hbr, hcall] at hwalk
  simp only at hwalk
  by_cases hu : s.insn.branch = .unconditional
  · have hafter : s.after = s.insn.target s.ip := by simp [Step.after, hu]
    have htr : rest.any Step.traced := by simpa [Step.traced, hu, ht] using hany
    obtain ⟨k, hk⟩ := hexec.ahead htr
    rw [hafter] at hk
    simp only [InARow, hu] at hrow
    obtain ⟨hquiet, hcnt, hstuck⟩ := Progress.unconditional_ahead (p := d.prog)
      (hst.ahead (.jump hat hu hk)) hk hrow.1 h.stuck
    rw [if_pos hu, Decoder.unconditional] at hwalk
    subst hd₁
    simp only [Decoder.walked, hquiet, Bool.false_eq_true, if_false] at hwalk
    refine ⟨s, rest, _, hjumps, hsplit, code.regular _ _ hat, ?_, ?_,
      .inl ⟨hu, hwalk, hafter.symm, rfl, hafter.symm⟩⟩
    · exact ⟨rfl, rfl, rfl, rfl, rfl⟩
    · refine ⟨hexec, ?_, ?_, hnonzero, fun t ht => hcalls t (List.mem_cons_of_mem _ ht)⟩
      · exact hcnt ▸ hrow.2
      · exact hafter ▸ hstuck
  · have htr := traced_of_branch hbr hu
    rw [if_neg hu] at hwalk
    subst hd₁
    refine ⟨s, rest, _, hjumps, hsplit, code.regular _ _ hat, ?_, ?_, .inr ⟨htr, hwalk, rfl, hret⟩⟩
    · exact ⟨rfl, rfl, rfl, rfl, rfl⟩
    · exact ⟨hexec, InARow.of_traced htr hrow, fun hp => absurd (show 2 ≤ 0 from hp) (by decide),
        hnonzero, fun t ht => hcalls t (List.mem_cons_of_mem _ ht)⟩

end

def InSync (d : Decoder) (steps : List Step) : Prop :=
  d.pktState = .inSync ∧
    ∃ pkts, Feeds d.rd pkts ∧ Packs d.lastIp (symbols d.stack.contents steps) pkts

structure Holding (d : Decoder) (bits : List Bool) (syms : List Sym) : Prop where
  count : d.tnt.count = bits.length
  carries : Carries d.tnt.payload bits
  rest : ∃ pkts, Feeds d.rd pkts ∧ Packs d.lastIp syms pkts

def InTnt (d : Decoder) (steps : List Step) (bits : List Bool) : Prop :=
  d.pktState = .tnt ∧
    ∃ syms, symbols d.stack.contents steps = bits.map .bit ++ syms ∧ Holding d bits syms

structure AtTip (d : Decoder) (steps : List Step) : Prop where
  state : d.pktState = .tip
  count : d.rd.packet.count ≠ 0
  rest : ∃ syms pkts, symbols d.stack.contents steps = .tip d.lastIp :: syms ∧ Feeds d.rd pkts ∧
    Packs d.lastIp syms pkts

/-- Between two calls. -/
inductive Tracking (code : Program) (d : Decoder) (steps : List Step) : Prop
  | inSync : Follows code d steps → InSync d steps → Tracking code d steps
  | tnt {b bits} : Follows code d steps → InTnt d steps (b :: bits) → Tracking code d steps
  | tip : Follows code d steps → AtTip d steps → Tracking code d steps

def Decoder.Branching (d : Decoder) : Prop := d.st.type = { branch := true }

def Yields (code : Program) (r : Status × Decoder) : List (UInt64 × UInt64) → Prop
  | [] => r.1 = .nodata
  | b :: branches =>
    r.1 = .ok ∧ r.2.Branching ∧ (r.2.st.fromIp, r.2.st.toIp) = b ∧
      ∃ steps, jumps steps = branches ∧ Tracking code r.2 steps

section

variable {code : Program} {cfg : Config} {d e : Decoder} {steps rest : List Step}

theorem Yields.status {r : Status × Decoder} {branches : List (UInt64 × UInt64)}
    (h : Yields code r branches) : r.1 = .ok ∨ r.1 = .nodata := by
  cases branches with
  | nil => exact .inr h
  | cons b branches => exact .inl h.1

variable {bits : List Bool} {syms : List Sym} {s : Step} {stack : List UInt64} {b : Bool}

theorem Holding.tracking (h : Holding e bits syms) (hf : Follows code e rest)
    (hstate : e.pktState = if bits.length = 0 then .inSync else .tnt)
    (hsyms : symbols e.stack.contents rest = bits.map .bit ++ syms) : Tracking code e rest := by
  cases bits with
  | nil =>
    obtain ⟨pkts, hfeeds, hpacks⟩ := h.rest
    exact .inSync hf ⟨hstate, pkts, hfeeds, hsyms ▸ hpacks⟩
  | cons b bits => exact .tnt hf ⟨hstate, syms, hsyms, h⟩

theorem Holding.of_kept (h : Holding d bits syms) (hk : Kept d e) : Holding e bits syms where
  count := hk.tnt ▸ h.count
  carries := hk.tnt ▸ h.carries
  rest := by
    rw [hk.rd, hk.lastIp]
    exact h.rest

theorem symbol_split {sym : Sym} {syms' : List Sym} (htr : s.traced = true)
    (h : symbol stack s ++ syms' = sym :: syms) : symbol stack s = [sym] ∧ syms' = syms := by
  have hone : ∃ x, symbol stack s = [x] := by
    unfold Step.traced at htr
    unfold symbol
    cases hb : s.insn.branch <;> simp [hb] at htr ⊢
    split_ifs <;> simp
  obtain ⟨x, hx⟩ := hone
  rw [hx, List.singleton_append, List.cons.injEq] at h
  exact ⟨hx.trans (by rw [h.1]), h.2⟩

theorem symbol_eq_bit (h : symbol stack s = [.bit b]) :
    s.insn.branch = .conditional ∧ s.taken = b ∨
      s.insn.branch = .indirect ∧ s.insn.op = .ret ∧ stack.head? = some s.dest ∧ b = true := by
  unfold symbol at h
  cases hb : s.insn.branch <;> simp only [hb] at h
  case conditional => exact .inl ⟨rfl, by simpa using h⟩
  case indirect =>
    split_ifs at h with hc
    · exact .inr ⟨rfl, hc.1, hc.2, by simpa using h.symm⟩
    · simp at h
  all_goals cases h

theorem symbol_eq_tip {ip : UInt64} (h : symbol stack s = [.tip ip]) :
    s.insn.branch = .indirect ∧ s.dest = ip := by
  unfold symbol at h
  cases hb : s.insn.branch <;> simp only [hb] at h
  case conditional => simp at h
  case indirect =>
    split_ifs at h with hc
    · simp at h
    · exact ⟨rfl, by simpa using h⟩
  all_goals cases h

def UsedUp (code : Program) (r : Status × Decoder) (branches : List (UInt64 × UInt64)) : Prop :=
  r.1 = .again ∧ r.2.Branching ∧
    ∃ steps, jumps steps = branches ∧ Follows code r.2 steps ∧ InSync r.2 steps

theorem Holding.tntRet (hcfg : cfg.Traces code) (h : Holding e (true :: bits) syms)
    (hstate : e.pktState = .tnt) (hf : Follows code { e with ip := s.after } rest)
    (hb : e.Branching) (hip : e.ip = s.ip) (hind : s.insn.branch = .indirect)
    (hret : e.retAddr = s.dest) (hdest : s.dest ≠ 0)
    (hsyms : symbols e.stack.contents rest = bits.map .bit ++ syms) :
    Yields code (e.tntRet cfg) ((s.ip, s.after) :: jumps rest) := by
  have hafter : s.after = s.dest := by simp [Step.after, hind]
  have hcount : e.tnt.count - 1 = bits.length := by simp [h.count]
  have hbit : ¬ (e.tnt.payload &&& bit63 = 0) := h.carries.1.mpr rfl
  rw [Decoder.tntRet, if_neg (by simp [hcfg.returnCompression]), if_neg (hret ▸ hdest),
    if_neg hbit]
  refine ⟨rfl, hb, ?_, rest, rfl, Holding.tracking ?_ ?_ ?_ hsyms⟩
  · exact Prod.ext hip (hret.trans hafter.symm)
  · exact ⟨hcount, h.carries.2, h.rest⟩
  · exact hf.congr (hret.trans hafter.symm) rfl rfl
  · simp [Decoder.useBit, Decoder.shiftTnt, hcount, hstate]

theorem Holding.tntConditional (h : Holding e (s.taken :: bits) syms) (hstate : e.pktState = .tnt)
    (hf : Follows code { e with ip := s.after } rest) (hb : e.Branching) (hip : e.ip = s.ip)
    (hcond : s.insn.branch = .conditional)
    (hsyms : symbols e.stack.contents rest = bits.map .bit ++ syms) :
    (e.tntConditional s.insn).Satisfies
      (fun e => bits ≠ [] ∧ e.Branching ∧ Follows code e rest ∧ InTnt e rest bits ∧
        s.jump = none)
      fun r => Yields code r ((s.ip, s.after) :: jumps rest) ∧ s.jump = some (s.ip, s.after) ∨
        UsedUp code r (jumps rest) ∧ s.jump = none := by
  have hcount : e.tnt.count - 1 = bits.length := by simp [h.count]
  simp only [Decoder.tntConditional]
  cases htaken : s.taken with
  | true =>
    have hbit : e.tnt.payload &&& bit63 ≠ 0 := h.carries.1.mpr htaken
    have hafter : s.after = s.insn.target e.ip := by simp [Step.after, hcond, htaken, hip]
    rw [if_pos hbit]
    refine .inl ⟨⟨rfl, hb, ?_, rest, rfl,
      Holding.tracking ?_ ?_ ?_ hsyms⟩, ?_⟩
    · exact Prod.ext hip hafter.symm
    · exact ⟨hcount, h.carries.2, h.rest⟩
    · exact hf.congr hafter.symm rfl rfl
    · simp [Decoder.useBit, Decoder.shiftTnt, hcount, hstate]
    · simp [Step.jump, hcond, htaken]
  | false =>
    have hbit : ¬ (e.tnt.payload &&& bit63 ≠ 0) := by
      intro hne
      simp [h.carries.1.mp hne] at htaken
    have hafter : s.after = s.insn.next e.ip := by simp [Step.after, hcond, htaken, hip]
    have hjump : s.jump = none := by simp [Step.jump, hcond, htaken]
    have hplain : ¬ e.useBit.st.type.instruction = true := by
      rw [show e.useBit.st.type = { branch := true } from hb]
      decide
    rw [if_neg hbit, if_neg hplain]
    have hfollows : Follows code { e.useBit with ip := s.insn.next e.ip } rest :=
      hf.congr hafter.symm rfl rfl
    by_cases hzero : bits = []
    · subst hzero
      rw [if_pos (show e.useBit.tnt.count = 0 from hcount)]
      obtain ⟨pkts, hfeeds, hpacks⟩ := h.rest
      refine .inr ⟨⟨rfl, hb, rest, rfl, hfollows, ?_, pkts, hfeeds, hsyms ▸ hpacks⟩, hjump⟩
      simp [Decoder.useBit, hcount]
    · have hlen : bits.length ≠ 0 := by simpa using hzero
      rw [if_neg (show ¬ e.useBit.tnt.count = 0 from fun hz => hlen (hcount.symm.trans hz))]
      refine ⟨hzero, hb, hfollows.congr rfl rfl rfl, ⟨?_, syms, hsyms, ?_⟩, hjump⟩
      · simp [Decoder.useBit, Decoder.shiftTnt, hcount, hlen, hstate]
      · exact ⟨hcount, h.carries.2, h.rest⟩

theorem InTnt.pass (hcfg : cfg.Traces code) (h : InTnt d steps (b :: bits))
    (hf : Follows code d steps) (hb : d.Branching) :
    (Decoder.walkTntPass cfg d).Satisfies
      (fun e => bits ≠ [] ∧ e.Branching ∧
        ∃ rest, jumps rest = jumps steps ∧ Follows code e rest ∧ InTnt e rest bits)
      fun r => Yields code r (jumps steps) ∨ UsedUp code r (jumps steps) := by
  obtain ⟨hstate, syms, hsyms, hold⟩ := h
  have hne : symbols d.stack.contents steps ≠ [] := by simp [hsyms]
  obtain ⟨s, rest, e, hjumps, hsplit, hreg, hkept, hfollows, hcase⟩ := hf.walk hcfg hne
  rw [hsplit] at hsyms
  have hold' := hold.of_kept hkept
  have hstate' := hkept.pktState.trans hstate
  have hb' : e.Branching := hkept.type.trans hb
  rcases hcase with ⟨hu, hwalk, hip, hfrom, hto⟩ | ⟨htr, hwalk, hip, hret⟩
  · -- a direct branch is returned and no bit is used
    have hsym : symbol d.stack.contents s = [] := by simp [symbol, hu]
    rw [hsym, List.nil_append] at hsyms
    have hjump : s.jump = some (s.ip, s.after) := by simp [Step.jump, hu]
    rw [hjump] at hjumps
    have hpass : Decoder.walkTntPass cfg d = .leave (.ok, e) := by
      rw [Decoder.walkTntPass, hwalk]
    have htrack : Tracking code e rest :=
      .tnt (hfollows.congr hip rfl rfl) ⟨hstate', syms, hsyms, hold'⟩
    rw [hpass, Pass.satisfies_leave, hjumps]
    exact .inl ⟨rfl, hb', by rw [hfrom, hto], rest, rfl, htrack⟩
  · obtain ⟨hsym, hrest⟩ := symbol_split htr hsyms
    rcases symbol_eq_bit hsym with ⟨hcond, rfl⟩ | ⟨hind, hop, htop, rfl⟩
    · have hop : s.insn.op ≠ .ret := by
        unfold RegularInsn at hreg
        rw [hcond] at hreg
        rcases hreg with hop | hop <;> simp [hop]
      have hpass : Decoder.walkTntPass cfg d = e.tntConditional s.insn := by
        rw [Decoder.walkTntPass, hwalk]
        simp only [hop, hcond, if_false, if_true, reduceCtorEq]
      rw [hpass]
      refine (hold'.tntConditional hstate' hfollows hb' hip hcond hrest).mono ?_ ?_
      · rintro e' ⟨hz, hbr, hfe, hin, hj⟩
        exact ⟨hz, hbr, rest, by rw [hjumps, hj]; rfl, hfe, hin⟩
      · rintro r (⟨hy, hj⟩ | ⟨hu, hj⟩)
        · exact .inl (by rw [hjumps, hj]; exact hy)
        · exact .inr (by rw [hjumps, hj]; exact hu)
    · have hretAddr : e.retAddr = s.dest := by
        rw [hret hop, List.headD_eq_head?_getD, htop]
        rfl
      have hjump : s.jump = some (s.ip, s.after) := by simp [Step.jump, hind]
      have hpass : Decoder.walkTntPass cfg d = .leave (e.tntRet cfg) := by
        rw [Decoder.walkTntPass, hwalk]
        simp only [hop, if_true]
      rw [hpass, Pass.satisfies_leave, hjumps, hjump]
      exact .inl (hold'.tntRet hcfg hstate' hfollows hb' hip hind hretAddr
        (hf.nonzero _ (List.mem_of_head? htop)) hrest)

theorem InTnt.loop (hcfg : cfg.Traces code) {stuck : Decoder → Status × Decoder} (hbits : bits ≠ [])
    {fuel : ℕ} (hfuel : bits.length ≤ fuel) (h : InTnt d steps bits) (hf : Follows code d steps)
    (hb : d.Branching) :
    Yields code (Lib.loop (Decoder.walkTntPass cfg) stuck fuel d) (jumps steps) ∨
      UsedUp code (Lib.loop (Decoder.walkTntPass cfg) stuck fuel d) (jumps steps) := by
  induction bits generalizing d steps fuel with
  | nil => exact absurd rfl hbits
  | cons b bits ih =>
    obtain ⟨fuel, rfl⟩ : ∃ k, fuel = k + 1 := ⟨fuel - 1, by simp at hfuel; omega⟩
    have hpass := h.pass hcfg hf hb
    cases hp : Decoder.walkTntPass cfg d with
    | leave r =>
      rw [hp] at hpass
      rw [loop_of_leave fuel hp]
      exact hpass
    | again e =>
      rw [hp] at hpass
      rw [loop_of_again fuel hp]
      obtain ⟨hz, hbr, rest, hjumps, hfe, hin⟩ := hpass
      rw [← hjumps]
      exact ih hz (by simp at hfuel; omega) hin hfe hbr

theorem InTnt.walkTnt (hcfg : cfg.Traces code) (h : InTnt d steps (b :: bits))
    (hf : Follows code d steps) (hb : d.Branching) :
    Yields code (d.walkTnt cfg) (jumps steps) ∨ UsedUp code (d.walkTnt cfg) (jumps steps) := by
  have hcount : d.tnt.count = (b :: bits).length := by
    obtain ⟨_, _, _, hold⟩ := h
    exact hold.count
  exact InTnt.loop hcfg (by simp) (by omega) h hf hb

theorem AtTip.walkTip (hcfg : cfg.Traces code) (h : AtTip d steps) (hf : Follows code d steps)
    (hb : d.Branching) : Yields code (d.walkTip cfg) (jumps steps) := by
  obtain ⟨syms, pkts, hsyms, hfeeds, hpacks⟩ := h.rest
  have hne : symbols d.stack.contents steps ≠ [] := by simp [hsyms]
  obtain ⟨s, rest, e, hjumps, hsplit, hreg, hkept, hfollows, hcase⟩ := hf.walk hcfg hne
  rw [hsplit] at hsyms
  have hstate := hkept.pktState.trans h.state
  have hb' : e.Branching := hkept.type.trans hb
  rw [← hkept.rd] at hfeeds
  rw [← hkept.lastIp] at hpacks hsyms
  rcases hcase with ⟨hu, hwalk, hip, hfrom, hto⟩ | ⟨htr, hwalk, hip, -⟩
  · have hsym : symbol d.stack.contents s = [] := by simp [symbol, hu]
    rw [hsym, List.nil_append] at hsyms
    have hjump : s.jump = some (s.ip, s.after) := by simp [Step.jump, hu]
    have hends : ∀ ip, e.endsAt cfg ip = false := by
      intro ip
      unfold Decoder.endsAt
      split <;> simp [hstate]
    have htip : d.walkTip cfg = (.ok, e) := by
      rw [Decoder.walkTip, hwalk]
      simp only [hends, Bool.false_eq_true, and_false, if_false]
    have hcount : e.rd.packet.count ≠ 0 := hkept.rd ▸ h.count
    rw [htip, hjumps, hjump]
    exact ⟨rfl, hb', by rw [hfrom, hto], rest, rfl,
      .tip (hfollows.congr hip rfl rfl) ⟨hstate, hcount, syms, pkts, hsyms, hfeeds, hpacks⟩⟩
  · obtain ⟨hsym, hrest⟩ := symbol_split htr hsyms
    obtain ⟨hind, hdest⟩ := symbol_eq_tip hsym
    have hafter : s.after = e.lastIp := by simp [Step.after, hind, hdest]
    have hjump : s.jump = some (s.ip, s.after) := by simp [Step.jump, hind]
    have hcount : ¬ e.rd.packet.count = 0 := hkept.rd ▸ h.count
    have htip : d.walkTip cfg = (.ok, e.tipBranch) := by
      rw [Decoder.walkTip, hwalk]
      simp only [hind, if_true]
    rw [htip, hjumps, hjump, Decoder.tipBranch, if_neg (by simp [hstate]), if_neg hcount]
    refine ⟨rfl, hb', Prod.ext hip hafter.symm, rest, rfl, .inSync ?_ ?_⟩
    · exact hfollows.congr hafter.symm rfl rfl
    · exact ⟨rfl, pkts, hfeeds, hrest ▸ hpacks⟩

def AtPacket (d : Decoder) (steps : List Step) : Prop :=
  ∃ pkts, Feeds d.rd pkts ∧
    Packs d.lastIp (symbols d.stack.contents steps) (d.rd.packet :: pkts)

theorem InSync.fetch (h : InSync d steps) (w : Walker) :
    (∃ rd log, d.getNextPacket w = (.ok, { d with rd := rd, log := log }) ∧
        AtPacket { d with rd := rd, log := log } steps) ∨
      (d.getNextPacket w).1 = .nodata ∧ jumps steps = [] := by
  obtain ⟨-, pkts, hfeeds, hpacks⟩ := h
  unfold Decoder.getNextPacket
  rcases hr : d.rd.getNextPacket with ⟨f, rd⟩
  cases pkts with
  | nil =>
    obtain rfl : f = .nodata := by simpa [Feeds, hr] using hfeeds
    have hsyms : symbols d.stack.contents steps = [] := by
      generalize symbols d.stack.contents steps = syms at hpacks
      cases hpacks
      rfl
    exact .inr ⟨rfl, jumps_eq_nil hsyms⟩
  | cons p pkts =>
    obtain ⟨rfl, hp, hfeeds⟩ : f = .ok ∧ rd.packet = p ∧ Feeds rd pkts := by
      simpa [Feeds, hr] using hfeeds
    refine .inl ⟨rd, _, rfl, pkts, hfeeds, ?_⟩
    rw [hp]
    exact hpacks

theorem AtPacket.tracePacket (hcfg : cfg.Traces code) (h : AtPacket d steps)
    (hf : Follows code d steps) (hb : d.Branching) (noTip : Bool) :
    (∃ r, d.tracePacket cfg noTip = .stop r ∧ Yields code r (jumps steps)) ∨
      ∃ e, d.tracePacket cfg noTip = .fetch noTip e ∧ UsedUp code (.again, e) (jumps steps) := by
  obtain ⟨pkts, hfeeds, hpacks⟩ := h
  generalize hsyms : symbols d.stack.contents steps = syms at hpacks
  generalize hp : d.rd.packet = p at hpacks
  cases hpacks with
  | @tnt _ bits _ syms _ htype hcount hpos hmax hcarries hpacks =>
    obtain ⟨b, bits, rfl⟩ := List.exists_cons_of_length_pos hpos
    have hin : InTnt { d with tnt := d.rd.packet, pktState := .tnt } steps (b :: bits) :=
      ⟨rfl, syms, hsyms, hp ▸ hcount, hp ▸ hcarries, pkts, hfeeds, hpacks⟩
    have hwalk := hin.walkTnt hcfg (hf.congr rfl rfl rfl) hb
    have hnonzero : ¬ d.rd.packet.count = 0 := by
      rw [hp, hcount]
      simp
    rw [Decoder.tracePacket, hp, htype]
    simp only [Decoder.tntPacket, if_neg hnonzero]
    rcases hr : { d with tnt := d.rd.packet, pktState := .tnt }.walkTnt cfg with ⟨st, e⟩
    rw [hr] at hwalk
    rcases hwalk with hy | hu
    · refine .inl ⟨(st, e), ?_, hy⟩
      rcases hy.status with hst | hst <;> cases hst <;> rw [hr]
    · obtain rfl : st = .again := hu.1
      exact .inr ⟨e, by rw [hr], hu⟩
  | @tip _ ip _ syms _ htype hcount hcalc hpacks =>
    have hnonzero : d.rd.packet.count ≠ 0 := hp ▸ hcount
    rw [Decoder.tracePacket, hp, htype]
    simp only [Decoder.tipPacket, if_pos hnonzero]
    refine .inl ⟨_, rfl, AtTip.walkTip hcfg ⟨rfl, hnonzero, syms, pkts, ?_, hfeeds, ?_⟩
      (hf.congr rfl rfl rfl) hb⟩
    · rw [← hcalc, ← hp] at hsyms
      exact hsyms
    · rw [← hcalc, ← hp] at hpacks
      exact hpacks

theorem InSync.walkTrace (hcfg : cfg.Traces code) (h : InSync d steps)
    (hf : Follows code d steps) (hb : d.Branching) :
    Yields code (d.walkTrace cfg) (jumps steps) := by
  unfold Decoder.walkTrace
  rcases h.fetch .trace with ⟨rd, log, hget, hat⟩ | ⟨hnodata, hjumps⟩
  · rw [hget]
    refine loop_total (Q := fun r => Yields code r (jumps steps))
      (I := fun s : Bool × Decoder => s.2.Branching ∧
        ∃ rest, jumps rest = jumps steps ∧ Follows code s.2 rest ∧ AtPacket s.2 rest)
      (fun s => s.2.rd.unread) ?_ _ _ (Nat.lt_succ_self _)
      ⟨hb, steps, rfl, hf.congr rfl rfl rfl, hat⟩
    rintro ⟨noTip, e⟩ ⟨hbr, rest, hjumps, hfe, hat⟩
    have hunread := tracePass_unread cfg (noTip, e)
    rw [← hjumps]
    rcases hat.tracePacket hcfg hfe hbr noTip with ⟨r, hstop, hy⟩ | ⟨e', hfetch, hused⟩
    · simp only [Decoder.tracePass, hstop]
      exact hy
    · obtain ⟨-, hbr', rest', hjumps', hfe', hsync⟩ := hused
      simp only [Decoder.tracePass, hfetch] at hunread ⊢
      rcases hsync.fetch .trace with ⟨rd', log', hget', hat'⟩ | ⟨hnodata, hnil⟩
      · rw [hget'] at hunread ⊢
        exact ⟨⟨hbr', rest', hjumps', hfe'.congr rfl rfl rfl, hat'⟩, hunread⟩
      · rcases hr : e'.getNextPacket .trace with ⟨st, e''⟩
        rw [hr] at hnodata
        obtain rfl : st = .nodata := hnodata
        rw [← hjumps', hnil]
        exact rfl
  · rcases hr : d.getNextPacket .trace with ⟨st, e⟩
    rw [hr] at hnodata
    obtain rfl : st = .nodata := hnodata
    rw [hjumps]
    exact rfl

theorem Tracking.resume (hcfg : cfg.Traces code) (h : Tracking code d steps)
    (hb : d.Branching) : Yields code (d.resume cfg) (jumps steps) := by
  unfold Decoder.resume
  cases h with
  | inSync hf h =>
    rw [h.1]
    exact h.walkTrace hcfg hf hb
  | tip hf h =>
    rw [h.state]
    exact h.walkTip hcfg hf hb
  | tnt hf h =>
    rw [h.1]
    have hwalk := h.walkTnt hcfg hf hb
    rcases hr : d.walkTnt cfg with ⟨st, e⟩
    rw [hr] at hwalk
    rcases hwalk with hy | ⟨rfl, hbr, rest, hjumps, hfe, hsync⟩
    · rcases hy.status with hst | hst <;> cases hst <;> exact hy
    · simp only
      rw [← hjumps]
      exact hsync.walkTrace hcfg hfe hbr

theorem Tracking.congr (h : Tracking code d steps) (hip : e.ip = d.ip) (hprog : e.prog = d.prog)
    (hstack : e.stack = d.stack) (hrd : e.rd = d.rd) (htnt : e.tnt = d.tnt)
    (hlast : e.lastIp = d.lastIp) (hstate : e.pktState = d.pktState) : Tracking code e steps := by
  cases h with
  | inSync hf h =>
    refine .inSync (hf.congr hip hprog hstack) ?_
    rw [InSync, hstate, hrd, hlast, hstack]
    exact h
  | tnt hf h =>
    obtain ⟨htn, syms, hsyms, hold⟩ := h
    refine .tnt (hf.congr hip hprog hstack) ⟨hstate.trans htn, syms, hstack ▸ hsyms, ?_⟩
    exact ⟨htnt ▸ hold.count, htnt ▸ hold.carries, by rw [hrd, hlast]; exact hold.rest⟩
  | tip hf h =>
    refine .tip (hf.congr hip hprog hstack) ⟨hstate.trans h.state, hrd ▸ h.count, ?_⟩
    rw [hrd, hlast, hstack]
    exact h.rest

def Returns (code : Program) (d : Decoder) : List (UInt64 × UInt64) → Prop
  | [] => d.st.err = some .nodata
  | b :: branches =>
    d.st.err = none ∧ d.st.type = { branch := true, cbrChg := d.st.type.cbrChg } ∧
      (d.st.fromIp, d.st.toIp) = b ∧ ∃ steps, jumps steps = branches ∧ Tracking code d steps

theorem Yields.conclude {r : Status × Decoder} {branches : List (UInt64 × UInt64)}
    (h : Yields code r branches) : Returns code (Decoder.conclude cfg r) branches := by
  cases branches with
  | nil =>
    have hst : r.1 = .nodata := h
    simp [Returns, Decoder.conclude, hst, Decoder.note, Decoder.sampleTime, Status.extErr]
  | cons b branches =>
    obtain ⟨hst, hb, hft, steps, hjumps, htrack⟩ := h
    have htype : r.2.st.type = { branch := true } := hb
    simp only [Decoder.conclude, hst, ne_eq, not_true_eq_false, if_false, Decoder.seeCbr]
    split_ifs <;>
      exact ⟨rfl, by simp [Decoder.note, Decoder.sampleTime, htype], hft, steps, hjumps,
        htrack.congr rfl rfl rfl rfl rfl rfl rfl⟩

theorem Tracking.decode (hcfg : cfg.Traces code) (h : Tracking code d steps) :
    Returns code (d.decode cfg) (jumps steps) := by
  have htrack : Tracking code d.startState steps := h.congr rfl rfl rfl rfl rfl rfl rfl
  have hy := htrack.resume hcfg rfl
  have hpass : Decoder.decodePass cfg d = .leave (d.startState.resume cfg) := by
    unfold Decoder.decodePass
    rcases hr : d.startState.resume cfg with ⟨st, e⟩
    rw [hr] at hy
    rcases hy.status with hst | hst <;> cases hst <;> rfl
  rw [Decoder.decode, loop_of_leave _ hpass]
  exact hy.conclude

/-- The states returned by `n` calls. -/
def Decoder.states (d : Decoder) (cfg : Config) : ℕ → List State
  | 0 => []
  | n + 1 => (d.decode cfg).st :: (d.decode cfg).states cfg n

def State.IsBranch (s : State) (b : UInt64 × UInt64) : Prop :=
  s.err = none ∧ s.type = { branch := true, cbrChg := s.type.cbrChg } ∧ s.fromIp = b.1 ∧
    s.toIp = b.2

theorem Tracking.states (hcfg : cfg.Traces code) (h : Tracking code d steps) :
    ∃ returned last, d.states cfg ((jumps steps).length + 1) = returned ++ [last] ∧
      List.Forall₂ State.IsBranch returned (jumps steps) ∧ last.err = some .nodata := by
  generalize hj : jumps steps = branches
  induction branches generalizing d steps with
  | nil =>
    have hret := h.decode hcfg
    rw [hj] at hret
    exact ⟨[], _, rfl, .nil, hret⟩
  | cons b branches ih =>
    have hret := h.decode hcfg
    rw [hj] at hret
    obtain ⟨herr, htype, hft, rest, hrest, htrack⟩ := hret
    obtain ⟨returned, last, happ, hall, hlast⟩ := ih htrack hrest
    refine ⟨(d.decode cfg).st :: returned, last, ?_, .cons ⟨herr, htype, ?_, ?_⟩ hall, hlast⟩
    · rw [List.length_cons, Decoder.states, happ]
      rfl
    · rw [← hft]
    · rw [← hft]

/-- In front of the packets of an execution the decoder returns its branches in order, up to the
last one that has been reported. -/
theorem decode_reconstructs (hcfg : cfg.Traces code) (hstate : d.pktState = .inSync)
    (hstack : d.stack.contents = []) (hprog : d.prog.noProgress = 0) {pkts : List Pkt}
    (hexec : Executes code d.ip steps) (hrow : InARow maxLoops 0 steps)
    (hcalls : ∀ s ∈ steps, pushes s.insn → s.insn.next s.ip ≠ 0) (hfeeds : Feeds d.rd pkts)
    (hpacks : Packs d.lastIp (symbols [] steps) pkts) :
    ∃ returned last, d.states cfg ((jumps steps).length + 1) = returned ++ [last] ∧
      List.Forall₂ State.IsBranch returned (jumps steps) ∧ last.err = some .nodata := by
  refine Tracking.states hcfg (.inSync ?_ ⟨hstate, pkts, hfeeds, hstack ▸ hpacks⟩)
  refine ⟨hexec, hprog ▸ hrow, fun h => ?_, fun a ha => ?_, hcalls⟩
  · omega
  · rw [hstack] at ha
    cases ha

end

def demoCode : Program where
  insnAt ip :=
    if ip = 0x1000 then some { op := .call, branch := .unconditional, length := 5, rel := 11 }
    else if ip = 0x1010 then some { op := .ret, branch := .indirect, length := 1 }
    else if ip = 0x1005 then some { op := .jcc, branch := .conditional, length := 2, rel := 5 }
    else if ip = 0x1007 then some { length := 1 }
    else if ip = 0x1008 then some { op := .jmp, branch := .indirect, length := 2 }
    else none
  regular ip insn h := by
    split_ifs at h <;> cases h <;> simp [RegularInsn]

def demoSteps : List Step :=
  [{ ip := 0x1000, insn := { op := .call, branch := .unconditional, length := 5, rel := 11 } },
    { ip := 0x1010, insn := { op := .ret, branch := .indirect, length := 1 }, dest := 0x1005 },
    { ip := 0x1005, insn := { op := .jcc, branch := .conditional, length := 2, rel := 5 }
      taken := false },
    { ip := 0x1007, insn := { length := 1 } },
    { ip := 0x1008, insn := { op := .jmp, branch := .indirect, length := 2 }, dest := 0x2000 }]

def demoConfig : Config := { walkInsn := demoCode.walkInsn, returnCompression := true }

def demoDecoder : Decoder :=
  { rd := { buf := [0x0c, 0x2d, 0x00, 0x20] }, ip := 0x1000, pktState := .inSync }

theorem decode_reconstructs_demo :
    ∃ returned last, demoDecoder.states demoConfig 4 = returned ++ [last] ∧
      List.Forall₂ State.IsBranch returned
        [(0x1000, 0x1010), (0x1010, 0x1005), (0x1008, 0x2000)] ∧
      last.err = some .nodata := by
  have hexec : Executes demoCode demoDecoder.ip demoSteps := by
    simp only [Executes, demoSteps]
    decide +kernel
  have hpacks : Packs demoDecoder.lastIp (symbols [] demoSteps)
      [{ type := .tnt, count := 2, payload := 0x8000000000000000 },
        { type := .tip, count := 1, payload := 0x2000 }] := by
    have hsyms : symbols [] demoSteps = [true, false].map .bit ++ [.tip 0x2000] := by
      decide +kernel
    rw [hsyms]
    refine .tnt rfl rfl (by decide) (by decide) ⟨by decide, by decide, trivial⟩
      (.tip rfl ?_ ?_ .nil)
    · decide
    · decide +kernel
  have hjumps : jumps demoSteps = [(0x1000, 0x1010), (0x1010, 0x1005), (0x1008, 0x2000)] := by
    decide +kernel
  have hfeeds : Feeds demoDecoder.rd
      [{ type := .tnt, count := 2, payload := 0x8000000000000000 },
        { type := .tip, count := 1, payload := 0x2000 }] := by
    simp only [Feeds]
    decide +kernel
  have hcfg : demoConfig.Traces demoCode := ⟨rfl, rfl, rfl, fun _ => rfl⟩
  have hrow : InARow maxLoops 0 demoSteps := by simp [InARow, demoSteps, maxLoops]
  have h := decode_reconstructs hcfg (show demoDecoder.pktState = .inSync from rfl) rfl rfl hexec
    hrow (by decide +kernel) hfeeds hpacks
  rw [hjumps] at h
  exact h

end RPerf.Decode
