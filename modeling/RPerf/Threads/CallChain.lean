import RPerf.Threads.ThreadStack

/-!
# Call chains

As long as the branches of a thread are well nested, the stack of `thread_stack__event` is
that of the calls which have not returned, and a call chain is its upper end.
-/

namespace RPerf.Threads

def ThreadStack.Fits (ts : ThreadStack) : Prop := ts.stack.length ≤ ts.sz ∧ 0 < ts.sz

instance (ts : ThreadStack) : Decidable ts.Fits := inferInstanceAs (Decidable (_ ∧ _))

namespace Thread

def Fits (t : Thread) : Prop := ∀ ts ∈ t.ts, ts.Fits

instance (t : Thread) : Decidable t.Fits := inferInstanceAs (Decidable (∀ ts ∈ t.ts, ts.Fits))

def Branch.IsCall (b : Branch) : Prop := hasFlag b.flags flagCall = true

/-- A branch with both flags counts as a call. -/
def Branch.IsReturn (b : Branch) : Prop :=
  hasFlag b.flags flagCall = false ∧ hasFlag b.flags flagReturn = true

instance (b : Branch) : Decidable b.IsCall := inferInstanceAs (Decidable (_ = true))

instance (b : Branch) : Decidable b.IsReturn := inferInstanceAs (Decidable (_ ∧ _))

/-- Calls and returns, each return to where the last open call returns to. -/
inductive Nested : List UInt64 → List Branch → List UInt64 → Prop
  | nil {opens : List UInt64} : Nested opens [] opens
  | call {opens opens' : List UInt64} {b : Branch} {bs : List Branch} :
    b.IsCall → b.toIp ≠ 0 → b.retAddr ≠ b.toIp → Nested (b.retAddr :: opens) bs opens' →
    Nested opens (b :: bs) opens'
  | ret {opens opens' : List UInt64} {b : Branch} {bs : List Branch} :
    b.IsReturn → b.fromIp ≠ 0 → Nested opens bs opens' → Nested (b.toIp :: opens) (b :: bs) opens'

variable {env : Env} {s : State} {t : Thread} {retAddr : UInt64}

theorem below_append {e : Entry} {rest : List Entry} (he : e.retAddr = retAddr) :
    ∀ {above : List Entry}, (∀ x ∈ above, x.retAddr ≠ retAddr) →
      State.below retAddr (above ++ e :: rest) = some rest
  | [], _ => by rw [List.nil_append, State.below, if_pos he]
  | x :: above, h => by
    rw [List.cons_append, State.below, if_neg (h x List.mem_cons_self)]
    exact below_append he fun y hy => h y (List.mem_cons_of_mem x hy)

theorem below_eq_none :
    ∀ {stack : List Entry}, (∀ x ∈ stack, x.retAddr ≠ retAddr) → State.below retAddr stack = none
  | [], _ => rfl
  | x :: stack, h => by
    rw [State.below, if_neg (h x List.mem_cons_self)]
    exact below_eq_none fun y hy => h y (List.mem_cons_of_mem x hy)

theorem push_stack (hmem : ∀ n, env.malloc n = true) (hfits : s.ts.Fits) (retAddr : UInt64) :
    ∃ s', s.push env retAddr = some (0, s') ∧ s'.ts.stack = { retAddr } :: s.ts.stack ∧
      s'.ts.crp = s.ts.crp ∧ s'.ts.traceNr = s.ts.traceNr := by
  obtain ⟨hle, -⟩ := hfits
  unfold State.push State.grow State.store
  by_cases hfull : s.ts.stack.length = s.ts.sz
  · simp [hfull, hmem, stackGrowth]
  · have hlt : s.ts.stack.length < s.ts.sz := lt_of_le_of_ne hle hfull
    simp [hfull, hlt]

theorem eventOn_call {b : Branch} (hcrp : s.ts.crp = none) (htrace : b.traceNr = s.ts.traceNr)
    (hcall : b.IsCall) (hto : b.toIp ≠ 0) (hret : b.retAddr ≠ b.toIp) :
    eventOn env s b = s.push env b.retAddr := by
  have hflag : hasFlag b.flags flagCall = true := hcall
  simp [eventOn, htrace, hcrp, hflag, hto, hret]

/-- Within one trace a return pops its target. -/
theorem eventOn_return {b : Branch} (hcrp : s.ts.crp = none) (htrace : b.traceNr = s.ts.traceNr)
    (hreturn : b.IsReturn) (hfrom : b.fromIp ≠ 0) : eventOn env s b = some (0, s.pop b.toIp) := by
  obtain ⟨hcall, hret⟩ := hreturn
  simp [eventOn, htrace, hcrp, hcall, hret, hfrom]

theorem event_of_ts {ts : ThreadStack} (h : t.ts = some ts) (b : Branch) :
    t.event env b =
      (eventOn env { t.toShared with ts } b).map fun r => (r.1, r.2.thread) := by
  simp only [event, h]

theorem stackGrowth_pos : 0 < stackGrowth := by decide

theorem push_fits (env : Env) (hfits : s.ts.Fits) (retAddr : UInt64) :
    ∃ r, s.push env retAddr = some r ∧ r.2.ts.Fits := by
  obtain ⟨hle, hpos⟩ := hfits
  unfold State.push State.grow State.store
  by_cases hfull : s.ts.stack.length = s.ts.sz
  · cases hmem : env.malloc s.allocs
    · simp only [hfull, if_true, Bool.false_eq_true, if_false, enomem]
      simp [hpos, ThreadStack.Fits]
      exact hpos
    · simp [hfull, stackGrowth, ThreadStack.Fits]
  · have hlt : s.ts.stack.length < s.ts.sz := lt_of_le_of_ne hle hfull
    simp [hfull, hlt, ThreadStack.Fits]
    omega

def Chains (t : Thread) (nr : UInt64) (opens : List UInt64) : Prop :=
  ∃ ts, t.ts = some ts ∧ ts.Fits ∧ ts.crp = none ∧ ts.traceNr = nr ∧
    ts.stack.map (·.retAddr) = opens

theorem event_first (hmem : ∀ n, env.malloc n = true) (ht : t.ts = none) (b : Branch) :
    ∃ t' : Thread, Chains t' b.traceNr [] ∧ t.event env b = t'.event env b := by
  have hnew : new env t none = some
      { t.toShared with
        allocs := t.allocs + 2
        ts := { sz := stackGrowth, kernelStart := env.kernelStart.getD 0x8000000000000000,
                crp := none } } := by
    simp [new, hmem]
  refine ⟨{ t.toShared with
    allocs := t.allocs + 2
    ts := some { sz := stackGrowth, kernelStart := env.kernelStart.getD 0x8000000000000000,
                 crp := none, traceNr := b.traceNr } },
    ⟨_, rfl, ⟨Nat.zero_le _, stackGrowth_pos⟩, rfl, rfl, rfl⟩, ?_⟩
  simp only [event, ht, hnew]

theorem Chains.events (hmem : ∀ n, env.malloc n = true) {nr : UInt64} {opens opens' : List UInt64}
    {bs : List Branch} (h : Nested opens bs opens') :
    ∀ {t : Thread}, (∀ b ∈ bs, b.traceNr = nr) → Chains t nr opens →
      ∃ t', t.events env bs = some t' ∧ Chains t' nr opens' := by
  induction h with
  | nil => exact fun {t} _ ht => ⟨t, rfl, ht⟩
  | @call opens opens' b bs hcall hto hret _ ih =>
    intro t hnr ht
    obtain ⟨ts, hts, hfits, hcrp, htrace, hstack⟩ := ht
    have hb : b.traceNr = ts.traceNr := (hnr b List.mem_cons_self).trans htrace.symm
    obtain ⟨s', hpush, hpushed, hcrp', htrace'⟩ :=
      push_stack hmem (s := { t.toShared with ts }) hfits b.retAddr
    obtain ⟨r, hr, hfits'⟩ := push_fits env (s := { t.toShared with ts }) hfits b.retAddr
    cases hpush.symm.trans hr
    have hevent : t.event env b = some (0, s'.thread) := by
      rw [event_of_ts hts, eventOn_call hcrp hb hcall hto hret, hpush]
      rfl
    have hchains : Chains s'.thread nr (b.retAddr :: opens) := by
      refine ⟨_, rfl, hfits', hcrp'.trans hcrp, htrace'.trans htrace, ?_⟩
      rw [hpushed, List.map_cons, hstack]
    rw [Thread.events, hevent]
    exact ih (fun x hx => hnr x (List.mem_cons_of_mem b hx)) hchains
  | @ret opens opens' b bs hreturn hfrom _ ih =>
    intro t hnr ht
    obtain ⟨ts, hts, ⟨hle, hpos⟩, hcrp, htrace, hstack⟩ := ht
    have hb : b.traceNr = ts.traceNr := (hnr b List.mem_cons_self).trans htrace.symm
    obtain ⟨e, rest, hrest, he, hmap⟩ := List.map_eq_cons_iff.mp hstack
    have hbelow : State.below b.toIp ts.stack = some rest := by
      rw [hrest]
      exact below_append he (List.forall_mem_nil _)
    have hevent : t.event env b =
        some (0, { t.toShared with ts := some { ts with stack := rest } }) := by
      rw [event_of_ts hts, eventOn_return hcrp hb hreturn hfrom]
      simp [State.pop, hbelow, State.thread]
    have hless : rest.length ≤ ts.sz := by
      rw [hrest, List.length_cons] at hle
      omega
    rw [Thread.events, hevent]
    exact ih (fun x hx => hnr x (List.mem_cons_of_mem b hx))
      ⟨{ ts with stack := rest }, rfl, ⟨hless, hpos⟩, hcrp, htrace, hmap⟩

theorem events_nested (hmem : ∀ n, env.malloc n = true) (ht : t.ts = none) {nr : UInt64}
    {bs : List Branch} (hnr : ∀ b ∈ bs, b.traceNr = nr) {opens : List UInt64}
    (h : Nested [] bs opens) :
    ∃ t', t.events env bs = some t' ∧ t'.stack.map (·.retAddr) = opens := by
  cases bs with
  | nil =>
    cases h
    exact ⟨t, rfl, by simp [stack, ht]⟩
  | cons b bs =>
    obtain ⟨t₁, ht₁, heq⟩ := event_first hmem ht b
    rw [hnr b List.mem_cons_self] at ht₁
    obtain ⟨t', hevents, ts, hts, -, -, -, hstack⟩ := ht₁.events hmem h hnr
    refine ⟨t', ?_, ?_⟩
    · rw [← hevents, events, events, heq]
    · rw [stack, hts]
      exact hstack

theorem chainIps_eq {n room : ℕ} {stack : List Entry} (hroom : n ≤ room) (hn : n ≤ stack.length) :
    chainIps n room stack = some ((stack.map (·.retAddr)).take n) := by
  induction n generalizing room stack with
  | zero => rfl
  | succ n ih =>
    cases room with
    | zero => exact absurd hroom (Nat.not_succ_le_zero n)
    | succ room =>
      cases stack with
      | nil => exact absurd hn (Nat.not_succ_le_zero n)
      | cons e stack =>
        rw [chainIps, ih (Nat.le_of_succ_le_succ hroom) (Nat.le_of_succ_le_succ hn)]
        rfl

theorem sample_eq (t : Thread) {sz : ℕ} (hsz : 1 ≤ sz) (ip : UInt64) :
    t.sample sz ip =
      some (min sz (t.stack.length + 1), ip :: (t.stack.map (·.retAddr)).take (sz - 1)) := by
  have hnr : (if t.ts.isNone then 1 else min sz (t.stack.length + 1)) =
      min sz (t.stack.length + 1) := by
    cases hts : t.ts with
    | none =>
      have hempty : t.stack = [] := by simp [stack, hts]
      simp [hempty, hsz]
    | some ts => simp
  obtain ⟨room, rfl⟩ := Nat.exists_eq_add_of_le' hsz
  have hmin : min (room + 1) (t.stack.length + 1) - 1 = min room t.stack.length := by omega
  simp only [sample, hnr, hmin]
  rw [chainIps_eq (min_le_left _ _) (min_le_right _ _), Option.map_some]
  congr 3
  rw [Nat.add_sub_cancel]
  conv_rhs => rw [List.take_eq_take_min, List.length_map]

section

variable (env : Env)

theorem flushLoop_fits (l : List Entry) (s : State) (hfits : s.ts.Fits) (hl : l.length ≤ s.ts.sz) :
    (State.flushLoop env l s).2.ts.Fits := by
  induction l generalizing s with
  | nil => exact hfits
  | cons e l ih =>
    rw [List.length_cons] at hl
    have hnext : (s.callReturn env e l s.ts.lastTime 0 true).2.ts.Fits :=
      ⟨by simpa [State.callReturn] using by omega, hfits.2⟩
    rw [State.flushLoop]
    rcases hr : s.callReturn env e l s.ts.lastTime 0 true with ⟨err, s'⟩
    rw [hr] at hnext
    have hsz : s'.ts.sz = s.ts.sz := by
      have hsz' : (s.callReturn env e l s.ts.lastTime 0 true).2.ts.sz = s.ts.sz := rfl
      rwa [hr] at hsz'
    split
    · rename_i heq
      cases heq
      exact ih _ hnext (by omega)
    · rename_i heq
      cases heq
      exact ⟨Nat.zero_le _, hnext.2⟩

theorem flush_fits (hfits : s.ts.Fits) : (s.flush env).2.ts.Fits := by
  rw [State.flush]
  split_ifs
  · exact ⟨Nat.zero_le _, hfits.2⟩
  · exact flushLoop_fits env _ s hfits hfits.1

theorem below_length {stack rest : List Entry} (h : State.below retAddr stack = some rest) :
    rest.length ≤ stack.length := by
  induction stack with
  | nil => cases h
  | cons e stack ih =>
    rw [State.below] at h
    split_ifs at h
    · cases h
      exact Nat.le_succ _
    · exact (ih h).trans (Nat.le_succ _)

theorem pop_fits (hfits : s.ts.Fits) (retAddr : UInt64) : (s.pop retAddr).ts.Fits := by
  rw [State.pop]
  split
  · rename_i rest hrest
    exact ⟨(below_length hrest).trans hfits.1, hfits.2⟩
  · exact hfits

theorem eventOn_fits (hfits : s.ts.Fits) (b : Branch) :
    ∃ r, eventOn env s b = some r ∧ r.2.ts.Fits := by
  have htrace : ∀ s' : State, s'.ts.Fits → ∃ r,
      (if s'.ts.crp.isSome then some (0, s')
      else if hasFlag b.flags flagCall then
        if b.toIp = 0 then some (0, s')
        else if b.retAddr = b.toIp then some (0, s')
        else s'.push env b.retAddr
      else if hasFlag b.flags flagReturn then
        if b.fromIp = 0 then some (0, s') else some (0, s'.pop b.toIp)
      else some (0, s')) = some r ∧ r.2.ts.Fits := by
    intro s' h'
    split_ifs
    all_goals first | exact ⟨_, rfl, h'⟩ | exact push_fits env h' _ | exact ⟨_, rfl, pop_fits h' _⟩
  apply htrace
  split_ifs
  · exact flush_fits env hfits
  · exact hfits
  · exact hfits

theorem event_fits (hfits : t.Fits) (b : Branch) : ∃ r, t.event env b = some r ∧ r.2.Fits := by
  have hthread : ∀ s : State, s.ts.Fits → ∃ r,
      (eventOn env s b).map (fun r => (r.1, r.2.thread)) = some r ∧ r.2.Fits := by
    intro s hs
    obtain ⟨r, hr, hfits'⟩ := eventOn_fits env hs b
    refine ⟨_, by rw [hr]; rfl, ?_⟩
    rintro ts ⟨⟩
    exact hfits'
  cases hts : t.ts with
  | some ts =>
    rw [event_of_ts hts]
    exact hthread _ (hfits ts hts)
  | none =>
    simp only [event, hts, new]
    split_ifs
    · exact hthread _ ⟨Nat.zero_le _, stackGrowth_pos⟩
    · exact ⟨_, rfl, hfits⟩

theorem setTraceNr_fits (hfits : t.Fits) (traceNr : UInt64) : (t.setTraceNr env traceNr).Fits := by
  cases hts : t.ts with
  | none =>
    rw [setTraceNr, hts]
    exact hfits
  | some ts =>
    simp only [setTraceNr, hts]
    split_ifs
    all_goals first | exact hfits | rintro _ ⟨⟩
    · exact flush_fits env (s := { t.toShared with ts }) (hfits ts hts)
    · exact hfits ts hts

end

/-- Well nested branches of one trace leave the return addresses of the open calls on the stack, and
a call chain gives the innermost of them. -/
theorem call_chain_is_real (env : Env) (hmem : ∀ n, env.malloc n = true) :
    (∀ (t : Thread) (nr : UInt64) (bs : List Branch) (opens : List UInt64), t.ts = none →
      (∀ b ∈ bs, b.traceNr = nr) → Nested [] bs opens →
      ∃ t', t.events env bs = some t' ∧ t'.stack.map (·.retAddr) = opens ∧
        ∀ sz ip, 1 ≤ sz → t'.sample sz ip =
          some (min (sz - 1) opens.length + 1, ip :: opens.take (min (sz - 1) opens.length))) ∧
    ∀ (t : Thread) (ts : ThreadStack) (b : Branch), t.ts = some ts → ts.crp = none →
      (b.IsReturn → b.fromIp ≠ 0 → b.traceNr = ts.traceNr →
        (∀ above e rest, ts.stack = above ++ e :: rest → (∀ x ∈ above, x.retAddr ≠ b.toIp) →
          e.retAddr = b.toIp → (t.event env b).map (·.2.stack) = some rest) ∧
        ((∀ x ∈ ts.stack, x.retAddr ≠ b.toIp) → t.event env b = some (0, t))) ∧
      (b.traceNr ≠ ts.traceNr → ts.traceNr ≠ 0 →
        t.event env b =
          { t with ts := some { ts with stack := [], traceNr := b.traceNr } }.event env b) := by
  refine ⟨?_, ?_⟩
  · intro t nr bs opens ht hnr h
    obtain ⟨t', hevents, hstack⟩ := events_nested hmem ht hnr h
    refine ⟨t', hevents, hstack, fun sz ip hsz => ?_⟩
    have hlen : t'.stack.length = opens.length := by rw [← hstack, List.length_map]
    have hnr : min sz (opens.length + 1) = min (sz - 1) opens.length + 1 := by omega
    rw [sample_eq _ hsz, hstack, hlen, List.take_eq_take_min, hnr]
  · intro t ts b hts hcrp
    refine ⟨fun hreturn hfrom htrace => ⟨?_, ?_⟩, fun htrace hold => ?_⟩
    · intro above e rest hsplit habove he
      rw [event_of_ts hts, eventOn_return hcrp htrace hreturn hfrom]
      simp [State.pop, hsplit, below_append he habove, State.thread, stack]
    · intro hnone
      rw [event_of_ts hts, eventOn_return hcrp htrace hreturn hfrom]
      simp [State.pop, below_eq_none hnone, State.thread, ← hts]
    · rw [event_of_ts hts, event_of_ts rfl]
      simp [eventOn, htrace, hold, State.flush, hcrp]

/-- Two calls from one place, a recursion, and one return. -/
theorem call_chain_is_real_recursive :
    let env : Env := { malloc := fun _ => true, process := fun _ => 0 }
    let call : Branch := { flags := 3, fromIp := 0x100, toIp := 0x80, insnLen := 5, traceNr := 1 }
    let ret : Branch := { flags := 5, fromIp := 0x90, toIp := 0x105, traceNr := 1 }
    ∃ t, ({} : Thread).events env [call, call, ret] = some t ∧
      t.stack.map (·.retAddr) = [0x105] ∧ t.sample 16 0x106 = some (2, [0x106, 0x105]) := by
  intro env call ret
  have hnested : Nested [] [call, call, ret] [0x105] :=
    .call (by decide) (by decide) (by decide)
      (.call (by decide) (by decide) (by decide) (.ret (b := ret) (by decide) (by decide) .nil))
  obtain ⟨t, hevents, hstack, hsample⟩ := (call_chain_is_real env (fun _ => rfl)).1 {} 1
    [call, call, ret] [0x105] rfl (by decide) hnested
  exact ⟨t, hevents, hstack, hsample 16 0x106 (by decide)⟩

end Thread

end RPerf.Threads
