import EthereumJs.Miner.Model

/-!
# `CHAIN_UPDATED` stops the run in progress

A run of `assembleBlock` registers `setInterrupt` before its first `await`, and checks `interrupt`
after every `await` that precedes a call of `addTransaction`, `build` or `handleNewBlock`. So once
`CHAIN_UPDATED` is emitted while the run is registered and has not yet called `handleNewBlock`, the
run makes none of those calls any more, and never calls `removeNewBlockTxs`
(`chainUpdated_stops_assembly`), over every order of the events.

The proof follows the data: `Resumed` says once what resuming a run can do, `Inv` is what every
reachable miner satisfies (no listener is ever really removed, every waiting run is registered,
and a run waits at `handleNewBlock` only after calling it), and `Doomed` is the state of a run
that `setInterrupt` has reached, which every event keeps.
-/

namespace EthereumJs

namespace Miner

variable (c : Config)

/-! ### What resuming a run can do -/

/-- What resuming the run `a` on `m` can leave: the run ends, or waits at its next `await`,
having called `addTransaction`, `build` or `handleNewBlock` only while not interrupted, and
`removeNewBlockTxs` only from `handleNewBlock`. -/
inductive Resumed (a : Assembly) (m : Miner) : Miner → Prop
  | settled (b flag : Bool) :
    Resumed a m (note (.settled a.id b) (if flag then m else { m with assembling := false }))
  | waits (s : Stage) (hs : s ≠ .handleNewBlock) : Resumed a m (suspend { a with stage := s } m)
  | addTransaction (i n : Nat) (hi : a.interrupt = false) :
    Resumed a m (suspend { a with stage := .addTransaction i n } (note (.addTransaction a.id) m))
  | build (hi : a.interrupt = false) :
    Resumed a m (suspend { a with stage := .build } (note (.build a.id) m))
  | handleNewBlock (hi : a.interrupt = false) :
    Resumed a m (suspend { a with stage := .handleNewBlock }
      (note (.handleNewBlock a.id) { m with assembling := false }))
  | removeNewBlockTxs (hs : a.stage = .handleNewBlock) :
    Resumed a m (note (.settled a.id false) (removeBound (note (.removeNewBlockTxs a.id) m)))

private theorem addLoop_resumed (a : Assembly) (index count : Nat) (blockFull : Bool) (m : Miner) :
    Resumed a m (addLoop a index count blockFull m) := by
  unfold addLoop
  split
  · next h => exact .addTransaction _ _ h.2.2
  · split
    · exact .settled false true
    · next h => exact .build (by simpa using h)

theorem resume_resumed (a : Assembly) (reply : Reply) (m : Miner) :
    Resumed a m (resume c a reply m) := by
  obtain ⟨r, i, s⟩ := a
  cases reply with
  | error full =>
    cases s with
    | addTransaction index count => exact addLoop_resumed _ (index + 1) count full m
    | _ => exact .settled true true
  | value n =>
    cases s with
    | generateCanonicalGenesis b | setStateRoot b => exact .waits _ (by cases c.poa <;> simp)
    | cliqueSignerInTurn b | buildBlock b => exact .waits _ (by simp)
    | txsByPriceAndNonce b =>
      simp only [resume]
      split
      · exact .settled true true
      · exact addLoop_resumed _ 0 n false m
    | addTransaction index count => exact addLoop_resumed _ (index + 1) count false m
    | build =>
      cases i
      · exact .handleNewBlock rfl
      · exact .settled false false
    | handleNewBlock => exact .removeNewBlockTxs rfl

/-! ### What the `CHAIN_UPDATED` listeners change -/

/-- What the listeners leave alone: the listeners, each waiting run's number and `await`, an
`interrupt` once set; they only add timers to the log. -/
structure Calm (m m' : Miner) : Prop where
  listeners : m'.listeners = m.listeners
  runs : m'.assemblies.map (fun a => (a.id, a.stage)) = m.assemblies.map (fun a => (a.id, a.stage))
  interrupt : ∀ r, (∀ a ∈ m.assemblies, a.id = r → a.interrupt = true) →
    ∀ a ∈ m'.assemblies, a.id = r → a.interrupt = true
  fresh : m.fresh ≤ m'.fresh
  log : ∃ ts : List Nat, m'.log = m.log ++ ts.map .timerSet

theorem Calm.refl (m : Miner) : Calm m m := ⟨rfl, rfl, fun _ h => h, le_rfl, [], by simp⟩

theorem Calm.trans {m₁ m₂ m₃ : Miner} (h₁ : Calm m₁ m₂) (h₂ : Calm m₂ m₃) : Calm m₁ m₃ where
  listeners := h₂.listeners.trans h₁.listeners
  runs := h₂.runs.trans h₁.runs
  interrupt r h := h₂.interrupt r (h₁.interrupt r h)
  fresh := h₁.fresh.trans h₂.fresh
  log := by
    obtain ⟨t₁, e₁⟩ := h₁.log
    obtain ⟨t₂, e₂⟩ := h₂.log
    exact ⟨t₁ ++ t₂, by rw [e₂, e₁, List.map_append, List.append_assoc]⟩

theorem Calm.mem {m m' : Miner} (h : Calm m m') {a' : Assembly} (ha : a' ∈ m'.assemblies) :
    ∃ a ∈ m.assemblies, a.id = a'.id ∧ a.stage = a'.stage := by
  have : (a'.id, a'.stage) ∈ m.assemblies.map (fun a => (a.id, a.stage)) :=
    h.runs ▸ List.mem_map_of_mem _ ha
  obtain ⟨a, ha, e⟩ := List.mem_map.mp this
  exact ⟨a, ha, (Prod.mk.inj e).1, (Prod.mk.inj e).2⟩

theorem queueNextAssembly_calm (m : Miner) : Calm m (queueNextAssembly c m) := by
  unfold queueNextAssembly setNextTimer
  rw [clearNext_eq]
  cases c.poa
  · exact ⟨rfl, rfl, fun _ h => h, Nat.le_succ _, [m.fresh], rfl⟩
  · exact ⟨rfl, rfl, fun _ h => h, Nat.le_succ _, [], by simp⟩

private theorem setInterrupt_calm (r : Nat) (m : Miner) : Calm m (setInterrupt r m) where
  listeners := rfl
  runs := by
    simp only [setInterrupt, List.map_map]
    congr 1
    funext a
    by_cases e : a.id = r <;> simp [e]
  interrupt r' h a ha hr := by
    obtain ⟨a₀, ha₀, rfl⟩ := List.mem_map.mp ha
    by_cases e : a₀.id = r
    · simp [e]
    · simp only [e, if_false] at hr ⊢
      exact h a₀ ha₀ hr
  fresh := le_rfl
  log := ⟨[], by simp [setInterrupt]⟩

private theorem setInterrupt_interrupts (r : Nat) (m : Miner) :
    ∀ a ∈ (setInterrupt r m).assemblies, a.id = r → a.interrupt = true := by
  intro a ha hr
  obtain ⟨a₀, -, rfl⟩ := List.mem_map.mp ha
  by_cases e : a₀.id = r
  · simp [e]
  · simp [e] at hr

section Handlers

variable (number : Nat) (target : Int)

private theorem runHandler_calm (m : Miner) (h : Handler) : Calm m (runHandler c number target m h) := by
  cases h with
  | chainUpdated =>
    show Calm m (chainUpdated c number target m)
    rcases chainUpdated_cases c number target m with e | e <;> rw [e]
    exacts [Calm.refl m, queueNextAssembly_calm c m]
  | setInterrupt r => exact setInterrupt_calm r m

theorem handlers_calm (ls : List Listener) (m : Miner) :
    Calm m (ls.foldl (fun m l => runHandler c number target m l.handler) m) := by
  induction ls generalizing m with
  | nil => exact Calm.refl m
  | cons l ls ih => exact (runHandler_calm c number target m l.handler).trans (ih _)

/-- An emission reaches every run whose `setInterrupt` is among the listeners. -/
theorem handlers_interrupt {r f : Nat} {ls : List Listener} (hl : ⟨f, .setInterrupt r⟩ ∈ ls)
    (m : Miner) : ∀ a ∈ (ls.foldl (fun m l => runHandler c number target m l.handler) m).assemblies,
      a.id = r → a.interrupt = true := by
  induction ls generalizing m with
  | nil => cases hl
  | cons l ls ih =>
    rcases List.mem_cons.mp hl with rfl | hl
    · exact (handlers_calm c number target ls _).interrupt r (setInterrupt_interrupts r m)
    · exact ih hl _

end Handlers

/-! ### The invariant -/

/-- What holds of every miner a run reaches: a run's number and a function's identity are below
`fresh`; every waiting run has its `setInterrupt` registered; a run waits at `handleNewBlock`
only after calling it, and calls `removeNewBlockTxs` only after that. -/
structure Inv (m : Miner) : Prop where
  assemble_lt : ∀ r, Note.assemble r ∈ m.log → r < m.fresh
  fn_lt : ∀ l ∈ m.listeners, l.fn < m.fresh
  listening : ∀ a ∈ m.assemblies, ∃ f, (⟨f, .setInterrupt a.id⟩ : Listener) ∈ m.listeners
  waiting : ∀ a ∈ m.assemblies, a.stage = .handleNewBlock → Note.handleNewBlock a.id ∈ m.log
  removed : ∀ r, Note.removeNewBlockTxs r ∈ m.log → Note.handleNewBlock r ∈ m.log

section Inv

variable {c} {m : Miner}

theorem init_inv : Inv init := ⟨by simp [init], by simp [init], by simp [init], by simp [init],
  by simp [init]⟩

private theorem Inv.mono (hi : Inv m) (m' : Miner) (hlog : m'.log = m.log) (hl : m'.listeners = m.listeners)
    (ha : ∀ a ∈ m'.assemblies, a ∈ m.assemblies) (hf : m.fresh ≤ m'.fresh) : Inv m' where
  assemble_lt r h := Nat.lt_of_lt_of_le (hi.assemble_lt r (hlog ▸ h)) hf
  fn_lt l h := Nat.lt_of_lt_of_le (hi.fn_lt l (hl ▸ h)) hf
  listening a h := hl ▸ hi.listening a (ha a h)
  waiting a h hs := hlog ▸ hi.waiting a (ha a h) hs
  removed r h := hlog ▸ hi.removed r (hlog ▸ h)

theorem Inv.flag (hi : Inv m) (b : Bool) : Inv { m with assembling := b } :=
  hi.mono _ rfl rfl (fun _ h => h) le_rfl

private theorem Inv.noted (hi : Inv m) {n : Note} (ha : ∀ r, n = .assemble r → r < m.fresh)
    (hr : ∀ r, n = .removeNewBlockTxs r → Note.handleNewBlock r ∈ m.log) : Inv (note n m) where
  assemble_lt r h := by
    rcases List.mem_append.mp h with h | h
    · exact hi.assemble_lt r h
    · exact ha r (List.mem_singleton.mp h).symm
  fn_lt := hi.fn_lt
  listening := hi.listening
  waiting a h hs := List.mem_append_left _ (hi.waiting a h hs)
  removed r h := by
    rcases List.mem_append.mp h with h | h
    · exact List.mem_append_left _ (hi.removed r h)
    · exact List.mem_append_left _ (hr r (List.mem_singleton.mp h).symm)

theorem Inv.suspended (hi : Inv m) (a : Assembly)
    (hl : ∃ f, (⟨f, .setInterrupt a.id⟩ : Listener) ∈ m.listeners)
    (hw : a.stage = .handleNewBlock → Note.handleNewBlock a.id ∈ m.log) : Inv (suspend a m) where
  assemble_lt := hi.assemble_lt
  fn_lt := hi.fn_lt
  listening a' h := by
    rcases List.mem_append.mp h with h | h
    · exact hi.listening a' h
    · rw [List.mem_singleton.mp h]; exact hl
  waiting a' h := by
    rcases List.mem_append.mp h with h | h
    · exact hi.waiting a' h
    · rw [List.mem_singleton.mp h]; exact hw
  removed := hi.removed

private theorem Inv.listened (hi : Inv m) (h : Handler) : Inv (addListener h m) where
  assemble_lt r hr := Nat.lt_succ_of_lt (hi.assemble_lt r hr)
  fn_lt l hl := by
    rcases List.mem_append.mp hl with hl | hl
    · exact Nat.lt_succ_of_lt (hi.fn_lt l hl)
    · rw [List.mem_singleton.mp hl]; exact Nat.lt_succ_self _
  listening a ha := by
    obtain ⟨f, hf⟩ := hi.listening a ha
    exact ⟨f, List.mem_append_left _ hf⟩
  waiting := hi.waiting
  removed := hi.removed

private theorem Inv.unbound (hi : Inv m) : Inv (removeBound m) := by
  rw [removeBound_eq hi.fn_lt]
  exact hi.mono _ rfl rfl (fun _ h => h) (Nat.le_succ _)

private theorem Inv.calmed (hi : Inv m) {m' : Miner} (h : Calm m m') : Inv m' where
  assemble_lt r hr := by
    obtain ⟨ts, e⟩ := h.log
    rw [e] at hr
    rcases List.mem_append.mp hr with hr | hr
    · exact Nat.lt_of_lt_of_le (hi.assemble_lt r hr) h.fresh
    · simp at hr
  fn_lt l hl := Nat.lt_of_lt_of_le (hi.fn_lt l (h.listeners ▸ hl)) h.fresh
  listening a' ha' := by
    obtain ⟨a, ha, hid, -⟩ := h.mem ha'
    rw [h.listeners, ← hid]
    exact hi.listening a ha
  waiting a' ha' hs := by
    obtain ⟨a, ha, hid, hst⟩ := h.mem ha'
    obtain ⟨ts, e⟩ := h.log
    rw [e, ← hid]
    exact List.mem_append_left _ (hi.waiting a ha (hst.trans hs))
  removed r hr := by
    obtain ⟨ts, e⟩ := h.log
    rw [e] at hr ⊢
    rcases List.mem_append.mp hr with hr | hr
    · exact List.mem_append_left _ (hi.removed r hr)
    · simp at hr

theorem Inv.resumed (hi : Inv m) {a : Assembly}
    (hl : ∃ f, (⟨f, .setInterrupt a.id⟩ : Listener) ∈ m.listeners)
    (hw : a.stage = .handleNewBlock → Note.handleNewBlock a.id ∈ m.log) (reply : Reply) :
    Inv (resume c a reply m) := by
  have h := resume_resumed c a reply m
  generalize resume c a reply m = m' at h
  cases h with
  | settled b flag =>
    refine Inv.noted ?_ (by simp) (by simp)
    cases flag
    · exact hi.mono _ rfl rfl (fun _ h => h) le_rfl
    · exact hi
  | waits s hs => exact hi.suspended { a with stage := s } hl (fun h => absurd h hs)
  | addTransaction i n =>
    exact (hi.noted (by simp) (by simp)).suspended { a with stage := .addTransaction i n } hl (by simp)
  | build => exact (hi.noted (by simp) (by simp)).suspended { a with stage := .build } hl (by simp)
  | handleNewBlock =>
    exact ((hi.flag false).noted (by simp) (by simp)).suspended
      { a with stage := .handleNewBlock } hl (fun _ => List.mem_append_right _ (List.mem_singleton_self _))
  | removeNewBlockTxs hs =>
    refine Inv.noted (Inv.unbound (hi.noted (by simp) ?_)) (by simp) (by simp)
    rintro r ⟨⟩
    exact hw hs

private theorem assembleBlock_inv (hi : Inv m) (check : SignCheck) (genesis : Bool) (baseFee : Option Nat) :
    Inv (assembleBlock c check genesis baseFee m) := by
  unfold assembleBlock
  split
  · exact hi
  · have h₁ : Inv (addListener (.setInterrupt m.fresh)
        (note (.assemble m.fresh) { m with assembling := true, fresh := m.fresh + 1 })) :=
      ((hi.mono { m with assembling := true, fresh := m.fresh + 1 } rfl rfl (fun _ h => h)
        (Nat.le_succ _)).noted (by simp) (by simp)).listened _
    have hl : ∃ f, (⟨f, .setInterrupt m.fresh⟩ : Listener) ∈
        (addListener (.setInterrupt m.fresh)
          (note (.assemble m.fresh) { m with assembling := true, fresh := m.fresh + 1 })).listeners :=
      ⟨m.fresh + 1, by simp [addListener, note]⟩
    have hw : (if genesis then Stage.generateCanonicalGenesis baseFee else .setStateRoot baseFee) ≠
        .handleNewBlock := by
      split <;> simp
    dsimp only
    split
    · split
      · exact h₁.suspended _ hl (fun h => absurd h hw)
      · exact (h₁.flag false).noted (by simp) (by simp)
      · exact Inv.noted h₁ (by simp) (by simp)
    · exact h₁.suspended _ hl (fun h => absurd h hw)

theorem step_inv (hi : Inv m) (e : Event) : Inv (step c m e) := by
  have h := step_cases c m e
  generalize step c m e = m' at h
  cases h with
  | unchanged => exact hi
  | start => exact (((hi.mono { m with running := true } rfl rfl (fun _ h => h) le_rfl).noted
      (by simp) (by simp)).listened _).calmed (queueNextAssembly_calm c _)
  | stop =>
    refine Inv.noted ?_ (by simp) (by simp)
    exact hi.unbound.mono _ (by rw [clearNext_eq]) (by rw [clearNext_eq])
      (by rw [clearNext_eq]; exact fun _ h => h) (by rw [clearNext_eq])
  | @fire t check genesis baseFee _ =>
    exact assembleBlock_inv (hi.mono { m with timers := m.timers.erase t } rfl rfl (fun _ h => h)
      le_rfl) check genesis baseFee
  | chainUpdated number target =>
    exact (hi.noted (by simp) (by simp)).calmed (handlers_calm c number target _ _)
  | signerFulfilled =>
    exact (hi.mono _ rfl rfl (fun _ h => h) le_rfl).calmed ⟨rfl, rfl, fun _ h => h, Nat.le_succ _, [_], rfl⟩
  | signerRejected => exact hi.mono _ rfl rfl (fun _ h => h) le_rfl
  | @settle r a reply ha =>
    have hmem := List.mem_of_find?_eq_some ha
    exact (hi.mono { m with assemblies := m.assemblies.filter (·.id ≠ r) } rfl rfl
      (fun _ h => (List.mem_filter.mp h).1) le_rfl).resumed (hi.listening a hmem)
      (hi.waiting a hmem) reply

theorem run_inv (hi : Inv m) (es : List Event) : Inv (run c m es) := by
  induction es generalizing m with
  | nil => exact hi
  | cons e es ih => exact ih (step_inv hi e)

end Inv

/-! ### A run that `setInterrupt` has reached -/

/-- The run whose call of `addTransaction`, `build`, `handleNewBlock` or `removeNewBlockTxs` a
note records. -/
def Note.caller : Note → Option Nat
  | .addTransaction r | .build r | .handleNewBlock r | .removeNewBlockTxs r => some r
  | _ => none

/-- The run `r` was reached by `setInterrupt` before it called `handleNewBlock`: every waiting
copy of it has `interrupt` set and does not wait at `handleNewBlock`, and no new run is `r`. -/
structure Doomed (r : Nat) (m : Miner) : Prop where
  lt : r < m.fresh
  interrupt : ∀ a ∈ m.assemblies, a.id = r → a.interrupt = true
  stage : ∀ a ∈ m.assemblies, a.id = r → a.stage ≠ .handleNewBlock

/-- From `m` to `m'` the run `r` stays doomed and makes none of its calls. -/
structure Quiet (r : Nat) (m m' : Miner) : Prop where
  doomed : Doomed r m'
  log : ∃ new, m'.log = m.log ++ new ∧ ∀ n ∈ new, n.caller ≠ some r

section Quiet

variable {c} {r : Nat} {m : Miner}

theorem Quiet.trans {m₁ m₂ m₃ : Miner} (h₁ : Quiet r m₁ m₂) (h₂ : Quiet r m₂ m₃) :
    Quiet r m₁ m₃ := by
  obtain ⟨n₁, e₁, q₁⟩ := h₁.log
  obtain ⟨n₂, e₂, q₂⟩ := h₂.log
  refine ⟨h₂.doomed, n₁ ++ n₂, by rw [e₂, e₁, List.append_assoc], fun n hn => ?_⟩
  rcases List.mem_append.mp hn with hn | hn
  exacts [q₁ n hn, q₂ n hn]

private theorem Doomed.mono (hd : Doomed r m) (m' : Miner) (hlog : m'.log = m.log)
    (ha : ∀ a ∈ m'.assemblies, a ∈ m.assemblies) (hf : m.fresh ≤ m'.fresh) : Quiet r m m' :=
  ⟨⟨Nat.lt_of_lt_of_le hd.lt hf, fun a h => hd.interrupt a (ha a h), fun a h => hd.stage a (ha a h)⟩,
    [], by simp [hlog]⟩

private theorem Doomed.noted (hd : Doomed r m) (n : Note) (hn : n.caller ≠ some r) : Quiet r m (note n m) :=
  ⟨⟨hd.lt, hd.interrupt, hd.stage⟩, [n], rfl, by simpa using hn⟩

theorem Doomed.suspended (hd : Doomed r m) (a : Assembly)
    (ha : a.id = r → a.interrupt = true ∧ a.stage ≠ .handleNewBlock) : Quiet r m (suspend a m) := by
  refine ⟨⟨hd.lt, fun a' h hr => ?_, fun a' h hr => ?_⟩, [], by simp [suspend]⟩
  · rcases List.mem_append.mp h with h | h
    · exact hd.interrupt a' h hr
    · rw [List.mem_singleton.mp h] at hr ⊢; exact (ha hr).1
  · rcases List.mem_append.mp h with h | h
    · exact hd.stage a' h hr
    · rw [List.mem_singleton.mp h] at hr ⊢; exact (ha hr).2

private theorem Doomed.calmed (hd : Doomed r m) {m' : Miner} (h : Calm m m') : Quiet r m m' := by
  obtain ⟨ts, e⟩ := h.log
  refine ⟨⟨Nat.lt_of_lt_of_le hd.lt h.fresh, h.interrupt r hd.interrupt, fun a' ha' hr => ?_⟩,
    ts.map .timerSet, e, by simp [Note.caller]⟩
  obtain ⟨a, ha, hid, hst⟩ := h.mem ha'
  rw [← hst]
  exact hd.stage a ha (hid.trans hr)

private theorem Doomed.quiet (hd : Doomed r m) : Quiet r m m := ⟨hd, [], by simp, by simp⟩

private theorem Quiet.noted {m' : Miner} (h : Quiet r m m') (n : Note) (hn : n.caller ≠ some r) :
    Quiet r m (note n m') :=
  h.trans (h.doomed.noted n hn)

theorem Quiet.suspended {m' : Miner} (h : Quiet r m m') (a : Assembly)
    (ha : a.id = r → a.interrupt = true ∧ a.stage ≠ .handleNewBlock) : Quiet r m (suspend a m') :=
  h.trans (h.doomed.suspended a ha)

theorem Quiet.flag {m' : Miner} (h : Quiet r m m') (b : Bool) :
    Quiet r m { m' with assembling := b } :=
  h.trans (h.doomed.mono _ rfl (fun _ h => h) le_rfl)

/-- Resuming a waiting run: a copy of `r` goes on doomed, and any other run's calls are its own. -/
theorem Doomed.resumed (hd : Doomed r m) {a : Assembly}
    (ha : a.id = r → a.interrupt = true ∧ a.stage ≠ .handleNewBlock) (reply : Reply) :
    Quiet r m (resume c a reply m) := by
  have h := resume_resumed c a reply m
  generalize resume c a reply m = m' at h
  have other (hi : a.interrupt = false) : some a.id ≠ some r := fun e =>
    absurd (ha (Option.some.inj e)).1 (by simp [hi])
  cases h with
  | settled b flag =>
    refine Quiet.noted ?_ _ (by simp [Note.caller])
    cases flag
    · exact hd.quiet.flag false
    · exact hd.quiet
  | waits s hs => exact hd.suspended _ fun h => ⟨(ha h).1, hs⟩
  | addTransaction i n hi =>
    exact (hd.quiet.noted (.addTransaction a.id) (other hi)).suspended _
      fun h => absurd (congrArg some h) (other hi)
  | build hi =>
    exact (hd.quiet.noted (.build a.id) (other hi)).suspended _
      fun h => absurd (congrArg some h) (other hi)
  | handleNewBlock hi =>
    exact ((hd.quiet.flag false).noted (.handleNewBlock a.id) (other hi)).suspended _
      fun h => absurd (congrArg some h) (other hi)
  | removeNewBlockTxs hs =>
    have hne : some a.id ≠ some r := fun e => (ha (Option.some.inj e)).2 hs
    have h₁ := hd.quiet.noted (.removeNewBlockTxs a.id) hne
    exact (h₁.trans (h₁.doomed.mono (removeBound (note (.removeNewBlockTxs a.id) m)) rfl
      (fun _ h => h) (Nat.le_succ _))).noted _ (by simp [Note.caller])

private theorem Quiet.listened {m' : Miner} (h : Quiet r m m') (k : Handler) :
    Quiet r m (addListener k m') :=
  h.trans (h.doomed.mono _ rfl (fun _ h => h) (Nat.le_succ _))

private theorem Quiet.calmed {m' m'' : Miner} (h : Quiet r m m') (hc : Calm m' m'') : Quiet r m m'' :=
  h.trans (h.doomed.calmed hc)

private theorem assembleBlock_quiet (hd : Doomed r m) (check : SignCheck) (genesis : Bool)
    (baseFee : Option Nat) : Quiet r m (assembleBlock c check genesis baseFee m) := by
  unfold assembleBlock
  split
  · exact hd.quiet
  · have h₁ := ((hd.mono { m with assembling := true, fresh := m.fresh + 1 } rfl (fun _ h => h)
      (Nat.le_succ _)).noted (.assemble m.fresh) (by simp [Note.caller])).listened
      (.setInterrupt m.fresh)
    have hne : m.fresh ≠ r := Nat.ne_of_gt hd.lt
    dsimp only
    split
    · split
      · exact h₁.suspended _ fun h => absurd h hne
      · exact (h₁.flag false).noted _ (by simp [Note.caller])
      · exact h₁.noted _ (by simp [Note.caller])
    · exact h₁.suspended _ fun h => absurd h hne

/-- A doomed run stays doomed and silent whatever happens next. -/
theorem step_quiet (hd : Doomed r m) (e : Event) : Quiet r m (step c m e) := by
  have h := step_cases c m e
  generalize step c m e = m' at h
  cases h with
  | unchanged => exact hd.quiet
  | start => exact (((hd.mono { m with running := true } rfl (fun _ h => h) le_rfl).noted .started
      (by simp [Note.caller])).listened .chainUpdated).calmed (queueNextAssembly_calm c _)
  | stop =>
    have h₁ := hd.mono (removeBound m) rfl (fun _ h => h) (Nat.le_succ _)
    exact (h₁.trans (h₁.doomed.mono { clearNext (removeBound m) with running := false }
      (by rw [clearNext_eq]) (by rw [clearNext_eq]; exact fun _ h => h) (by rw [clearNext_eq]))).noted
      .stopped (by simp [Note.caller])
  | @fire t check genesis baseFee _ =>
    have h₁ := hd.mono { m with timers := m.timers.erase t } rfl (fun _ h => h) le_rfl
    exact h₁.trans (assembleBlock_quiet h₁.doomed check genesis baseFee)
  | chainUpdated number target =>
    exact (hd.noted .chainUpdated (by simp [Note.caller])).calmed (handlers_calm c number target _ _)
  | @signerFulfilled q _ =>
    exact (hd.mono { m with queued := m.queued.erase q } rfl (fun _ h => h) le_rfl).calmed
      ⟨rfl, rfl, fun _ h => h, Nat.le_succ _, [_], rfl⟩
  | signerRejected => exact hd.mono _ rfl (fun _ h => h) le_rfl
  | @settle r' a reply ha =>
    have hmem := List.mem_of_find?_eq_some ha
    have h₁ := hd.mono { m with assemblies := m.assemblies.filter (·.id ≠ r') } rfl
      (fun _ h => (List.mem_filter.mp h).1) le_rfl
    exact h₁.trans (h₁.doomed.resumed (fun h => ⟨hd.interrupt a hmem h, hd.stage a hmem h⟩) reply)

theorem run_quiet (hd : Doomed r m) (es : List Event) : Quiet r m (run c m es) := by
  induction es generalizing m with
  | nil => exact hd.quiet
  | cons e es ih =>
    have h : Quiet r m (step c m e) := step_quiet hd e
    exact h.trans (ih h.doomed)

/-- `CHAIN_UPDATED` dooms a run that is registered and has not called `handleNewBlock`. -/
theorem Inv.emit_doomed (hi : Inv m) (number : Nat) (target : Int) (hr : Note.assemble r ∈ m.log)
    (hh : Note.handleNewBlock r ∉ m.log) : Quiet r m (emit c number target m) := by
  have hc := handlers_calm c number target m.listeners (note .chainUpdated m)
  refine ⟨⟨Nat.lt_of_lt_of_le (hi.assemble_lt r hr) hc.fresh, fun a' ha' hid => ?_,
    fun a' ha' hid hst => ?_⟩, ?_⟩
  · obtain ⟨a, ha, e, -⟩ := hc.mem ha'
    obtain ⟨f, hf⟩ := hi.listening a ha
    rw [e, hid] at hf
    exact handlers_interrupt c number target hf _ a' ha' hid
  · obtain ⟨a, ha, e, e'⟩ := hc.mem ha'
    exact hh (e.trans hid ▸ hi.waiting a ha (e'.trans hst))
  · obtain ⟨ts, e⟩ := hc.log
    exact ⟨.chainUpdated :: ts.map .timerSet, by rw [emit, e]; simp [note], by simp [Note.caller]⟩

end Quiet

/-! ### The interrupt -/

/-- Over every sequence of events: when `CHAIN_UPDATED` is emitted after a run `r` has passed the
guard (and so registered `setInterrupt`) and before it has called `handleNewBlock`, the run calls
neither `addTransaction` nor `build` afterwards, and never calls `handleNewBlock` or
`removeNewBlockTxs`. -/
theorem chainUpdated_stops_assembly (es₁ es₂ : List Event) (number : Nat) (target : Int) (r : Nat)
    (hr : Note.assemble r ∈ (run c init es₁).log)
    (hh : Note.handleNewBlock r ∉ (run c init es₁).log) :
    ∃ new, (run c init (es₁ ++ .chainUpdated number target :: es₂)).log =
        (run c init es₁).log ++ new ∧
      Note.addTransaction r ∉ new ∧ Note.build r ∉ new ∧
      Note.handleNewBlock r ∉ (run c init (es₁ ++ .chainUpdated number target :: es₂)).log ∧
      Note.removeNewBlockTxs r ∉ (run c init (es₁ ++ .chainUpdated number target :: es₂)).log := by
  have hi : Inv (run c init es₁) := run_inv init_inv es₁
  have he : Quiet r _ (emit c number target _) := hi.emit_doomed number target hr hh
  have hrun : run c init (es₁ ++ .chainUpdated number target :: es₂) =
      run c (emit c number target (run c init es₁)) es₂ := by
    simp only [run, List.foldl_append, List.foldl_cons]; rfl
  obtain ⟨new, e, hq⟩ := (he.trans (run_quiet he.doomed es₂)).log
  rw [hrun, e]
  refine ⟨new, rfl, fun h => hq _ h rfl, fun h => hq _ h rfl, fun h => ?_, fun h => ?_⟩
  · rcases List.mem_append.mp h with h | h
    exacts [hh h, hq _ h rfl]
  · rcases List.mem_append.mp h with h | h
    exacts [hh (hi.removed r h), hq _ h rfl]

/-- A run interrupted while it waits for `setStateRoot`: it ends at the loop without a call. -/
theorem chainUpdated_stops_assembly_pow :
    Note.assemble 2 ∈ (run ⟨true, false⟩ init [.start, .fire 1 .pass false]).log ∧
    Note.handleNewBlock 2 ∉ (run ⟨true, false⟩ init [.start, .fire 1 .pass false]).log ∧
    ∃ new, (run ⟨true, false⟩ init ([.start, .fire 1 .pass false] ++ .chainUpdated ::
        [.settle 2 (.value 0), .settle 2 (.value 0), .settle 2 (.value 3)])).log =
        (run ⟨true, false⟩ init [.start, .fire 1 .pass false]).log ++ new ∧
      Note.addTransaction 2 ∉ new ∧ Note.build 2 ∉ new ∧
      Note.handleNewBlock 2 ∉ (run ⟨true, false⟩ init ([.start, .fire 1 .pass false] ++
        .chainUpdated :: [.settle 2 (.value 0), .settle 2 (.value 0), .settle 2 (.value 3)])).log ∧
      Note.removeNewBlockTxs 2 ∉ (run ⟨true, false⟩ init ([.start, .fire 1 .pass false] ++
        .chainUpdated :: [.settle 2 (.value 0), .settle 2 (.value 0), .settle 2 (.value 3)])).log :=
  ⟨by decide, by decide, chainUpdated_stops_assembly _ _ _ _ _ 2 (by decide) (by decide)⟩

end Miner

end EthereumJs
