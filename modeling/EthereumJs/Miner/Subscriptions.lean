import EthereumJs.Miner.Interrupt

/-!
# Listeners that are never removed

`stop` hands `removeListener` a new bound copy of `chainUpdated`, and a run that ends after
`handleNewBlock` hands it a new bound copy of `setInterrupt`; neither copy was ever registered,
so nothing is removed, and the other ends of a run remove nothing at all. Over every order of
the events:

* (listeners) the listeners on `config.events` are one `chainUpdated` per `start` that returned
  `true` and one `setInterrupt` per run that passed the guard, in that order (`listeners_of_log`);
  so they grow by one with every run (`listeners_accumulate`);
* (stop) so `stop` keeps the `chainUpdated` listener; it also leaves the `queueNextAssembly` calls
  that wait for `cliqueSignerInTurn` waiting, and either of the two sets a timer that starts a run
  after `stop` (`stopped_miner_assembles`).
-/

namespace EthereumJs

namespace Miner

variable (c : Config)

/-- The listener that the call a note records registers. -/
def Note.subscribes : Note → Option Handler
  | .started => some .chainUpdated
  | .assemble r => some (.setInterrupt r)
  | _ => none

/-! ### The listeners follow the log -/

/-- From `m` to `m'` the log grows, and the listeners grow by what the new notes register. -/
def Grows (m m' : Miner) : Prop :=
  ∃ new, m'.log = m.log ++ new ∧
    m'.listeners.map (·.handler) = m.listeners.map (·.handler) ++ new.filterMap Note.subscribes

section Grows

variable {c} {m : Miner}

theorem Grows.refl (m : Miner) : Grows m m := ⟨[], by simp, by simp⟩

theorem Grows.trans {m₁ m₂ m₃ : Miner} (h₁ : Grows m₁ m₂) (h₂ : Grows m₂ m₃) : Grows m₁ m₃ := by
  obtain ⟨n₁, e₁, l₁⟩ := h₁
  obtain ⟨n₂, e₂, l₂⟩ := h₂
  exact ⟨n₁ ++ n₂, by rw [e₂, e₁, List.append_assoc],
    by rw [l₂, l₁, List.filterMap_append, List.append_assoc]⟩

theorem Grows.of_eq {m' : Miner} (hlog : m'.log = m.log) (hl : m'.listeners = m.listeners) :
    Grows m m' :=
  ⟨[], by simp [hlog], by simp [hl]⟩

private theorem grows_note (n : Note) (hn : n.subscribes = none) : Grows m (note n m) :=
  ⟨[n], rfl, by simp [note, hn]⟩

private theorem grows_subscribe {n : Note} {h : Handler} (hn : n.subscribes = some h) :
    Grows m (addListener h (note n m)) :=
  ⟨[n], rfl, by simp [addListener, note, hn]⟩

theorem Calm.grows {m' : Miner} (h : Calm m m') : Grows m m' := by
  obtain ⟨ts, e⟩ := h.log
  exact ⟨ts.map .timerSet, e, by simp [h.listeners, List.filterMap_map, Function.comp_def,
    Note.subscribes]⟩

private theorem grows_unbound (hf : ∀ l ∈ m.listeners, l.fn < m.fresh) : Grows m (removeBound m) := by
  rw [removeBound_eq hf]
  exact Grows.of_eq rfl rfl

private theorem resume_grows (hf : ∀ l ∈ m.listeners, l.fn < m.fresh) (a : Assembly) (reply : Reply) :
    Grows m (resume c a reply m) := by
  have h := resume_resumed c a reply m
  generalize resume c a reply m = m' at h
  have hflag : Grows m { m with assembling := false } := Grows.of_eq rfl rfl
  cases h with
  | settled b flag =>
    cases flag
    · exact hflag.trans (grows_note _ rfl)
    · exact grows_note _ rfl
  | waits s hs => exact Grows.of_eq rfl rfl
  | addTransaction i n => exact (grows_note (.addTransaction a.id) rfl).trans (Grows.of_eq rfl rfl)
  | build => exact (grows_note (.build a.id) rfl).trans (Grows.of_eq rfl rfl)
  | handleNewBlock =>
    exact (hflag.trans (grows_note (.handleNewBlock a.id) rfl)).trans (Grows.of_eq rfl rfl)
  | removeNewBlockTxs hs =>
    exact ((grows_note (.removeNewBlockTxs a.id) rfl).trans (grows_unbound hf)).trans
      (grows_note _ rfl)

private theorem assembleBlock_grows (check : SignCheck) (genesis : Bool) (baseFee : Option Nat) :
    Grows m (assembleBlock c check genesis baseFee m) := by
  unfold assembleBlock
  split
  · exact Grows.refl m
  · have h₀ : Grows m { m with assembling := true, fresh := m.fresh + 1 } := Grows.of_eq rfl rfl
    have h₁ : Grows m (addListener (.setInterrupt m.fresh)
        (note (.assemble m.fresh) { m with assembling := true, fresh := m.fresh + 1 })) :=
      h₀.trans (grows_subscribe rfl)
    dsimp only
    split
    · split
      · exact h₁.trans (Grows.of_eq rfl rfl)
      · exact (h₁.trans (Grows.of_eq rfl rfl)).trans (grows_note _ rfl)
      · exact h₁.trans (grows_note _ rfl)
    · exact h₁.trans (Grows.of_eq rfl rfl)

/-- On a reachable miner, every event only adds the listeners of its notes. -/
theorem step_grows (hi : Inv m) (e : Event) : Grows m (step c m e) := by
  have h := step_cases c m e
  generalize step c m e = m' at h
  cases h with
  | unchanged => exact Grows.refl m
  | start =>
    have h₀ : Grows m { m with running := true } := Grows.of_eq rfl rfl
    exact (h₀.trans (grows_subscribe (n := .started) rfl)).trans (queueNextAssembly_calm c _).grows
  | stop =>
    exact ((grows_unbound hi.fn_lt).trans (Grows.of_eq (by rw [clearNext_eq])
      (by rw [clearNext_eq]))).trans (grows_note .stopped rfl)
  | @fire t check genesis baseFee _ =>
    have h₀ : Grows m { m with timers := m.timers.erase t } := Grows.of_eq rfl rfl
    exact h₀.trans (assembleBlock_grows check genesis baseFee)
  | chainUpdated number target =>
    exact (grows_note .chainUpdated rfl).trans (handlers_calm c number target _ _).grows
  | signerFulfilled => exact ⟨[.timerSet _], rfl, by simp [setNextTimer, Note.subscribes]⟩
  | signerRejected => exact Grows.of_eq rfl rfl
  | @settle r a reply _ =>
    have h₀ : Grows m { m with assemblies := m.assemblies.filter (·.id ≠ r) } := Grows.of_eq rfl rfl
    exact h₀.trans (resume_grows (m := { m with assemblies := m.assemblies.filter (·.id ≠ r) })
      hi.fn_lt a reply)

theorem run_grows (hi : Inv m) (es : List Event) : Grows m (run c m es) := by
  induction es generalizing m with
  | nil => exact Grows.refl m
  | cons e es ih => exact (step_grows hi e).trans (ih (step_inv hi e))

end Grows

/-- Over every sequence of events, the listeners are those that the logged calls registered,
in order: `removeListener` never removes one. -/
theorem listeners_of_log (es : List Event) :
    (run c init es).listeners.map (·.handler) = (run c init es).log.filterMap Note.subscribes := by
  obtain ⟨new, e, l⟩ := run_grows (c := c) init_inv es
  rw [l, e]
  rfl

/-- Two runs, the first one finished: three listeners, though only one run is in flight. -/
theorem listeners_accumulate :
    (run ⟨true, false⟩ init [.start, .fire 1 .pass false, .settle 2 (.value 0),
      .settle 2 (.value 0), .settle 2 (.value 0), .settle 2 (.value 0), .settle 2 (.value 0),
      .chainUpdated, .fire 5 .pass false]).listeners.map (·.handler) =
        [.chainUpdated, .setInterrupt 2, .setInterrupt 6] ∧
    (run ⟨true, false⟩ init [.start, .fire 1 .pass false, .settle 2 (.value 0),
      .settle 2 (.value 0), .settle 2 (.value 0), .settle 2 (.value 0), .settle 2 (.value 0),
      .chainUpdated, .fire 5 .pass false]).assemblies = [⟨6, false, .setStateRoot⟩] := by
  decide

/-! ### `stop` -/

/-- After `stop` and no `start`, a run passes the guard: on proof of work from `CHAIN_UPDATED`
reaching the `chainUpdated` listener that `stop` kept, on proof of authority from the
`queueNextAssembly` call that waited for `cliqueSignerInTurn`. -/
theorem stopped_miner_assembles :
    (run ⟨true, false⟩ init [.start, .stop, .chainUpdated, .fire 3 .pass false]).log =
      [.started, .timerSet 1, .stopped, .chainUpdated, .timerSet 3, .assemble 4] ∧
    (run ⟨true, true⟩ init [.start, .stop, .signerInTurn 1 true, .fire 3 .pass false]).log =
      [.started, .stopped, .timerSet 3, .assemble 4] := by
  decide

end Miner

end EthereumJs
