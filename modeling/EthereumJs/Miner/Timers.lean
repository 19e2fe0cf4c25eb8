import EthereumJs.Miner.Interrupt

/-!
# The assembly timer

`queueNextAssembly` clears the stored timer and then stores the one it sets. On a proof-of-work
chain nothing comes between the two, so over every order of the events at most one assembly
timer is pending and `_nextAssemblyTimeoutId` names it (`pow_one_timer`). On a
proof-of-authority chain the call waits for `cliqueSignerInTurn` in between: two calls that
wait together both set a timer, and the first one is never cleared
(`poa_overlapping_timers`).
-/

namespace EthereumJs

namespace Miner

variable (c : Config)

/-- What holds on a proof-of-work chain: no `queueNextAssembly` call waits, and the pending
timers are at most the one that `_nextAssemblyTimeoutId` names. -/
structure OneTimer (m : Miner) : Prop where
  queued : m.queued = []
  timers : m.timers.Sublist m.nextAssemblyTimeoutId.toList

section OneTimer

variable {c} {m : Miner}

theorem init_oneTimer : OneTimer init := ⟨rfl, List.nil_sublist _⟩

theorem OneTimer.frame (h : OneTimer m) {m' : Miner} (hq : m'.queued = m.queued)
    (ht : m'.timers = m.timers) (hn : m'.nextAssemblyTimeoutId = m.nextAssemblyTimeoutId) :
    OneTimer m' :=
  ⟨hq.trans h.queued, ht ▸ hn ▸ h.timers⟩

theorem OneTimer.length_le (h : OneTimer m) : m.timers.length ≤ 1 := by
  refine h.timers.length_le.trans ?_
  cases m.nextAssemblyTimeoutId <;> simp

private theorem OneTimer.clearNext_timers (h : OneTimer m) : (clearNext m).timers = [] := by
  have ht := h.timers
  rw [clearNext_eq]
  cases e : m.nextAssemblyTimeoutId with
  | none => simpa [e] using ht
  | some t =>
    rw [e] at ht
    rcases List.sublist_singleton.mp ht with h₀ | h₀ <;> simp [h₀]

theorem queueNextAssembly_oneTimer (hc : c.poa = false) (h : OneTimer m) :
    OneTimer (queueNextAssembly c m) := by
  have ht := h.clearNext_timers
  unfold queueNextAssembly setNextTimer
  rw [hc, if_neg Bool.false_ne_true]
  refine ⟨?_, ?_⟩
  · rw [clearNext_eq]; exact h.queued
  · rw [ht]; exact List.Sublist.refl _

private theorem runHandler_oneTimer (hc : c.poa = false) (number : Nat) (target : Int) (h : OneTimer m)
    (k : Handler) : OneTimer (runHandler c number target m k) := by
  cases k with
  | chainUpdated =>
    show OneTimer (chainUpdated c number target m)
    rcases chainUpdated_cases c number target m with e | e <;> rw [e]
    exacts [h, queueNextAssembly_oneTimer hc h]
  | setInterrupt r => exact h.frame rfl rfl rfl

theorem handlers_oneTimer (hc : c.poa = false) (number : Nat) (target : Int) (ls : List Listener)
    (h : OneTimer m) : OneTimer (ls.foldl (fun m l => runHandler c number target m l.handler) m) := by
  induction ls generalizing m with
  | nil => exact h
  | cons l ls ih => exact ih (runHandler_oneTimer hc number target h l.handler)

theorem OneTimer.resumed (h : OneTimer m) (a : Assembly) (reply : Reply) :
    OneTimer (resume c a reply m) := by
  have hr := resume_resumed c a reply m
  generalize resume c a reply m = m' at hr
  cases hr with
  | settled b flag => cases flag <;> exact h.frame rfl rfl rfl
  | _ => exact h.frame rfl rfl rfl

private theorem OneTimer.assembled (h : OneTimer m) (check : SignCheck) (genesis : Bool)
    (baseFee : Option Nat) : OneTimer (assembleBlock c check genesis baseFee m) := by
  unfold assembleBlock
  split
  · exact h
  · dsimp only
    split
    · split <;> exact h.frame rfl rfl rfl
    · exact h.frame rfl rfl rfl

theorem step_oneTimer (hc : c.poa = false) (h : OneTimer m) (e : Event) :
    OneTimer (step c m e) := by
  have hs := step_cases c m e
  generalize step c m e = m' at hs
  cases hs with
  | unchanged => exact h
  | start => exact queueNextAssembly_oneTimer hc (h.frame rfl rfl rfl)
  | stop =>
    have h₁ : OneTimer (removeBound m) := h.frame rfl rfl rfl
    refine ⟨?_, ?_⟩
    · show (clearNext (removeBound m)).queued = []
      rw [clearNext_eq]; exact h.queued
    · show (clearNext (removeBound m)).timers.Sublist _
      rw [h₁.clearNext_timers]; exact List.nil_sublist _
  | @fire t check genesis baseFee _ =>
    have h₁ : OneTimer { m with timers := m.timers.erase t } :=
      ⟨h.queued, (List.erase_sublist _ _).trans h.timers⟩
    exact h₁.assembled check genesis baseFee
  | chainUpdated number target => exact handlers_oneTimer hc number target _ (h.frame rfl rfl rfl)
  | signerFulfilled hq | signerRejected hq => exact absurd (h.queued ▸ hq) (List.not_mem_nil _)
  | @settle r a reply _ =>
    have h₁ : OneTimer { m with assemblies := m.assemblies.filter (·.id ≠ r) } :=
      h.frame rfl rfl rfl
    exact h₁.resumed a reply

theorem run_oneTimer (hc : c.poa = false) (h : OneTimer m) (es : List Event) :
    OneTimer (run c m es) := by
  induction es generalizing m with
  | nil => exact h
  | cons e es ih => exact ih (step_oneTimer hc h e)

end OneTimer

/-- On a proof-of-work chain, over every sequence of events, at most one assembly timer is
pending, and `_nextAssemblyTimeoutId` names it. -/
theorem pow_one_timer (hc : c.poa = false) (es : List Event) :
    (run c init es).timers.length ≤ 1 ∧
      ∀ t ∈ (run c init es).timers, (run c init es).nextAssemblyTimeoutId = some t := by
  have h := run_oneTimer hc init_oneTimer es
  exact ⟨h.length_le, fun t ht => Option.mem_toList.mp (h.timers.subset ht)⟩

/-- A restart and a `CHAIN_UPDATED` in between leave one timer. -/
theorem pow_one_timer_restarted :
    (⟨true, false⟩ : Config).poa = false ∧
      (run ⟨true, false⟩ init [.start, .chainUpdated, .stop, .start]).timers.length ≤ 1 ∧
      ∀ t ∈ (run ⟨true, false⟩ init [.start, .chainUpdated, .stop, .start]).timers,
        (run ⟨true, false⟩ init [.start, .chainUpdated, .stop, .start]).nextAssemblyTimeoutId =
          some t :=
  ⟨rfl, pow_one_timer ⟨true, false⟩ rfl _⟩

/-- On a proof-of-authority chain, two `queueNextAssembly` calls that wait for
`cliqueSignerInTurn` together leave two timers pending; the first one outlives every later
clearing. -/
theorem poa_overlapping_timers :
    (run ⟨true, true⟩ init [.start, .chainUpdated, .signerInTurn 1 true,
      .signerInTurn 2 true]).timers = [3, 4] ∧
    (run ⟨true, true⟩ init [.start, .chainUpdated, .signerInTurn 1 true,
      .signerInTurn 2 true]).nextAssemblyTimeoutId = some 4 ∧
    (run ⟨true, true⟩ init [.start, .chainUpdated, .signerInTurn 1 true, .signerInTurn 2 true,
      .chainUpdated, .signerInTurn 5 true]).timers = [3, 6] := by
  decide

end Miner

end EthereumJs
