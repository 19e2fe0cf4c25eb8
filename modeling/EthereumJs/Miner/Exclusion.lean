import EthereumJs.Miner.Interrupt
import EthereumJs.Miner.Timers

/-!
# One uninterrupted run, while the miner is not stopped

On a proof-of-work chain a timer is set only by `start` and by `chainUpdated`, and the emission
that runs `chainUpdated` reaches every run in flight through its `setInterrupt`. So as long as
`stop` is never called, the uninterrupted runs in flight and the pending timers are at most one
together, and two uninterrupted runs are never in flight at once (`pow_runs_exclusive`). A second
uninterrupted run needs a restart (`restart_admits`).
-/

namespace EthereumJs

namespace Miner

variable (c : Config)

/-- The runs in flight that no `setInterrupt` has reached. -/
def uninterrupted (m : Miner) : Nat := m.assemblies.countP (!·.interrupt)

/-- What holds while the miner has not been stopped: before `start` nothing is pending, and after
it the uninterrupted runs and the pending timers are at most one together. -/
structure Exclusive (m : Miner) : Prop where
  idle : m.running = false → m.timers = [] ∧ m.assemblies = [] ∧ m.listeners = []
  one : uninterrupted m + m.timers.length ≤ 1

section Exclusive

variable {c} {m : Miner}

private theorem init_exclusive : Exclusive init := ⟨fun _ => ⟨rfl, rfl, rfl⟩, Nat.zero_le _⟩

private theorem queueNextAssembly_keeps (m : Miner) :
    (queueNextAssembly c m).running = m.running ∧ (queueNextAssembly c m).assemblies = m.assemblies := by
  unfold queueNextAssembly setNextTimer
  rw [clearNext_eq]
  cases c.poa <;> exact ⟨rfl, rfl⟩

private theorem assembleBlock_uninterrupted (check : SignCheck) (genesis : Bool) (baseFee : Option Nat) :
    uninterrupted (assembleBlock c check genesis baseFee m) ≤ uninterrupted m + 1 ∧
      (assembleBlock c check genesis baseFee m).timers = m.timers ∧
      (assembleBlock c check genesis baseFee m).running = m.running := by
  unfold assembleBlock
  split
  · exact ⟨Nat.le_succ _, rfl, rfl⟩
  · dsimp only
    split
    · split <;> exact ⟨by simp [addListener, note, suspend, uninterrupted], rfl, rfl⟩
    · exact ⟨by simp [addListener, note, suspend, uninterrupted], rfl, rfl⟩

private theorem resume_uninterrupted (a : Assembly) (reply : Reply) (m : Miner) :
    uninterrupted (resume c a reply m) ≤ uninterrupted m + (if a.interrupt then 0 else 1) ∧
      (resume c a reply m).timers = m.timers ∧ (resume c a reply m).running = m.running := by
  have h := resume_resumed c a reply m
  generalize resume c a reply m = m' at h
  cases h with
  | settled b flag => cases flag <;> exact ⟨Nat.le_add_right _ _, rfl, rfl⟩
  | removeNewBlockTxs => exact ⟨Nat.le_add_right _ _, rfl, rfl⟩
  | _ => exact ⟨by cases h : a.interrupt <;> simp [note, suspend, uninterrupted, h], rfl, rfl⟩

private theorem countP_filter_ne {l : List Assembly} {a : Assembly} (ha : a ∈ l) :
    (l.filter (·.id ≠ a.id)).countP (!·.interrupt) + (if a.interrupt then 0 else 1) ≤
      l.countP (!·.interrupt) := by
  induction l with
  | nil => cases ha
  | cons x l ih =>
    have hle : (l.filter (·.id ≠ a.id)).countP (!·.interrupt) ≤ l.countP (!·.interrupt) :=
      (List.filter_sublist l).countP_le _
    simp only [ne_eq, decide_not] at ih hle ⊢
    rcases List.mem_cons.mp ha with rfl | ha
    · cases h : a.interrupt <;> simp [List.countP_cons, h] <;> omega
    · have := ih ha
      by_cases hx : x.id = a.id <;> cases h : x.interrupt <;>
        simp [List.filter_cons, List.countP_cons, hx, h] <;> omega

private theorem emit_running (number : Nat) (target : Int) (m : Miner) :
    (emit c number target m).running = m.running := by
  unfold emit
  suffices ∀ (ls : List Listener) (m : Miner),
      (ls.foldl (fun m l => runHandler c number target m l.handler) m).running = m.running from
    this _ _
  intro ls
  induction ls with
  | nil => exact fun _ => rfl
  | cons l ls ih =>
    intro m
    rw [List.foldl_cons, ih]
    cases l.handler
    · rcases chainUpdated_cases c number target m with e | e <;> simp only [runHandler, e]
      exact (queueNextAssembly_keeps m).1
    · rfl

/-- An emission reaches every run in flight of a reachable miner. -/
theorem Inv.emit_uninterrupted (hi : Inv m) (number : Nat) (target : Int) :
    uninterrupted (emit c number target m) = 0 := by
  have hc := handlers_calm c number target m.listeners (note .chainUpdated m)
  refine List.countP_eq_zero.mpr fun a' ha' => ?_
  obtain ⟨a, ha, e, -⟩ := hc.mem ha'
  obtain ⟨f, hf⟩ := hi.listening a ha
  rw [e] at hf
  simp [handlers_interrupt c number target hf _ a' ha' rfl]

/-- On a reachable proof-of-work miner, every event but `stop` keeps `Exclusive`. -/
theorem step_exclusive (hc : c.poa = false) (hi : Inv m) (ho : OneTimer m) (hx : Exclusive m)
    (e : Event) (he : e ≠ .stop) : Exclusive (step c m e) := by
  have hs := step_cases c m e
  generalize step c m e = m' at hs
  cases hs with
  | unchanged => exact hx
  | start _ hr =>
    obtain ⟨-, ha, -⟩ := hx.idle hr
    obtain ⟨hrun, hasm⟩ := queueNextAssembly_keeps (c := c)
      (addListener .chainUpdated (note .started { m with running := true }))
    have h₀ : OneTimer (addListener .chainUpdated (note .started { m with running := true })) :=
      ho.frame rfl rfl rfl
    have hl := (queueNextAssembly_oneTimer hc h₀).length_le
    refine ⟨fun h => absurd (hrun.symm.trans h) (by simp [addListener, note]), ?_⟩
    unfold uninterrupted
    rw [hasm]
    simpa [addListener, note, ha] using hl
  | stop => exact absurd rfl he
  | @fire t check genesis baseFee ht =>
    obtain ⟨h₁, h₂, h₃⟩ := assembleBlock_uninterrupted (c := c)
      (m := { m with timers := m.timers.erase t }) check genesis baseFee
    have hlen := List.length_erase_of_mem ht
    have hpos := List.length_pos_of_mem ht
    refine ⟨fun h => absurd (hx.idle (h₃ ▸ h)).1 (List.ne_nil_of_mem ht), ?_⟩
    have := hx.one
    rw [h₂]
    simp only [uninterrupted] at h₁ this ⊢
    omega
  | chainUpdated number target =>
    have ht : OneTimer (emit c number target m) :=
      handlers_oneTimer hc number target _ (ho.frame rfl rfl rfl)
    refine ⟨fun h => ?_, by rw [hi.emit_uninterrupted, Nat.zero_add]; exact ht.length_le⟩
    obtain ⟨ht, ha, hl⟩ := hx.idle (emit_running (c := c) number target m ▸ h)
    simp [emit, hl, note, ht, ha]
  | signerFulfilled hq | signerRejected hq => exact absurd (ho.queued ▸ hq) (List.not_mem_nil _)
  | @settle r a reply ha =>
    have hmem := List.mem_of_find?_eq_some ha
    have hid : a.id = r := by simpa using List.find?_some ha
    subst hid
    obtain ⟨h₁, h₂, h₃⟩ := resume_uninterrupted (c := c) a reply
      { m with assemblies := m.assemblies.filter (·.id ≠ a.id) }
    refine ⟨fun h => absurd (hx.idle (h₃ ▸ h)).2.1 (List.ne_nil_of_mem hmem), ?_⟩
    have := countP_filter_ne hmem
    have := hx.one
    rw [h₂]
    simp only [uninterrupted] at h₁ this ⊢
    omega

theorem run_exclusive (hc : c.poa = false) (hi : Inv m) (ho : OneTimer m) (hx : Exclusive m)
    (es : List Event) (hs : Event.stop ∉ es) : Exclusive (run c m es) := by
  induction es generalizing m with
  | nil => exact hx
  | cons e es ih =>
    exact ih (step_inv hi e) (step_oneTimer hc ho e)
      (step_exclusive hc hi ho hx e fun h => hs (h ▸ List.mem_cons_self _ _))
      fun h => hs (List.mem_cons_of_mem _ h)

end Exclusive

/-- On a proof-of-work chain, over every sequence of events in which `stop` is never called, at
most one run in flight is uninterrupted. -/
theorem pow_runs_exclusive (hc : c.poa = false) (es : List Event) (hs : Event.stop ∉ es) :
    ((run c init es).assemblies.filter (!·.interrupt)).length ≤ 1 := by
  have h := (run_exclusive hc init_inv init_oneTimer init_exclusive es hs).one
  rw [uninterrupted, List.countP_eq_length_filter] at h
  omega

/-- A first run left waiting at `handleNewBlock` when `CHAIN_UPDATED` comes, and a second run
from the timer that `chainUpdated` sets. -/
theorem pow_runs_exclusive_chainUpdated :
    ((run ⟨true, false⟩ init [.start, .fire 1 .pass false, .settle 2 (.value 0),
      .settle 2 (.value 0), .settle 2 (.value 0), .settle 2 (.value 0), .chainUpdated,
      .fire 4 .pass false]).assemblies.filter (!·.interrupt)).length ≤ 1 :=
  pow_runs_exclusive ⟨true, false⟩ rfl _ (by decide)

end Miner

end EthereumJs
