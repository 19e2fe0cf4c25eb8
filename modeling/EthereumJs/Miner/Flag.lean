import EthereumJs.Miner.Model

/-!
# The `assembling` flag

`assembling` is the guard of `assembleBlock`. Two ends of a run leave it wrong:

* (lowered early) a run lowers it after `build`, before it awaits `handleNewBlock`; from any
  running miner whose flag is down, `stop`, `start` and the timer that `start` sets put a new
  run beside every run in flight (`restart_admits`), so two uninterrupted runs can be in flight
  together (`two_runs_in_flight`);
* (never lowered) a run that rejects leaves it up with no run in flight, and only a
  `CHAIN_UPDATED` that reaches a `setInterrupt` lowers it again; one rejected `setStateRoot`
  reaches that state (`rejected_run_stalls`).
-/

namespace EthereumJs

namespace Miner

variable (c : Config)

/-! ### A restart while the flag is down -/

/-- On a proof-of-work chain, a restart while the flag is down sets a timer that starts a new
run beside every run in flight. -/
theorem restart_admits (hm : c.mine = true) (hc : c.poa = false) {m : Miner}
    (hr : m.running = true) (ha : m.assembling = false) (check : SignCheck) (genesis : Bool)
    (baseFee : Option Nat) :
    (run c m [.stop, .start, .fire (m.fresh + 2) check genesis baseFee]).assemblies =
      m.assemblies ++ [⟨m.fresh + 3, false,
        if genesis then .generateCanonicalGenesis baseFee else .setStateRoot baseFee⟩] := by
  simp [run, step, stop, start, hr, hm, hc, ha, queueNextAssembly, setNextTimer, clearNext_eq,
    removeBound, removeListener, addListener, note, assembleBlock, suspend]

/-- A run that has called `handleNewBlock` leaves the flag down while it waits; a restart then
puts a second uninterrupted run in flight beside it. -/
theorem two_runs_in_flight :
    (run ⟨true, false⟩ init [.start, .fire 1 .pass false, .settle 2 (.value 0),
      .settle 2 (.value 0), .settle 2 (.value 0), .settle 2 (.value 0)]).assembling = false ∧
    (run ⟨true, false⟩ init [.start, .fire 1 .pass false, .settle 2 (.value 0),
      .settle 2 (.value 0), .settle 2 (.value 0), .settle 2 (.value 0), .stop, .start,
      .fire 6 .pass false]).assemblies = [⟨2, false, .handleNewBlock⟩, ⟨7, false, .setStateRoot⟩] := by
  have hm : (run ⟨true, false⟩ init [.start, .fire 1 .pass false, .settle 2 (.value 0),
      .settle 2 (.value 0), .settle 2 (.value 0), .settle 2 (.value 0)]).running = true ∧
    (run ⟨true, false⟩ init [.start, .fire 1 .pass false, .settle 2 (.value 0),
      .settle 2 (.value 0), .settle 2 (.value 0), .settle 2 (.value 0)]).assembling = false ∧
    (run ⟨true, false⟩ init [.start, .fire 1 .pass false, .settle 2 (.value 0),
      .settle 2 (.value 0), .settle 2 (.value 0), .settle 2 (.value 0)]).fresh = 4 ∧
    (run ⟨true, false⟩ init [.start, .fire 1 .pass false, .settle 2 (.value 0),
      .settle 2 (.value 0), .settle 2 (.value 0), .settle 2 (.value 0)]).assemblies =
      [⟨2, false, .handleNewBlock⟩] := by
    decide
  have h := restart_admits ⟨true, false⟩ rfl rfl hm.1 hm.2.1 .pass false none
  rw [hm.2.2.1, hm.2.2.2] at h
  exact ⟨hm.2.1, h⟩

/-! ### A rejected run -/

/-- On a proof-of-authority chain, a run whose `setStateRoot` rejects rejects too, and leaves
the flag up with no run in flight. -/
theorem rejected_run_stalls :
    (run ⟨true, true⟩ init [.start, .signerInTurn 1 true, .fire 2 .pass false,
      .settle 3 (.error false)]).log = [.started, .timerSet 2, .assemble 3, .settled 3 true] ∧
    (run ⟨true, true⟩ init [.start, .signerInTurn 1 true, .fire 2 .pass false,
      .settle 3 (.error false)]).assembling = true ∧
    (run ⟨true, true⟩ init [.start, .signerInTurn 1 true, .fire 2 .pass false,
      .settle 3 (.error false)]).assemblies = [] := by
  decide

end Miner

end EthereumJs
