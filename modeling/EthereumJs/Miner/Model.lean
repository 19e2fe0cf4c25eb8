import Mathlib.Data.List.Basic
import EthereumJs.Basic

/-!
# The client's block-assembly loop

`Miner` (`client/lib/miner/miner.ts`) sets an assembly timer with `queueNextAssembly`, sets it
again on every `CHAIN_UPDATED` (`chainUpdated`), and `assembleBlock` builds a block from the pool
across a chain of `await`s, giving up when `CHAIN_UPDATED` is emitted in between (its listener
`setInterrupt`). Both read numbers with bn.js's `toNumber`, which throws from `2 ^ 53`: the
timeout and the block number in `chainUpdated`, and the base fee that `assembleBlock` logs after
`txsByPriceAndNonce`.

The model is a state machine over what the event loop can do next (`Event`): call `start` or
`stop`, fire a pending timer, emit `CHAIN_UPDATED`, or settle a promise that a suspended call
awaits, fulfilled or rejected. Each event runs the code it resumes up to its next `await` or its
end. The order of the events is free, so every timing of the timers and of the collaborators is
covered; the timeouts themselves are left out. Two facts of JavaScript that the code meets are
modelled as they are: `f.bind(this)` makes a new function each time, and `removeListener` removes
only a listener that is that very function; `emit` calls the listeners registered when it starts,
in order.

`Miner.log` records, in order, the calls whose effects the properties speak about. `Step` says
once what one event can do, guards included, and `step_cases` that `step` does one of these
things; the invariants of the other files are proved from it.
-/

namespace EthereumJs

namespace Miner

/-- What the miner reads of its `Config`. -/
structure Config where
  /-- `config.mine`. -/
  mine : Bool
  /-- `chainCommon.consensusType() === ConsensusType.ProofOfAuthority`. -/
  poa : Bool

/-- What a `CHAIN_UPDATED` listener of the miner runs. -/
inductive Handler where
  /-- `this.chainUpdated`, registered by `start`. -/
  | chainUpdated
  /-- `setInterrupt` of the `assembleBlock` run `r`. -/
  | setInterrupt (r : Nat)
  deriving DecidableEq, Repr

/-- A listener on `config.events`: the identity of the function and what it runs. -/
structure Listener where
  fn : Nat
  handler : Handler
  deriving DecidableEq, Repr

/-- The `await` at which a suspended `assembleBlock` run waits. Up to `txsByPriceAndNonce` the run
carries its `baseFeePerGas`, none before London. -/
inductive Stage where
  | generateCanonicalGenesis (baseFee : Option Nat := none)
  | setStateRoot (baseFee : Option Nat := none)
  | cliqueSignerInTurn (baseFee : Option Nat := none)
  | buildBlock (baseFee : Option Nat := none)
  | txsByPriceAndNonce (baseFee : Option Nat := none)
  /-- `blockBuilder.addTransaction(txs[index])`, of `count` transactions. -/
  | addTransaction (index count : Nat)
  | build
  | handleNewBlock
  deriving DecidableEq, Repr

/-- A suspended `assembleBlock` run: its number, its `interrupt` variable and its `await`. -/
structure Assembly where
  id : Nat
  interrupt : Bool
  stage : Stage
  deriving DecidableEq, Repr

/-- What the log records. -/
inductive Note where
  /-- `start()` returned `true`. -/
  | started
  /-- `stop()` returned `true`. -/
  | stopped
  /-- `CHAIN_UPDATED` was emitted. -/
  | chainUpdated
  /-- `setTimeout(this.assembleBlock.bind(this), …)` returned the timer `t`. -/
  | timerSet (t : Nat)
  /-- The run `r` of `assembleBlock` passed the guard and registered its `setInterrupt`. -/
  | assemble (r : Nat)
  | addTransaction (r : Nat)
  | build (r : Nat)
  | handleNewBlock (r : Nat)
  | removeNewBlockTxs (r : Nat)
  /-- The run `r` returned, or threw (`rejected`). -/
  | settled (r : Nat) (rejected : Bool)
  deriving DecidableEq, Repr

/-- How a promise that a suspended call awaits settles. -/
inductive Reply where
  /-- Fulfilled; `n` is the number of transactions where the value is a list of them. -/
  | value (n : Nat)
  /-- Rejected; `blockFull` when the error is `addTransaction`'s 'tx has a higher gas limit than
  the remaining gas in the block' and the block has under 21000 gas left. -/
  | error (blockFull : Bool)
  deriving DecidableEq, Repr

/-- What the synchronous calls at the start of a run do on a proof-of-authority chain. -/
inductive SignCheck where
  /-- `BlockHeader.fromHeaderData` returns and `cliqueCheckRecentlySigned` returns `false`. -/
  | pass
  /-- `cliqueCheckRecentlySigned` returns `true`: 'We have too recently signed'. -/
  | recentlySigned
  /-- One of the two throws. -/
  | throws
  deriving DecidableEq, Repr

/-- What the event loop can do next. -/
inductive Event where
  | start
  | stop
  /-- The pending timer `t` fires and calls `assembleBlock`; `check` is what the signer checks
  do, `genesis` whether the parent block is block 0, and `baseFee` the `baseFeePerGas` the run
  computes from the parent header. -/
  | fire (t : Nat) (check : SignCheck) (genesis : Bool) (baseFee : Option Nat := none)
  /-- `config.events.emit(Event.CHAIN_UPDATED)`, with the latest block's number and `target`, its
  timestamp in ms plus the period less `Date.now()`, as `chainUpdated` computes them. -/
  | chainUpdated (number : Nat := 0) (target : Int := 0)
  /-- The `cliqueSignerInTurn` that the suspended `queueNextAssembly` call `q` awaits settles. -/
  | signerInTurn (q : Nat) (fulfilled : Bool)
  /-- The promise that the suspended run `r` awaits settles. -/
  | settle (r : Nat) (reply : Reply)
  deriving DecidableEq, Repr

end Miner

/-- The miner and what the event loop holds for it. -/
structure Miner where
  running : Bool
  assembling : Bool
  nextAssemblyTimeoutId : Option Nat
  /-- The pending timers, each set to call `assembleBlock`. -/
  timers : List Nat
  /-- The `CHAIN_UPDATED` listeners on `config.events`, in the order of registration. -/
  listeners : List Miner.Listener
  /-- The `queueNextAssembly` calls suspended at `await cliqueSignerInTurn`. -/
  queued : List Nat
  /-- The `assembleBlock` runs suspended at an `await`. -/
  assemblies : List Miner.Assembly
  /-- The next number for a timer, a function, a call or a run. -/
  fresh : Nat
  log : List Miner.Note
  deriving DecidableEq, Repr

namespace Miner

/-- `new Miner(options)`. -/
def init : Miner where
  running := false
  assembling := false
  nextAssemblyTimeoutId := none
  timers := []
  listeners := []
  queued := []
  assemblies := []
  fresh := 0
  log := []

/-! ### The runtime -/

/-- `clearTimeout(t)`: a pending timer no longer fires. -/
def clearTimeout (t : Nat) (m : Miner) : Miner := { m with timers := m.timers.erase t }

/-- `config.events.on(Event.CHAIN_UPDATED, f.bind(this))` (`on` is `addListener`): a new function
is registered. -/
def addListener (h : Handler) (m : Miner) : Miner :=
  { m with fresh := m.fresh + 1, listeners := m.listeners ++ [⟨m.fresh, h⟩] }

/-- `config.events.removeListener(Event.CHAIN_UPDATED, fn)`: the last registration of `fn`. -/
def removeListener (fn : Nat) (m : Miner) : Miner :=
  { m with listeners := (m.listeners.reverse.eraseP (·.fn = fn)).reverse }

/-- `config.events.removeListener(Event.CHAIN_UPDATED, f.bind(this))`: the function handed over
is a new one. -/
def removeBound (m : Miner) : Miner := removeListener m.fresh { m with fresh := m.fresh + 1 }

/-- A function never registered is not removed: `removeBound` removes nothing. -/
theorem removeBound_eq {m : Miner} (h : ∀ l ∈ m.listeners, l.fn < m.fresh) :
    removeBound m = { m with fresh := m.fresh + 1 } := by
  unfold removeBound removeListener
  rw [List.eraseP_of_forall_not (fun l hl => by simpa using (h l (List.mem_reverse.mp hl)).ne),
    List.reverse_reverse]

/-- Appends to the log. -/
def note (n : Note) (m : Miner) : Miner := { m with log := m.log ++ [n] }

/-! ### The miner -/

variable (c : Config)

/-- The end of `queueNextAssembly`: `this._nextAssemblyTimeoutId = setTimeout(…)`. -/
def setNextTimer (m : Miner) : Miner :=
  { m with fresh := m.fresh + 1, timers := m.timers ++ [m.fresh],
           nextAssemblyTimeoutId := some m.fresh, log := m.log ++ [.timerSet m.fresh] }

/-- The stored timer is cleared, if there is one. -/
def clearNext (m : Miner) : Miner :=
  match m.nextAssemblyTimeoutId with
  | some t => clearTimeout t m
  | none => m

theorem clearNext_eq (m : Miner) :
    clearNext m = { m with timers := match m.nextAssemblyTimeoutId with
      | some t => m.timers.erase t
      | none => m.timers } := by
  obtain ⟨_, _, _ | _, _⟩ := m <;> rfl

/-- `queueNextAssembly(timeout)` up to its first `await`: the stored timer is cleared; on a
proof-of-authority chain the call then waits for `cliqueSignerInTurn`, otherwise it sets the
next timer at once. -/
def queueNextAssembly (m : Miner) : Miner :=
  let m := clearNext m
  if c.poa then { m with fresh := m.fresh + 1, queued := m.queued ++ [m.fresh] }
  else setNextTimer m

/-- `start()`. -/
def start (m : Miner) : Bool × Miner :=
  if !c.mine || m.running then (false, m)
  else (true, queueNextAssembly c (addListener .chainUpdated (note .started { m with running := true })))

/-- `stop()`: it removes a new copy of `chainUpdated`, and clears the stored timer. -/
def stop (m : Miner) : Bool × Miner :=
  if !m.running then (false, m)
  else (true, note .stopped { clearNext (removeBound m) with running := false })

/-- `setInterrupt()` of the run `r`. -/
def setInterrupt (r : Nat) (m : Miner) : Miner :=
  { m with assembling := false,
           assemblies := m.assemblies.map fun a => if a.id = r then { a with interrupt := true } else a }

/-- `chainUpdated()` up to the `await` of `queueNextAssembly(timeout)`: the timeout
`BN.max(new BN(0), target).toNumber()` and the debug log's `latestBlockHeader.number.toNumber()`;
when either throws, the call rejects before `queueNextAssembly`. -/
def chainUpdated (number : Nat) (target : Int) (m : Miner) : Miner :=
  match toNumber target.toNat, toNumber number with
  | .ok _, .ok _ => queueNextAssembly c m
  | _, _ => m

theorem chainUpdated_cases (number : Nat) (target : Int) (m : Miner) :
    chainUpdated c number target m = m ∨ chainUpdated c number target m = queueNextAssembly c m := by
  unfold chainUpdated
  split
  exacts [.inr rfl, .inl rfl]

/-- A listener called by `emit`, up to its first `await`. -/
def runHandler (number : Nat) (target : Int) (m : Miner) : Handler → Miner
  | .chainUpdated => chainUpdated c number target m
  | .setInterrupt r => setInterrupt r m

/-- `config.events.emit(Event.CHAIN_UPDATED)`. -/
def emit (number : Nat) (target : Int) (m : Miner) : Miner :=
  m.listeners.foldl (fun m l => runHandler c number target m l.handler) (note .chainUpdated m)

/-- The run waits at an `await`. -/
def suspend (a : Assembly) (m : Miner) : Miner := { m with assemblies := m.assemblies ++ [a] }

/-- `assembleBlock()` up to its first `await`: the guard, `setInterrupt`, and on a
proof-of-authority chain the signer checks; then `generateCanonicalGenesis` on block 0, else
`setStateRoot`. -/
def assembleBlock (check : SignCheck) (genesis : Bool) (baseFee : Option Nat) (m : Miner) : Miner :=
  if m.assembling then m
  else
    let r := m.fresh
    let m := addListener (.setInterrupt r) (note (.assemble r) { m with assembling := true, fresh := r + 1 })
    let first : Assembly :=
      ⟨r, false, if genesis then .generateCanonicalGenesis baseFee else .setStateRoot baseFee⟩
    if c.poa then
      match check with
      | .pass => suspend first m
      | .recentlySigned => note (.settled r false) { m with assembling := false }
      | .throws => note (.settled r true) m
    else suspend first m

/-- The `while` loop of `assembleBlock` from `index`, and what follows it, up to the next
`await`. -/
def addLoop (a : Assembly) (index count : Nat) (blockFull : Bool) (m : Miner) : Miner :=
  if index < count ∧ blockFull = false ∧ a.interrupt = false then
    suspend { a with stage := .addTransaction index count } (note (.addTransaction a.id) m)
  else if a.interrupt then note (.settled a.id false) m
  else suspend { a with stage := .build } (note (.build a.id) m)

/-- The run `a` goes on from its `await` settled by `reply`, up to its next `await` or its end.
Errors of `addTransaction` are caught; every other rejection ends the run with it, and so does
the `baseFeePerGas.toNumber()` of the log after `txsByPriceAndNonce`. -/
def resume (a : Assembly) (reply : Reply) (m : Miner) : Miner :=
  match a.stage, reply with
  | .addTransaction index count, .value _ => addLoop a (index + 1) count false m
  | .addTransaction index count, .error full => addLoop a (index + 1) count full m
  | _, .error _ => note (.settled a.id true) m
  | .generateCanonicalGenesis b, .value _ | .setStateRoot b, .value _ =>
    suspend { a with stage := if c.poa then .cliqueSignerInTurn b else .buildBlock b } m
  | .cliqueSignerInTurn b, .value _ => suspend { a with stage := .buildBlock b } m
  | .buildBlock b, .value _ => suspend { a with stage := .txsByPriceAndNonce b } m
  | .txsByPriceAndNonce b, .value n =>
    match b.map toNumber with
    | some (.error _) => note (.settled a.id true) m
    | _ => addLoop a 0 n false m
  | .build, .value _ =>
    let m := { m with assembling := false }
    if a.interrupt then note (.settled a.id false) m
    else suspend { a with stage := .handleNewBlock } (note (.handleNewBlock a.id) m)
  | .handleNewBlock, .value _ =>
    note (.settled a.id false) (removeBound (note (.removeNewBlockTxs a.id) m))

/-- What the event loop does next. -/
def step (m : Miner) : Event → Miner
  | .start => (start c m).2
  | .stop => (stop m).2
  | .fire t check genesis baseFee =>
    if t ∈ m.timers then assembleBlock c check genesis baseFee { m with timers := m.timers.erase t }
    else m
  | .chainUpdated number target => emit c number target m
  | .signerInTurn q fulfilled =>
    if q ∈ m.queued then
      let m := { m with queued := m.queued.erase q }
      if fulfilled then setNextTimer m else m
    else m
  | .settle r reply =>
    match m.assemblies.find? (·.id = r) with
    | some a => resume c a reply { m with assemblies := m.assemblies.filter (·.id ≠ r) }
    | none => m

/-- What one event can do, with the guards it passes; `step` takes one of these (`step_cases`). -/
inductive Step (m : Miner) : Event → Miner → Prop
  /-- Nothing to do: `start` refused, `stop` of a stopped miner, a timer or a call no longer
  pending. -/
  | unchanged (e : Event) : Step m e m
  | start (hm : c.mine = true) (hr : m.running = false) :
    Step m .start
      (queueNextAssembly c (addListener .chainUpdated (note .started { m with running := true })))
  | stop (hr : m.running = true) :
    Step m .stop (note .stopped { clearNext (removeBound m) with running := false })
  | fire {t : Nat} (check : SignCheck) (genesis : Bool) (baseFee : Option Nat) (ht : t ∈ m.timers) :
    Step m (.fire t check genesis baseFee)
      (assembleBlock c check genesis baseFee { m with timers := m.timers.erase t })
  | chainUpdated (number : Nat) (target : Int) :
    Step m (.chainUpdated number target) (emit c number target m)
  | signerFulfilled {q : Nat} (hq : q ∈ m.queued) :
    Step m (.signerInTurn q true) (setNextTimer { m with queued := m.queued.erase q })
  | signerRejected {q : Nat} (hq : q ∈ m.queued) :
    Step m (.signerInTurn q false) { m with queued := m.queued.erase q }
  | settle {r : Nat} {a : Assembly} (reply : Reply) (ha : m.assemblies.find? (·.id = r) = some a) :
    Step m (.settle r reply)
      (resume c a reply { m with assemblies := m.assemblies.filter (·.id ≠ r) })

theorem step_cases (m : Miner) : ∀ e, Step c m e (step c m e)
  | .start => by
    show Step c m .start (start c m).2
    unfold start
    split
    · exact .unchanged _
    · next h =>
      simp only [Bool.or_eq_true, Bool.not_eq_true', not_or, Bool.not_eq_false] at h
      exact .start h.1 (by simpa using h.2)
  | .stop => by
    show Step c m .stop (stop m).2
    unfold stop
    split
    · exact .unchanged _
    · next h => exact .stop (by simpa using h)
  | .fire t check genesis baseFee => by
    simp only [step]
    split
    · next ht => exact .fire check genesis baseFee ht
    · exact .unchanged _
  | .chainUpdated number target => .chainUpdated number target
  | .signerInTurn q fulfilled => by
    simp only [step]
    split
    · next hq =>
      cases fulfilled
      · exact .signerRejected hq
      · exact .signerFulfilled hq
    · exact .unchanged _
  | .settle r reply => by
    simp only [step]
    split
    · next a ha => exact .settle reply ha
    · exact .unchanged _

/-- The miner after a sequence of events. -/
def run (m : Miner) (es : List Event) : Miner := es.foldl (step c) m

end Miner

end EthereumJs
