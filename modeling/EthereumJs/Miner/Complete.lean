import EthereumJs.Miner.Interrupt

/-!
# A run that nothing interrupts

When no `CHAIN_UPDATED` comes and every call a run awaits is fulfilled, the run adds each of the
`n` transactions that `txsByPriceAndNonce` returns, one after the other (`addLoop_completes`, the
`while` loop), builds the block, hands it to `handleNewBlock`, removes its transactions from the
pool and settles without rejecting, with the flag down, as long as its base fee is below `2 ^ 53`;
from there the log's `baseFeePerGas.toNumber()` throws right after `txsByPriceAndNonce`, and the
run rejects with the flag as it was (`assembly_completes`).
-/

namespace EthereumJs

namespace Miner

variable (c : Config)

theorem step_settle_single (a : Assembly) {m : Miner} {r : Nat} (hm : m.assemblies = [a])
    (hr : a.id = r) (reply : Reply) :
    step c m (.settle r reply) = resume c a reply { m with assemblies := [] } := by
  subst hr
  simp [step, hm]

private theorem resume_txs_of_lt {a : Assembly} {b : Option Nat} (ha : a.stage = .txsByPriceAndNonce b)
    (hb : ∀ fee ∈ b, fee < 2 ^ 53) (n : Nat) (m : Miner) :
    resume c a (.value n) m = addLoop a 0 n false m := by
  obtain ⟨r, i, s⟩ := a
  subst ha
  cases b with
  | none => rfl
  | some fee => simp only [resume, Option.map_some', toNumber, if_pos (hb fee rfl)]

private theorem resume_txs_of_le {a : Assembly} {b : Option Nat} (ha : a.stage = .txsByPriceAndNonce b)
    (hb : ∃ fee ∈ b, 2 ^ 53 ≤ fee) (n : Nat) (m : Miner) :
    resume c a (.value n) m = note (.settled a.id true) m := by
  obtain ⟨r, i, s⟩ := a
  obtain ⟨fee, rfl, hf⟩ := hb
  subst ha
  simp only [resume, Option.map_some', toNumber, if_neg (Nat.not_lt.mpr hf)]

/-- The `while` loop: after `addTransaction(txs[i])` with `k` transactions still to add, `k + 1`
fulfilled calls add them in turn and then call `build`. -/
theorem addLoop_completes (r k i : Nat) {m : Miner}
    (hm : m.assemblies = [⟨r, false, .addTransaction i (i + 1 + k)⟩]) :
    run c m (List.replicate (k + 1) (.settle r (.value 0))) =
      { m with assemblies := [⟨r, false, .build⟩],
               log := m.log ++ List.replicate k (.addTransaction r) ++ [.build r] } := by
  induction k generalizing i m with
  | zero =>
    simp only [List.replicate, run, List.foldl_cons, List.foldl_nil, step_settle_single c _ hm rfl]
    simp [resume, addLoop, suspend, note]
  | succ k ih =>
    have hs : step c m (.settle r (.value 0)) =
        { m with assemblies := [⟨r, false, .addTransaction (i + 1) (i + 1 + 1 + k)⟩],
                 log := m.log ++ [.addTransaction r] } := by
      rw [step_settle_single c _ hm rfl]
      simp [resume, addLoop, suspend, note, show i + 1 < i + 1 + (k + 1) by omega]
      omega
    rw [List.replicate_succ, run, List.foldl_cons, hs]
    exact (ih (i + 1) rfl).trans (by simp [List.replicate_succ])

private theorem prepare_completes (r : Nat) {m : Miner} {b : Option Nat} {first : Stage}
    (hfirst : first = .generateCanonicalGenesis b ∨ first = .setStateRoot b)
    (hm : m.assemblies = [⟨r, false, first⟩]) :
    run c m (List.replicate (if c.poa then 3 else 2) (.settle r (.value 0))) =
      { m with assemblies := [⟨r, false, .txsByPriceAndNonce b⟩] } := by
  have h₁ : step c m (.settle r (.value 0)) = { m with assemblies :=
      [⟨r, false, if c.poa then .cliqueSignerInTurn b else .buildBlock b⟩] } := by
    rw [step_settle_single c _ hm rfl]
    rcases hfirst with rfl | rfl <;> rfl
  cases hc : c.poa
  all_goals
    simp only [hc, Bool.false_eq_true, ↓reduceIte, List.replicate, run, List.foldl_cons,
      List.foldl_nil] at h₁ ⊢
  · rw [h₁, step_settle_single c ⟨r, false, .buildBlock b⟩ rfl rfl]
    rfl
  · have h₂ : step c { m with assemblies := [⟨r, false, .cliqueSignerInTurn b⟩] }
        (.settle r (.value 0)) = { m with assemblies := [⟨r, false, .buildBlock b⟩] } :=
      step_settle_single c ⟨r, false, .cliqueSignerInTurn b⟩ rfl rfl _
    rw [h₁, h₂, step_settle_single c ⟨r, false, .buildBlock b⟩ rfl rfl]
    rfl

private theorem build_completes (r : Nat) {m : Miner} (hf : ∀ l ∈ m.listeners, l.fn < m.fresh)
    (hm : m.assemblies = [⟨r, false, .build⟩]) :
    run c m [.settle r (.value 0), .settle r (.value 0)] =
      { m with assembling := false, assemblies := [], fresh := m.fresh + 1,
               log := m.log ++ [.handleNewBlock r, .removeNewBlockTxs r, .settled r false] } := by
  simp only [run, List.foldl_cons, List.foldl_nil]
  -- `build` is fulfilled: the flag goes down and the run awaits `handleNewBlock`
  have h₁ : resume c ⟨r, false, .build⟩ (.value 0) { m with assemblies := [] } =
      { m with assembling := false, assemblies := [⟨r, false, .handleNewBlock⟩],
               log := m.log ++ [.handleNewBlock r] } := rfl
  rw [step_settle_single c _ hm rfl, h₁]
  -- `handleNewBlock` is fulfilled: `removeNewBlockTxs`, and a `removeListener` that removes nothing
  rw [step_settle_single c ⟨r, false, .handleNewBlock⟩ rfl rfl]
  unfold resume
  rw [removeBound_eq ?_]
  · simp [note]
  · exact hf

private theorem txs_completes (r n : Nat) {m : Miner} {b : Option Nat} (hb : ∀ fee ∈ b, fee < 2 ^ 53)
    (hf : ∀ l ∈ m.listeners, l.fn < m.fresh)
    (hm : m.assemblies = [⟨r, false, .txsByPriceAndNonce b⟩]) :
    run c m (.settle r (.value n) :: List.replicate n (.settle r (.value 0)) ++
        [.settle r (.value 0), .settle r (.value 0)]) =
      { m with assembling := false, assemblies := [], fresh := m.fresh + 1,
               log := m.log ++ List.replicate n (.addTransaction r) ++
                 [.build r, .handleNewBlock r, .removeNewBlockTxs r, .settled r false] } := by
  rw [List.cons_append, run, List.foldl_cons, step_settle_single c _ hm rfl,
    resume_txs_of_lt c rfl hb, ← run]
  cases n with
  | zero =>
    -- no transactions: the loop does not run, and the run calls `build` at once
    have h₁ : addLoop ⟨r, false, .txsByPriceAndNonce b⟩ 0 0 false { m with assemblies := [] } =
        { m with assemblies := [⟨r, false, .build⟩], log := m.log ++ [.build r] } := rfl
    rw [h₁, List.replicate_zero, List.nil_append, build_completes c r ?_ rfl]
    · simp
    · exact hf
  | succ k =>
    -- the loop adds the first transaction, then the `k` others
    have h₁ : addLoop ⟨r, false, .txsByPriceAndNonce b⟩ 0 (k + 1) false { m with assemblies := [] } =
        { m with assemblies := [⟨r, false, .addTransaction 0 (0 + 1 + k)⟩],
                 log := m.log ++ [.addTransaction r] } := by
      simp [addLoop, suspend, note]
      omega
    rw [h₁, run, List.foldl_append, ← run, ← run, addLoop_completes c r k 0 rfl,
      build_completes c r ?_ rfl]
    · simp [List.replicate_succ]
    · exact hf

private theorem txs_rejects (r n : Nat) {m : Miner} {b : Option Nat} (hb : ∃ fee ∈ b, 2 ^ 53 ≤ fee)
    (hm : m.assemblies = [⟨r, false, .txsByPriceAndNonce b⟩]) :
    run c m [.settle r (.value n)] = { m with assemblies := [], log := m.log ++ [.settled r true] } := by
  rw [run, List.foldl_cons, List.foldl_nil, step_settle_single c _ hm rfl, resume_txs_of_le c rfl hb]
  rfl

/-- From a reachable miner whose one run in flight, `r`, waits at its first `await`: when no
`CHAIN_UPDATED` comes and every awaited call is fulfilled, `txsByPriceAndNonce` with `n`
transactions, a run whose base fee is below `2 ^ 53` (or which has none) adds the `n` transactions
in turn, calls `build`, `handleNewBlock` and `removeNewBlockTxs`, and settles without rejecting,
with the flag down and no run in flight; a run whose base fee is `2 ^ 53` or more rejects right
after `txsByPriceAndNonce`, with the flag as it was. -/
theorem assembly_completes {m : Miner} (hi : Inv m) (r n : Nat) (baseFee : Option Nat)
    (first : Stage) (hfirst : first = .generateCanonicalGenesis baseFee ∨ first = .setStateRoot baseFee)
    (hm : m.assemblies = [⟨r, false, first⟩]) :
    ((∀ fee ∈ baseFee, fee < 2 ^ 53) →
      run c m (List.replicate (if c.poa then 3 else 2) (.settle r (.value 0)) ++
          .settle r (.value n) :: List.replicate n (.settle r (.value 0)) ++
          [.settle r (.value 0), .settle r (.value 0)]) =
        { m with assembling := false, assemblies := [], fresh := m.fresh + 1,
                 log := m.log ++ List.replicate n (.addTransaction r) ++
                   [.build r, .handleNewBlock r, .removeNewBlockTxs r, .settled r false] }) ∧
    ((∃ fee ∈ baseFee, 2 ^ 53 ≤ fee) →
      run c m (List.replicate (if c.poa then 3 else 2) (.settle r (.value 0)) ++ [.settle r (.value n)]) =
        { m with assemblies := [], log := m.log ++ [.settled r true] }) := by
  have hp := prepare_completes c r hfirst hm
  refine ⟨fun hb => ?_, fun hb => ?_⟩
  · rw [List.append_assoc, run, List.foldl_append, ← run, ← run, hp, txs_completes c r n hb ?_ rfl]
    exact hi.fn_lt
  · rw [run, List.foldl_append, ← run, ← run, hp, txs_rejects c r n hb rfl]

/-- The first run of a proof-of-work miner, with two transactions and no base fee; and the same run
with a base fee of `2 ^ 53`. -/
theorem assembly_completes_pow :
    run ⟨true, false⟩ (run ⟨true, false⟩ init [.start, .fire 1 .pass false])
        (List.replicate 2 (.settle 2 (.value 0)) ++ .settle 2 (.value 2) ::
          List.replicate 2 (.settle 2 (.value 0)) ++ [.settle 2 (.value 0), .settle 2 (.value 0)]) =
      { run ⟨true, false⟩ init [.start, .fire 1 .pass false] with
        assembling := false, assemblies := [], fresh := 5,
        log := [.started, .timerSet 1, .assemble 2, .addTransaction 2, .addTransaction 2, .build 2,
          .handleNewBlock 2, .removeNewBlockTxs 2, .settled 2 false] } ∧
    run ⟨true, false⟩ (run ⟨true, false⟩ init [.start, .fire 1 .pass false (some (2 ^ 53))])
        (List.replicate 2 (.settle 2 (.value 0)) ++ [.settle 2 (.value 2)]) =
      { run ⟨true, false⟩ init [.start, .fire 1 .pass false (some (2 ^ 53))] with
        assemblies := [], log := [.started, .timerSet 1, .assemble 2, .settled 2 true] } :=
  ⟨(assembly_completes ⟨true, false⟩ (run_inv (c := ⟨true, false⟩) init_inv
      [.start, .fire 1 .pass false]) 2 2 none .setStateRoot (.inr rfl) rfl).1 (by simp),
    (assembly_completes ⟨true, false⟩ (run_inv (c := ⟨true, false⟩) init_inv
      [.start, .fire 1 .pass false (some (2 ^ 53))]) 2 2 (some (2 ^ 53))
      (.setStateRoot (some (2 ^ 53))) (.inr rfl) rfl).2 ⟨_, rfl, le_rfl⟩⟩

end Miner

end EthereumJs
