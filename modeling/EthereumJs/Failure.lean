import EthereumJs.ForkId

/-!
# A STATUS exchange that goes wrong

What a session is left with when its side of the handshake fails.

* `sendStatus` writes `_status` before it checks the latest block it is given: when the check
  throws, the record stays, and every later `sendStatus` returns at once, so this side's STATUS is
  never sent (`sendStatus_throw_keeps_status`);
* when the peer's STATUS comes first and the two records disagree, the delivery returns with the
  5 s timer armed, and it is `sendStatus` that clears the timer and throws, so no exception leaves
  `_handleMessage` (`status_mismatch_after_receive`);
* a call that clears the timer emits `status` or throws in that same call (`call_timer`), so in
  every state a run reaches the timer is armed, or `status` was emitted, or a call threw
  (`timer_cleared_by_status_or_throw`).
-/

namespace EthereumJs

namespace ETH

variable (js : Coercions)

/-! ### A latest block below the hardfork -/

/-- From eth/64 on, a `sendStatus` whose latest block is below the first block of the session's
hardfork throws after writing `_status`. The session keeps that record, so every later
`sendStatus` returns at once and sends nothing. -/
theorem sendStatus_throw_keeps_status {s : ETH} (hs : s.status = none) (hv : 64 ≤ s.version)
    {o : StatusOpts} {lb : Nat} (hlb : o.latestBlock = some lb) (h0 : lb ≠ 0)
    (hlt : lb < s.latestBlock) :
    sendStatus js o s = .error
      (.error "latest block provided is not matching the HF setting of the Common instance (Rlpx)")
      { s with status := some (statusRecord o s) } ∧
    ∀ o', sendStatus js o' { s with status := some (statusRecord o s) } =
      .ok () { s with status := some (statusRecord o s) } := by
  refine ⟨?_, fun _ => rfl⟩
  simp [sendStatus, hs, prepareStatus, raiseLatestBlock, hv, hlb, h0, hlt]

/-- A session on mainnet at `homestead`, which begins at block 1 150 000, told that the chain is
at block 5. -/
theorem sendStatus_throw_keeps_status_homestead :
    let s := init 66 ⟨mainnetStart.common 1 "homestead", none⟩
    let o : StatusOpts := { td := [1], bestHash := [0xaa], latestBlock := some 5, genesisHash := [0xd4] }
    sendStatus emptyCoercions o s = .error
      (.error "latest block provided is not matching the HF setting of the Common instance (Rlpx)")
      { s with status := some (statusRecord o s) } ∧
    ∀ o', sendStatus emptyCoercions o' { s with status := some (statusRecord o s) } =
      .ok () { s with status := some (statusRecord o s) } :=
  sendStatus_throw_keeps_status emptyCoercions (init_status _ _) (by decide) rfl (by decide)
    (by decide)

/-! ### The peer's STATUS first -/

private theorem statusAgrees_handleStatus (s : ETH) :
    StatusAgrees js (after (handleStatus js s)) ↔ StatusAgrees js s := by
  rcases handleStatus_cases js s with ⟨b, h⟩ | ⟨_, _, ev, -, -, -, h⟩ <;> rw [h] <;> exact Iff.rfl

private theorem handleStatus_disagree {s : ETH} {st : List Tree} {ps : Tree} (hst : s.status = some st)
    (hps : s.peerStatus = some ps) (hshape : ∀ i ∈ [0, 1, 4], ∃ b, st[i]? = some (.bytes b))
    (hbad : ¬ StatusAgrees js s) : ∃ e, handleStatus js s = .error e { s with statusTimeout := false } := by
  unfold handleStatus
  split
  · next st' ps' hst' hps' =>
    rw [hst] at hst'; rw [hps] at hps'; cases hst'; cases hps'
    dsimp only
    split
    · next ev hc =>
      exact absurd (statusCheck_agrees js (s := { s with statusTimeout := false }) hst hps hshape hc) hbad
    · next e _ => exact ⟨e, rfl⟩
  · simp_all

private theorem not_statusAgrees {s : ETH} (st pl : List Tree) (hst : s.status = some st)
    (hps : s.peerStatus = some (.list pl)) {i : Nat} (hi : i ∈ [0, 1, 4]) (hne : st[i]? ≠ pl[i]?) :
    ¬ StatusAgrees js s := by
  rintro ⟨st', pl', hst', hps', hf, -⟩
  rw [hst] at hst'; rw [hps] at hps'
  cases hst'; cases hps'
  obtain ⟨b, h₁, h₂⟩ := hf i hi
  exact hne (h₁.trans h₂.symm)

private theorem handleMessage_status_first {s : ETH} (hs : s.status = none) (hp : s.peerStatus = none)
    {data : Bytes} {t : Tree} (hd : Rlp.decode data = .ok t)
    (hg : getStatusString js s.version (.ofTree t) = .ok ()) :
    handleMessage js STATUS data s =
      .ok () { s with peerStatus := some t, events := s.events ++ [.message STATUS t] } := by
  rw [handleMessage_first_status js hd hp hg,
    handleStatus_of_none js (s := { s with peerStatus := some t }) (.inl hs)]
  rfl

/-- When the peer's STATUS comes before this side's `sendStatus` and the two records disagree, the
delivery returns and leaves the 5 s timer armed; `sendStatus` then clears the timer and throws. No
`status` is emitted, the timer will not fire, and no exception leaves `_handleMessage`. -/
theorem status_mismatch_after_receive (v : Nat) (p : Peer) (o : StatusOpts) (data : Bytes)
    {t : Tree} (hd : Rlp.decode data = .ok t) (hg : getStatusString js v (.ofTree t) = .ok ())
    (hlb : o.latestBlock = none)
    (hbad : ¬ StatusAgrees js (run js (init v p) [.receive STATUS data, .sendStatus o])) :
    completed (handleMessage js STATUS data (init v p)) = true ∧
    (after (handleMessage js STATUS data (init v p))).statusTimeout = true ∧
    completed (sendStatus js o (after (handleMessage js STATUS data (init v p)))) = false ∧
    (run js (init v p) [.receive STATUS data, .sendStatus o]).statusTimeout = false ∧
    statusEvents (run js (init v p) [.receive STATUS data, .sendStatus o]) = [] := by
  let s₁ : ETH :=
    { init v p with peerStatus := some t, events := (init v p).events ++ [.message STATUS t] }
  have h1 : handleMessage js STATUS data (init v p) = .ok () s₁ :=
    handleMessage_status_first js (init_status v p) (init_peerStatus v p) hd (by rwa [init_version])
  have h2 := sendStatus_prepared js (s := s₁) (init_status v p) (prepareStatus_of_none hlb)
    (getStatusString_record js o _)
  have hrun : run js (init v p) [.receive STATUS data, .sendStatus o] = after (sendStatus js o s₁) := by
    simp only [run, List.foldl_cons, List.foldl_nil, call, h1, after]
  rw [hrun, h2, statusAgrees_handleStatus] at hbad
  obtain ⟨e, h3⟩ := handleStatus_disagree js rfl rfl (statusRecord_shape o _ _) hbad
  rw [hrun, h1]
  simp only [after]
  rw [h2, h3]
  simp [completed, after, statusEvents]

/-- The STATUS of a peer on network 2 reaches an eth/66 session of network 1 before this side's
`sendStatus`. -/
theorem status_mismatch_after_receive_network :
    let t : Tree := .list [.bytes [66], .bytes [2], .bytes [1], .bytes [0xbb], .bytes [0xd4],
      .list [.bytes [0xfc, 0x64, 0xec, 0x04], .bytes []]]
    let s := init 66 ⟨londonCommon, none⟩
    let o : StatusOpts := { td := [1], bestHash := [0xaa], genesisHash := [0xd4] }
    completed (handleMessage emptyCoercions STATUS (Rlp.encode t) s) = true ∧
    (after (handleMessage emptyCoercions STATUS (Rlp.encode t) s)).statusTimeout = true ∧
    completed (sendStatus emptyCoercions o (after (handleMessage emptyCoercions STATUS (Rlp.encode t) s))) =
      false ∧
    (run emptyCoercions s [.receive STATUS (Rlp.encode t), .sendStatus o]).statusTimeout = false ∧
    statusEvents (run emptyCoercions s [.receive STATUS (Rlp.encode t), .sendStatus o]) = [] :=
  status_mismatch_after_receive emptyCoercions 66 ⟨londonCommon, none⟩ _ _
    (Rlp.decode_encode _ (by decide)) rfl rfl
    (not_statusAgrees emptyCoercions _ _ rfl rfl (i := 1) (by simp) (by decide))

/-! ### The timer over every sequence of calls -/

/-- The calls of a sequence that threw, in order. -/
def thrown (s : ETH) : List Call → List Call
  | [] => []
  | c :: cs => (if completed (call js s c) then [] else [c]) ++ thrown (after (call js s c)) cs

private theorem handleStatus_timer (s : ETH) :
    (after (handleStatus js s)).statusTimeout = s.statusTimeout ∨
      (∃ ev, statusEvents (after (handleStatus js s)) = statusEvents s ++ [ev]) ∨
      completed (handleStatus js s) = false := by
  unfold handleStatus
  split
  · dsimp only
    split
    · next ev _ => exact .inr (.inl ⟨ev, by simp [after, statusEvents]⟩)
    · exact .inr (.inr rfl)
  · exact .inl rfl

/-- A call leaves the timer as it was, or emits one `status`, or throws. -/
theorem call_timer (s : ETH) (c : Call) :
    (after (call js s c)).statusTimeout = s.statusTimeout ∨
      (∃ ev, statusEvents (after (call js s c)) = statusEvents s ++ [ev]) ∨
      completed (call js s c) = false := by
  cases c with
  | sendStatus o =>
    simp only [call]
    unfold sendStatus
    split
    · exact .inl rfl
    · rcases prepareStatus_cases o s with ⟨e, h⟩ | ⟨lb, h⟩ <;> rw [h] <;> dsimp only
      · exact .inr (.inr rfl)
      · unfold sendRecord
        split
        · exact .inr (.inr rfl)
        · exact handleStatus_timer js _
  | receive code data =>
    simp only [call]
    rcases handleMessage_cases js code data s with h | ⟨t, -, h⟩ | ⟨t, -, -, -, h | h⟩
    · exact .inl (by rw [h])
    · exact .inl (by rw [h])
    · exact .inl (by rw [h])
    · rw [h]
      rcases after_emitMessage code t (handleStatus js _) with e | e <;> rw [e] <;>
        simpa [statusEvents] using handleStatus_timer js _

private theorem handleStatus_events (s : ETH) : ∃ es, (after (handleStatus js s)).events = s.events ++ es := by
  rcases handleStatus_cases js s with ⟨b, h⟩ | ⟨_, _, ev, -, -, -, h⟩ <;> rw [h]
  · exact ⟨[], (List.append_nil _).symm⟩
  · exact ⟨_, rfl⟩

private theorem call_events (s : ETH) (c : Call) : ∃ es, (after (call js s c)).events = s.events ++ es := by
  cases c with
  | sendStatus o =>
    rcases sendStatus_cases js o s with h | ⟨st, lb, sent, -, h | h⟩ <;> simp only [call, h]
    · exact ⟨[], (List.append_nil _).symm⟩
    · exact ⟨[], (List.append_nil _).symm⟩
    · exact handleStatus_events js _
  | receive code data =>
    rcases handleMessage_cases js code data s with h | ⟨t, -, h⟩ | ⟨t, -, -, -, h | h⟩ <;>
      simp only [call, h]
    · exact ⟨[], (List.append_nil _).symm⟩
    · exact ⟨_, rfl⟩
    · exact ⟨[], (List.append_nil _).symm⟩
    · obtain ⟨es, hes⟩ := handleStatus_events js { s with peerStatus := some t }
      rcases after_emitMessage code t (handleStatus js _) with e | e <;> rw [e]
      exacts [⟨es, hes⟩, ⟨es ++ [.message code t], by dsimp only at hes ⊢; rw [hes, List.append_assoc]⟩]

private theorem statusEvents_call_ne_nil {s : ETH} (h : statusEvents s ≠ []) (c : Call) :
    statusEvents (after (call js s c)) ≠ [] := by
  obtain ⟨es, hes⟩ := call_events js s c
  unfold statusEvents at h ⊢
  rw [hes, List.filterMap_append]
  exact fun h' => h (List.append_eq_nil.mp h').1

theorem run_timer {s : ETH} (h : s.statusTimeout = true ∨ statusEvents s ≠ []) (cs : List Call) :
    (run js s cs).statusTimeout = true ∨ statusEvents (run js s cs) ≠ [] ∨ thrown js s cs ≠ [] := by
  induction cs generalizing s with
  | nil => rcases h with h | h
           · exact .inl h
           · exact .inr (.inl h)
  | cons c cs ih =>
    by_cases hc : completed (call js s c) = true
    · have h' : (after (call js s c)).statusTimeout = true ∨
          statusEvents (after (call js s c)) ≠ [] := by
        rcases h with h | h
        · rcases call_timer js s c with e | e | e
          · exact .inl (e.trans h)
          · obtain ⟨ev, e⟩ := e
            exact .inr (by simp [e])
          · simp [e] at hc
        · exact .inr (statusEvents_call_ne_nil js h c)
      simpa [run, thrown, hc] using ih h'
    · exact .inr (.inr (by simp [thrown, hc]))

/-- A call that disarms the 5 s timer emits `status` or throws in that same call; so over every
sequence of calls on a fresh session, in every state it reaches, the timer is still armed, or
`status` has been emitted, or a call has thrown. -/
theorem timer_cleared_by_status_or_throw (v : Nat) (p : Peer) :
    (∀ s c, s.statusTimeout = true → (after (call js s c)).statusTimeout = false →
      (∃ ev, statusEvents (after (call js s c)) = statusEvents s ++ [ev]) ∨
        completed (call js s c) = false) ∧
    ∀ cs, (run js (init v p) cs).statusTimeout = true ∨ statusEvents (run js (init v p) cs) ≠ [] ∨
      thrown js (init v p) cs ≠ [] :=
  ⟨fun s c h₁ h₂ => (call_timer js s c).resolve_left (by rw [h₁, h₂]; decide),
    run_timer js (.inl (init_statusTimeout v p))⟩

end ETH

end EthereumJs
