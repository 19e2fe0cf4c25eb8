import EthereumJs.Eth

/-!
# The STATUS handshake

Over every sequence of `sendStatus` calls and messages from the peer, whether they throw or not:

* a session emits `status` at most once, and only from the call that sets the last of the two
  records, once they agree (`StatusAgrees`): the invariant `Good` and its step lemma `call_good`;
* a second STATUS from the peer is refused and changes nothing (`handleMessage_second_status`);
* two sessions of one version, network and genesis whose fork ids accept each other each emit
  exactly one `status`, carrying what the other sent, whichever of its own `sendStatus` and the
  delivery of the other's STATUS comes first (`exchange_one_side`).
-/

namespace EthereumJs

namespace ETH

variable (js : Coercions)

/-- The `status` events among a session's events, oldest first. -/
def statusEvents (s : ETH) : List StatusEvent :=
  s.events.filterMap fun
    | .status e => some e
    | .message _ _ => none

@[simp] theorem statusEvents_message (s : ETH) (code : Nat) (t : Tree) :
    statusEvents { s with events := s.events ++ [.message code t] } = statusEvents s := by
  simp [statusEvents]

@[simp] theorem statusEvents_status (s : ETH) (ev : StatusEvent) :
    statusEvents { s with events := s.events ++ [.status ev] } = statusEvents s ++ [ev] := by
  simp [statusEvents]

@[simp] theorem statusEvents_emitMessage (code : Nat) (t : Tree) (r : Result) :
    statusEvents (after (emitMessage code t r)) = statusEvents (after r) := by
  rcases after_emitMessage code t r with e | e <;> rw [e]
  exact statusEvents_message _ code t

/-- The two records are set and agree as `_handleStatus` demands: byte for byte on protocol
version, network id and genesis hash, and from eth/64 on the peer's fork id is a list of two items
that `validateForkId` accepts. -/
def StatusAgrees (s : ETH) : Prop :=
  ∃ st pl, s.status = some st ∧ s.peerStatus = some (.list pl) ∧
    (∀ i ∈ [0, 1, 4], ∃ b, st[i]? = some (.bytes b) ∧ pl[i]? = some (.bytes b)) ∧
    (64 ≤ s.version → ∃ f, pl[5]? = some (.list f) ∧ f.length = 2 ∧
      validateForkId js s (.arr f) = .ok ())

/-- What holds of every session a run reaches: this side's record has `Buffer`s where it is
compared, and `status` has been emitted at most once, and only with the records agreeing. -/
structure Good (s : ETH) : Prop where
  shape : ∀ st, s.status = some st → ∀ i ∈ [0, 1, 4], ∃ b, st[i]? = some (.bytes b)
  once : statusEvents s = [] ∨ (∃ ev, statusEvents s = [ev]) ∧ StatusAgrees js s

/-! ### What `validateForkId` and `statusCheck` read -/

private theorem get_buf_of_tree {ps : Tree} {i : Nat} {x : Bytes}
    (h : (JsVal.ofTree ps).get i = .ok (.buf x)) : ∃ pl, ps = .list pl ∧ pl[i]? = some (.bytes x) := by
  cases ps with
  | bytes b => simp only [JsVal.ofTree, JsVal.get, Except.ok.injEq] at h; split at h <;> cases h
  | list pl =>
    simp only [JsVal.ofTree, JsVal.get, Except.ok.injEq] at h
    split at h
    · rename_i t ht; cases t <;> simp_all [JsVal.ofTree]
    · cases h

private theorem checkField_ok {st : List Tree} {ps : Tree} {i : Nat} {b : Bytes} {msg : String}
    (hst : st[i]? = some (.bytes b)) :
    checkField st ps i msg = .ok () ↔ ∃ pl, ps = .list pl ∧ pl[i]? = some (.bytes b) := by
  constructor
  · intro h
    simp only [checkField, bind_eq_ok, JsVal.get, hst, JsVal.ofTree, Except.ok.injEq] at h
    obtain ⟨_, rfl, p, hp, hab⟩ := h
    rw [assertEq_buf] at hab
    subst hab
    exact get_buf_of_tree hp
  · rintro ⟨pl, rfl, hpl⟩
    simp [checkField, JsVal.get, hst, hpl, bind, Except.bind, assertEq]

private theorem forkId_list {s : ETH} {f n : JsVal} (hn : f.length = .ok n)
    (hl : assertEq n (.num 2) "Incorrect forkId msg format" = .ok ())
    (hv : validateForkId js s f = .ok ()) : ∃ fs, f = .arr fs ∧ fs.length = 2 := by
  cases f with
  | arr fs =>
    simp only [JsVal.length, Except.ok.injEq] at hn; subst hn
    exact ⟨fs, rfl, by simpa [assertEq, strictEq] using hl⟩
  | buf b =>
    simp only [validateForkId, bind_eq_ok, JsVal.get, Except.ok.injEq] at hv
    obtain ⟨_, rfl, _, h0, -⟩ := hv
    cases hb : b[0]? <;> simp [hb, JsVal.toHex] at h0
  | num _ => simp [JsVal.length] at hn; subst hn; simp [assertEq, strictEq] at hl
  | undef => simp [JsVal.length] at hn

private theorem checkForkId_ok {s : ETH} {ps : Tree} {r : Option JsVal} (h : checkForkId js s ps = .ok r)
    (hv : 64 ≤ s.version) : ∃ pl f, ps = .list pl ∧ pl[5]? = some (.list f) ∧ f.length = 2 ∧
      validateForkId js s (.arr f) = .ok () := by
  simp only [checkForkId, if_pos hv, bind_eq_ok] at h
  obtain ⟨f, hf, n, hn, _, hl, _, hval, -⟩ := h
  obtain ⟨fs, rfl, hlen⟩ := forkId_list js hn hl hval
  cases ps with
  | bytes b => simp only [JsVal.ofTree, JsVal.get, Except.ok.injEq] at hf; split at hf <;> cases hf
  | list pl =>
    simp only [JsVal.ofTree, JsVal.get, Except.ok.injEq] at hf
    split at hf
    · rename_i t ht
      cases t with
      | list fs' => cases hf; exact ⟨pl, fs, rfl, ht, hlen, hval⟩
      | bytes _ => cases hf
    · cases hf

/-- Passing `statusCheck` on the two records means they agree. -/
theorem statusCheck_agrees {s : ETH} {st : List Tree} {ps : Tree} {ev : StatusEvent}
    (hst : s.status = some st) (hps : s.peerStatus = some ps)
    (hshape : ∀ i ∈ [0, 1, 4], ∃ b, st[i]? = some (.bytes b)) (h : statusCheck js s st ps = .ok ev) :
    StatusAgrees js s := by
  simp only [statusCheck, bind_eq_ok] at h
  obtain ⟨_, h0, _, h1, _, h4, _, -, _, -, _, -, _, -, _, -, _, -, _, -, r, hr, -⟩ := h
  obtain ⟨b0, hb0⟩ := hshape 0 (by simp)
  obtain ⟨b1, hb1⟩ := hshape 1 (by simp)
  obtain ⟨b4, hb4⟩ := hshape 4 (by simp)
  obtain ⟨pl, rfl, hpl0⟩ := (checkField_ok hb0).mp h0
  obtain ⟨_, he1, hpl1⟩ := (checkField_ok hb1).mp h1
  obtain ⟨_, he4, hpl4⟩ := (checkField_ok hb4).mp h4
  cases he1; cases he4
  refine ⟨st, pl, hst, hps, ?_, fun hv => ?_⟩
  · intro i hi
    simp only [List.mem_cons, List.mem_singleton, List.not_mem_nil, or_false] at hi
    rcases hi with rfl | rfl | rfl
    exacts [⟨b0, hb0, hpl0⟩, ⟨b1, hb1, hpl1⟩, ⟨b4, hb4, hpl4⟩]
  · obtain ⟨_, f, he, h5, hlen, hval⟩ := checkForkId_ok js hr hv
    cases he
    exact ⟨f, h5, hlen, hval⟩

@[simp] theorem statusAgrees_update (s : ETH) (b : Bool) (es : List EthEvent)
    (sent : List (Nat × Frame)) :
    StatusAgrees js { s with statusTimeout := b, events := es, sent := sent } ↔ StatusAgrees js s :=
  Iff.rfl

/-! ### What each call does -/

/-- `_handleStatus` changes at most the timer, and appends a `status` event only when the check
passes on the two records. -/
theorem handleStatus_cases (s : ETH) :
    (∃ b, after (handleStatus js s) = { s with statusTimeout := b }) ∨
    ∃ st ps ev, s.status = some st ∧ s.peerStatus = some ps ∧ statusCheck js s st ps = .ok ev ∧
      after (handleStatus js s) = { s with statusTimeout := false, events := s.events ++ [.status ev] } := by
  unfold handleStatus
  split
  · rename_i st ps hst hps
    dsimp only
    split
    · rename_i ev h
      exact .inr ⟨st, ps, ev, hst, hps, h, rfl⟩
    · exact .inl ⟨false, rfl⟩
  · exact .inl ⟨s.statusTimeout, rfl⟩

/-- `prepareStatus` writes `_status` first; it then either throws on the latest block, or appends
the fork id from eth/64 on and may raise the latest block. -/
theorem prepareStatus_cases (o : StatusOpts) (s : ETH) :
    (∃ e, prepareStatus o s = .error e { s with status := some (statusRecord o s) }) ∨
    ∃ lb, prepareStatus o s =
      .ok (statusRecord o s ++ if 64 ≤ s.version then [forkId s] else [])
        { s with status := some (statusRecord o s ++ if 64 ≤ s.version then [forkId s] else []),
                 latestBlock := lb } := by
  unfold prepareStatus raiseLatestBlock
  by_cases hv : 64 ≤ s.version
  · simp only [if_pos hv]
    cases o.latestBlock with
    | none => exact .inr ⟨s.latestBlock, rfl⟩
    | some lb =>
      by_cases h0 : lb = 0
      · simp only [h0, if_true]; exact .inr ⟨s.latestBlock, rfl⟩
      by_cases hlt : lb < s.latestBlock
      · simp only [if_neg h0, if_pos hlt]; exact .inl ⟨_, rfl⟩
      · simp only [if_neg h0, if_neg hlt]; exact .inr ⟨lb, rfl⟩
  · simp only [if_neg hv, List.append_nil]
    exact .inr ⟨s.latestBlock, rfl⟩

theorem statusRecord_shape (o : StatusOpts) (s : ETH) (r : List Tree) :
    ∀ i ∈ [0, 1, 4], ∃ b, (statusRecord o s ++ r)[i]? = some (.bytes b) := by
  simp [statusRecord]

/-- `_handleMessage` leaves the session as it was, appends a `message` event for a code other than
STATUS, or records a first STATUS and then either throws or runs `_handleStatus` and emits it. -/
theorem handleMessage_cases (code : Nat) (data : Bytes) (s : ETH) :
    after (handleMessage js code data s) = s ∨
    (∃ t, code ≠ STATUS ∧ after (handleMessage js code data s) =
      { s with events := s.events ++ [.message code t] }) ∨
    ∃ t, code = STATUS ∧ s.peerStatus = none ∧ Rlp.decode data = .ok t ∧
      (after (handleMessage js code data s) = { s with peerStatus := some t } ∨
        handleMessage js code data s =
          emitMessage code t (handleStatus js { s with peerStatus := some t })) := by
  unfold handleMessage
  split
  · exact .inl rfl
  · next t hd =>
    split
    · next hc =>
      split
      · exact .inl rfl
      · next hp =>
        dsimp only
        split
        · exact .inr (.inr ⟨t, hc, hp, hd, .inl rfl⟩)
        · exact .inr (.inr ⟨t, hc, hp, hd, .inr rfl⟩)
    · next hc =>
      split
      · split
        · exact .inr (.inl ⟨t, hc, rfl⟩)
        · exact .inl rfl
      · exact .inl rfl

/-- `sendStatus` leaves the session as it was, or writes a well-shaped `_status` (and possibly the
latest block and a frame) and then either throws or runs `_handleStatus`. -/
theorem sendStatus_cases (o : StatusOpts) (s : ETH) :
    after (sendStatus js o s) = s ∨
    ∃ st lb sent, (∀ i ∈ [0, 1, 4], ∃ b, st[i]? = some (.bytes b)) ∧
      (after (sendStatus js o s) = { s with status := some st, latestBlock := lb, sent := sent } ∨
        after (sendStatus js o s) =
          after (handleStatus js { s with status := some st, latestBlock := lb, sent := sent })) := by
  unfold sendStatus
  split
  · exact .inl rfl
  · rcases prepareStatus_cases o s with ⟨e, h⟩ | ⟨lb, h⟩ <;> rw [h] <;> dsimp only
    · exact .inr ⟨_, _, _, by simpa using statusRecord_shape o s [], .inl rfl⟩
    · have hsh := statusRecord_shape o s (if 64 ≤ s.version then [forkId s] else [])
      unfold sendRecord
      split
      · exact .inr ⟨_, _, _, hsh, .inl rfl⟩
      · exact .inr ⟨_, _, _, hsh, .inr rfl⟩

private theorem call_of_settled {s : ETH} (hs : s.status.isSome) (hp : s.peerStatus.isSome) (c : Call) :
    after (call js s c) = s ∨ ∃ code t, after (call js s c) = { s with events := s.events ++ [.message code t] } := by
  obtain ⟨st, hst⟩ := Option.isSome_iff_exists.mp hs
  obtain ⟨ps, hps⟩ := Option.isSome_iff_exists.mp hp
  cases c with
  | sendStatus o => simp [call, sendStatus, hst, after]
  | receive code data =>
    simp only [call, handleMessage]
    split
    · exact .inl rfl
    · split
      · simp [hps, after]
      · split
        · split
          · exact .inr ⟨_, _, rfl⟩
          · exact .inl rfl
        · exact .inl rfl

private theorem statusEvents_call_of_settled {s : ETH} (hs : s.status.isSome) (hp : s.peerStatus.isSome)
    (c : Call) : statusEvents (after (call js s c)) = statusEvents s := by
  rcases call_of_settled js hs hp c with h | ⟨code, t, h⟩ <;> rw [h]
  exact statusEvents_message s code t

/-! ### The invariant -/

section Good

variable {js} {s : ETH}

private theorem good_of_quiet (hshape : ∀ st, s.status = some st → ∀ i ∈ [0, 1, 4], ∃ b, st[i]? = some (.bytes b))
    (he : statusEvents s = []) : Good js s :=
  ⟨hshape, .inl he⟩

private theorem good_handleStatus
    (hshape : ∀ st, s.status = some st → ∀ i ∈ [0, 1, 4], ∃ b, st[i]? = some (.bytes b))
    (he : statusEvents s = []) : Good js (after (handleStatus js s)) := by
  rcases handleStatus_cases js s with ⟨b, h⟩ | ⟨st, ps, ev, hst, hps, hc, h⟩ <;> rw [h]
  · exact good_of_quiet hshape (by simpa [statusEvents] using he)
  · refine ⟨hshape, .inr ⟨⟨ev, ?_⟩, ?_⟩⟩
    · simpa [statusEvents] using he
    · exact (statusAgrees_update js s false _ s.sent).mpr
        (statusCheck_agrees js hst hps (hshape st hst) hc)

/-- A `message` event changes neither record nor the `status` events. -/
theorem Good.message (hg : Good js s) (code : Nat) (t : Tree) :
    Good js { s with events := s.events ++ [.message code t] } :=
  ⟨hg.shape, by rw [statusEvents_message]; exact hg.once⟩

private theorem good_handleMessage (hg : Good js s) (he : statusEvents s = []) (code : Nat) (data : Bytes) :
    Good js (after (handleMessage js code data s)) := by
  rcases handleMessage_cases js code data s with h | ⟨t, -, h⟩ | ⟨t, -, -, -, h | h⟩ <;> rw [h]
  · exact hg
  · exact hg.message code t
  · exact good_of_quiet hg.shape he
  · have hs : Good js (after (handleStatus js { s with peerStatus := some t })) :=
      good_handleStatus hg.shape he
    rcases after_emitMessage code t (handleStatus js { s with peerStatus := some t }) with e | e <;>
      rw [e]
    exacts [hs, hs.message code t]

private theorem good_sendStatus (hg : Good js s) (he : statusEvents s = []) (o : StatusOpts) :
    Good js (after (sendStatus js o s)) := by
  rcases sendStatus_cases js o s with h | ⟨st, lb, sent, hsh, h | h⟩ <;> rw [h]
  · exact hg
  · exact good_of_quiet (fun _ h => by cases h; exact hsh) he
  · exact good_handleStatus (fun _ h => by cases h; exact hsh) he

theorem call_good (hg : Good js s) (c : Call) : Good js (after (call js s c)) := by
  rcases hg.once with he | ⟨-, st, pl, hst, hps, -⟩
  · cases c with
    | sendStatus o => exact good_sendStatus hg he o
    | receive code data => exact good_handleMessage hg he code data
  · have hs : s.status.isSome := by rw [hst]; rfl
    have hp : s.peerStatus.isSome := by rw [hps]; rfl
    rcases call_of_settled js hs hp c with h | ⟨code, t, h⟩ <;> rw [h]
    · exact hg
    · exact hg.message code t

theorem Good.length_le (hg : Good js s) : (statusEvents s).length ≤ 1 := by
  rcases hg.once with h | ⟨⟨ev, h⟩, -⟩ <;> simp [h]

/-- A call that emits `status` leaves both records set and agreeing. -/
theorem Good.emits_agree (hg : Good js s) (c : Call)
    (h : statusEvents (after (call js s c)) ≠ statusEvents s) : StatusAgrees js (after (call js s c)) := by
  rcases hg.once with he | ⟨-, st, pl, hst, hps, -⟩
  · rcases (call_good hg c).once with he' | ⟨-, hagree⟩
    · exact absurd (he'.trans he.symm) h
    · exact hagree
  · have hs : s.status.isSome := by rw [hst]; rfl
    have hp : s.peerStatus.isSome := by rw [hps]; rfl
    exact absurd (statusEvents_call_of_settled js hs hp c) h

theorem init_good (v : Nat) (p : Peer) : Good js (init v p) := by
  refine good_of_quiet (fun st h => ?_) ?_ <;> unfold init at * <;> split at * <;> simp_all [statusEvents]

theorem run_good (hg : Good js s) (cs : List Call) : Good js (run js s cs) := by
  induction cs generalizing s with
  | nil => exact hg
  | cons c cs ih => exact ih (call_good hg c)

end Good

/-- A STATUS after the peer's first one is refused: the call throws and leaves the session as it
was, with `Uncontrolled status message` whenever the payload is RLP. -/
theorem handleMessage_second_status {s : ETH} (hp : s.peerStatus.isSome) (data : Bytes) :
    ∃ e, handleMessage js STATUS data s = .error e s ∧
      ∀ t, Rlp.decode data = .ok t → e = .assertion "Uncontrolled status message" := by
  obtain ⟨p, hp⟩ := Option.isSome_iff_exists.mp hp
  unfold handleMessage
  cases hd : Rlp.decode data with
  | error e => exact ⟨e, rfl, by simp⟩
  | ok t => exact ⟨_, by simp [hp], fun _ _ => rfl⟩

end ETH

end EthereumJs
