import EthereumJs.Dispatch

/-!
# Two sessions over an in-order transport

What a session hands to `_send` reaches the peer session's `_handleMessage` through the RLPx
connection (devp2p, not in the sources), which delivers frames in the order they were sent. A
`Link` is two sessions and, for each, how many of its frames the other has handled; a step is a
`sendStatus` or a `sendMessage` on either side, or the delivery of the next frame in one
direction, in any interleaving. A call that throws leaves its session as the exception left it,
and the link goes on.

* (in order) For two sessions of one version, the `message` events of each side other than
  STATUS, each payload written back as RLP, are exactly the messages other than STATUS that the
  other side sent and the transport delivered, in the order sent: none lost, duplicated,
  reordered or changed; the one STATUS `message` a side can emit carries the record it stored
  (`link_messages_in_order`).
* (first status) Each side's `_peerStatus` is the status of the first STATUS frame the other side
  sent that was delivered and decoded; a later one never replaces it (`link_peer_status`).

The invariant is `Link.Inv`: `sendMessage` sends only codes the peer's `_handleMessage` passes on,
with bytes that come back from the RLP (`SentOk`); `sendStatus` sends only STATUS frames
(`sendStatus_sent`); handling a frame sends nothing (`sent_handleMessage`); so a call appends to
its own side's frames and leaves the other's `message` events and `_peerStatus` alone
(`Link.Inv.update`), and one delivery passes on exactly the message of the frame it delivers, if
that is not a STATUS, and sets the status only if none was set (`received_handleMessage`,
`peerStatus_handleMessage`, `Link.Inv.deliver`).
-/

namespace EthereumJs

namespace ETH

variable (js : Coercions)

/-- The two ends of a connection. -/
inductive Side where
  | a
  | b
  deriving DecidableEq, Repr

/-- The other end. -/
def Side.other : Side → Side
  | .a => .b
  | .b => .a

private theorem Side.other_ne (x : Side) : x.other ≠ x := by cases x <;> decide

private theorem Side.eq_other_of_ne {x z : Side} (h : x ≠ z) : x = z.other := by
  cases x <;> cases z <;> simp_all [Side.other]

@[simp] theorem Side.other_other (x : Side) : x.other.other = x := by cases x <;> rfl

/-- Two sessions and, for each, how many of the frames it sent the other has handled. -/
structure Link where
  ends : Side → ETH
  delivered : Side → Nat

/-- What can happen next on a link. -/
inductive LinkEvent where
  | sendStatus (x : Side) (o : StatusOpts)
  | sendMessage (x : Side) (code : Nat) (payload : Input)
  /-- The transport hands the next frame that `x` sent to the other side's `_handleMessage`. -/
  | deliver (x : Side)

/-- Two sessions that have handled nothing of each other. -/
def Link.start (sa sb : ETH) : Link where
  ends := fun | .a => sa | .b => sb
  delivered _ := 0

/-- One step of the link. -/
def Link.step (l : Link) : LinkEvent → Link
  | .sendStatus x o =>
    { l with ends := Function.update l.ends x (after (sendStatus js o (l.ends x))) }
  | .sendMessage x code payload =>
    { l with ends := Function.update l.ends x (after (sendMessage code payload (l.ends x))) }
  | .deliver x =>
    match (l.ends x).sent[l.delivered x]? with
    | some f =>
      { ends := Function.update l.ends x.other (after (handleMessage js f.1 f.2.data (l.ends x.other)))
        delivered := Function.update l.delivered x (l.delivered x + 1) }
    | none => l

/-- The link after a sequence of steps. -/
def Link.run (l : Link) (es : List LinkEvent) : Link := es.foldl (Link.step js) l

/-- A `sendMessage` whose payload's frame fits the RLP length field; other events always fit. -/
def LinkEvent.Fits : LinkEvent → Prop
  | .sendMessage _ _ payload => (Rlp.encode payload.toTree).length < 2 ^ 64
  | _ => True

instance (e : LinkEvent) : Decidable e.Fits :=
  match e with
  | .sendStatus _ _ => isTrue trivial
  | .sendMessage _ _ payload =>
    inferInstanceAs (Decidable ((Rlp.encode payload.toTree).length < 2 ^ 64))
  | .deliver _ => isTrue trivial

/-- A sent frame as a message: its code and its RLP bytes; a STATUS frame is none. -/
def frameMessage (f : Nat × Frame) : Option (Nat × Bytes) :=
  if f.1 = STATUS then none else some (f.1, f.2.data)

/-- A sent frame as a status: the payload `rlp.decode` reads from a STATUS frame; none for another
frame or for bytes it rejects. -/
def frameStatus (f : Nat × Frame) : Option Tree :=
  if f.1 = STATUS then (Rlp.decode f.2.data).toOption else none

/-- What a session passed on as `message`, each payload written back as RLP. -/
def received (s : ETH) : List (Nat × Bytes) :=
  (messageEvents s).map fun e => (e.1, Rlp.encode e.2)

private theorem received_filter (s : ETH) :
    (received s).filter (·.1 ≠ STATUS) =
      ((messageEvents s).filter (·.1 ≠ STATUS)).map fun e => (e.1, Rlp.encode e.2) := by
  simp [received, List.filter_map, Function.comp_def]

/-- A frame a session of version `v` may have sent: a STATUS frame, or a message of a code that
`v` allows, whose bytes are the RLP of a tree. -/
def SentOk (v : Nat) (f : Nat × Frame) : Prop :=
  f.1 = STATUS ∨ (codeMinVersion f.1).any (fun m => decide (m ≤ v)) = true ∧
    ∃ t, Rlp.decode f.2.data = .ok t ∧ Rlp.encode t = f.2.data

/-! ### What each call does to the frames -/

private theorem sent_handleStatus (s : ETH) : (after (handleStatus js s)).sent = s.sent := by
  rcases handleStatus_cases js s with ⟨b, h⟩ | ⟨_, _, ev, -, -, -, h⟩ <;> rw [h]

theorem sent_handleMessage (code : Nat) (data : Bytes) (s : ETH) :
    (after (handleMessage js code data s)).sent = s.sent := by
  rcases handleMessage_cases js code data s with h | ⟨t, -, h⟩ | ⟨t, -, -, -, h | h⟩ <;> rw [h]
  rcases after_emitMessage code t (handleStatus js _) with e | e <;> rw [e] <;>
    exact sent_handleStatus js _

theorem sendStatus_sent (o : StatusOpts) (s : ETH) :
    ∃ fs, (after (sendStatus js o s)).sent = s.sent ++ fs ∧ ∀ f ∈ fs, f.1 = STATUS := by
  unfold sendStatus
  split
  · exact ⟨[], by simp [after]⟩
  rcases prepareStatus_cases o s with ⟨e, h⟩ | ⟨lb, h⟩ <;> rw [h] <;> dsimp only
  · exact ⟨[], by simp [after]⟩
  unfold sendRecord
  split
  · exact ⟨[], by simp [after]⟩
  · exact ⟨[_], by rw [sent_handleStatus], by simp⟩

private theorem sendMessage_sent (code : Nat) (payload : Input) (s : ETH)
    (h : (Rlp.encode payload.toTree).length < 2 ^ 64) :
    (after (sendMessage code payload s)).version = s.version ∧
      messageEvents (after (sendMessage code payload s)) = messageEvents s ∧
      ∃ fs, (after (sendMessage code payload s)).sent = s.sent ++ fs ∧
        ∀ f ∈ fs, SentOk s.version f := by
  unfold sendMessage
  split
  · exact ⟨rfl, rfl, [], by simp [after]⟩
  · next hc =>
    cases hv : codeMinVersion code with
    | none => exact ⟨rfl, rfl, [], by simp [after]⟩
    | some m =>
      dsimp only
      split
      · next hm =>
        refine ⟨rfl, rfl, [_], rfl, ?_⟩
        simp only [List.mem_singleton, forall_eq]
        exact .inr ⟨by simp [hv, hm], _, Rlp.decode_encode _ h, rfl⟩
      · exact ⟨rfl, rfl, [], by simp [after]⟩

/-- Handling a frame that a session of the same version may have sent passes on exactly its
message, if it is not a STATUS. -/
theorem received_handleMessage {s : ETH} {f : Nat × Frame} (hf : SentOk s.version f) :
    (received (after (handleMessage js f.1 f.2.data s))).filter (·.1 ≠ STATUS) =
      (received s).filter (·.1 ≠ STATUS) ++ (frameMessage f).toList := by
  rw [received_filter, received_filter, messageEvents_handleMessage, List.map_append]
  rcases hf with hs | ⟨hv, t, hd, he⟩
  · simp only [dispatched, frameMessage, hs]
    split <;> simp
  · have hs : f.1 ≠ STATUS := by
      intro hs; rw [hs] at hv; simp [STATUS, codeMinVersion] at hv
    simp [dispatched, frameMessage, hd, hs, hv, he]

/-! ### What each call does to `_peerStatus` -/

/-- A session keeps the first status it handles: a frame sets `_peerStatus` only when there is none
yet, to the status the frame carries. -/
theorem peerStatus_handleMessage (f : Nat × Frame) (s : ETH) :
    (after (handleMessage js f.1 f.2.data s)).peerStatus = s.peerStatus.or (frameStatus f) := by
  unfold handleMessage frameStatus
  cases hd : Rlp.decode f.2.data with
  | error e => simp [after, Except.toOption]
  | ok t =>
    dsimp only
    split
    · next hc =>
      cases hp : s.peerStatus with
      | some p => exact hp
      | none =>
        dsimp only
        split
        · rfl
        · rcases after_emitMessage STATUS t (handleStatus js _) with e | e <;>
            simp only [hc] at e ⊢ <;> rw [e] <;> exact (handleStatus_frame js _).2.1
    · next hc =>
      simp only [hc, if_false, Option.or_none]
      split <;> (try split) <;> rfl

private theorem peerStatus_sendMessage (code : Nat) (payload : Input) (s : ETH) :
    (after (sendMessage code payload s)).peerStatus = s.peerStatus := by
  unfold sendMessage
  split
  · rfl
  · split <;> (try split) <;> rfl

/-! ### The invariant -/

section Inv

/-- What every link of two sessions of version `v` keeps: the version; frames each side may have
sent; deliveries within what was sent; and each side's `message` events and `_peerStatus` are the
messages and the first status of the frames the other side sent and the transport delivered. -/
structure Link.Inv (v : Nat) (l : Link) : Prop where
  version : ∀ x, (l.ends x).version = v
  sent : ∀ x, ∀ f ∈ (l.ends x).sent, SentOk v f
  delivered : ∀ x, l.delivered x ≤ (l.ends x).sent.length
  received : ∀ x, (received (l.ends x.other)).filter (·.1 ≠ STATUS) =
    ((l.ends x).sent.take (l.delivered x)).filterMap frameMessage
  peerStatus : ∀ x, (l.ends x.other).peerStatus =
    ((l.ends x).sent.take (l.delivered x)).findSome? frameStatus
  statusMessage : ∀ x, StatusMessage (l.ends x)

variable {js}

private theorem Link.inv_start (v : Nat) (pa pb : Peer) : Link.Inv v (.start (init v pa) (init v pb)) where
  version x := by cases x <;> simp [Link.start]
  sent x := by cases x <;> simp [Link.start]
  delivered x := Nat.zero_le _
  received x := by cases x <;> simp [Link.start, Side.other, received, messageEvents]
  peerStatus x := by cases x <;> simp [Link.start, Side.other]
  statusMessage x := by cases x <;> exact statusMessage_init v _

/-- A call on side `z` that keeps its version, its `message` events and its `_peerStatus` and
appends frames it may send keeps the invariant. -/
theorem Link.Inv.update {v : Nat} {l : Link} (hi : l.Inv v) (z : Side) {s : ETH}
    (hv : s.version = v) (hm : messageEvents s = messageEvents (l.ends z))
    (hs : ∃ fs, s.sent = (l.ends z).sent ++ fs ∧ ∀ f ∈ fs, SentOk v f)
    (hp : s.peerStatus = (l.ends z).peerStatus) :
    Link.Inv v { l with ends := Function.update l.ends z s } := by
  obtain ⟨fs, hsent, hfs⟩ := hs
  refine ⟨fun x => ?_, fun x => ?_, fun x => ?_, fun x => ?_, fun x => ?_, fun x => ?_⟩ <;>
    by_cases e : x = z
  · subst e; simpa using hv
  · simpa [Function.update_noteq e] using hi.version x
  · subst e
    simp only [Function.update_same, hsent, List.mem_append]
    rintro f (hf | hf)
    exacts [hi.sent x f hf, hfs f hf]
  · simpa [Function.update_noteq e] using hi.sent x
  · subst e
    simpa [hsent] using Nat.le_trans (hi.delivered x) (by simp)
  · simpa [Function.update_noteq e] using hi.delivered x
  · subst e
    simp only [Function.update_same, Function.update_noteq (Side.other_ne x), hsent,
      List.take_append_of_le_length (hi.delivered x)]
    exact hi.received x
  · have ho : x.other = z := by rw [Side.eq_other_of_ne e, Side.other_other]
    simp only [Function.update_noteq e]
    rw [ho, Function.update_same, ETH.received, hm, ← ETH.received, ← ho]
    exact hi.received x
  · subst e
    simp only [Function.update_same, Function.update_noteq (Side.other_ne x), hsent,
      List.take_append_of_le_length (hi.delivered x)]
    exact hi.peerStatus x
  · have ho : x.other = z := by rw [Side.eq_other_of_ne e, Side.other_other]
    simp only [Function.update_noteq e]
    rw [ho, Function.update_same, hp, ← ho]
    exact hi.peerStatus x
  · subst e
    simpa using (hi.statusMessage x).of_eq hm hp
  · simpa [Function.update_noteq e] using hi.statusMessage x

theorem Link.Inv.deliver {v : Nat} {l : Link} (hi : l.Inv v) (x : Side) :
    (l.step js (.deliver x)).Inv v := by
  simp only [Link.step]
  split
  · next f hf =>
    have hlt : l.delivered x < (l.ends x).sent.length := (List.getElem?_eq_some_iff.mp hf).1
    have hok : SentOk (l.ends x.other).version f := by
      rw [hi.version]; exact hi.sent x f (List.getElem?_mem hf)
    refine ⟨fun y => ?_, fun y => ?_, fun y => ?_, fun y => ?_, fun y => ?_, fun y => ?_⟩ <;>
      by_cases e : y = x.other
    · subst e
      simp only [Function.update_same]
      exact (version_call js _ (.receive f.1 f.2.data)).trans (hi.version x.other)
    · simpa [Function.update_noteq e] using hi.version y
    · subst e; simpa [sent_handleMessage] using hi.sent x.other
    · simpa [Function.update_noteq e] using hi.sent y
    · subst e
      simpa [sent_handleMessage, Function.update_noteq x.other_ne] using hi.delivered x.other
    · obtain rfl : y = x := by rw [Side.eq_other_of_ne e, Side.other_other]
      simpa [Function.update_noteq e] using hlt
    · -- the other direction: nothing it sent or delivered moves
      subst e
      rw [Side.other_other]
      simp only [Function.update_same, Function.update_noteq (Side.other_ne x).symm,
        Function.update_noteq (Side.other_ne x), sent_handleMessage]
      simpa using hi.received x.other
    · -- this direction: one more frame, and its message passed on
      obtain rfl : y = x := by rw [Side.eq_other_of_ne e, Side.other_other]
      simp only [Function.update_same, Function.update_noteq (Side.other_ne y).symm]
      rw [received_handleMessage js hok, hi.received y, List.take_succ, hf, List.filterMap_append]
      rfl
    · subst e
      rw [Side.other_other]
      simp only [Function.update_same, Function.update_noteq (Side.other_ne x).symm,
        Function.update_noteq (Side.other_ne x), sent_handleMessage]
      simpa using hi.peerStatus x.other
    · -- this direction: the delivered frame sets the status if none was set before
      obtain rfl : y = x := by rw [Side.eq_other_of_ne e, Side.other_other]
      simp only [Function.update_same, Function.update_noteq (Side.other_ne y).symm]
      rw [peerStatus_handleMessage js f, hi.peerStatus y, List.take_succ, hf, List.findSome?_append]
      cases h : frameStatus f <;> simp [List.findSome?_cons, h]
    · subst e
      simpa using statusMessage_handleMessage (hi.statusMessage x.other) f.1 f.2.data
    · simpa [Function.update_noteq e] using hi.statusMessage y
  · exact hi

theorem Link.Inv.step {v : Nat} {l : Link} (hi : l.Inv v) (e : LinkEvent) (he : e.Fits) :
    (l.step js e).Inv v := by
  cases e with
  | sendStatus x o =>
    obtain ⟨fs, hs, hfs⟩ := sendStatus_sent js o (l.ends x)
    obtain ⟨hv, hp, hm⟩ := sendStatus_frame js o (l.ends x)
    exact hi.update x (hv.trans (hi.version x)) hm ⟨fs, hs, fun f hf => .inl (hfs f hf)⟩ hp
  | sendMessage x code payload =>
    obtain ⟨hv, hm, fs, hs, hfs⟩ := sendMessage_sent code payload (l.ends x) he
    exact hi.update x (hv.trans (hi.version x)) hm ⟨fs, hs, fun f hf => hi.version x ▸ hfs f hf⟩
      (peerStatus_sendMessage code payload _)
  | deliver x => exact hi.deliver x

theorem Link.Inv.run {v : Nat} {l : Link} (hi : l.Inv v) (es : List LinkEvent)
    (hes : ∀ e ∈ es, e.Fits) : (l.run js es).Inv v := by
  induction es generalizing l with
  | nil => exact hi
  | cons e es ih =>
    exact ih (hi.step e (hes e (List.mem_cons_self _ _))) fun e' h => hes e' (List.mem_cons_of_mem _ h)

end Inv

/-- Over every interleaving of the two sides' `sendStatus` and `sendMessage` calls and the
deliveries, each of two sessions of one version passes on as `message` with a code other than
STATUS exactly the messages the other side sent with such a code and the transport delivered, in
the order sent, each payload as it was written; besides these it passes on at most one STATUS
`message`, the status it holds. -/
theorem link_messages_in_order (v : Nat) (pa pb : Peer) (es : List LinkEvent)
    (hes : ∀ e ∈ es, e.Fits) (x : Side) :
    (received ((Link.run js (.start (init v pa) (init v pb)) es).ends x.other)).filter
        (·.1 ≠ STATUS) =
      (((Link.run js (.start (init v pa) (init v pb)) es).ends x).sent.take
        ((Link.run js (.start (init v pa) (init v pb)) es).delivered x)).filterMap frameMessage ∧
    StatusMessage ((Link.run js (.start (init v pa) (init v pb)) es).ends x.other) :=
  ⟨((Link.inv_start v pa pb).run es hes).received x,
    ((Link.inv_start v pa pb).run es hes).statusMessage x.other⟩

/-- Over every interleaving of the two sides' calls and the deliveries, each of two sessions of one
version holds as `_peerStatus` the status of the first STATUS frame the other side sent that the
transport delivered and `rlp.decode` read: a later STATUS never replaces it, no other frame sets
it, and nothing the session itself does changes it. -/
theorem link_peer_status (v : Nat) (pa pb : Peer) (es : List LinkEvent) (hes : ∀ e ∈ es, e.Fits)
    (x : Side) :
    ((Link.run js (.start (init v pa) (init v pb)) es).ends x.other).peerStatus =
      (((Link.run js (.start (init v pa) (init v pb)) es).ends x).sent.take
        ((Link.run js (.start (init v pa) (init v pb)) es).delivered x)).findSome? frameStatus :=
  ((Link.inv_start v pa pb).run es hes).peerStatus x

/-- Both sides of an eth/66 link send their STATUS, side `a` twice, and the transport delivers
all three frames. -/
theorem link_peer_status_twice :
    (∀ e ∈ [LinkEvent.sendStatus .a ⟨[1], [2], none, [3]⟩, .sendStatus .b ⟨[4], [5], none, [3]⟩,
      .sendStatus .a ⟨[6], [7], none, [3]⟩, .deliver .a, .deliver .b, .deliver .a], e.Fits) ∧
    ((Link.run emptyCoercions (.start (init 66 ⟨londonCommon, none⟩) (init 66 ⟨londonCommon, none⟩))
        [.sendStatus .a ⟨[1], [2], none, [3]⟩, .sendStatus .b ⟨[4], [5], none, [3]⟩,
          .sendStatus .a ⟨[6], [7], none, [3]⟩, .deliver .a, .deliver .b, .deliver .a]).ends
        Side.a.other).peerStatus =
      (((Link.run emptyCoercions (.start (init 66 ⟨londonCommon, none⟩)
        (init 66 ⟨londonCommon, none⟩)) [.sendStatus .a ⟨[1], [2], none, [3]⟩,
          .sendStatus .b ⟨[4], [5], none, [3]⟩, .sendStatus .a ⟨[6], [7], none, [3]⟩, .deliver .a,
          .deliver .b, .deliver .a]).ends .a).sent.take
        ((Link.run emptyCoercions (.start (init 66 ⟨londonCommon, none⟩)
          (init 66 ⟨londonCommon, none⟩)) [.sendStatus .a ⟨[1], [2], none, [3]⟩,
            .sendStatus .b ⟨[4], [5], none, [3]⟩, .sendStatus .a ⟨[6], [7], none, [3]⟩,
            .deliver .a, .deliver .b, .deliver .a]).delivered .a)).findSome? frameStatus :=
  ⟨by decide, link_peer_status emptyCoercions 66 _ _ _ (by decide) .a⟩

/-- Side `a` of an eth/66 link sends a TX message with no transactions and then its STATUS, and
the transport delivers both. -/
theorem link_messages_in_order_tx :
    (∀ e ∈ [LinkEvent.sendMessage .a 0x02 (.arr []), .sendStatus .a ⟨[1], [2], none, [3]⟩,
      .deliver .a, .deliver .a], e.Fits) ∧
    ((received ((Link.run emptyCoercions (.start (init 66 ⟨londonCommon, none⟩)
        (init 66 ⟨londonCommon, none⟩)) [.sendMessage .a 0x02 (.arr []),
          .sendStatus .a ⟨[1], [2], none, [3]⟩, .deliver .a, .deliver .a]).ends Side.a.other)).filter
        (·.1 ≠ STATUS) =
      (((Link.run emptyCoercions (.start (init 66 ⟨londonCommon, none⟩)
        (init 66 ⟨londonCommon, none⟩)) [.sendMessage .a 0x02 (.arr []),
          .sendStatus .a ⟨[1], [2], none, [3]⟩, .deliver .a, .deliver .a]).ends .a).sent.take
        ((Link.run emptyCoercions (.start (init 66 ⟨londonCommon, none⟩)
          (init 66 ⟨londonCommon, none⟩)) [.sendMessage .a 0x02 (.arr []),
            .sendStatus .a ⟨[1], [2], none, [3]⟩, .deliver .a, .deliver .a]).delivered .a)).filterMap
        frameMessage ∧
      StatusMessage ((Link.run emptyCoercions (.start (init 66 ⟨londonCommon, none⟩)
        (init 66 ⟨londonCommon, none⟩)) [.sendMessage .a 0x02 (.arr []),
          .sendStatus .a ⟨[1], [2], none, [3]⟩, .deliver .a, .deliver .a]).ends Side.a.other)) :=
  ⟨by decide, link_messages_in_order emptyCoercions 66 _ _ _ (by decide) .a⟩

end ETH

end EthereumJs
