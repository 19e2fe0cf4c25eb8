import EthereumJs.JsValue

/-!
# The devp2p `ETH` session

One `ETH` object per peer. It sends its STATUS once (`sendStatus`), records the peer's once
(`handleMessage`), and compares the two when both are there (`handleStatus`): protocol version,
network id and genesis hash byte for byte, and from eth/64 on the peer's fork id
(`validateForkId`, EIP-2124). Other messages are passed on, or dropped, by the negotiated
version alone (`codeMinVersion`).

A call that throws keeps what it wrote before the throw, as JavaScript does: each method returns
an `EStateM.Result`, whose `error` case carries the session as the exception left it.
The chain's configuration (`Common`) is the peer's, and what the runtime makes of an array where a
`Buffer` is read is `Coercions`.
-/

namespace EthereumJs

/-- What the session asks of `@ethereumjs/common`. -/
structure Common where
  hardfork : String
  chainIdBN : Nat
  hardforkBlockBN : String → Option Nat
  forkHash : String → String
  nextHardforkBlockBN : String → Option Nat
  /-- The name of the hardfork with this fork hash. -/
  hardforkForForkHash : String → Option String
  hardforkGteHardfork : String → String → Bool

/-- What the session reads of its RLPx peer. -/
structure Peer where
  common : Common
  /-- `_hello?.protocolVersion`: the devp2p version the peer announced. -/
  helloVersion : Option Nat

/-- `ETH.MESSAGE_CODES.STATUS`. -/
def STATUS : Nat := 0x00

/-- The least protocol version with which the `switch` of `_handleMessage` and `sendMessage`
lets a code through: eth62 for `0x01`–`0x07`, eth63 for `0x0d`–`0x10`, eth65 for `0x08`–`0x0a`. -/
def codeMinVersion : Nat → Option Nat
  | 0x01 | 0x02 | 0x03 | 0x04 | 0x05 | 0x06 | 0x07 => some 62
  | 0x0d | 0x0e | 0x0f | 0x10 => some 63
  | 0x08 | 0x09 | 0x0a => some 65
  | _ => none

/-- The `status` event: what the peer sent, with its fork id from eth/64 on. -/
structure StatusEvent where
  networkId : JsVal
  td : Bytes
  bestHash : Bytes
  genesisHash : Bytes
  forkId : Option JsVal

/-- What the session emits. -/
inductive EthEvent where
  | status (e : StatusEvent)
  | message (code : Nat) (payload : Tree)

/-- What `_send` is given: the RLP bytes of a message, and whether they went through
`snappy.compress` (the peer's side decompresses them before its `_handleMessage`). -/
structure Frame where
  data : Bytes
  snappy : Bool

/-- `ETH.StatusOpts`. -/
structure StatusOpts where
  td : Bytes
  bestHash : Bytes
  latestBlock : Option Nat := none
  genesisHash : Bytes

/-- The state of a session. -/
structure ETH where
  version : Nat
  peer : Peer
  /-- `_status`: the STATUS record this side sent. -/
  status : Option (List Tree)
  /-- `_peerStatus`: the STATUS payload the peer sent. -/
  peerStatus : Option Tree
  /-- Whether `_statusTimeoutId`, the 5 s disconnect timer, is still armed. -/
  statusTimeout : Bool
  hardfork : String
  latestBlock : Nat
  forkHash : String
  nextForkBlock : Nat
  /-- The events emitted so far, oldest first. -/
  events : List EthEvent
  /-- The calls of `_send` so far: message code and frame. -/
  sent : List (Nat × Frame)

namespace ETH

/-- How a call on the session ends: normally or by an exception, with the session it leaves. -/
abbrev Result := EStateM.Result EthError ETH Unit

/-- The session a call leaves, thrown or not. -/
def after : Result → ETH
  | .ok _ s => s
  | .error _ s => s

/-- Whether a call returned without throwing. -/
def completed : Result → Bool
  | .ok _ _ => true
  | .error _ _ => false

/-- `new ETH(version, peer, send)`. From eth/64 on it reads the fork hash, the next fork and the
first block of the hardfork from the peer's `Common`. -/
def init (version : Nat) (peer : Peer) : ETH :=
  let c := peer.common
  let hf := if c.hardfork = "" then "chainstart" else c.hardfork
  if 64 ≤ version then
    { version, peer, status := none, peerStatus := none, statusTimeout := true, hardfork := hf,
      latestBlock := (c.hardforkBlockBN hf).getD 0, forkHash := c.forkHash hf,
      nextForkBlock := (c.nextHardforkBlockBN hf).getD 0, events := [], sent := [] }
  else
    { version, peer, status := none, peerStatus := none, statusTimeout := true,
      hardfork := "chainstart", latestBlock := 0, forkHash := "", nextForkBlock := 0,
      events := [], sent := [] }

@[simp] theorem init_version (v : Nat) (p : Peer) : (init v p).version = v := by
  unfold init; split <;> rfl

@[simp] theorem init_peer (v : Nat) (p : Peer) : (init v p).peer = p := by
  unfold init; split <;> rfl

@[simp] theorem init_status (v : Nat) (p : Peer) : (init v p).status = none := by
  unfold init; split <;> rfl

@[simp] theorem init_peerStatus (v : Nat) (p : Peer) : (init v p).peerStatus = none := by
  unfold init; split <;> rfl

@[simp] theorem init_statusTimeout (v : Nat) (p : Peer) : (init v p).statusTimeout = true := by
  unfold init; split <;> rfl

@[simp] theorem init_events (v : Nat) (p : Peer) : (init v p).events = [] := by
  unfold init; split <;> rfl

@[simp] theorem init_sent (v : Nat) (p : Peer) : (init v p).sent = [] := by
  unfold init; split <;> rfl

variable (js : Coercions)

/-- `_getStatusString(status)` as far as it can throw; the text itself only goes to the debug
log. `buffer2int` (devp2p's util, not in the sources) reads `.length` of its argument, which
throws on `undefined`; `toString('hex')` throws on `undefined` and on numbers. -/
def getStatusString (version : Nat) (st : JsVal) : Except EthError Unit := do
  let _ ← (← st.get 0).length
  let _ ← (← st.get 1).length
  let _ ← (← st.get 2).length
  let _ ← (← st.get 3).toHex js
  let _ ← (← st.get 4).toHex js
  if 64 ≤ version then
    let f ← st.get 5
    if f.truthy then
      let _ ← (← f.get 0).toHex js
      let _ ← (← f.get 1).length

/-- `_validateForkId(forkId)`, EIP-2124: the peer's fork hash must be one this chain knows, must
not announce as its next fork a block this side has passed, and a peer on an older hardfork must
name that hardfork's successor as its next fork. -/
def validateForkId (s : ETH) (forkId : JsVal) : Except EthError Unit := do
  let peerForkHash := "0x" ++ (← (← forkId.get 0).toHex js)
  let peerNextFork := (← forkId.get 1).toBN js
  let c := s.peer.common
  if s.forkHash = peerForkHash ∧ peerNextFork ≠ 0 ∧ peerNextFork ≤ s.latestBlock then
    throw (.assertion "Remote is advertising a future fork that passed locally")
  match c.hardforkForForkHash peerForkHash with
  | none => throw (.assertion "Unknown fork hash")
  | some peerFork =>
    if c.hardforkGteHardfork peerFork s.hardfork then pure ()
    else if c.nextHardforkBlockBN peerFork = some peerNextFork then pure ()
    else throw (.assertion "Outdated fork status, remote needs software update")

/-- `assertEq(this._status[i], this._peerStatus[i], msg)`. -/
def checkField (st : List Tree) (ps : Tree) (i : Nat) (msg : String) : Except EthError Unit := do
  assertEq (← (JsVal.arr st).get i) (← (JsVal.ofTree ps).get i) msg

/-- From eth/64 on, the peer's fork id must have two items and pass `validateForkId`. -/
def checkForkId (s : ETH) (ps : Tree) : Except EthError (Option JsVal) :=
  if 64 ≤ s.version then do
    let f ← (JsVal.ofTree ps).get 5
    assertEq (← f.length) (.num 2) "Incorrect forkId msg format"
    validateForkId js s f
    pure (some f)
  else pure none

/-- The checks `_handleStatus` makes once both records are set, and the `status` event they
lead to. -/
def statusCheck (s : ETH) (st : List Tree) (ps : Tree) : Except EthError StatusEvent := do
  checkField st ps 0 "Protocol version mismatch"
  checkField st ps 1 "NetworkId mismatch"
  checkField st ps 4 "Genesis block mismatch"
  let peer := JsVal.ofTree ps
  let networkId ← peer.get 1
  let td ← (← peer.get 2).toBuffer js
  let bestHash ← (← peer.get 3).toBuffer js
  let genesisHash ← (← peer.get 4).toBuffer js
  let forkId ← checkForkId js s ps
  pure { networkId, td, bestHash, genesisHash, forkId }

/-- `_handleStatus()`: nothing until both records are set; then the timer is cleared before the
checks, and the `status` event is emitted if they pass. -/
def handleStatus (s : ETH) : Result :=
  match s.status, s.peerStatus with
  | some st, some ps =>
    let s := { s with statusTimeout := false }
    match statusCheck js s st ps with
    | .ok ev => .ok () { s with events := s.events ++ [.status ev] }
    | .error e => .error e s
  | _, _ => .ok () s

/-- `this.emit('message', code, payload)` after the `switch` of `_handleMessage`: reached only
when the case before it returned. -/
def emitMessage (code : Nat) (payload : Tree) : Result → Result
  | .ok _ s => .ok () { s with events := s.events ++ [.message code payload] }
  | .error e s => .error e s

@[simp] theorem completed_emitMessage (code : Nat) (payload : Tree) (r : Result) :
    completed (emitMessage code payload r) = completed r := by
  cases r <;> rfl

theorem after_emitMessage (code : Nat) (payload : Tree) (r : Result) :
    after (emitMessage code payload r) = after r ∨
      after (emitMessage code payload r) =
        { after r with events := (after r).events ++ [.message code payload] } := by
  cases r
  exacts [.inr rfl, .inl rfl]

/-- `_handleMessage(code, data)`: a first STATUS is recorded and checked, a second one refused;
other codes pass when the negotiated version allows them and are dropped otherwise. What passes,
a first STATUS too once `_handleStatus` returns, is emitted as `message`. -/
def handleMessage (code : Nat) (data : Bytes) (s : ETH) : Result :=
  match Rlp.decode data with
  | .error e => .error e s
  | .ok payload =>
    if code = STATUS then
      match s.peerStatus with
      | some _ => .error (.assertion "Uncontrolled status message") s
      | none =>
        let s := { s with peerStatus := some payload }
        match getStatusString js s.version (.ofTree payload) with
        | .error e => .error e s
        | .ok () => emitMessage code payload (handleStatus js s)
    else
      match codeMinVersion code with
      | some v => if v ≤ s.version then emitMessage code payload (.ok () s) else .ok () s
      | none => .ok () s

/-- Whether outgoing payloads are snappy-compressed: the peer announced devp2p 5 or later. -/
def snappy (s : ETH) : Bool :=
  match s.peer.helloVersion with
  | some v => 5 ≤ v
  | none => false

/-- The first five fields of this side's STATUS. -/
def statusRecord (o : StatusOpts) (s : ETH) : List Tree :=
  [.bytes (int2buffer s.version), .bytes (toArrayLike s.peer.common.chainIdBN), .bytes o.td,
    .bytes o.bestHash, .bytes o.genesisHash]

/-- `[forkHashB, nextForkB]`: the fork id, with no bytes for "no next fork". -/
def forkId (s : ETH) : Tree :=
  .list [.bytes (bytesOfHex (s.forkHash.drop 2)),
    .bytes (if s.nextForkBlock = 0 then [] else toArrayLike s.nextForkBlock)]

/-- `if (status.latestBlock) …`: a given latest block below the session's raises an error. -/
def raiseLatestBlock (o : StatusOpts) (s : ETH) : Except EthError ETH :=
  match o.latestBlock with
  | some lb =>
    if lb = 0 then .ok s
    else if lb < s.latestBlock then
      .error (.error "latest block provided is not matching the HF setting of the Common instance (Rlpx)")
    else .ok { s with latestBlock := lb }
  | none => .ok s

/-- `sendStatus` up to `_send`: `_status` is written, then from eth/64 on the latest block is
checked, which can throw after the write, and the fork id is appended. -/
def prepareStatus (o : StatusOpts) (s : ETH) : EStateM.Result EthError ETH (List Tree) :=
  let st := statusRecord o s
  let s := { s with status := some st }
  if 64 ≤ s.version then
    match raiseLatestBlock o s with
    | .error e => .error e s
    | .ok s =>
      let st := st ++ [forkId s]
      .ok st { s with status := some st }
  else .ok st s

/-- The end of `sendStatus`: the record goes to `_send`, then `_handleStatus` runs. -/
def sendRecord (st : List Tree) (s : ETH) : Result :=
  match getStatusString js s.version (.arr st) with
  | .error e => .error e s
  | .ok () =>
    handleStatus js { s with sent := s.sent ++ [(STATUS, ⟨Rlp.encode (.list st), snappy s⟩)] }

/-- `sendStatus(status)`: once only. -/
def sendStatus (o : StatusOpts) (s : ETH) : Result :=
  match s.status with
  | some _ => .ok () s
  | none =>
    match prepareStatus o s with
    | .error e s => .error e s
    | .ok st s => sendRecord js st s

/-- `sendMessage(code, payload)`: STATUS goes through `sendStatus`, other codes only with a
version that allows them. -/
def sendMessage (code : Nat) (payload : Input) (s : ETH) : Result :=
  if code = STATUS then .error (.error "Please send status message through .sendStatus") s
  else
    match codeMinVersion code with
    | none => .error (.error ("Unknown code " ++ toString code)) s
    | some v =>
      if v ≤ s.version then
        .ok () { s with sent := s.sent ++ [(code, ⟨Rlp.encode payload.toTree, snappy s⟩)] }
      else
        .error (.error ("Code " ++ toString code ++ " not allowed with version " ++
          toString s.version)) s

/-- A call on the session from outside: `sendStatus`, or a message from the peer. -/
inductive Call where
  | sendStatus (o : StatusOpts)
  | receive (code : Nat) (data : Bytes)

/-- One call, run to its end. -/
def call (s : ETH) : Call → Result
  | .sendStatus o => sendStatus js o s
  | .receive code data => handleMessage js code data s

/-- The session after a sequence of calls, each run to its end whether it throws or not. -/
def run (s : ETH) (cs : List Call) : ETH := cs.foldl (fun s c => after (call js s c)) s

end ETH

end EthereumJs
