import EthereumJs.JsValue

/-!
# The client's eth/66 messages

`EthProtocol.protocolMessages`: for each message, `encode` builds the value `rlp.encode` frames and
`decode` reads the value `rlp.decode` returned. Requests take their id from the module's shared
counter `id` when none is given (`nextReqId`). Transactions, headers and blocks come from the
`@ethereumjs/tx` and `@ethereumjs/block` packages, whose constructors are parameters here
(`TxLib`, `BlockLib`).

`wire x` is `rlp.decode(rlp.encode(x))` as the decoders see it; `wire_eq` says it gives back the
value with its numbers turned into minimal bytes. Two messages do not survive the trip:
`Transactions.decode` binds the first transaction where it wants the list of them, and
`PooledTransactions.encode` converts its request id with `toNumber`, which bn.js refuses above
`2^53` (`eth66_codec_roundtrip_fails`). `BN.toArrayLike` writes zero as one zero byte, so a
request for block `0` puts a non-minimal integer on the wire (`getBlockHeaders_block_zero`).
-/

namespace EthereumJs

/-- What the client uses of `@ethereumjs/tx` transactions. -/
structure TxLib (Tx : Type) where
  type : Tx → Nat
  /-- `tx.raw()` of a legacy transaction. -/
  raw : Tx → List Bytes
  serialize : Tx → Bytes
  fromSerializedData : Bytes → Except EthError Tx
  fromValuesArray : List Tree → Except EthError Tx

/-- Modelled from the spec: `TransactionFactory.fromBlockBodyData` (of `@ethereumjs/tx`, not in
the sources). A byte string is a typed envelope, a list the fields of a legacy transaction; any
other value is rejected. -/
def TxLib.fromBlockBodyData {Tx : Type} (lib : TxLib Tx) : JsVal → Except EthError Tx
  | .buf b => lib.fromSerializedData b
  | .arr ts => lib.fromValuesArray ts
  | _ => .error .typeError

/-- What the client uses of `@ethereumjs/block` headers and blocks. -/
structure BlockLib (Header Block : Type) where
  /-- `header.raw()`. -/
  headerRaw : Header → List Bytes
  /-- `BlockHeader.fromValuesArray(values, opts)`. -/
  headerFromValuesArray : JsVal → Except EthError Header
  /-- `block.raw()`. -/
  blockRaw : Block → Tree
  /-- `Block.fromValuesArray(values, opts)`. -/
  blockFromValuesArray : JsVal → Except EthError Block

/-- `rlp.decode(rlp.encode(x))`, as the decoders see it. -/
def wire (x : Input) : Except EthError JsVal :=
  match Rlp.decode (Rlp.encode x.toTree) with
  | .ok t => .ok (.ofTree t)
  | .error e => .error e

/-- A value whose frame fits the format's length field comes back with its numbers as bytes. -/
theorem wire_eq {x : Input} (h : (Rlp.encode x.toTree).length < 2 ^ 64) :
    wire x = .ok (.ofTree x.toTree) := by
  simp [wire, Rlp.decode_encode _ h]

namespace EthProtocol

/-- `reqId === undefined ? id.iaddn(1) : new BN(reqId)`: the request id and the counter after. -/
def nextReqId (reqId : Option Nat) (id : Nat) : Nat × Nat :=
  match reqId with
  | some r => (r, id)
  | none => (id + 1, id + 1)

/-- One transaction of a `Transactions` or `PooledTransactions` payload: the raw fields of a
legacy transaction, the serialized envelope of a typed one. -/
def serializedTx {Tx : Type} (lib : TxLib Tx) (tx : Tx) : Input :=
  if lib.type tx = 0 then .arr ((lib.raw tx).map .buf) else .buf (lib.serialize tx)

/-- A request of a list of hashes, as `GetBlockBodies` and `GetPooledTransactions` make it. -/
structure HashesOpts where
  reqId : Option Nat := none
  hashes : List Bytes

/-- `[reqId, hashes]`, the id taken from the counter when none is given. -/
def hashesEncode (o : HashesOpts) (id : Nat) : Input × Nat :=
  let (r, id') := nextReqId o.reqId id
  (.arr [.buf (toArrayLike r), .arr (o.hashes.map .buf)], id')

/-- `([reqId, hashes]) => ({ reqId: new BN(reqId), hashes })`. -/
def hashesDecode (js : Coercions) (v : JsVal) : Except EthError (Nat × JsVal) := do
  let reqId ← v.destruct 0
  let hashes ← v.destruct 1
  pure (reqId.toBN js, hashes)

namespace NewBlockHashes

def encode (hashes : List (Bytes × Nat)) : Input :=
  .arr (hashes.map fun hn => .arr [.buf hn.1, .buf (toArrayLike hn.2)])

def decode (js : Coercions) (v : JsVal) : Except EthError (List (JsVal × Nat)) :=
  v.mapM fun hn => do
    let h ← hn.get 0
    let n ← hn.get 1
    pure (h, n.toBN js)

end NewBlockHashes

namespace Transactions

def encode {Tx : Type} (lib : TxLib Tx) (txs : List Tx) : Input := .arr (txs.map (serializedTx lib))

/-- `([txs]) => txs.map(fromBlockBodyData)`: the pattern binds the payload's first element. -/
def decode {Tx : Type} (lib : TxLib Tx) (v : JsVal) : Except EthError (List Tx) := do
  let txs ← v.destruct 0
  txs.mapM lib.fromBlockBodyData

end Transactions

/-- The block a `GetBlockHeaders` request starts from: a number or a hash. -/
inductive BlockRef where
  | number (n : Nat)
  | hash (h : Bytes)

/-- `GetBlockHeadersOpts`. -/
structure GetBlockHeadersOpts where
  reqId : Option Nat := none
  block : BlockRef
  max : Nat
  skip : Option Nat := none
  reverse : Option Bool := none

/-- A decoded `GetBlockHeaders` request; `block` is the value itself when it has 32 elements,
else `new BN(block)`. -/
structure GetBlockHeadersRequest where
  reqId : Nat
  block : JsVal ⊕ Nat
  max : Nat
  skip : Nat
  reverse : Bool

namespace GetBlockHeaders

def encode (o : GetBlockHeadersOpts) (id : Nat) : Input × Nat :=
  let (r, id') := nextReqId o.reqId id
  (.arr [.buf (toArrayLike r),
    .arr [(match o.block with
        | .number n => .buf (toArrayLike n)
        | .hash h => .buf h),
      .num o.max, .num (o.skip.getD 0), .num (if o.reverse.getD false then 1 else 0)]], id')

def decode (js : Coercions) (v : JsVal) : Except EthError GetBlockHeadersRequest := do
  let reqId ← v.destruct 0
  let q ← v.destruct 1
  let block ← q.destruct 0
  let max ← q.destruct 1
  let skip ← q.destruct 2
  let reverse ← q.destruct 3
  let len ← block.length
  let max ← bufferToInt js max
  let skip ← bufferToInt js skip
  let reverse ← bufferToInt js reverse
  pure { reqId := reqId.toBN js
         block := if strictEq len (.num 32) then .inl block else .inr (block.toBN js)
         max, skip
         reverse := reverse ≠ 0 }

end GetBlockHeaders

namespace BlockHeaders

def encode {Header Block : Type} (lib : BlockLib Header Block) (reqId : Nat) (headers : List Header) :
    Input :=
  .arr [.buf (toArrayLike reqId), .arr (headers.map fun h => .arr ((lib.headerRaw h).map .buf))]

def decode {Header Block : Type} (js : Coercions) (lib : BlockLib Header Block) (v : JsVal) :
    Except EthError (Nat × List Header) := do
  let reqId ← v.destruct 0
  let headers ← v.destruct 1
  let hs ← headers.mapM lib.headerFromValuesArray
  pure (reqId.toBN js, hs)

end BlockHeaders

namespace GetBlockBodies

def encode (o : HashesOpts) (id : Nat) : Input × Nat := hashesEncode o id

def decode (js : Coercions) (v : JsVal) : Except EthError (Nat × JsVal) := hashesDecode js v

end GetBlockBodies

namespace BlockBodies

def encode (reqId : Nat) (bodies : List Tree) : Input :=
  .arr [.buf (toArrayLike reqId), .arr (bodies.map Input.ofTree)]

def decode (js : Coercions) (v : JsVal) : Except EthError (Nat × JsVal) := do
  let reqId ← v.destruct 0
  let bodies ← v.destruct 1
  pure (reqId.toBN js, bodies)

end BlockBodies

namespace NewBlock

def encode {Header Block : Type} (lib : BlockLib Header Block) (block : Block) (td : Nat) : Input :=
  .arr [Input.ofTree (lib.blockRaw block), .buf (toArrayLike td)]

def decode {Header Block : Type} (js : Coercions) (lib : BlockLib Header Block) (v : JsVal) :
    Except EthError (Block × Nat) := do
  let block ← v.destruct 0
  let td ← v.destruct 1
  let b ← lib.blockFromValuesArray block
  pure (b, td.toBN js)

end NewBlock

namespace GetPooledTransactions

def encode (o : HashesOpts) (id : Nat) : Input × Nat := hashesEncode o id

def decode (js : Coercions) (v : JsVal) : Except EthError (Nat × JsVal) := hashesDecode js v

end GetPooledTransactions

namespace PooledTransactions

/-- `[reqId.toNumber(), serializedTxs]`. -/
def encode {Tx : Type} (lib : TxLib Tx) (reqId : Nat) (txs : List Tx) : Except EthError Input := do
  let r ← toNumber reqId
  pure (.arr [.num r, .arr (txs.map (serializedTx lib))])

def decode {Tx : Type} (js : Coercions) (lib : TxLib Tx) (v : JsVal) :
    Except EthError (Nat × List Tx) := do
  let reqId ← v.destruct 0
  let txs ← v.destruct 1
  let ts ← txs.mapM lib.fromBlockBodyData
  pure (reqId.toBN js, ts)

end PooledTransactions

end EthProtocol

open EthProtocol

/-- Two messages do not come back through the wire: an empty `Transactions` payload decodes by
mapping over `undefined`, and a `PooledTransactions` response for a request id of `2^53` or more
cannot be encoded. -/
theorem eth66_codec_roundtrip_fails {Tx : Type} (lib : TxLib Tx) :
    ((wire (Transactions.encode lib [])).bind (Transactions.decode lib) = .error .typeError) ∧
    PooledTransactions.encode lib (2 ^ 53) [] =
      .error (.error "Number can only safely store up to 53 bits") := by
  refine ⟨?_, by simp [PooledTransactions.encode, toNumber, bind, Except.bind]⟩
  show (wire (.arr [])).bind _ = _
  rw [wire_eq (by decide)]
  rfl

/-- A request for block `0` puts the block number on the wire as one zero byte, where the
minimal form of `0` is empty. -/
theorem getBlockHeaders_block_zero :
    (GetBlockHeaders.encode { block := .number 0, max := 1 } 0).1.toTree =
      .list [.bytes [1], .list [.bytes [0], .bytes [1], .bytes [], .bytes []]] ∧
    toBytesBE 0 = [] := ⟨by decide, rfl⟩

end EthereumJs
