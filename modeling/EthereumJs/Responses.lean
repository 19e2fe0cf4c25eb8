import EthereumJs.EthProtocol

/-!
# The client's responses and announcements come back through the wire

`BlockHeaders`, `BlockBodies` and `PooledTransactions` answer the requests of eth/66, and
`NewBlockHashes` and `NewBlock` announce blocks. For each of them `decode` reads back what `encode`
put on the wire (`responses_roundtrip`), as far as `@ethereumjs/tx` and `@ethereumjs/block` read
back what they write: a header from its raw fields, a block from its raw tree, a legacy
transaction from its raw fields and a typed one from its envelope (`BlockLib.ReadsBackHeader`,
`BlockLib.ReadsBackBlock`, `TxLib.ReadsBack`). `PooledTransactions` needs a request id that
`toNumber` accepts, below `2 ^ 53`.

The two libraries enter only through these three properties; numbers come back because
`new BN` reads what `toArrayLike` wrote (`fromBytesBE_toArrayLike`), and lists because each of
their items does (`mapM_ofTree_map`).
-/

namespace EthereumJs

/-- `TransactionFactory.fromBlockBodyData` reads `tx` back from what the encoders put on the wire
for it: its raw fields if it is a legacy transaction, its envelope otherwise. -/
def TxLib.ReadsBack {Tx : Type} (lib : TxLib Tx) (tx : Tx) : Prop :=
  lib.fromBlockBodyData (.ofTree (EthProtocol.serializedTx lib tx).toTree) = .ok tx

/-- `BlockHeader.fromValuesArray` reads the header `h` back from its raw fields. -/
def BlockLib.ReadsBackHeader {Header Block : Type} (lib : BlockLib Header Block) (h : Header) :
    Prop :=
  lib.headerFromValuesArray (.arr ((lib.headerRaw h).map .bytes)) = .ok h

/-- `Block.fromValuesArray` reads the block `b` back from its raw tree. -/
def BlockLib.ReadsBackBlock {Header Block : Type} (lib : BlockLib Header Block) (b : Block) :
    Prop :=
  lib.blockFromValuesArray (.ofTree (lib.blockRaw b)) = .ok b

namespace EthProtocol

/-- `array.map(f)` over the items of an encoded list reads back what `f` reads from each item. -/
theorem mapM_ofTree_map {α β : Type} {f : JsVal → Except EthError β} {g : α → Tree} {d : α → β}
    {xs : List α} (h : ∀ x ∈ xs, f (.ofTree (g x)) = .ok (d x)) :
    (JsVal.arr (xs.map g)).mapM f = .ok (xs.map d) := by
  show (xs.map g).mapM (f ∘ JsVal.ofTree) = _
  induction xs with
  | nil => rfl
  | cons x xs ih =>
    rw [List.map_cons, List.mapM_cons, Function.comp_apply, h x (List.mem_cons_self _ _),
      ih fun y hy => h y (List.mem_cons_of_mem _ hy)]
    rfl

/-- `NewBlockHashes` reads back each hash, as a value, and each number. -/
theorem newBlockHashes_decode_encode (js : Coercions) (hashes : List (Bytes × Nat))
    (h : (Rlp.encode (NewBlockHashes.encode hashes).toTree).length < 2 ^ 64) :
    (wire (NewBlockHashes.encode hashes)).bind (NewBlockHashes.decode js) =
      .ok (hashes.map fun hn => (.buf hn.1, hn.2)) := by
  rw [wire_eq h]
  simp only [NewBlockHashes.encode, NewBlockHashes.decode, Input.toTree, Input.toTrees_eq_map,
    List.map_map, JsVal.ofTree_list, Except.bind]
  exact mapM_ofTree_map fun hn _ => by
    simp [Input.toTree, JsVal.get, JsVal.toBN, bind, Except.bind, pure, Except.pure]

/-- `BlockHeaders` reads back its id and its headers. -/
theorem blockHeaders_decode_encode {Header Block : Type} (js : Coercions)
    (lib : BlockLib Header Block) (reqId : Nat) (headers : List Header)
    (hh : ∀ h ∈ headers, lib.ReadsBackHeader h)
    (h : (Rlp.encode (BlockHeaders.encode lib reqId headers).toTree).length < 2 ^ 64) :
    (wire (BlockHeaders.encode lib reqId headers)).bind (BlockHeaders.decode js lib) =
      .ok (reqId, headers) := by
  rw [wire_eq h]
  simp [BlockHeaders.encode, BlockHeaders.decode, Input.toTree, JsVal.destruct, JsVal.get,
    JsVal.toBN, bind, Except.bind, pure, Except.pure]
  rw [mapM_ofTree_map (d := id) fun h hmem => by simpa [Input.toTree] using hh h hmem, List.map_id]

/-- `BlockBodies` reads back its id and its bodies, as the trees they were. -/
theorem blockBodies_decode_encode (js : Coercions) (reqId : Nat) (bodies : List Tree)
    (h : (Rlp.encode (BlockBodies.encode reqId bodies).toTree).length < 2 ^ 64) :
    (wire (BlockBodies.encode reqId bodies)).bind (BlockBodies.decode js) =
      .ok (reqId, .arr bodies) := by
  rw [wire_eq h]
  simp [BlockBodies.encode, BlockBodies.decode, Input.toTree, Function.comp_def,
    Input.toTree_ofTree, JsVal.destruct, JsVal.get, JsVal.toBN, bind, Except.bind, pure, Except.pure]

/-- `NewBlock` reads back its block and its total difficulty. -/
theorem newBlock_decode_encode {Header Block : Type} (js : Coercions) (lib : BlockLib Header Block)
    (block : Block) (td : Nat) (hb : lib.ReadsBackBlock block)
    (h : (Rlp.encode (NewBlock.encode lib block td).toTree).length < 2 ^ 64) :
    (wire (NewBlock.encode lib block td)).bind (NewBlock.decode js lib) = .ok (block, td) := by
  rw [wire_eq h]
  rw [BlockLib.ReadsBackBlock] at hb
  simp [NewBlock.encode, NewBlock.decode, Input.toTree, Input.toTree_ofTree, JsVal.destruct,
    JsVal.get, JsVal.toBN, hb, bind, Except.bind, pure, Except.pure]

/-- A `PooledTransactions` response with an id below `2 ^ 53` reads back its id and its
transactions. -/
theorem pooledTransactions_decode_encode {Tx : Type} (js : Coercions) (lib : TxLib Tx)
    (reqId : Nat) (txs : List Tx) (hr : reqId < 2 ^ 53) (ht : ∀ tx ∈ txs, lib.ReadsBack tx)
    (h : (Rlp.encode (Input.arr [.num reqId, .arr (txs.map (serializedTx lib))]).toTree).length <
      2 ^ 64) :
    (PooledTransactions.encode lib reqId txs).bind
      (fun x => (wire x).bind (PooledTransactions.decode js lib)) = .ok (reqId, txs) := by
  have he : PooledTransactions.encode lib reqId txs =
      .ok (.arr [.num reqId, .arr (txs.map (serializedTx lib))]) := by
    simp only [PooledTransactions.encode, toNumber, if_pos hr]
    rfl
  rw [he]
  simp only [Except.bind]
  rw [wire_eq h]
  simp [PooledTransactions.decode, Input.toTree, JsVal.destruct, JsVal.get, JsVal.toBN,
    fromBytesBE_toBytesBE, bind, Except.bind, pure, Except.pure]
  rw [mapM_ofTree_map (g := Input.toTree ∘ serializedTx lib) (d := id) ht, List.map_id]

end EthProtocol

open EthProtocol

/-- The responses and announcements read back what their encoders put on the wire: `NewBlockHashes`
its hashes and numbers, `BlockHeaders` its id and headers, `BlockBodies` its id and bodies,
`NewBlock` its block and total difficulty, and `PooledTransactions`, given an id below `2 ^ 53`,
its id and transactions, whenever the libraries read back their headers, blocks and
transactions. -/
theorem responses_roundtrip {Tx Header Block : Type} (js : Coercions) (txLib : TxLib Tx)
    (blockLib : BlockLib Header Block) :
    (∀ hashes, (Rlp.encode (NewBlockHashes.encode hashes).toTree).length < 2 ^ 64 →
      (wire (NewBlockHashes.encode hashes)).bind (NewBlockHashes.decode js) =
        .ok (hashes.map fun hn => (.buf hn.1, hn.2))) ∧
    (∀ reqId headers, (∀ h ∈ headers, blockLib.ReadsBackHeader h) →
      (Rlp.encode (BlockHeaders.encode blockLib reqId headers).toTree).length < 2 ^ 64 →
      (wire (BlockHeaders.encode blockLib reqId headers)).bind (BlockHeaders.decode js blockLib) =
        .ok (reqId, headers)) ∧
    (∀ reqId bodies, (Rlp.encode (BlockBodies.encode reqId bodies).toTree).length < 2 ^ 64 →
      (wire (BlockBodies.encode reqId bodies)).bind (BlockBodies.decode js) =
        .ok (reqId, .arr bodies)) ∧
    (∀ block td, blockLib.ReadsBackBlock block →
      (Rlp.encode (NewBlock.encode blockLib block td).toTree).length < 2 ^ 64 →
      (wire (NewBlock.encode blockLib block td)).bind (NewBlock.decode js blockLib) =
        .ok (block, td)) ∧
    (∀ reqId txs, reqId < 2 ^ 53 → (∀ tx ∈ txs, txLib.ReadsBack tx) →
      (Rlp.encode (Input.arr [.num reqId, .arr (txs.map (serializedTx txLib))]).toTree).length <
        2 ^ 64 →
      (PooledTransactions.encode txLib reqId txs).bind
        (fun x => (wire x).bind (PooledTransactions.decode js txLib)) = .ok (reqId, txs)) :=
  ⟨newBlockHashes_decode_encode js, blockHeaders_decode_encode js blockLib,
    blockBodies_decode_encode js, newBlock_decode_encode js blockLib,
    pooledTransactions_decode_encode js txLib⟩

/-- A `PooledTransactions` response of id 7 with two legacy transactions, each of one raw field,
that the transaction library reads back. -/
theorem responses_roundtrip_pooled :
    (PooledTransactions.encode
        (⟨fun _ => 0, fun _ => [[1]], fun _ => [], fun _ => .error .typeError, fun _ => .ok ()⟩ :
          TxLib Unit) 7 [(), ()]).bind
      (fun x => (wire x).bind (PooledTransactions.decode ⟨fun _ => 0, fun _ => [], fun _ => ""⟩
        ⟨fun _ => 0, fun _ => [[1]], fun _ => [], fun _ => .error .typeError, fun _ => .ok ()⟩)) =
      .ok (7, [(), ()]) :=
  (responses_roundtrip ⟨fun _ => 0, fun _ => [], fun _ => ""⟩
    ⟨fun _ => 0, fun _ => [[1]], fun _ => [], fun _ => .error .typeError, fun _ => .ok ()⟩
    (⟨fun _ => [], fun _ => .ok (), fun _ => .list [], fun _ => .ok ()⟩ : BlockLib Unit Unit)).2.2.2.2
    7 [(), ()] (by decide) (fun _ _ => rfl) (by decide)

end EthereumJs
