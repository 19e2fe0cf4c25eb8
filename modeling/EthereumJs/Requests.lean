import EthereumJs.EthProtocol

/-!
# The client's requests: the shared id counter and the decoders

`GetBlockHeaders`, `GetBlockBodies` and `GetPooledTransactions` are the requests of eth/66. Their
`encode` takes the request id from the module-level `id` when the caller gives none; their `decode`
reads an inbound request by position.

* (the counter) every instance's `protocolMessages` closes over the one `id`, and `iaddn` advances
  it in place before `toArrayLike` copies it out: over any sequence of encode calls the ids taken
  from it are `id + 1, id + 2, …` in call order, and a call given its own `reqId` leaves it as it
  was (`freshReqIds_eq`, `reqIds_increase`);
* (the decoders) `decode` reads back what `encode` put on the wire, but checks nothing else of the
  tree: the hash-list decoders return on every tree, `new BN` skips leading zero bytes, and items
  after those a pattern names are ignored, in the request and in its query (`request_decoders_lenient`), so trees that are not
  canonical requests decode too (`request_decoders_noncanonical`).
-/

namespace EthereumJs

namespace EthProtocol

/-! ### The shared counter -/

/-- A request a peer encodes, with the options of its message. The instance that encodes it does
not enter: every instance's `protocolMessages` closes over the one module-level `id`. -/
inductive Request where
  | getBlockHeaders (o : GetBlockHeadersOpts)
  | getBlockBodies (o : HashesOpts)
  | getPooledTransactions (o : HashesOpts)

namespace Request

/-- The `reqId` the caller gave. -/
def reqId : Request → Option Nat
  | getBlockHeaders o => o.reqId
  | getBlockBodies o => o.reqId
  | getPooledTransactions o => o.reqId

/-- The message's `encode`: the payload, and the counter after the call. -/
def encode : Request → Nat → Input × Nat
  | getBlockHeaders o => GetBlockHeaders.encode o
  | getBlockBodies o => GetBlockBodies.encode o
  | getPooledTransactions o => GetPooledTransactions.encode o

end Request

/-- The request id of a payload as the peer reads it: `new BN` of its first item. -/
def payloadReqId : Input → Option Nat
  | .arr (.buf b :: _) => some (fromBytesBE b)
  | _ => none

/-- A sequence of encode calls in call order, from the counter at `id`: the payloads, and the
counter after them. -/
def encodeAll : List Request → Nat → List Input × Nat
  | [], id => ([], id)
  | r :: rs, id =>
    let rest := encodeAll rs (r.encode id).2
    ((r.encode id).1 :: rest.1, rest.2)

/-- The request ids the counter gave, in call order: those on the payloads of the requests that
came without one. -/
def freshReqIds (rs : List Request) (id : Nat) : List Nat :=
  (rs.zip (encodeAll rs id).1).filterMap fun p => if p.1.reqId.isNone then payloadReqId p.2 else none

private theorem Request.encode_spec (r : Request) (id : Nat) :
    payloadReqId (r.encode id).1 = some (nextReqId r.reqId id).1 ∧
      (r.encode id).2 = (nextReqId r.reqId id).2 := by
  cases r with
  | getBlockHeaders o =>
    cases h : o.reqId <;> simp [encode, reqId, GetBlockHeaders.encode, nextReqId, payloadReqId, h]
  | getBlockBodies o | getPooledTransactions o =>
    cases h : o.reqId <;>
      simp [encode, reqId, GetBlockBodies.encode, GetPooledTransactions.encode, hashesEncode,
        nextReqId, payloadReqId, h]

/-- The counter gave `id + 1, id + 2, …` to the requests without an id, and
advanced once for each of them. -/
theorem freshReqIds_eq (rs : List Request) (id : Nat) :
    freshReqIds rs id = List.range' (id + 1) (rs.countP (·.reqId.isNone)) ∧
      (encodeAll rs id).2 = id + rs.countP (·.reqId.isNone) := by
  induction rs generalizing id with
  | nil => exact ⟨rfl, rfl⟩
  | cons r rs ih =>
    obtain ⟨hx, hc⟩ := r.encode_spec id
    obtain ⟨ih₁, ih₂⟩ := ih (r.encode id).2
    simp only [freshReqIds, encodeAll, List.zip_cons_cons, List.filterMap_cons] at ih₁ ⊢
    rw [ih₁, ih₂, hc, List.countP_cons]
    cases h : r.reqId with
    | none =>
      simp only [hx, h, nextReqId, Option.isNone_none, if_true]
      exact ⟨by rw [List.range'_succ], by omega⟩
    | some n => simp [h, nextReqId]

/-! ### The decoders -/

/-- A block a `GetBlockHeaders` request can name so that the peer reads it back as sent: a hash
of 32 bytes, or a number of fewer than 32 bytes. -/
def BlockRef.Fits : BlockRef → Prop
  | .hash h => h.length = 32
  | .number n => n < 2 ^ 248

/-- What `decode` gives for the block: a hash stays a value, a number is read with `new BN`. -/
def BlockRef.decoded : BlockRef → JsVal ⊕ Nat
  | .hash h => .inl (.buf h)
  | .number n => .inr n

private theorem bufferToInt_toBytesBE (js : Coercions) {n : Nat} (h : n < 2 ^ 53) :
    bufferToInt js (.buf (toBytesBE n)) = .ok n := by
  simp only [bufferToInt, fromBytesBE_toBytesBE, toNumber, if_pos h]

private theorem toArrayLike_length_lt {n : Nat} (h : n < 2 ^ 248) : (toArrayLike n).length < 32 := by
  unfold toArrayLike
  split
  · decide
  · have := toBytesBE_length_le (k := 31) (lt_of_lt_of_eq h (by decide))
    omega

/-- The hash-list requests read back their id and their hashes. -/
theorem hashes_decode_encode (js : Coercions) (o : HashesOpts) (id : Nat)
    (h : (Rlp.encode (hashesEncode o id).1.toTree).length < 2 ^ 64) :
    (wire (hashesEncode o id).1).bind (hashesDecode js) =
      .ok ((nextReqId o.reqId id).1, .arr (o.hashes.map .bytes)) := by
  rw [wire_eq h]
  cases hr : o.reqId <;>
    simp [hashesEncode, hashesDecode, nextReqId, hr, Input.toTree, JsVal.destruct, JsVal.get,
      JsVal.toBN, bind, Except.bind, pure, Except.pure]

/-- A `GetBlockHeaders` request reads back its id, its block, `max`, `skip` and `reverse`. -/
theorem getBlockHeaders_decode_encode (js : Coercions) (o : GetBlockHeadersOpts) (id : Nat)
    (hb : o.block.Fits) (hmax : o.max < 2 ^ 53) (hskip : o.skip.getD 0 < 2 ^ 53)
    (h : (Rlp.encode (GetBlockHeaders.encode o id).1.toTree).length < 2 ^ 64) :
    (wire (GetBlockHeaders.encode o id).1).bind (GetBlockHeaders.decode js) =
      .ok { reqId := (nextReqId o.reqId id).1, block := o.block.decoded, max := o.max,
            skip := o.skip.getD 0, reverse := o.reverse.getD false } := by
  rw [wire_eq h]
  unfold GetBlockHeaders.encode
  generalize nextReqId o.reqId id = p
  obtain ⟨r, id'⟩ := p
  have hrev : ∀ v : Bool, bufferToInt js (.buf (toBytesBE (if v then 1 else 0))) =
      .ok (if v then 1 else 0) := fun v => bufferToInt_toBytesBE js (by split <;> decide)
  generalize o.reverse.getD false = v
  cases hblk : o.block <;> rw [hblk] at hb <;>
    simp [GetBlockHeaders.decode, Input.toTree, JsVal.destruct, JsVal.get, JsVal.toBN, JsVal.length,
      strictEq, bufferToInt_toBytesBE js hmax, bufferToInt_toBytesBE js hskip, hrev, bind,
      Except.bind, pure, Except.pure, BlockRef.decoded]
  -- what is left is the length test of the decoder: fewer than 32 bytes for a number, 32 for a hash
  exacts [(toArrayLike_length_lt hb).ne, hb]

private theorem hashesDecode_ofTree (js : Coercions) (t : Tree) : ∃ r, hashesDecode js (.ofTree t) = .ok r := by
  cases t <;> exact ⟨_, rfl⟩

private theorem hashesDecode_cons_zero (js : Coercions) (b : Bytes) (rest : List Tree) :
    hashesDecode js (.arr (.bytes (0 :: b) :: rest)) = hashesDecode js (.arr (.bytes b :: rest)) := by
  simp [hashesDecode, JsVal.destruct, JsVal.get, JsVal.toBN, bind, Except.bind]

private theorem hashesDecode_append (js : Coercions) (a q : Tree) (extra : List Tree) :
    hashesDecode js (.arr (a :: q :: extra)) = hashesDecode js (.arr [a, q]) := by
  simp [hashesDecode, JsVal.destruct, JsVal.get]

private theorem getBlockHeaders_decode_cons_zero (js : Coercions) (b : Bytes) (rest : List Tree) :
    GetBlockHeaders.decode js (.arr (.bytes (0 :: b) :: rest)) =
      GetBlockHeaders.decode js (.arr (.bytes b :: rest)) := by
  simp [GetBlockHeaders.decode, JsVal.destruct, JsVal.get, JsVal.toBN, bind, Except.bind]

private theorem getBlockHeaders_decode_append (js : Coercions) (a q : Tree) (extra : List Tree) :
    GetBlockHeaders.decode js (.arr (a :: q :: extra)) = GetBlockHeaders.decode js (.arr [a, q]) := by
  simp [GetBlockHeaders.decode, JsVal.destruct, JsVal.get]

private theorem getBlockHeaders_decode_query_append (js : Coercions) (a b mx sk rv : Tree)
    (extra : List Tree) :
    GetBlockHeaders.decode js (.arr [a, .list (b :: mx :: sk :: rv :: extra)]) =
      GetBlockHeaders.decode js (.arr [a, .list [b, mx, sk, rv]]) := by
  simp [GetBlockHeaders.decode, JsVal.destruct, JsVal.get, bind, Except.bind]

end EthProtocol

open EthProtocol

/-- Over any sequence of `GetBlockHeaders`, `GetBlockBodies` and `GetPooledTransactions` encode
calls, from any value of the shared counter, the request ids the counter gives strictly increase in
call order, so no two are equal, and the counter advances only for the requests that came without
an id. -/
theorem reqIds_increase (rs : List Request) (id : Nat) :
    (freshReqIds rs id).Pairwise (· < ·) ∧ (freshReqIds rs id).Nodup ∧
      (encodeAll rs id).2 = id + rs.countP (·.reqId.isNone) := by
  obtain ⟨h, hc⟩ := freshReqIds_eq rs id
  rw [h]
  exact ⟨List.pairwise_lt_range' _ _, List.nodup_range' _ _, hc⟩

/-- The request decoders read back what the encoders put on the wire, and check nothing else of the
tree: the hash-list decoders return on every tree, and all three skip leading zero bytes of the
request id and ignore the items after those their pattern names. -/
theorem request_decoders_lenient (js : Coercions) :
    (∀ o id, (Rlp.encode (GetBlockBodies.encode o id).1.toTree).length < 2 ^ 64 →
      (wire (GetBlockBodies.encode o id).1).bind (GetBlockBodies.decode js) =
        .ok ((nextReqId o.reqId id).1, .arr (o.hashes.map .bytes))) ∧
    (∀ o id, (Rlp.encode (GetPooledTransactions.encode o id).1.toTree).length < 2 ^ 64 →
      (wire (GetPooledTransactions.encode o id).1).bind (GetPooledTransactions.decode js) =
        .ok ((nextReqId o.reqId id).1, .arr (o.hashes.map .bytes))) ∧
    (∀ (o : GetBlockHeadersOpts) id, o.block.Fits → o.max < 2 ^ 53 → o.skip.getD 0 < 2 ^ 53 →
      (Rlp.encode (GetBlockHeaders.encode o id).1.toTree).length < 2 ^ 64 →
      (wire (GetBlockHeaders.encode o id).1).bind (GetBlockHeaders.decode js) =
        .ok { reqId := (nextReqId o.reqId id).1, block := o.block.decoded, max := o.max,
              skip := o.skip.getD 0, reverse := o.reverse.getD false }) ∧
    (∀ t, ∃ r, GetBlockBodies.decode js (.ofTree t) = .ok r) ∧
    (∀ t, ∃ r, GetPooledTransactions.decode js (.ofTree t) = .ok r) ∧
    (∀ b rest, GetBlockHeaders.decode js (.arr (.bytes (0 :: b) :: rest)) =
      GetBlockHeaders.decode js (.arr (.bytes b :: rest))) ∧
    (∀ b rest, GetBlockBodies.decode js (.arr (.bytes (0 :: b) :: rest)) =
      GetBlockBodies.decode js (.arr (.bytes b :: rest))) ∧
    (∀ b rest, GetPooledTransactions.decode js (.arr (.bytes (0 :: b) :: rest)) =
      GetPooledTransactions.decode js (.arr (.bytes b :: rest))) ∧
    (∀ a q extra, GetBlockHeaders.decode js (.arr (a :: q :: extra)) =
      GetBlockHeaders.decode js (.arr [a, q])) ∧
    (∀ a q extra, GetBlockBodies.decode js (.arr (a :: q :: extra)) =
      GetBlockBodies.decode js (.arr [a, q])) ∧
    (∀ a q extra, GetPooledTransactions.decode js (.arr (a :: q :: extra)) =
      GetPooledTransactions.decode js (.arr [a, q])) ∧
    (∀ a b mx sk rv extra,
      GetBlockHeaders.decode js (.arr [a, .list (b :: mx :: sk :: rv :: extra)]) =
        GetBlockHeaders.decode js (.arr [a, .list [b, mx, sk, rv]])) :=
  ⟨hashes_decode_encode js, hashes_decode_encode js, getBlockHeaders_decode_encode js,
    hashesDecode_ofTree js, hashesDecode_ofTree js, getBlockHeaders_decode_cons_zero js,
    hashesDecode_cons_zero js, hashesDecode_cons_zero js, getBlockHeaders_decode_append js,
    hashesDecode_append js, hashesDecode_append js, getBlockHeaders_decode_query_append js⟩

/-- A request for ten headers from block 5, its id taken from the counter at 7. -/
theorem request_decoders_lenient_headers :
    (wire (GetBlockHeaders.encode { block := .number 5, max := 10 } 7).1).bind
        (GetBlockHeaders.decode ⟨fun _ => 0, fun _ => [], fun _ => ""⟩) =
      .ok { reqId := 8, block := .inr 5, max := 10, skip := 0, reverse := false } :=
  (request_decoders_lenient _).2.2.1 { block := .number 5, max := 10 } 7
    (show 5 < 2 ^ 248 by decide) (by decide) (by decide) (by decide)

/-- Three trees the decoders accept that are not canonical requests: a `GetBlockBodies` whose
request id has a leading zero byte, a `GetBlockHeaders` whose reverse flag is `2`, and a
`GetPooledTransactions` with an item after its hashes. The request each decodes to encodes to
other bytes. -/
theorem request_decoders_noncanonical :
    GetBlockBodies.decode ⟨fun _ => 0, fun _ => [], fun _ => ""⟩
        (.ofTree (.list [.bytes [0, 1], .list [.bytes [7]]])) = .ok (1, .arr [.bytes [7]]) ∧
    Rlp.encode (GetBlockBodies.encode { reqId := some 1, hashes := [[7]] } 0).1.toTree ≠
      Rlp.encode (.list [.bytes [0, 1], .list [.bytes [7]]]) ∧
    GetBlockHeaders.decode ⟨fun _ => 0, fun _ => [], fun _ => ""⟩
        (.ofTree (.list [.bytes [1], .list [.bytes [5], .bytes [1], .bytes [], .bytes [2]]])) =
      .ok { reqId := 1, block := .inr 5, max := 1, skip := 0, reverse := true } ∧
    Rlp.encode (GetBlockHeaders.encode
        { reqId := some 1, block := .number 5, max := 1, skip := some 0, reverse := some true } 0).1.toTree ≠
      Rlp.encode (.list [.bytes [1], .list [.bytes [5], .bytes [1], .bytes [], .bytes [2]]]) ∧
    GetPooledTransactions.decode ⟨fun _ => 0, fun _ => [], fun _ => ""⟩
        (.ofTree (.list [.bytes [1], .list [.bytes [7]], .bytes []])) = .ok (1, .arr [.bytes [7]]) ∧
    Rlp.encode (GetPooledTransactions.encode { reqId := some 1, hashes := [[7]] } 0).1.toTree ≠
      Rlp.encode (.list [.bytes [1], .list [.bytes [7]], .bytes []]) :=
  ⟨rfl, by decide, rfl, by decide, rfl, by decide⟩

end EthereumJs
