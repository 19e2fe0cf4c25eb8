import EthereumJs.Basic

/-!
# RLP

Modelled from the spec: the `rlp` package (not in the sources). The spec's encoder prefixes a
byte string of under 56 bytes with `0x80 + len`, a longer one with `0xb7 + lenOfLen` and the
length, and lists alike from `0xc0` and `0xf7`; a single byte below `0x80` is its own encoding.
Its decoder inverts this and rejects non-minimal length prefixes, truncated input and trailing
bytes.

* `decode_encode`: every item whose encoding fits the format's 8-byte length decodes back.
* `Input` is what the code hands to `rlp.encode`; its numbers go on the wire as their minimal
  big-endian bytes.
-/

namespace EthereumJs

/-- An RLP item: a byte string, or a list of items. -/
inductive Tree where
  | bytes (b : Bytes)
  | list (ts : List Tree)

mutual
/-- Equality of items, decided by structure. -/
def Tree.decEq : (a b : Tree) → Decidable (a = b)
  | .bytes x, .bytes y => if h : x = y then isTrue (h ▸ rfl) else isFalse fun e => by cases e; exact h rfl
  | .list xs, .list ys =>
    match Tree.decEqList xs ys with
    | isTrue h => isTrue (h ▸ rfl)
    | isFalse h => isFalse fun e => by cases e; exact h rfl
  | .bytes _, .list _ => isFalse fun e => by cases e
  | .list _, .bytes _ => isFalse fun e => by cases e

/-- Equality of lists of items. -/
def Tree.decEqList : (a b : List Tree) → Decidable (a = b)
  | [], [] => isTrue rfl
  | x :: xs, y :: ys =>
    match Tree.decEq x y, Tree.decEqList xs ys with
    | isTrue h, isTrue h' => isTrue (h ▸ h' ▸ rfl)
    | isFalse h, _ => isFalse fun e => by cases e; exact h rfl
    | _, isFalse h => isFalse fun e => by cases e; exact h rfl
  | [], _ :: _ => isFalse fun e => by cases e
  | _ :: _, [] => isFalse fun e => by cases e
end

instance : DecidableEq Tree := Tree.decEq

namespace Rlp

/-- A byte string that is its own encoding: one byte below `0x80`. -/
def singleByte : Bytes → Bool
  | [x] => x.toNat < 0x80
  | _ => false

/-- The prefix of a payload of `len` bytes, from `offset` (`0x80` for strings, `0xc0` for lists). -/
def encodeLength (len offset : Nat) : Bytes :=
  if len < 56 then [UInt8.ofNat (len + offset)]
  else UInt8.ofNat (offset + 55 + (toBytesBE len).length) :: toBytesBE len

mutual
/-- `rlp.encode`. -/
def encode : Tree → Bytes
  | .bytes b => if singleByte b then b else encodeLength b.length 0x80 ++ b
  | .list ts => encodeLength (encodeList ts).length 0xc0 ++ encodeList ts

/-- The encodings of a list's items, one after the other. -/
def encodeList : List Tree → Bytes
  | [] => []
  | t :: ts => encode t ++ encodeList ts
end

/-- The kind, payload and remaining bytes of the item a header announces. -/
inductive Item where
  | str (payload rest : Bytes)
  | lst (payload rest : Bytes)

/-- A payload of `len` bytes; fewer bytes is truncated input. -/
def takePayload (len : Nat) (bs : Bytes) : Except EthError (Bytes × Bytes) :=
  if len ≤ bs.length then .ok (bs.take len, bs.drop len) else .error .malformedRLP

/-- A long payload: `ll` length bytes with no leading zero, giving at least 56. -/
def takeLong (ll : Nat) (bs : Bytes) : Except EthError (Bytes × Bytes) :=
  if ll ≤ bs.length ∧ (bs.take ll).head? ≠ some 0 ∧ 56 ≤ fromBytesBE (bs.take ll) then
    takePayload (fromBytesBE (bs.take ll)) (bs.drop ll)
  else .error .malformedRLP

/-- The item whose first byte is `b`, read from the bytes `bs` after it. -/
def header (b : UInt8) (bs : Bytes) : Except EthError Item :=
  if b.toNat < 0x80 then .ok (.str [b] bs)
  else if b.toNat < 0xb8 then
    match takePayload (b.toNat - 0x80) bs with
    | .ok (p, r) => if singleByte p then .error .malformedRLP else .ok (.str p r)
    | .error e => .error e
  else if b.toNat < 0xc0 then
    match takeLong (b.toNat - 0xb7) bs with
    | .ok (p, r) => .ok (.str p r)
    | .error e => .error e
  else if b.toNat < 0xf8 then
    match takePayload (b.toNat - 0xc0) bs with
    | .ok (p, r) => .ok (.lst p r)
    | .error e => .error e
  else
    match takeLong (b.toNat - 0xf7) bs with
    | .ok (p, r) => .ok (.lst p r)
    | .error e => .error e

/-- The items of a byte string one after another, with `fuel` bounding the reads. -/
def decodeSeq : Nat → Bytes → Except EthError (List Tree)
  | _, [] => .ok []
  | 0, _ :: _ => .error .malformedRLP
  | f + 1, b :: bs =>
    match header b bs with
    | .error e => .error e
    | .ok (.str p r) =>
      match decodeSeq f r with
      | .ok ts => .ok (.bytes p :: ts)
      | .error e => .error e
    | .ok (.lst p r) =>
      match decodeSeq f p, decodeSeq f r with
      | .ok items, .ok ts => .ok (.list items :: ts)
      | .error e, _ => .error e
      | _, .error e => .error e

/-- `rlp.decode`: exactly one item and nothing after it. -/
def decode (bs : Bytes) : Except EthError Tree :=
  match decodeSeq bs.length bs with
  | .ok [t] => .ok t
  | .ok _ => .error .malformedRLP
  | .error e => .error e

@[simp] theorem encodeList_nil : encodeList [] = [] := rfl

@[simp] theorem encodeList_cons (t : Tree) (ts : List Tree) :
    encodeList (t :: ts) = encode t ++ encodeList ts := rfl

private theorem encode_list (ts : List Tree) :
    encode (.list ts) = encodeLength (encodeList ts).length 0xc0 ++ encodeList ts := rfl

private theorem encode_bytes (b : Bytes) :
    encode (.bytes b) = if singleByte b then b else encodeLength b.length 0x80 ++ b := rfl

private theorem encodeLength_length_pos (len off : Nat) : 0 < (encodeLength len off).length := by
  unfold encodeLength; split <;> simp

private theorem encode_length_pos (t : Tree) : 0 < (encode t).length := by
  cases t with
  | bytes b =>
    rw [encode_bytes]; split
    · rename_i h; unfold singleByte at h; split at h <;> simp_all
    · simpa using Nat.lt_of_lt_of_le (encodeLength_length_pos _ _) (Nat.le_add_right _ _)
  | list ts => simpa [encode_list] using Nat.lt_of_lt_of_le (encodeLength_length_pos _ _) (Nat.le_add_right _ _)

/-! ### Reading back a prefix -/

private theorem read_encodeLength {len : Nat} (off : Nat) {payload : Bytes} (rest : Bytes)
    (hp : payload.length = len) (hlen : len < 2 ^ 64) (hoff : off + 64 ≤ 256) :
    ∃ b bs, encodeLength len off ++ (payload ++ rest) = b :: bs ∧
      ((len < 56 ∧ b.toNat = off + len ∧ takePayload len bs = .ok (payload, rest)) ∨
       (56 ≤ len ∧ b.toNat = off + 55 + (toBytesBE len).length ∧ 1 ≤ (toBytesBE len).length ∧
        (toBytesBE len).length ≤ 8 ∧ takeLong (toBytesBE len).length bs = .ok (payload, rest))) := by
  have htake : takePayload len (payload ++ rest) = .ok (payload, rest) := by
    simp [takePayload, ← hp]
  unfold encodeLength
  split
  · refine ⟨_, _, rfl, .inl ⟨by assumption, ?_, htake⟩⟩
    show (len + off) % 256 = off + len
    omega
  · have h8 : (toBytesBE len).length ≤ 8 := toBytesBE_length_le (by simpa using hlen)
    have h1 : 1 ≤ (toBytesBE len).length :=
      List.length_pos.mpr (toBytesBE_ne_nil (by omega))
    refine ⟨_, toBytesBE len ++ (payload ++ rest), rfl, .inr ⟨by omega, ?_, h1, h8, ?_⟩⟩
    · show (off + 55 + (toBytesBE len).length) % 256 = _
      omega
    · have hb := fromBytesBE_toBytesBE len
      simp only [takeLong, List.take_left, List.drop_left, hb]
      rw [if_pos ⟨by simp, toBytesBE_head len, by omega⟩, htake]

private theorem payload_le_encode_bytes (p : Bytes) : p.length ≤ (encode (.bytes p)).length := by
  rw [encode_bytes]; split <;> simp

private theorem payload_lt_encode_list (ts : List Tree) :
    (encodeList ts).length < (encode (.list ts)).length := by
  have := encodeLength_length_pos (encodeList ts).length 0xc0
  rw [encode_list, List.length_append]; omega

private theorem header_encode (t : Tree) (rest : Bytes) (h : (encode t).length < 2 ^ 64) :
    ∃ b bs, encode t ++ rest = b :: bs ∧
      header b bs = .ok (match t with
        | .bytes p => .str p rest
        | .list ts => .lst (encodeList ts) rest) := by
  cases t with
  | bytes p =>
    by_cases hs : singleByte p
    · match p, hs with
      | [x], hs => exact ⟨x, rest, by simp [encode_bytes, hs], by simp_all [header, singleByte]⟩
    · have hp : p.length < 2 ^ 64 := Nat.lt_of_le_of_lt (payload_le_encode_bytes p) h
      obtain ⟨b, bs, he, hr⟩ := read_encodeLength 0x80 rest rfl hp (by decide)
      refine ⟨b, bs, by rw [encode_bytes, if_neg hs, List.append_assoc, he], ?_⟩
      unfold header
      rcases hr with ⟨hl, hb, hr⟩ | ⟨hl, hb, h1, h8, hr⟩
      · rw [if_neg (by omega), if_pos (by omega), show b.toNat - 0x80 = p.length by omega, hr]
        simp [hs]
      · rw [if_neg (by omega), if_neg (by omega), if_pos (by omega),
          show b.toNat - 0xb7 = (toBytesBE p.length).length by omega, hr]
  | list ts =>
    have hp : (encodeList ts).length < 2 ^ 64 := Nat.lt_trans (payload_lt_encode_list ts) h
    obtain ⟨b, bs, he, hr⟩ := read_encodeLength 0xc0 rest rfl hp (by decide)
    refine ⟨b, bs, by rw [encode_list, List.append_assoc, he], ?_⟩
    unfold header
    rcases hr with ⟨hl, hb, hr⟩ | ⟨hl, hb, h1, h8, hr⟩
    · rw [if_neg (by omega), if_neg (by omega), if_neg (by omega), if_pos (by omega),
        show b.toNat - 0xc0 = (encodeList ts).length by omega, hr]
    · rw [if_neg (by omega), if_neg (by omega), if_neg (by omega), if_neg (by omega),
        show b.toNat - 0xf7 = (toBytesBE (encodeList ts).length).length by omega, hr]

/-! ### Round trip -/

theorem decodeSeq_encodeList : ∀ (f : Nat) (ts : List Tree), (encodeList ts).length ≤ f →
    (encodeList ts).length < 2 ^ 64 → decodeSeq f (encodeList ts) = .ok ts
  | _, [], _, _ => by simp [decodeSeq]
  | 0, t :: ts, hf, _ => by
    have := encode_length_pos t
    rw [encodeList_cons, List.length_append] at hf; omega
  | f + 1, t :: ts, hf, h => by
    have ht := encode_length_pos t
    rw [encodeList_cons, List.length_append] at hf h
    obtain ⟨b, bs, he, hh⟩ := header_encode t (encodeList ts) (by omega)
    have hrest := decodeSeq_encodeList f ts (by omega) (by omega)
    rw [encodeList_cons, he]
    cases t with
    | bytes p => simp [decodeSeq, hh, hrest]
    | list items =>
      have hi := payload_lt_encode_list items
      simp [decodeSeq, hh, hrest, decodeSeq_encodeList f items (by omega) (by omega)]

/-- Every item whose encoding is shorter than `2^64` bytes decodes back. -/
theorem decode_encode (t : Tree) (h : (encode t).length < 2 ^ 64) : decode (encode t) = .ok t := by
  have := decodeSeq_encodeList (encode t).length [t] (by simp) (by simpa using h)
  simp only [encodeList_cons, encodeList_nil, List.append_nil] at this
  simp [decode, this]

end Rlp

end EthereumJs
