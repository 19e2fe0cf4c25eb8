import EthereumJs.Rlp

/-!
# JavaScript values around the RLP codec

The code hands `rlp.encode` arrays of `Buffer`s and numbers (`Input`), and reads what
`rlp.decode` returns by indexing and destructuring it without checking its shape (`JsVal`).
This file gives those reads their JavaScript meaning: indexing a `Buffer` gives a byte,
indexing past the end gives `undefined`, and reading through `undefined` throws. Where
JavaScript turns an array into a number, a string or a `Buffer`, the result is left to the
runtime (`Coercions`).
-/

namespace EthereumJs

/-- A value the code hands to `rlp.encode`: a `Buffer`, a number, or an array of values. -/
inductive Input where
  | buf (b : Bytes)
  | num (n : Nat)
  | arr (xs : List Input)

mutual
/-- The item `rlp.encode` frames: a number becomes its minimal big-endian bytes. -/
def Input.toTree : Input → Tree
  | .buf b => .bytes b
  | .num n => .bytes (toBytesBE n)
  | .arr xs => .list (Input.toTrees xs)

/-- The items of an array. -/
def Input.toTrees : List Input → List Tree
  | [] => []
  | x :: xs => x.toTree :: Input.toTrees xs
end

mutual
/-- A decoded item handed back to `rlp.encode`, as block bodies are. -/
def Input.ofTree : Tree → Input
  | .bytes b => .buf b
  | .list ts => .arr (Input.ofTrees ts)

/-- The items of a list. -/
def Input.ofTrees : List Tree → List Input
  | [] => []
  | t :: ts => Input.ofTree t :: Input.ofTrees ts
end

mutual
theorem Input.toTree_ofTree : (t : Tree) → (Input.ofTree t).toTree = t
  | .bytes _ => rfl
  | .list ts => by rw [Input.ofTree, Input.toTree, Input.toTrees_ofTrees ts]

private theorem Input.toTrees_ofTrees : (ts : List Tree) → Input.toTrees (Input.ofTrees ts) = ts
  | [] => rfl
  | t :: ts => by rw [Input.ofTrees, Input.toTrees, Input.toTree_ofTree t, Input.toTrees_ofTrees ts]
end

@[simp] theorem Input.toTrees_eq_map (xs : List Input) : Input.toTrees xs = xs.map Input.toTree := by
  induction xs with
  | nil => rfl
  | cons x xs ih => rw [Input.toTrees, ih, List.map_cons]

/-- A value the code reads out of a decoded item. -/
inductive JsVal where
  | undef
  | num (n : Nat)
  | buf (b : Bytes)
  | arr (ts : List Tree)
  deriving DecidableEq

namespace JsVal

/-- A decoded item as the code sees it. -/
def ofTree : Tree → JsVal
  | .bytes b => .buf b
  | .list ts => .arr ts

/-- `v[i]`: a byte of a `Buffer`, an item of an array, `undefined` past the end or on a number. -/
def get : JsVal → Nat → Except EthError JsVal
  | .undef, _ => .error .typeError
  | .num _, _ => .ok .undef
  | .buf b, i => .ok (match b[i]? with | some x => .num x.toNat | none => .undef)
  | .arr ts, i => .ok (match ts[i]? with | some t => ofTree t | none => .undef)

/-- The `i`-th name an array pattern `[a, b, …] = v` binds: only `Buffer`s and arrays iterate. -/
def destruct (v : JsVal) (i : Nat) : Except EthError JsVal :=
  match v with
  | .undef | .num _ => .error .typeError
  | _ => v.get i

/-- `v.length`, which is `undefined` on a number. -/
def length : JsVal → Except EthError JsVal
  | .undef => .error .typeError
  | .num _ => .ok .undef
  | .buf b => .ok (.num b.length)
  | .arr ts => .ok (.num ts.length)

/-- Whether `v ? … : …` takes its first branch. -/
def truthy : JsVal → Bool
  | .undef => false
  | .num n => n ≠ 0
  | _ => true

/-- `v.map(f)` with the results in order. On a `Buffer`, `f` sees each byte; the typed array
`map` builds would keep only the results' numeric coercion, which the model does not follow. -/
def mapM {α : Type} (v : JsVal) (f : JsVal → Except EthError α) : Except EthError (List α) :=
  match v with
  | .arr ts => ts.mapM (f ∘ ofTree)
  | .buf b => b.mapM fun x => f (.num x.toNat)
  | _ => .error .typeError

@[simp] theorem ofTree_bytes (b : Bytes) : ofTree (.bytes b) = .buf b := rfl

@[simp] theorem ofTree_list (ts : List Tree) : ofTree (.list ts) = .arr ts := rfl

end JsVal

/-- How the JavaScript runtime turns an array into what the code expects of a `Buffer`. -/
structure Coercions where
  /-- `new BN(array)`. -/
  bnOfArray : List Tree → Nat
  /-- `Buffer.from(array)`. -/
  bufferOfArray : List Tree → Bytes
  /-- `array.toString(…)`, which ignores its argument. -/
  stringOfArray : List Tree → String

namespace JsVal

variable (js : Coercions)

/-- `new BN(v)`; bn.js reads `undefined` as zero. -/
def toBN : JsVal → Nat
  | .undef => 0
  | .num n => n
  | .buf b => fromBytesBE b
  | .arr ts => js.bnOfArray ts

/-- `Buffer.from(v)`. -/
def toBuffer : JsVal → Except EthError Bytes
  | .buf b => .ok b
  | .arr ts => .ok (js.bufferOfArray ts)
  | _ => .error .typeError

/-- `v.toString('hex')`: a number rejects `'hex'` as a radix. -/
def toHex : JsVal → Except EthError String
  | .buf b => .ok (hexOf b)
  | .arr ts => .ok (js.stringOfArray ts)
  | _ => .error .typeError

end JsVal

/-- Modelled from the spec: `bufferToInt` of ethereumjs-util (not in the sources), the
big-endian value of `toBuffer(v)` as a JavaScript number (`new BN(…).toNumber()`). -/
def bufferToInt (js : Coercions) (v : JsVal) : Except EthError Nat :=
  toNumber (match v with
    | .undef => 0
    | .num n => n
    | .buf b => fromBytesBE b
    | .arr ts => fromBytesBE (js.bufferOfArray ts))

/-- `===`: numbers and `undefined` by value; two objects (a `Buffer`, an array) are different. -/
def strictEq : JsVal → JsVal → Bool
  | .num a, .num b => a = b
  | .undef, .undef => true
  | _, _ => false

/-- Modelled from the spec: `assertEq` of devp2p's util (not in the sources). Two `Buffer`s must
agree byte for byte, other values be `===`; otherwise it throws an assertion with the message. -/
def assertEq (expected actual : JsVal) (msg : String) : Except EthError Unit :=
  match expected, actual with
  | .buf a, .buf b => if a = b then .ok () else .error (.assertion msg)
  | _, _ => if strictEq expected actual then .ok () else .error (.assertion msg)

/-- Against a `Buffer` of ours, `assertEq` passes exactly on an equal `Buffer`. -/
theorem assertEq_buf {a : Bytes} {v : JsVal} {msg : String} :
    assertEq (.buf a) v msg = .ok () ↔ v = .buf a := by
  cases v with
  | buf b => by_cases h : a = b <;> simp [assertEq, h, eq_comm]
  | _ => simp [assertEq, strictEq]

end EthereumJs
