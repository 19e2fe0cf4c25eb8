import Mathlib.Data.List.Basic
import Mathlib.Algebra.Group.Nat.Basic

/-!
# Bytes, integers and the exceptions of the code

A `Buffer` of the sources is a list of bytes. Integers go on the wire big-endian: `toBytesBE` is
the minimal form the spec asks for (no leading zero byte, empty for zero) and `fromBytesBE` is
`new BN(buffer)`, which reads the minimal bytes back (`fromBytesBE_toBytesBE`). `toArrayLike`,
which the encoders call, differs from `toBytesBE` at zero only. Fork hashes are strings of hex
digits, read and written with `hexOf` and `bytesOfHex`.
-/

namespace EthereumJs

/-- The contents of a `Buffer`. -/
abbrev Bytes := List UInt8

/-- The exceptions the modelled code throws or lets through. -/
inductive EthError where
  /-- The `rlp` decoder rejects its input. -/
  | malformedRLP
  /-- An `assert.AssertionError` with this message. -/
  | assertion (msg : String)
  /-- A `new Error(msg)`. -/
  | error (msg : String)
  /-- A runtime `TypeError` or `RangeError` of JavaScript: a value of the wrong type. -/
  | typeError
  deriving DecidableEq, Repr

/-- A computation of `Except` that returned went through each of its steps. -/
theorem bind_eq_ok {ε α β : Type} {x : Except ε α} {f : α → Except ε β} {b : β} :
    x >>= f = .ok b ↔ ∃ a, x = .ok a ∧ f a = .ok b := by
  cases x <;> simp [bind, Except.bind]

/-! ### Big-endian integers -/

/-- The last `k` big-endian digits of `n` in base 256, leading zeros dropped. -/
def bytesBE : Nat → Nat → Bytes
  | 0, _ => []
  | k + 1, n => if n = 0 then [] else bytesBE k (n / 256) ++ [UInt8.ofNat (n % 256)]

/-- The minimal big-endian bytes of `n`: no leading zero byte, and none at all for `0`. -/
def toBytesBE (n : Nat) : Bytes := bytesBE n n

/-- `new BN(buffer)`: the big-endian value of a byte string. -/
def fromBytesBE (b : Bytes) : Nat := b.foldl (fun acc x => acc * 256 + x.toNat) 0

/-- `BN.prototype.toArrayLike(Buffer)`: bn.js pads the bytes to `max(1, byteLength)`, so zero
becomes one zero byte. -/
def toArrayLike (n : Nat) : Bytes := if n = 0 then [0] else toBytesBE n

/-- `BN.prototype.toNumber()`: bn.js asserts that the value fits in 53 bits. -/
def toNumber (n : Nat) : Except EthError Nat :=
  if n < 2 ^ 53 then .ok n else .error (.error "Number can only safely store up to 53 bits")

/-- Modelled from the spec: `int2buffer` of devp2p's util (not in the sources). The spec's
integers are big-endian and minimally encoded. -/
def int2buffer (n : Nat) : Bytes := toBytesBE n

@[simp] theorem toBytesBE_zero : toBytesBE 0 = [] := rfl

@[simp] theorem fromBytesBE_nil : fromBytesBE [] = 0 := rfl

private theorem fromBytesBE_append_byte (b : Bytes) (x : UInt8) :
    fromBytesBE (b ++ [x]) = fromBytesBE b * 256 + x.toNat := by
  simp [fromBytesBE, List.foldl_append]

private theorem byte_eq_of_toNat {x y : UInt8} (h : x.toNat = y.toNat) : x = y :=
  UInt8.eq_of_val_eq (Fin.eq_of_val_eq h)

private theorem byte_toNat_lt (x : UInt8) : x.toNat < 256 := x.val.isLt

private theorem toNat_ofNat_mod (n : Nat) : (UInt8.ofNat (n % 256)).toNat = n % 256 :=
  Nat.mod_eq_of_lt (Nat.lt_of_lt_of_le (Nat.mod_lt n (by decide)) (by decide))

private theorem fromBytesBE_bytesBE : ∀ k n, n < 256 ^ k → fromBytesBE (bytesBE k n) = n
  | 0, n, h => by obtain rfl : n = 0 := by simpa using h
                  rfl
  | k + 1, n, h => by
    simp only [bytesBE]
    split
    · simp_all
    · rw [fromBytesBE_append_byte, fromBytesBE_bytesBE k (n / 256) (by rw [Nat.pow_succ] at h; omega),
        toNat_ofNat_mod]
      omega

theorem fromBytesBE_toBytesBE (n : Nat) : fromBytesBE (toBytesBE n) = n :=
  fromBytesBE_bytesBE n n (Nat.lt_pow_self (by decide) n)

/-- `new BN` reads back what `toArrayLike` wrote, zero's one byte included. -/
@[simp] theorem fromBytesBE_toArrayLike (n : Nat) : fromBytesBE (toArrayLike n) = n := by
  unfold toArrayLike
  split
  · subst_vars; rfl
  · exact fromBytesBE_toBytesBE n

@[simp] theorem fromBytesBE_cons_zero (b : Bytes) : fromBytesBE (0 :: b) = fromBytesBE b := rfl

private theorem bytesBE_length_le : ∀ k n, (bytesBE k n).length ≤ k
  | 0, _ => le_rfl
  | k + 1, n => by
    simp only [bytesBE]
    split
    · simp
    · simpa using bytesBE_length_le k (n / 256)

private theorem bytesBE_stable : ∀ k m n, n ≤ k → n ≤ m → bytesBE k n = bytesBE m n
  | 0, m, n, hk, _ => by
    obtain rfl : n = 0 := by omega
    cases m <;> rfl
  | k + 1, 0, n, _, hm => by
    obtain rfl : n = 0 := by omega
    rfl
  | k + 1, m + 1, n, hk, hm => by
    simp only [bytesBE]
    split
    · rfl
    · rw [bytesBE_stable k m (n / 256) (by omega) (by omega)]

private theorem toBytesBE_eq (n : Nat) :
    toBytesBE n = if n = 0 then [] else toBytesBE (n / 256) ++ [UInt8.ofNat (n % 256)] := by
  cases n with
  | zero => rfl
  | succ k =>
    show bytesBE (k + 1) (k + 1) = _
    simp only [bytesBE, toBytesBE]
    rw [bytesBE_stable k ((k + 1) / 256) ((k + 1) / 256) (by omega) le_rfl]

theorem toBytesBE_length_le {n k : Nat} (h : n < 256 ^ k) : (toBytesBE n).length ≤ k := by
  induction k generalizing n with
  | zero => obtain rfl : n = 0 := by simpa using h
            simp
  | succ k ih =>
    rw [toBytesBE_eq]
    split
    · simp
    · simpa using ih (by rw [Nat.pow_succ] at h; omega)

theorem toBytesBE_ne_nil {n : Nat} (h : n ≠ 0) : toBytesBE n ≠ [] := by
  rw [toBytesBE_eq, if_neg h]; simp

theorem toBytesBE_head (n : Nat) : (toBytesBE n).head? ≠ some 0 := by
  induction n using Nat.strongRecOn with
  | ind n ih =>
    rw [toBytesBE_eq]
    split
    · simp
    · rename_i hn
      by_cases hq : n / 256 = 0
      · rw [hq, toBytesBE_zero, List.nil_append]
        intro h
        have : (UInt8.ofNat (n % 256)).toNat = 0 := by simp at h; rw [h]; rfl
        rw [toNat_ofNat_mod] at this
        omega
      · obtain ⟨y, l, hyl⟩ := List.exists_cons_of_ne_nil (toBytesBE_ne_nil hq)
        have := ih (n / 256) (by omega)
        rw [hyl] at this ⊢
        simpa using this

/-! ### Hex strings -/

/-- A hex digit, lowercase as `buffer.toString('hex')` writes it. -/
def hexDigit (d : Nat) : Char := if d < 10 then Char.ofNat (d + 48) else Char.ofNat (d + 87)

/-- `buffer.toString('hex')`: two lowercase hex digits per byte. -/
def hexOf (b : Bytes) : String :=
  ⟨b.flatMap fun x => [hexDigit (x.toNat / 16), hexDigit (x.toNat % 16)]⟩

/-- The value of a hex digit of either case. -/
def hexValue (c : Char) : Option Nat :=
  if '0' ≤ c ∧ c ≤ '9' then some (c.toNat - 48)
  else if 'a' ≤ c ∧ c ≤ 'f' then some (c.toNat - 87)
  else if 'A' ≤ c ∧ c ≤ 'F' then some (c.toNat - 55)
  else none

/-- The bytes of the leading pairs of hex digits; Node stops at the first pair that is not one. -/
def bytesOfHexChars : List Char → Bytes
  | a :: b :: rest =>
    match hexValue a, hexValue b with
    | some x, some y => UInt8.ofNat (16 * x + y) :: bytesOfHexChars rest
    | _, _ => []
  | _ => []

/-- `Buffer.from(string, 'hex')`. -/
def bytesOfHex (s : String) : Bytes := bytesOfHexChars s.toList

private theorem hexValue_hexDigit : ∀ d, d < 16 → hexValue (hexDigit d) = some d := by decide

private theorem ofNat_toNat_byte (x : UInt8) : UInt8.ofNat x.toNat = x := by
  have h := toNat_ofNat_mod x.toNat
  rw [Nat.mod_eq_of_lt (byte_toNat_lt x)] at h
  exact byte_eq_of_toNat h

/-- `Buffer.from(hex, 'hex')` reads back what `toString('hex')` wrote. -/
@[simp] theorem bytesOfHex_hexOf (b : Bytes) : bytesOfHex (hexOf b) = b := by
  show bytesOfHexChars (b.flatMap _) = b
  induction b with
  | nil => rfl
  | cons x b ih =>
    have hx := byte_toNat_lt x
    simp only [List.flatMap_cons, List.cons_append, List.nil_append, bytesOfHexChars,
      hexValue_hexDigit _ (Nat.div_lt_of_lt_mul (by omega : x.toNat < 16 * 16)),
      hexValue_hexDigit _ (Nat.mod_lt _ (by decide : 16 > 0)), Nat.div_add_mod, ofNat_toNat_byte]
    exact congrArg (x :: ·) ih

end EthereumJs
