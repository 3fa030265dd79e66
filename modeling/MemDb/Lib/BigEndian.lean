import Mathlib.Data.Int.Basic
import Mathlib.Data.Nat.Basic
import Mathlib.Tactic.Ring

/-! # Fixed-width big-endian numbers

    `encode width value` is the low `width` bytes of `value`, most significant byte first, and
    `decode` reads such a byte string back. Values are natural numbers: a value that does not fit
    into the width loses its high bytes, as a machine conversion does. `decodeSigned` takes the byte
    string for a number in two's complement.
-/

namespace Lib.BigEndian

open Nat List

/-- The low `width` bytes of `value`, most significant byte first. -/
def encode : Nat → Nat → List UInt8
  | 0, _ => []
  | width + 1, value => UInt8.ofNat (value / 256 ^ width) :: encode width value

/-- The number that a byte string denotes. -/
def decode : List UInt8 → Nat
  | [] => 0
  | byte :: rest => byte.toNat * 256 ^ rest.length + decode rest

@[simp] theorem length_encode (width value : Nat) : (encode width value).length = width := by
  induction width with
  | zero => rfl
  | succ width ih => simp [encode, ih]

theorem decode_lt (bytes : List UInt8) : decode bytes < 256 ^ bytes.length := by
  induction bytes with
  | nil => decide
  | cons byte rest ih =>
    have hbyte : byte.toNat + 1 ≤ 256 := byte.toNat_lt
    have hmul := mul_le_mul_right (256 ^ rest.length) hbyte
    simp only [decode, length_cons, pow_succ]
    rw [add_mul, one_mul] at hmul
    omega

/-- Reading back the encoding of a value gives the value modulo the width. -/
theorem decode_encode (width value : Nat) :
    decode (encode width value) = value % 256 ^ width := by
  induction width with
  | zero => simp [encode, decode, mod_one]
  | succ width ih =>
    rw [encode, decode, ih, length_encode, mod_pow_succ, UInt8.toNat_ofNat']
    ring

theorem decode_encode_of_lt {width value : Nat} (hvalue : value < 256 ^ width) :
    decode (encode width value) = value := by
  rw [decode_encode, mod_eq_of_lt hvalue]

/-- An encoding holds the value modulo the width. -/
theorem encode_mod (width value : Nat) :
    encode width (value % 256 ^ width) = encode width value := by
  induction width generalizing value with
  | zero => rfl
  | succ width ih =>
    have hhigh : UInt8.ofNat (value % 256 ^ (width + 1) / 256 ^ width) =
        UInt8.ofNat (value / 256 ^ width) := by
      rw [pow_succ, mod_mul_right_div_self, UInt8.ofNat_mod_size]
    rw [encode, encode, hhigh, ← ih (value % 256 ^ (width + 1)),
      mod_mod_of_dvd _ (pow_dvd_pow 256 (le_succ width)), ih]

/-- Bytes are those of the number that they are read as. -/
theorem encode_decode (bytes : List UInt8) : encode bytes.length (decode bytes) = bytes := by
  induction bytes with
  | nil => rfl
  | cons byte rest ih =>
    have hlt := decode_lt rest
    have hpos : 0 < 256 ^ rest.length := Nat.pow_pos (by decide)
    have hhigh :
        (byte.toNat * 256 ^ rest.length + decode rest) / 256 ^ rest.length = byte.toNat := by
      rw [mul_comm, mul_add_div hpos, div_eq_of_lt hlt, add_zero]
    have hlow :
        (byte.toNat * 256 ^ rest.length + decode rest) % 256 ^ rest.length = decode rest := by
      rw [mul_add_mod', mod_eq_of_lt hlt]
    rw [length_cons, encode, decode, hhigh, UInt8.ofNat_toNat, ← encode_mod, hlow, ih]

theorem exists_encode {bytes : List UInt8} {width : Nat} (h : width ≤ bytes.length) :
    ∃ value < 256 ^ width, ∃ rest, bytes = encode width value ++ rest := by
  have hlt := decode_lt (bytes.take width)
  have hfront := encode_decode (bytes.take width)
  rw [length_take_of_le h] at hlt hfront
  exact ⟨_, hlt, bytes.drop width, by rw [hfront, take_append_drop]⟩

/-- The high bytes of an encoding are those of the quotient. -/
theorem encode_add (high low value : Nat) :
    encode (high + low) value = encode high (value / 256 ^ low) ++ encode low value := by
  induction high with
  | zero => rw [zero_add, encode, nil_append]
  | succ high ih =>
    rw [Nat.add_right_comm, encode, encode, ih, cons_append, Nat.div_div_eq_div_mul,
      ← pow_add, add_comm low high]

/-- The number that a byte string denotes in two's complement. -/
def decodeSigned (bytes : List UInt8) : Int := (decode bytes : Int).bmod (256 ^ bytes.length)

theorem bmod_natCast_eq_iff {value modulus : Nat} (hvalue : value < modulus) :
    (value : Int).bmod modulus = value ↔ 2 * value < modulus := by
  have hmod : (value : Int) % (modulus : Int) = value := by
    rw [← Int.natCast_emod, mod_eq_of_lt hvalue]
  rw [Int.bmod_def, hmod]
  split <;> omega

/-- Reading back the encoding of a value in two's complement gives the value when its sign bit is
    not set, and another one when it is. -/
theorem decodeSigned_encode_iff {width value : Nat} (hvalue : value < 256 ^ width) :
    decodeSigned (encode width value) = value ↔ 2 * value < 256 ^ width := by
  rw [decodeSigned, length_encode, decode_encode_of_lt hvalue, ← bmod_natCast_eq_iff hvalue]

/-- A number without a sign bit is read where the value agrees with it in the width. -/
theorem decodeSigned_encode_eq_iff {width number : Nat} (value : Nat)
    (hnumber : 2 * number < 256 ^ width) :
    decodeSigned (encode width value) = number ↔ value % 256 ^ width = number := by
  have hlt : value % 256 ^ width < 256 ^ width := Nat.mod_lt _ (Nat.pow_pos (by decide))
  have hmod : ((value % 256 ^ width : Nat) : Int) % ((256 ^ width : Nat) : Int) =
      (value % 256 ^ width : Nat) := by
    rw [← Int.natCast_emod, mod_eq_of_lt hlt]
  rw [decodeSigned, length_encode, decode_encode, Int.bmod_def, hmod]
  generalize value % 256 ^ width = residue at hlt
  generalize 256 ^ width = modulus at hlt hnumber
  split <;> omega

end Lib.BigEndian
