import MemDb.Lib.Buffer

/-! # Numbers in byte buffers

    The conversions of `Utils.h` between an integer type of `sizeof` bytes and a byte buffer. The
    template parameter `T` is its size here and a value of `T` is a natural number below
    `256 ^ sizeof`. The loops run over the bytes that remain, so that the shift `toMove` of the
    source is eight times their number.
-/

namespace MemDb

open Nat List

/-- A byte string (`SimpleString`). -/
abbrev SimpleString := List UInt8

namespace Utils

open Lib

/-- `appendToBuffer<T>`: the bytes of `toParse` are pushed to the back, the highest first. -/
def appendToBuffer : (sizeof toParse : Nat) → List UInt8 → List UInt8
  | 0, _, vectorOut => vectorOut
  | remaining + 1, toParse, vectorOut =>
    appendToBuffer remaining toParse (vectorOut ++ [UInt8.ofNat (toParse >>> (remaining * 8))])

/-- The loop of `appendBeginningToBuffer<T>`: byte `i` is inserted at position `i`. -/
def appendBeginningLoop : (remaining i toParse : Nat) → List UInt8 → List UInt8
  | 0, _, _, vectorOut => vectorOut
  | remaining + 1, i, toParse, vectorOut =>
    appendBeginningLoop remaining (i + 1) toParse
      (vectorOut.insertIdx i (UInt8.ofNat (toParse >>> (remaining * 8))))

/-- `appendBeginningToBuffer<T>`. -/
def appendBeginningToBuffer (sizeof toParse : Nat) (vectorOut : List UInt8) : List UInt8 :=
  appendBeginningLoop sizeof 0 toParse vectorOut

/-- The loop of `parse<T>` over the bytes of the input that remain. -/
def parseLoop (parsedValue : Nat) : List UInt8 → Nat
  | [] => parsedValue
  | value :: rest => parseLoop (parsedValue ||| (value.toNat <<< (rest.length * 8))) rest

/-- `parse<T>` of an input of `sizeof(T)` bytes. -/
def parse (input : List UInt8) : Nat := parseLoop 0 input

/-- `buffer[i] << toMove`: the byte is promoted to a 32-bit `int`, the shift count is taken modulo
    32, and the sign of the `int` is extended when it is combined with a 64-bit result. -/
def shiftedInt (byte : UInt8) (toMove : Nat) : Nat :=
  let shifted := byte.toNat * 2 ^ (toMove % 32) % 2 ^ 32
  if shifted < 2 ^ 31 then shifted else shifted + (2 ^ 64 - 2 ^ 32)

/-- The loop of `parseFromBuffer<T>` over the bytes of the value, from the last to the first. -/
def parseFromBufferLoop : List UInt8 → Nat
  | [] => 0
  | byte :: rest => parseFromBufferLoop rest ||| shiftedInt byte (rest.length * 8)

/-- `parseFromBuffer<T>`; `none` when it reads outside the buffer. -/
def parseFromBuffer (sizeof : Nat) (buffer : List UInt8) (initialPosition : Nat) : Option Nat :=
  if initialPosition + sizeof ≤ buffer.length then
    some (parseFromBufferLoop ((buffer.drop initialPosition).take sizeof) % 256 ^ sizeof)
  else none

theorem shiftRight_bytes (value width : Nat) : value >>> (width * 8) = value / 256 ^ width := by
  rw [Nat.shiftRight_eq_div_pow, Nat.mul_comm, Nat.pow_mul]

theorem shiftLeft_bytes (value width : Nat) : value <<< (width * 8) = value * 256 ^ width := by
  rw [Nat.shiftLeft_eq, Nat.mul_comm width, Nat.pow_mul]

theorem appendToBuffer_eq (sizeof toParse : Nat) (vectorOut : List UInt8) :
    appendToBuffer sizeof toParse vectorOut = vectorOut ++ BigEndian.encode sizeof toParse := by
  induction sizeof generalizing vectorOut with
  | zero => simp [appendToBuffer, BigEndian.encode]
  | succ remaining ih => simp [appendToBuffer, BigEndian.encode, ih, shiftRight_bytes]

theorem insertIdx_length_append (front back : List UInt8) (byte : UInt8) :
    (front ++ back).insertIdx front.length byte = front ++ byte :: back := by
  induction front with
  | nil => simp
  | cons first front ih => simp [ih]

theorem appendBeginningLoop_eq (remaining toParse : Nat) (front vectorOut : List UInt8) :
    appendBeginningLoop remaining front.length toParse (front ++ vectorOut) =
      front ++ BigEndian.encode remaining toParse ++ vectorOut := by
  -- `front` holds the bytes inserted so far; the next one goes right behind it
  induction remaining generalizing front with
  | zero => simp [appendBeginningLoop, BigEndian.encode]
  | succ remaining ih =>
    have hnext := ih (front ++ [UInt8.ofNat (toParse / 256 ^ remaining)])
    simp only [length_append, length_singleton, append_assoc,
      singleton_append] at hnext
    simp only [appendBeginningLoop, shiftRight_bytes, BigEndian.encode]
    rw [insertIdx_length_append, hnext]
    simp

theorem appendBeginningToBuffer_eq (sizeof toParse : Nat) (vectorOut : List UInt8) :
    appendBeginningToBuffer sizeof toParse vectorOut =
      BigEndian.encode sizeof toParse ++ vectorOut :=
  appendBeginningLoop_eq sizeof toParse [] vectorOut

theorem parseLoop_eq (parsedValue : Nat) (input : List UInt8) :
    parseLoop parsedValue input = parsedValue ||| BigEndian.decode input := by
  induction input generalizing parsedValue with
  | nil => simp [parseLoop, BigEndian.decode]
  | cons value rest ih =>
    -- the bits of the remaining bytes lie below the shifted byte, so that `|||` is a sum
    have hlt : BigEndian.decode rest < 2 ^ (rest.length * 8) := by
      rw [mul_comm, pow_mul]
      exact BigEndian.decode_lt rest
    have hor := shiftLeft_add_eq_or_of_lt hlt value.toNat
    rw [parseLoop, ih, Nat.or_assoc, ← hor, shiftLeft_bytes, BigEndian.decode]

theorem parse_eq (input : List UInt8) : parse input = BigEndian.decode input := by
  simp [parse, parseLoop_eq]

/-! ### Parsing from a buffer

    The promotion to a 32-bit `int` does no harm to values of at most four bytes. Of a 64-bit value
    only the part below `2 ^ 31` is read back as it was written. -/

section
variable (byte : UInt8) {width : Nat} (hwidth : width < 4)
include byte hwidth

theorem byte_shift_lt :
    byte.toNat * 256 ^ width < 2 ^ 32 := by
  have hbyte : byte.toNat ≤ 255 := le_of_lt_succ byte.toNat_lt
  have hpow : 256 ^ width ≤ 256 ^ 3 := Nat.pow_le_pow_right (by decide) (by omega)
  calc byte.toNat * 256 ^ width ≤ 255 * 256 ^ 3 := Nat.mul_le_mul hbyte hpow
    _ < 2 ^ 32 := by decide

theorem shiftedInt_eq :
    shiftedInt byte (width * 8) =
      if byte.toNat * 256 ^ width < 2 ^ 31 then byte.toNat * 256 ^ width
      else byte.toNat * 256 ^ width + (2 ^ 64 - 2 ^ 32) := by
  have hpow : 2 ^ (width * 8 % 32) = 256 ^ width := by
    rw [Nat.mod_eq_of_lt (by omega), Nat.mul_comm, Nat.pow_mul]
  unfold shiftedInt
  rw [hpow, mod_eq_of_lt (byte_shift_lt byte hwidth)]

theorem shiftedInt_mod :
    shiftedInt byte (width * 8) % 2 ^ 32 = byte.toNat * 256 ^ width := by
  have hlt := byte_shift_lt byte hwidth
  rw [shiftedInt_eq byte hwidth]
  split <;> omega

end

theorem decode_cons_eq_or (byte : UInt8) (rest : List UInt8) :
    BigEndian.decode rest ||| byte.toNat * 256 ^ rest.length =
      BigEndian.decode (byte :: rest) := by
  have hloop := parseLoop_eq 0 (byte :: rest)
  rw [parseLoop, parseLoop_eq, zero_or, zero_or, shiftLeft_bytes] at hloop
  rw [Nat.or_comm, hloop]

theorem parseFromBufferLoop_mod (bytes : List UInt8) (hlen : bytes.length ≤ 4) :
    parseFromBufferLoop bytes % 2 ^ 32 = BigEndian.decode bytes := by
  induction bytes with
  | nil => rfl
  | cons byte rest ih =>
    rw [length_cons] at hlen
    rw [parseFromBufferLoop, or_mod_two_pow, ih (by omega), shiftedInt_mod byte (by omega),
      decode_cons_eq_or]

theorem parseFromBufferLoop_of_lt (bytes : List UInt8) (hlen : bytes.length ≤ 4)
    (hlt : BigEndian.decode bytes < 2 ^ 31) :
    parseFromBufferLoop bytes = BigEndian.decode bytes := by
  induction bytes with
  | nil => rfl
  | cons byte rest ih =>
    rw [length_cons] at hlen
    rw [BigEndian.decode] at hlt
    rw [parseFromBufferLoop, ih (by omega) (by omega), shiftedInt_eq byte (by omega),
      if_pos (by omega), decode_cons_eq_or]

section
variable {buffer rest : List UInt8} {offset sizeof value : Nat}
  (h : At buffer offset (BigEndian.encode sizeof value ++ rest))
include h

/-- Where a value stands in the buffer, `parseFromBuffer` reads its bytes. -/
theorem parseFromBuffer_at : parseFromBuffer sizeof buffer offset =
    some (parseFromBufferLoop (BigEndian.encode sizeof value) % 256 ^ sizeof) := by
  have hlength := h.length_eq
  have htake := h.take
  rw [length_append, BigEndian.length_encode] at hlength
  rw [BigEndian.length_encode] at htake
  rw [parseFromBuffer, if_pos (by omega), htake]

theorem parseFromBuffer_encode (hsize : sizeof ≤ 4) (hvalue : value < 256 ^ sizeof) :
    parseFromBuffer sizeof buffer offset = some value := by
  have hmod := parseFromBufferLoop_mod (BigEndian.encode sizeof value) (by simpa using hsize)
  have hdvd : 256 ^ sizeof ∣ 2 ^ 32 := pow_dvd_pow 256 hsize
  rw [BigEndian.decode_encode_of_lt hvalue] at hmod
  rw [parseFromBuffer_at h, ← mod_mod_of_dvd _ hdvd, hmod, mod_eq_of_lt hvalue]

end

/-- A shift count is taken modulo 32, so that the bytes of the high word fall on those of the low
    one. -/
theorem parseFromBufferLoop_append (high low : List UInt8) (hlow : low.length = 4) :
    parseFromBufferLoop (high ++ low) = parseFromBufferLoop low ||| parseFromBufferLoop high := by
  induction high with
  | nil => simp [parseFromBufferLoop]
  | cons byte high ih =>
    have hmove : (high ++ low).length * 8 % 32 = high.length * 8 % 32 := by
      rw [length_append, hlow]
      omega
    rw [cons_append, parseFromBufferLoop, ih, parseFromBufferLoop, shiftedInt, shiftedInt, hmove,
      Nat.or_assoc]

/-- A word of four bytes is read with its sign extended. -/
theorem parseFromBufferLoop_word {value : Nat} (hvalue : value < 2 ^ 32) :
    parseFromBufferLoop (BigEndian.encode 4 value) =
      if value < 2 ^ 31 then value else value + (2 ^ 64 - 2 ^ 32) := by
  have hlow : parseFromBufferLoop (BigEndian.encode 3 value) = value % 256 ^ 3 := by
    rw [parseFromBufferLoop_of_lt _ (by simp), BigEndian.decode_encode]
    rw [BigEndian.decode_encode]
    omega
  have hhigh : (UInt8.ofNat (value / 256 ^ 3)).toNat = value / 256 ^ 3 := by
    rw [UInt8.toNat_ofNat']
    omega
  have hmod : value % 256 ^ 3 < 2 ^ (3 * 8) := mod_lt _ (by decide)
  -- the bits of the low bytes lie below those of the high one
  have hor : ∀ n, value % 256 ^ 3 ||| n * 256 ^ 3 = n * 256 ^ 3 + value % 256 ^ 3 := by
    intro n
    rw [Nat.or_comm, ← shiftLeft_bytes]
    exact (shiftLeft_add_eq_or_of_lt hmod n).symm
  rw [BigEndian.encode, parseFromBufferLoop, hlow, BigEndian.length_encode,
    shiftedInt_eq _ (by decide), hhigh]
  have hvalue' := div_add_mod value (256 ^ 3)
  generalize value / 256 ^ 3 = high at *
  generalize value % 256 ^ 3 = low at *
  split
  · rw [hor, if_pos (by omega)]
    omega
  · rw [if_neg (by omega)]
    calc low ||| (high * 256 ^ 3 + (2 ^ 64 - 2 ^ 32))
        = low ||| (high + (2 ^ 40 - 2 ^ 8)) * 256 ^ 3 := congrArg _ (by omega)
      _ = (high + (2 ^ 40 - 2 ^ 8)) * 256 ^ 3 + low := hor _
      _ = value + (2 ^ 64 - 2 ^ 32) := by omega

/-- Of the 64-bit values those below `2 ^ 31` are read back, and the one with all bits set. -/
theorem parseFromBuffer_u64_iff {buffer rest : List UInt8} {offset value : Nat}
    (h : At buffer offset (BigEndian.encode 8 value ++ rest)) (hvalue : value < 2 ^ 64) :
    parseFromBuffer 8 buffer offset = some value ↔ value < 2 ^ 31 ∨ value = 2 ^ 64 - 1 := by
  have hhigh : value / 256 ^ 4 < 2 ^ 32 := by omega
  have hlow : value % 256 ^ 4 < 2 ^ 32 := mod_lt _ (by decide)
  have hloop := parseFromBufferLoop_append (BigEndian.encode 4 (value / 256 ^ 4))
    (BigEndian.encode 4 value) (BigEndian.length_encode 4 value)
  rw [← BigEndian.encode_add 4 4, parseFromBufferLoop_word hhigh, ← BigEndian.encode_mod 4,
    parseFromBufferLoop_word hlow] at hloop
  rw [parseFromBuffer_at h, hloop, Option.some.injEq]
  generalize hl : (if value % 256 ^ 4 < 2 ^ 31 then value % 256 ^ 4 else
    value % 256 ^ 4 + (2 ^ 64 - 2 ^ 32)) = low
  generalize hh : (if value / 256 ^ 4 < 2 ^ 31 then value / 256 ^ 4 else
    value / 256 ^ 4 + (2 ^ 64 - 2 ^ 32)) = high
  have hlt : low ||| high < 2 ^ 64 := by
    apply or_lt_two_pow
    · split at hl <;> omega
    · split at hh <;> omega
  have hleft : low ≤ low ||| high := left_le_or
  have hright : high ≤ low ||| high := right_le_or
  rw [show (256 ^ 8 : Nat) = 2 ^ 64 from rfl, mod_eq_of_lt hlt]
  by_cases hsmall : low < 2 ^ 31 ∧ high < 2 ^ 31
  · have hor : low ||| high < 2 ^ 31 := or_lt_two_pow hsmall.1 hsmall.2
    constructor
    · intro heq
      exact Or.inl (heq ▸ hor)
    · intro hcases
      have hzero : high = 0 := by split at hh <;> omega
      rw [hzero, or_zero]
      split at hl <;> omega
  · -- the sign fills the high word
    constructor
    · intro heq
      right
      split at hl <;> split at hh <;> omega
    · intro hcases
      split at hl <;> split at hh <;> omega

/-- The codec is right for `parse` and, in `parseFromBuffer`, for all types but the 64-bit one:
    there the value must be below `2 ^ 31` or have all its bits set. -/
theorem parse_appendToBuffer {sizeof value : Nat} (hsize : sizeof ∈ [1, 2, 4, 8])
    (hvalue : value < 256 ^ sizeof) (front rest : List UInt8) :
    parse (((appendToBuffer sizeof value front ++ rest).drop front.length).take sizeof) = value ∧
      (parseFromBuffer sizeof (appendToBuffer sizeof value front ++ rest) front.length =
        some value ↔ (sizeof = 8 → value < 2 ^ 31 ∨ value = 2 ^ 64 - 1)) := by
  rw [appendToBuffer_eq, append_assoc]
  constructor
  · rw [drop_left, take_left' (BigEndian.length_encode sizeof value), parse_eq,
      BigEndian.decode_encode_of_lt hvalue]
  · by_cases hwide : sizeof = 8
    · subst hwide
      rw [parseFromBuffer_u64_iff (at_append front _) hvalue]
      simp
    · have hfour : sizeof ≤ 4 := by
        simp only [mem_cons, not_mem_nil, or_false] at hsize
        omega
      simp [parseFromBuffer_encode (at_append front _) hfour hvalue, hwide]

/-- The greatest 32-bit value, written behind two bytes. -/
theorem parse_appendToBuffer_word :
    parse (((appendToBuffer 4 4294967295 [1, 2] ++ [3]).drop 2).take 4) = 4294967295 ∧
      parseFromBuffer 4 (appendToBuffer 4 4294967295 [1, 2] ++ [3]) 2 = some 4294967295 := by
  obtain ⟨hparse, hfrom⟩ := parse_appendToBuffer (by decide : 4 ∈ [1, 2, 4, 8])
    (by decide : 4294967295 < 256 ^ 4) [1, 2] [3]
  exact ⟨hparse, hfrom.mpr (by decide)⟩

/-- The sign of the fourth byte is extended over the high word. -/
theorem parseFromBuffer_two_pow_31 :
    parse (appendToBuffer 8 (2 ^ 31) []) = 2 ^ 31 ∧
      parseFromBuffer 8 (appendToBuffer 8 (2 ^ 31) []) 0 = some (2 ^ 64 - 2 ^ 31) := by
  decide

end Utils

end MemDb
