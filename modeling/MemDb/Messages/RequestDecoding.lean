import MemDb.Messages.Request

/-! # Requests from anybody

    The lengths in a request come from its sender, and they are read before the sender is known.
    `deserialize` has one outcome for all that goes wrong; here the outcomes are told apart. A
    position outside the buffer can be read; an array can be allocated with a negative size, which
    is an exception; and behind the last 32-bit position the copying loop ends at once, so that an
    argument has a size for which no byte was copied.
-/

namespace MemDb

open Lib List Option BigEndian Utils

namespace RequestDeserializer

open RequestSerializer

/-! ### The outcomes of decoding -/

/-- What has been read, if it is inside the buffer. -/
def inside {α : Type} (read : Option α) : Except DecodeFailure α := read.elim (.error .outside) .ok

/-- An argument: the size that it is given, and the bytes that were copied for it. -/
structure CopiedArg where
  size : Nat
  bytes : SimpleString
deriving DecidableEq, Repr

/-- The loop of `deserializeOperation` over the arguments. -/
def copyArgs (buffer : List UInt8) (position : Nat) (arguments : List CopiedArg) :
    Except DecodeFailure (List CopiedArg) :=
  if _hposition : position + 1 < buffer.length then
    (inside (parseFromBuffer 4 buffer position)).bind fun argLength =>
      if argLength = 0 then .ok arguments
      else (copyFrom buffer (position + 4) (position + 4 + argLength)).bind fun argValue =>
        copyArgs buffer (position + 4 + argLength) (arguments ++ [⟨argLength, argValue⟩])
  else .ok arguments
termination_by buffer.length - position

/-- The arguments from `position` on; no argument vector is made when one byte is left. -/
def copyArguments (buffer : List UInt8) (position : Nat) :
    Except DecodeFailure (Option (List CopiedArg)) :=
  if position + 1 = buffer.length then .ok none
  else (copyArgs buffer position []).map some

def decodeAuthenticacion (buffer : List UInt8) : Except DecodeFailure AuthenticationBody := do
  let authLength ← inside (getValueWithoutFlags buffer 4)
  let authKey ← copyFrom buffer (4 + 1) (4 + authLength + 1)
  let flagAuth1 ← inside (getFlag buffer 4 FLAG1_MASK)
  let flagAuth2 ← inside (getFlag buffer 4 FLAG2_MASK)
  return ⟨authKey, flagAuth1, flagAuth2⟩

/-- An operation with the bytes that were copied for its arguments, and the sizes of the
    arguments. -/
def decodeOperation (buffer : List UInt8) (position : Nat) (includesNodeId : Bool) :
    Except DecodeFailure (OperationBody × List Nat) := do
  let operatorNumber ← inside (getValueWithoutFlags buffer position)
  let flagOperation1 ← inside (getFlag buffer position FLAG1_MASK)
  let flagOperation2 ← inside (getFlag buffer position FLAG2_MASK)
  let timestamp ← inside (parseFromBuffer 8 buffer (position + 1))
  let nodeId ← inside (deserializeNodeId buffer (position + 9) includesNodeId)
  let arguments ← copyArguments buffer (if includesNodeId then position + 11 else position + 9)
  return (⟨arguments.map (·.map (·.bytes)), UInt64.ofNat timestamp, UInt16.ofNat nodeId,
    UInt8.ofNat operatorNumber, flagOperation1, flagOperation2⟩, (arguments.getD []).map (·.size))

/-- `deserialize`: a request, and the sizes of its arguments. -/
def decode (buffer : List UInt8) : Except DecodeFailure (Request × List Nat) := do
  let requestNumber ← inside (parseFromBuffer 4 buffer 0)
  let authentication ← decodeAuthenticacion buffer
  let operation ← decodeOperation buffer (authentication.getTotalLength + 4) authentication.flag1
  return (⟨authentication, operation.1, UInt32.ofNat requestNumber, .USER⟩, operation.2)

/-- Nothing outside the buffer is read, and a request that is returned has an argument vector in
    which every argument has the size of what was copied for it. -/
def Safe (buffer : List UInt8) : Prop :=
  decode buffer ≠ .error .outside ∧
    ∀ request sizes, decode buffer = .ok (request, sizes) →
      request.operation.args.map (·.map List.length) = some sizes

variable {α : Type} {args : List SimpleString} {tail buffer : List UInt8} {position : Nat}

theorem inside_some (value : α) : inside (some value) = .ok value := rfl

theorem bind_ok {β : Type} (value : α) (next : α → Except DecodeFailure β) :
    (Except.ok value).bind next = next value := rfl

theorem do_ok {β : Type} (value : α) (next : α → Except DecodeFailure β) :
    (Except.ok value >>= next) = next value := rfl

/-! ### The arguments -/

/-- What can stand behind the arguments so that their loop ends without harm: nothing, one byte, or
    a length that ends the loop or makes it throw. -/
inductive EndsLoop : List UInt8 → Prop
  | nothing : EndsLoop []
  | oneByte (byte : UInt8) : EndsLoop [byte]
  | length (argLength : Nat) (rest : List UInt8) (hlength : argLength = 0 ∨ 2 ^ 31 ≤ argLength)
    (hlt : argLength < 2 ^ 32) : EndsLoop (encode 4 argLength ++ rest)

/-- Arguments that are not empty, each behind its length, and what stands behind them. -/
structure ArgumentBytes (args : List SimpleString) (tail bytes : List UInt8) : Prop where
  bytes : bytes = args.flatMap argBytes ++ tail
  nonempty : ∀ arg ∈ args, arg ≠ []
  ends : EndsLoop tail

/-- An argument with the size of what was copied. -/
def CopiedArg.whole (arg : SimpleString) : CopiedArg := ⟨arg.length, arg⟩

/-- The loop goes past an argument that is not empty. -/
theorem copyArgs_cons {rest : List UInt8} {arg : SimpleString}
    (h : At buffer position (argBytes arg ++ rest)) (hnonempty : arg ≠ [])
    (hlen : position + (argBytes arg).length < 2 ^ 31) (arguments : List CopiedArg) :
    copyArgs buffer position arguments =
      copyArgs buffer (position + (argBytes arg).length) (arguments ++ [.whole arg]) := by
  have hpos : 0 < arg.length := length_pos_iff.mpr hnonempty
  rw [argBytes, append_assoc] at h
  rw [argBytes, length_append, length_encode] at hlen ⊢
  have hlength := h.length_eq
  rw [length_append, length_encode] at hlength
  rw [copyArgs, dif_pos (by omega), parseFromBuffer_encode h (by decide) (by omega), inside_some,
    bind_ok, if_neg (Nat.ne_of_gt hpos), copyFrom_at h.number (by omega), bind_ok, ← Nat.add_assoc]
  rfl

/-- Behind the arguments the loop ends, or throws. -/
theorem copyArgs_end (htail : EndsLoop tail) (h : At buffer position tail)
    (arguments : List CopiedArg) :
    copyArgs buffer position arguments = .ok arguments ∨
      copyArgs buffer position arguments = .error .badArrayLength := by
  have hlength := h.length_eq
  cases htail with
  | nothing =>
    left
    rw [copyArgs, dif_neg (by rw [length_nil] at hlength; omega)]
  | oneByte byte =>
    left
    rw [copyArgs, dif_neg (by rw [length_singleton] at hlength; omega)]
  | length argLength rest hends hlt =>
    rw [length_append, length_encode] at hlength
    rw [copyArgs, dif_pos (by omega), parseFromBuffer_encode h (by decide) hlt, inside_some,
      bind_ok]
    rcases hends with rfl | hlarge
    · left
      rw [if_pos rfl]
    · right
      rw [if_neg (by omega), copyFrom_of_ge hlarge hlt]
      rfl

/-- The loop over arguments that stand in the buffer copies them, unless it throws. -/
theorem copyArgs_at (hnonempty : ∀ arg ∈ args, arg ≠ []) (htail : EndsLoop tail)
    (h : At buffer position (args.flatMap argBytes ++ tail))
    (hlen : position + (args.flatMap argBytes).length < 2 ^ 31) (arguments : List CopiedArg) :
    copyArgs buffer position arguments = .ok (arguments ++ args.map .whole) ∨
      copyArgs buffer position arguments = .error .badArrayLength := by
  induction args generalizing position arguments with
  | nil => simpa using copyArgs_end htail h arguments
  | cons arg args ih =>
    obtain ⟨hfirst, hrest⟩ := forall_mem_cons.mp hnonempty
    rw [flatMap_cons, append_assoc] at h
    rw [flatMap_cons, length_append] at hlen
    have hnext := ih hrest h.behind (by omega) (arguments ++ [.whole arg])
    rw [append_assoc, singleton_append] at hnext
    rwa [copyArgs_cons h hfirst (by omega), map_cons]

/-- The four bytes that are read as a length. -/
theorem drop_of_parse {argLength : Nat} (h : parseFromBuffer 4 buffer position = some argLength) :
    argLength < 2 ^ 32 ∧ position + 4 ≤ buffer.length ∧
      buffer.drop position = encode 4 argLength ++ buffer.drop (position + 4) := by
  have hinside : position + 4 ≤ buffer.length := by
    by_contra hlt
    rw [parseFromBuffer, if_neg hlt] at h
    cases h
  have hat := at_drop (by omega : position ≤ buffer.length)
  obtain ⟨value, hvalue, rest, hrest⟩ : ∃ value < 256 ^ 4, ∃ rest, buffer.drop position = _ :=
    exists_encode (by rw [length_drop]; omega)
  rw [hrest] at hat ⊢
  rw [parseFromBuffer_encode hat (by decide) hvalue, some.injEq] at h
  rw [hat.number.drop, h]
  exact ⟨h ▸ hvalue, hinside, rfl⟩

/-- One more argument in front. -/
theorem ArgumentBytes.cons {argLength : Nat}
    (h : ArgumentBytes args tail (buffer.drop (position + 4 + argLength)))
    (hnonempty : argLength ≠ 0) (hinside : position + 4 + argLength ≤ buffer.length)
    (hdrop : buffer.drop position = encode 4 argLength ++ buffer.drop (position + 4)) :
    ArgumentBytes ((buffer.drop (position + 4)).take argLength :: args) tail
      (buffer.drop position) := by
  have hlength : ((buffer.drop (position + 4)).take argLength).length = argLength := by
    simp only [length_take, length_drop]
    omega
  refine ⟨?_, ?_, h.ends⟩
  · have hrest : buffer.drop (position + 4 + argLength) =
        (buffer.drop (position + 4)).drop argLength := drop_drop.symm
    rw [hdrop, flatMap_cons, argBytes, hlength, append_assoc, append_assoc, ← h.bytes,
      hrest, take_append_drop]
  · refine forall_mem_cons.mpr ⟨?_, h.nonempty⟩
    intro hempty
    rw [hempty] at hlength
    exact hnonempty hlength.symm

/-- Arguments that the loop goes past without harm stand in the buffer. -/
theorem argumentBytes_of_copyArgs (hbuffer : buffer.length < 2 ^ 31) (position : Nat)
    (arguments : List CopiedArg) (hinside : copyArgs buffer position arguments ≠ .error .outside)
    (hsizes : ∀ copied, copyArgs buffer position arguments = .ok copied →
      ∀ arg ∈ copied, arg.size = arg.bytes.length) :
    ∃ args tail, ArgumentBytes args tail (buffer.drop position) := by
  induction position, arguments using copyArgs.induct buffer with
  | case1 position arguments hposition ih =>
    rw [copyArgs, dif_pos hposition] at hinside hsizes
    cases hparse : parseFromBuffer 4 buffer position with
    | none =>
      rw [hparse] at hinside
      exact absurd rfl hinside
    | some argLength =>
      rw [hparse, inside_some, bind_ok] at hinside hsizes
      obtain ⟨hlt, hfour, hdrop⟩ := drop_of_parse hparse
      by_cases hends : argLength = 0 ∨ 2 ^ 31 ≤ argLength
      · exact ⟨[], _, rfl, by simp, hdrop ▸ .length argLength _ hends hlt⟩
      · rw [not_or] at hends
        rw [if_neg hends.1] at hinside hsizes
        by_cases hend : position + 4 + argLength < 2 ^ 31
        · rw [copyFrom_of_lt hend] at hinside hsizes
          by_cases hargument : position + 4 + argLength ≤ buffer.length
          · rw [if_pos (.inr hargument), bind_ok] at hinside hsizes
            obtain ⟨args, tail, hrest⟩ := ih _ _ hinside hsizes
            exact ⟨_, tail, hrest.cons hends.1 hargument hdrop⟩
          · rw [if_neg (not_or.mpr ⟨hends.1, hargument⟩)] at hinside
            exact absurd rfl hinside
        · -- the loop ends behind this argument, for which nothing was copied
          rw [copyFrom_of_wraps (by omega) (by omega) (by omega), bind_ok, copyArgs,
            dif_neg (by omega)] at hsizes
          have hsize := hsizes _ rfl ⟨argLength, []⟩ (mem_append_right _ mem_cons_self)
          exact absurd hsize hends.1
  | case2 position arguments hposition =>
    refine ⟨[], buffer.drop position, rfl, by simp, ?_⟩
    have hlength : (buffer.drop position).length ≤ 1 := by
      rw [length_drop]
      omega
    rcases hbytes : buffer.drop position with _ | ⟨byte, _ | ⟨next, rest⟩⟩
    · exact .nothing
    · exact .oneByte byte
    · rw [hbytes] at hlength
      simp at hlength

/-! ### The header -/

/-- Where the arguments begin, for the byte with the length of the key and the flag for the node
    id. -/
def argumentsPosition (authByte : UInt8) : Nat :=
  5 + authByte.toNat >>> 2 + if (authByte.toNat <<< 4) &&& FLAG1_MASK != 0 then 11 else 9

section header
variable {buffer : List UInt8} {authByte : UInt8} {position : Nat} {includesNodeId : Bool}

/-- The authentication, from the byte with the length of its key. -/
theorem decodeAuthenticacion_eq (hbyte : buffer[4]? = some authByte) :
    decodeAuthenticacion buffer =
      if authByte.toNat >>> 2 = 0 ∨ 5 + authByte.toNat >>> 2 ≤ buffer.length then
        .ok ⟨(buffer.drop 5).take (authByte.toNat >>> 2),
          (authByte.toNat <<< 4) &&& FLAG1_MASK != 0, (authByte.toNat <<< 4) &&& FLAG2_MASK != 0⟩
      else .error .outside := by
  have hsmall : authByte.toNat >>> 2 < 64 := by
    rw [Nat.shiftRight_eq_div_pow]
    have hlt := authByte.toNat_lt
    omega
  have hcopy : copyFrom buffer 5 (5 + authByte.toNat >>> 2) =
      if authByte.toNat >>> 2 = 0 ∨ 5 + authByte.toNat >>> 2 ≤ buffer.length then
        .ok ((buffer.drop 5).take (authByte.toNat >>> 2))
      else .error .outside := copyFrom_of_lt (by omega)
  unfold decodeAuthenticacion getValueWithoutFlags getFlag
  rw [hbyte, map_some, inside_some, do_ok, show 4 + authByte.toNat >>> 2 + 1 =
    5 + authByte.toNat >>> 2 by omega, show 4 + 1 = 5 from rfl, hcopy]
  split <;> rfl

theorem parseFromBuffer_isSome_iff {sizeof : Nat} :
    (parseFromBuffer sizeof buffer position).isSome ↔ position + sizeof ≤ buffer.length := by
  unfold parseFromBuffer
  split <;> simp_all

theorem deserializeNodeId_isSome_iff :
    (deserializeNodeId buffer position includesNodeId).isSome ↔
      (includesNodeId = true → position + 2 ≤ buffer.length) := by
  unfold deserializeNodeId
  cases includesNodeId with
  | false => simp
  | true => simpa using parseFromBuffer_isSome_iff

/-- An operation whose header is in the buffer. -/
theorem decodeOperation_of_le
    (hlen : position + (if includesNodeId then 11 else 9) ≤ buffer.length) :
    ∃ operation : OperationBody, decodeOperation buffer position includesNodeId =
      (copyArguments buffer (position + if includesNodeId then 11 else 9)).map fun arguments =>
        ({ operation with args := arguments.map (·.map (·.bytes)) },
          (arguments.getD []).map (·.size)) := by
  have hnine : position + 9 ≤ buffer.length := by
    split at hlen <;> omega
  obtain ⟨timestamp, htimestamp⟩ := isSome_iff_exists.mp
    (parseFromBuffer_isSome_iff.mpr (by omega : position + 1 + 8 ≤ buffer.length))
  obtain ⟨nodeId, hnodeId⟩ := isSome_iff_exists.mp
    (deserializeNodeId_isSome_iff.mpr (fun hincludes => by
      rw [if_pos hincludes] at hlen
      omega : includesNodeId = true → position + 9 + 2 ≤ buffer.length))
  have hposition : (if includesNodeId = true then position + 11 else position + 9) =
      position + if includesNodeId = true then 11 else 9 := by
    split <;> rfl
  refine ⟨⟨none, UInt64.ofNat timestamp, UInt16.ofNat nodeId,
    UInt8.ofNat (buffer[position].toNat >>> 2),
    (buffer[position].toNat <<< 4) &&& FLAG1_MASK != 0,
    (buffer[position].toNat <<< 4) &&& FLAG2_MASK != 0⟩, ?_⟩
  unfold decodeOperation getValueWithoutFlags getFlag
  rw [List.getElem?_eq_getElem (by omega), htimestamp, hnodeId, hposition]
  cases copyArguments buffer (position + if includesNodeId = true then 11 else 9) with
  | error failure => rfl
  | ok arguments => rfl

theorem decodeOperation_of_lt
    (hlen : buffer.length < position + (if includesNodeId then 11 else 9)) :
    decodeOperation buffer position includesNodeId = .error .outside := by
  unfold decodeOperation getValueWithoutFlags getFlag
  cases hbyte : buffer[position]? with
  | none => rfl
  | some byte =>
    cases htimestamp : parseFromBuffer 8 buffer (position + 1) with
    | none => rfl
    | some timestamp =>
      cases hnodeId : deserializeNodeId buffer (position + 9) includesNodeId with
      | none => rfl
      | some nodeId =>
        -- then all of the header is in the buffer
        have hnine := parseFromBuffer_isSome_iff.mp (isSome_of_eq_some htimestamp)
        have heleven := deserializeNodeId_isSome_iff.mp (isSome_of_eq_some hnodeId)
        split at hlen
        · next hincludes =>
          have hinside := heleven hincludes
          omega
        · omega

/-- Behind the authentication the operation begins. -/
theorem decode_of_authentication (hbyte : buffer[4]? = some authByte)
    (hkey : authByte.toNat >>> 2 = 0 ∨ 5 + authByte.toNat >>> 2 ≤ buffer.length) :
    ∃ (requestNumber : Nat) (authentication : AuthenticationBody), decode buffer =
      (decodeOperation buffer (5 + authByte.toNat >>> 2)
        ((authByte.toNat <<< 4) &&& FLAG1_MASK != 0)).map fun operation =>
          (⟨authentication, operation.1, UInt32.ofNat requestNumber, .USER⟩, operation.2) := by
  have hfour : 4 < buffer.length := (List.getElem?_eq_some_iff.mp hbyte).1
  obtain ⟨requestNumber, hnumber⟩ := isSome_iff_exists.mp
    (parseFromBuffer_isSome_iff.mpr (by omega : 0 + 4 ≤ buffer.length))
  have hlength : ((buffer.drop 5).take (authByte.toNat >>> 2)).length = authByte.toNat >>> 2 := by
    simp only [length_take, length_drop]
    omega
  refine ⟨requestNumber, ⟨(buffer.drop 5).take (authByte.toNat >>> 2),
    (authByte.toNat <<< 4) &&& FLAG1_MASK != 0, (authByte.toNat <<< 4) &&& FLAG2_MASK != 0⟩, ?_⟩
  unfold decode
  rw [hnumber, inside_some, do_ok, decodeAuthenticacion_eq hbyte, if_pos hkey, do_ok,
    AuthenticationBody.getTotalLength, hlength,
    show 1 + authByte.toNat >>> 2 + 4 = 5 + authByte.toNat >>> 2 by omega]
  cases decodeOperation buffer (5 + authByte.toNat >>> 2)
      ((authByte.toNat <<< 4) &&& FLAG1_MASK != 0) with
  | error failure => rfl
  | ok operation => rfl

/-- With a whole header, decoding is decoding the arguments. -/
theorem decode_of_header (hbyte : buffer[4]? = some authByte)
    (hlen : argumentsPosition authByte ≤ buffer.length) :
    ∃ request : Request, decode buffer =
      (copyArguments buffer (argumentsPosition authByte)).map fun arguments =>
        ({ request with operation.args := arguments.map (·.map (·.bytes)) },
          (arguments.getD []).map (·.size)) := by
  unfold argumentsPosition at hlen ⊢
  obtain ⟨requestNumber, authentication, hdecode⟩ :=
    decode_of_authentication hbyte (.inr (by split at hlen <;> omega))
  obtain ⟨operation, hoperation⟩ := decodeOperation_of_le hlen
  refine ⟨⟨authentication, operation, UInt32.ofNat requestNumber, .USER⟩, ?_⟩
  rw [hdecode, hoperation]
  cases copyArguments buffer (5 + authByte.toNat >>> 2 +
      if (authByte.toNat <<< 4) &&& FLAG1_MASK != 0 then 11 else 9) with
  | error failure => rfl
  | ok arguments => rfl

/-- Without one, it reads outside the buffer. -/
theorem decode_of_short
    (hshort : ∀ authByte, buffer[4]? = some authByte → buffer.length < argumentsPosition authByte) :
    decode buffer = .error .outside := by
  cases hbyte : buffer[4]? with
  | none =>
    unfold decode decodeAuthenticacion getValueWithoutFlags
    rw [hbyte]
    cases parseFromBuffer 4 buffer 0 with
    | none => rfl
    | some requestNumber => rfl
  | some authByte =>
    by_cases hkey : authByte.toNat >>> 2 = 0 ∨ 5 + authByte.toNat >>> 2 ≤ buffer.length
    · obtain ⟨requestNumber, authentication, hdecode⟩ := decode_of_authentication hbyte hkey
      rw [hdecode, decodeOperation_of_lt (hshort authByte hbyte)]
      rfl
    · unfold decode
      rw [decodeAuthenticacion_eq hbyte, if_neg hkey]
      cases parseFromBuffer 4 buffer 0 with
      | none => rfl
      | some requestNumber => rfl

end header

/-! ### Which buffers are safe -/

/-- A whole header, then arguments below 2 GiB, with what ends them; a single byte must not stand
    right behind the header. -/
def WellFormed (buffer : List UInt8) : Prop :=
  ∃ authByte, buffer[4]? = some authByte ∧ argumentsPosition authByte ≤ buffer.length ∧
    buffer.length ≠ argumentsPosition authByte + 1 ∧
    ∃ args tail, ArgumentBytes args tail (buffer.drop (argumentsPosition authByte)) ∧
      argumentsPosition authByte + (args.flatMap argBytes).length < 2 ^ 31

/-- With a whole header, a buffer is safe when its arguments are. -/
theorem safe_iff_copyArguments {authByte : UInt8} (hbyte : buffer[4]? = some authByte)
    (hheader : argumentsPosition authByte ≤ buffer.length) :
    Safe buffer ↔ copyArguments buffer (argumentsPosition authByte) ≠ .error .outside ∧
      ∀ arguments, copyArguments buffer (argumentsPosition authByte) = .ok arguments →
        ∃ copied, arguments = some copied ∧ ∀ arg ∈ copied, arg.size = arg.bytes.length := by
  obtain ⟨request, hdecode⟩ := decode_of_header hbyte hheader
  rw [Safe, hdecode]
  cases copyArguments buffer (argumentsPosition authByte) with
  | error failure => simp [Except.map]
  | ok arguments =>
    cases arguments with
    | none => simp [Except.map]
    | some copied => simp [Except.map, eq_comm]

/-- A well-formed buffer is decoded safely. -/
theorem safe_of_wellFormed (h : WellFormed buffer) : Safe buffer := by
  obtain ⟨authByte, hbyte, hheader, hone, args, tail, hargs, hlen⟩ := h
  have hat := at_drop hheader
  rw [hargs.bytes] at hat
  have hcopy := copyArgs_at hargs.nonempty hargs.ends hat hlen []
  rw [safe_iff_copyArguments hbyte hheader, copyArguments, if_neg (Ne.symm hone)]
  rcases hcopy with hcopy | hcopy
  · simp [hcopy, Except.map, CopiedArg.whole]
  · simp [hcopy, Except.map]

/-- A buffer below 2 GiB that is decoded safely is well-formed. -/
theorem wellFormed_of_safe (hlen : buffer.length < 2 ^ 31) (h : Safe buffer) :
    WellFormed buffer := by
  by_cases hheader : ∃ authByte, buffer[4]? = some authByte ∧
    argumentsPosition authByte ≤ buffer.length
  · obtain ⟨authByte, hbyte, hheader⟩ := hheader
    rw [safe_iff_copyArguments hbyte hheader] at h
    obtain ⟨hinside, hsizes⟩ := h
    -- a single byte behind the header would leave the request without an argument vector
    have hone : buffer.length ≠ argumentsPosition authByte + 1 := by
      intro hone
      obtain ⟨copied, hcopied, -⟩ := hsizes none (if_pos hone.symm)
      cases hcopied
    rw [copyArguments, if_neg (Ne.symm hone)] at hinside hsizes
    obtain ⟨args, tail, hargs⟩ := argumentBytes_of_copyArgs hlen (argumentsPosition authByte) []
      (by
        intro houtside
        rw [houtside] at hinside
        exact hinside rfl)
      (by
        intro copied hcopied
        rw [hcopied] at hsizes
        obtain ⟨_, hsome, hequal⟩ := hsizes (some copied) rfl
        cases hsome
        exact hequal)
    refine ⟨authByte, hbyte, hheader, hone, args, tail, hargs, ?_⟩
    have hlength := congrArg List.length hargs.bytes
    rw [length_drop, length_append] at hlength
    omega
  · -- the header is not whole
    refine absurd (decode_of_short ?_) h.1
    intro authByte hbyte
    exact Nat.lt_of_not_le fun hle => hheader ⟨authByte, hbyte, hle⟩

/-- Decoding is safe for well-formed buffers, and below 2 GiB for no others. -/
theorem safe_iff_wellFormed (buffer : List UInt8) :
    (WellFormed buffer → Safe buffer) ∧
    (buffer.length < 2 ^ 31 → Safe buffer → WellFormed buffer) :=
  ⟨safe_of_wellFormed, wellFormed_of_safe⟩

/-- An argument of one byte, and one byte more behind it. -/
theorem safe_one_argument :
    Safe [0, 0, 0, 1, 0, 4, 0, 0, 0, 0, 0, 0, 0, 0, 0, 0, 0, 1, 65, 0] :=
  (safe_iff_wellFormed _).1 ⟨0, rfl, by decide, by decide, [[65]], [0],
    ⟨by decide, by decide, .oneByte 0⟩, by decide⟩

/-- A single byte: the request number is read from outside the buffer. -/
theorem not_safe_single_byte : decode [0] = .error .outside ∧ ¬ Safe [0] :=
  ⟨rfl, fun h => h.1 rfl⟩

end RequestDeserializer

end MemDb
