import MemDb.Messages.Response

/-! # The Java client reads a response

    `ResponseDeserializer` of the Java client against `ResponseSerializer` of the server. Java has
    signed types only, also for the elements of a `byte[]`: their values are integers here, and a
    read outside an array throws and is `none`.

    The node id is read at offset 8, inside the counter, and the value only where the last byte of
    its length is positive as a signed byte. `readsResponse_iff` says what a response has to be like
    to arrive whole.
-/

namespace MemDb.Client

open Lib BigEndian ResponseSerializer Option

/-! ### Reading bytes in Java -/

/-- The element of a `byte[]`. -/
def byteAt (raw : List UInt8) (index : Nat) : Option Int8 := raw[index]?.map UInt8.toInt8

namespace ByteBuffer

/-- A big-endian number of `sizeof` bytes from the offset on. -/
def get (sizeof : Nat) (raw : List UInt8) (offset : Nat) : Option Int :=
  if offset + sizeof ≤ raw.length then
    some (decodeSigned ((raw.drop offset).take sizeof))
  else none

def getShort : List UInt8 → Nat → Option Int := get 2

def getInt : List UInt8 → Nat → Option Int := get 4

def getLong : List UInt8 → Nat → Option Int := get 8

theorem get_at {raw rest : List UInt8} {sizeof value offset : Nat}
    (h : At raw offset (encode sizeof value ++ rest)) :
    get sizeof raw offset = some (decodeSigned (encode sizeof value)) := by
  have hlength := h.length_eq
  have htake := h.take
  rw [List.length_append, length_encode] at hlength
  rw [length_encode] at htake
  rw [get, if_pos (by omega), htake]

end ByteBuffer

/-! ### Responses of the client -/

/-- `LamportClock` of the client: a `long` and a `short`. -/
structure LamportClock where
  counter : Int
  nodeId : Int
deriving DecidableEq, Repr

structure Response where
  requestNumber : Int
  timestamp : LamportClock
  errorCode : Int
  isSuccessful : Bool
  response : List UInt8
deriving DecidableEq, Repr

namespace ResponseDeserializer

def SUCCESSFUL_MASK : Int8 := 0x01

def deserialize (raw : List UInt8) : Option Response := do
  let requestNumber ← ByteBuffer.getInt raw 0
  let timestampCounter ← ByteBuffer.getLong raw 4
  let timestampNodeId ← ByteBuffer.getShort raw 8
  let flags ← byteAt raw (4 + 8 + 2)
  let offsetResponseLength := 4 + 8 + 2 + 1
  let offsetResponseBody := offsetResponseLength + 4
  let hasBody ← if raw.length > offsetResponseBody then
      (byteAt raw (offsetResponseLength + 3)).map fun byte => decide (byte > 0)
    else some false
  return { requestNumber := requestNumber
           timestamp := ⟨timestampCounter, timestampNodeId⟩
           errorCode := (flags >>> 1).toInt
           isSuccessful := flags &&& SUCCESSFUL_MASK == 1
           response := if hasBody then raw.drop offsetResponseBody else [0, 0, 0, 0] }

end ResponseDeserializer

/-- What the client is to find in the response of the server. -/
structure ReadsResponse (response : MemDb.Response) (decoded : Response) : Prop where
  requestNumber : decoded.requestNumber = response.requestNumber.toNat
  counter : decoded.timestamp.counter = response.timestamp.counter.toNat
  nodeId : decoded.timestamp.nodeId = response.timestamp.nodeId.toNat
  isSuccessful : decoded.isSuccessful = response.isSuccessful
  errorCode : decoded.errorCode = response.errorCode.toNat
  response : response.responseValue ≠ [] → decoded.response = response.responseValue

/-! ### The fields -/

section fields
variable (response : MemDb.Response)

/-- The byte with the flags: the sign bit of a byte is the seventh bit of the error code. -/
theorem flags_eq (errorCode : UInt8) (isSuccessful : Bool) (hcode : errorCode.toNat < 128) :
    (((ResponseSerializer.withSuccess errorCode isSuccessful).toInt8 >>> 1).toInt =
        errorCode.toNat ↔ errorCode.toNat < 64) ∧
      ((ResponseSerializer.withSuccess errorCode isSuccessful).toInt8 &&&
        ResponseDeserializer.SUCCESSFUL_MASK == 1) = isSuccessful := by
  have hall : ∀ code : Fin 128, ∀ isSuccessful : Bool,
      (((withSuccess (UInt8.ofNat code) isSuccessful).toInt8 >>> 1).toInt =
          (code : Nat) ↔ (code : Nat) < 64) ∧
        ((withSuccess (UInt8.ofNat code) isSuccessful).toInt8 &&&
          ResponseDeserializer.SUCCESSFUL_MASK == 1) = isSuccessful := by
    decide
  have h := hall ⟨errorCode.toNat, hcode⟩ isSuccessful
  rwa [UInt8.ofNat_toNat] at h

theorem toInt8_positive_iff (byte : UInt8) :
    byte.toInt8 > 0 ↔ 0 < byte.toNat ∧ byte.toNat < 128 := by
  have hsigned : byte.toInt8.toInt = (byte.toNat : Int).bmod 256 := by
    rw [Int8.toInt, UInt8.toBitVec_toInt8, BitVec.toInt_eq_toNat_bmod]
    rfl
  have hlt := byte.toNat_lt
  rw [gt_iff_lt, Int8.lt_iff_toInt_lt, hsigned, Int.bmod_def, Int8.toInt_zero]
  split <;> omega

theorem byteAt_at {raw rest : List UInt8} {byte : UInt8} {index : Nat}
    (h : At raw index (byte :: rest)) : byteAt raw index = some byte.toInt8 := by
  rw [byteAt, h.getElem, map_some]

/-- The value arrives where the client takes the length for positive, which it does not look at
    where there is no value. -/
def readValue (value : List UInt8) : List UInt8 :=
  if value ≠ [] ∧ 0 < value.length % 256 ∧ value.length % 256 < 128 then value else [0, 0, 0, 0]

/-- At offset 8 the client finds bytes 4 and 5 of the counter. -/
theorem getShort_serialize :
    ByteBuffer.getShort (ResponseSerializer.serialize response) 8 = some (decodeSigned
      (encode 2 (response.timestamp.counter.toNat / 256 ^ 2))) := by
  have hcounter : encode 8 response.timestamp.counter.toNat =
      encode 4 (response.timestamp.counter.toNat / 256 ^ 4) ++
        (encode 2 (response.timestamp.counter.toNat / 256 ^ 2) ++
          encode 2 response.timestamp.counter.toNat) := by
    rw [show 8 = 4 + 4 from rfl, encode_add, show 4 = 2 + 2 from rfl,
      encode_add 2 2 response.timestamp.counter.toNat]
  have hat := (serialize_at response).number
  rw [hcounter, List.append_assoc, List.append_assoc] at hat
  exact ByteBuffer.get_at hat.number

/-- Of the length of the value the client reads the last byte. -/
theorem byteAt_length : byteAt (ResponseSerializer.serialize response) (4 + 8 + 2 + 1 + 3) =
    some (UInt8.ofNat response.responseValue.length).toInt8 := by
  have hlength : encode 4 response.responseValue.length =
      encode 3 (response.responseValue.length / 256) ++
        [UInt8.ofNat response.responseValue.length] := by
    rw [show 4 = 3 + 1 from rfl, encode_add]
    simp [encode]
  have hat := (serialize_at response).number.number.number.next
  rw [hlength, List.append_assoc] at hat
  exact byteAt_at hat.number

/-- What the client makes of a response. The node id is that of bytes 4 and 5 of the counter. -/
theorem deserialize_serialize :
    ResponseDeserializer.deserialize (ResponseSerializer.serialize response) = some
      { requestNumber := decodeSigned (encode 4 response.requestNumber.toNat)
        timestamp :=
          ⟨decodeSigned (encode 8 response.timestamp.counter.toNat),
            decodeSigned
              (encode 2 (response.timestamp.counter.toNat / 256 ^ 2))⟩
        errorCode := ((ResponseSerializer.withSuccess response.errorCode
          response.isSuccessful).toInt8 >>> 1).toInt
        isSuccessful := (ResponseSerializer.withSuccess response.errorCode
          response.isSuccessful).toInt8 &&& ResponseDeserializer.SUCCESSFUL_MASK == 1
        response := readValue response.responseValue } := by
  have hat := serialize_at response
  have hgetInt : ByteBuffer.getInt (serialize response) 0 = _ := ByteBuffer.get_at hat
  have hgetLong : ByteBuffer.getLong (serialize response) 4 = _ := ByteBuffer.get_at hat.number
  have hgetShort := getShort_serialize response
  have hflags : byteAt (serialize response) (4 + 8 + 2) = _ := byteAt_at hat.number.number.number
  have hlast := byteAt_length response
  -- behind 19 bytes there is the value
  have hvalue : At (serialize response) (4 + 8 + 2 + 1 + 4) _ :=
    hat.number.number.number.next.number
  have hdrop := hvalue.drop
  have hsize := hvalue.length_eq
  generalize serialize response = raw at *
  unfold ResponseDeserializer.deserialize readValue
  simp only [hgetInt, hgetLong, hgetShort, hflags, hlast, hdrop, hsize, bind_eq_bind,
    bind_some, map_some, toInt8_positive_iff, UInt8.toNat_ofNat']
  cases response.responseValue with
  | nil => simp
  | cons byte value => simp

theorem readValue_eq_iff {value : List UInt8} (hvalue : value ≠ []) :
    readValue value = value ↔ 0 < value.length % 256 ∧ value.length % 256 < 128 := by
  unfold readValue
  split
  · next h => exact ⟨fun _ => h.2, fun _ => rfl⟩
  · next h =>
    -- the four zeros have a length that would have been taken for positive
    constructor
    · intro hzeros
      rw [← hzeros]
      decide
    · intro hpositive
      exact absurd ⟨hvalue, hpositive⟩ h

end fields

/-- The client reads what the server has written exactly when the request number has no sign bit,
    the error code is below 64, the node id happens to stand in bits 16 to 31 of the counter, and
    the last byte of the length of a value is between 1 and 127. -/
theorem readsResponse_iff (response : MemDb.Response) (hcode : response.errorCode.toNat < 128)
    (hcounter : response.timestamp.counter.toNat < 2 ^ 63)
    (hnodeId : response.timestamp.nodeId.toNat < 2 ^ 15) :
    (∃ decoded, ResponseDeserializer.deserialize (ResponseSerializer.serialize response) =
        some decoded ∧ ReadsResponse response decoded) ↔
      response.requestNumber.toNat < 2 ^ 31 ∧ response.errorCode.toNat < 64 ∧
      response.timestamp.counter.toNat / 2 ^ 16 % 2 ^ 16 = response.timestamp.nodeId.toNat ∧
      (response.responseValue ≠ [] → 0 < response.responseValue.length % 256 ∧
        response.responseValue.length % 256 < 128) := by
  obtain ⟨hflags, hsuccess⟩ := flags_eq response.errorCode response.isSuccessful hcode
  have hnumber := decodeSigned_encode_iff
    (show response.requestNumber.toNat < 256 ^ 4 from response.requestNumber.toNat_lt)
  have hclock := (decodeSigned_encode_iff
    (show response.timestamp.counter.toNat < 256 ^ 8 from response.timestamp.counter.toNat_lt)).mpr
      (by omega)
  have hnode := decodeSigned_encode_eq_iff (response.timestamp.counter.toNat / 256 ^ 2)
    (show 2 * response.timestamp.nodeId.toNat < 256 ^ 2 by omega)
  -- each field of the answer is read back under a condition of its own
  rw [deserialize_serialize]
  constructor
  · rintro ⟨decoded, hdecoded, hreads⟩
    cases hdecoded
    refine ⟨?_, hflags.mp hreads.errorCode, hnode.mp hreads.nodeId, ?_⟩
    · have := hnumber.mp hreads.requestNumber
      omega
    · intro hvalue
      exact (readValue_eq_iff hvalue).mp (hreads.response hvalue)
  · rintro ⟨hpositive, hsmall, hsame, hbody⟩
    refine ⟨_, rfl, ?_⟩
    constructor
    · exact hnumber.mpr (by omega)
    · exact hclock
    · exact hnode.mpr hsame
    · exact hsuccess
    · exact hflags.mpr hsmall
    · intro hvalue
      exact (readValue_eq_iff hvalue).mpr (hbody hvalue)

/-- A response with the given timestamp. -/
def okResponse (counter : UInt64) (nodeId : UInt16) : MemDb.Response :=
  ⟨true, 0, ⟨nodeId, counter⟩, 1, [79, 75]⟩

/-- Node 1 and a counter in which bits 16 to 31 are 1 as well. -/
theorem readsResponse_iff_same :
    ∃ decoded,
      ResponseDeserializer.deserialize (ResponseSerializer.serialize (okResponse 65541 1)) =
      some decoded ∧ ReadsResponse (okResponse 65541 1) decoded :=
  (readsResponse_iff (okResponse 65541 1) (by decide) (by decide) (by decide)).mpr
    ⟨by decide, by decide, by decide, fun _ => by decide⟩

/-- The response of node 1 with counter 5 comes from node 0 for the client. -/
theorem nodeId_read_in_counter :
    (ResponseDeserializer.deserialize (ResponseSerializer.serialize (okResponse 5 1))).map
        (·.timestamp) = some ⟨5, 0⟩ ∧
      (okResponse 5 1).timestamp = ⟨1, 5⟩ := by
  decide

end MemDb.Client
