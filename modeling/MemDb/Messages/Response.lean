import MemDb.Operators.Dispatcher

/-! # Responses and their bytes

    A `Response` as `ResponseSerializer` writes it: the request number, the timestamp, one byte with
    the error code and the success flag, and the value behind its length.
-/

namespace MemDb

open Lib BigEndian Utils

namespace ResponseSerializer

/-- The error code and the success flag in one byte. -/
def withSuccess (errorCode : UInt8) (isSuccessful : Bool) : UInt8 :=
  UInt8.ofNat (errorCode.toNat <<< 1 ||| isSuccessful.toNat)

def serialize (response : Response) : List UInt8 :=
  let serialized := appendToBuffer 4 response.requestNumber.toNat []
  let serialized := appendToBuffer 8 response.timestamp.counter.toNat serialized
  let serialized := appendToBuffer 2 response.timestamp.nodeId.toNat serialized
  let serialized := serialized ++ [withSuccess response.errorCode response.isSuccessful]
  let serialized := appendToBuffer 4 response.responseValue.length serialized
  serialized ++ response.responseValue

theorem serialize_at (response : Response) :
    At (serialize response) 0 (encode 4 response.requestNumber.toNat ++
      (encode 8 response.timestamp.counter.toNat ++ (encode 2 response.timestamp.nodeId.toNat ++
          (withSuccess response.errorCode response.isSuccessful ::
            (encode 4 response.responseValue.length ++ response.responseValue))))) := by
  refine ⟨[], ?_, rfl⟩
  simp [serialize, appendToBuffer_eq]

end ResponseSerializer

end MemDb
