import MemDb.Messages.Request

/-! # Operations in the operation log

    The format in which operations are written to disk and sent from node to node:
    `OperationLogSerializer` puts the operations one behind the other, each closed by a length of
    zero, and `OperationLogDeserializer` reads them with the deserializer of requests. The node id
    of an operation is not written.

    Two counters of the source are bytes. The one that copies an argument never reaches a size of
    256, and the one that steps from an operation to the next loses what exceeds a byte, so that the
    operations behind a record of 256 bytes or more are read from the wrong place.
-/

namespace MemDb

open List Option Utils

/-- `OperationBody::getTotalLength`; `none` where it follows a null pointer. -/
def OperationBody.getTotalLength (operation : OperationBody) (includesNodeId : Bool) : Option Nat :=
  operation.args.map fun args =>
    args.foldl (fun totalLength arg => totalLength + 4 + arg.length)
      (if includesNodeId then 1 + 8 + 2 else 1 + 8) % 2 ^ 32

/-! ### Serializing -/

namespace OperationLogSerializer

open RequestSerializer

/-- An argument behind its length. The index of the copying loop is a byte, and the loop does not
    end for an argument of 256 bytes or more. -/
def serializeArg (serializedOut : List UInt8) (arg : SimpleString) : Option (List UInt8) :=
  if arg.length < 256 then some (appendToBuffer 4 arg.length serializedOut ++ arg) else none

def writePadding (buffer : List UInt8) : List UInt8 := buffer ++ List.replicate 4 0x00

/-- `serialize`; an operation without an argument vector is written as one without arguments. -/
def serialize (serializedOut : List UInt8) (toDeserialize : OperationBody) :
    Option (List UInt8) := do
  let serializedOut := serializedOut ++ [withFlags toDeserialize.operatorNumber.toNat
    toDeserialize.flag1 toDeserialize.flag2]
  let serializedOut := appendToBuffer 8 toDeserialize.timestamp.toNat serializedOut
  let serializedOut ← (toDeserialize.args.getD []).foldlM serializeArg serializedOut
  return writePadding serializedOut

def serializeAll (toSerialize : List OperationBody) : Option (List UInt8) :=
  toSerialize.foldlM serialize []

end OperationLogSerializer

/-! ### Deserializing -/

namespace OperationLogDeserializer

open RequestDeserializer

/-- The loop of `deserializeAll`. The step is kept in a byte; with a step of zero the loop does not
    end. -/
def deserializeFrom (bytes : List UInt8) (position : Nat) : Option (List OperationBody) :=
  if _hposition : position < bytes.length then
    (deserializeOperation bytes position false).bind fun operationDeserialized =>
      (operationDeserialized.getTotalLength false).bind fun totalLength =>
        let toIncrease := (totalLength + 4) % 256
        if _hincrease : toIncrease = 0 then none
        else (deserializeFrom bytes (position + toIncrease)).map (operationDeserialized :: ·)
  else some []
termination_by bytes.length - position

def deserializeAll (bytes : List UInt8) : Option (List OperationBody) := deserializeFrom bytes 0

end OperationLogDeserializer

/-! ### The bytes of the log -/

namespace OperationLogSerializer

open Lib RequestSerializer

/-- The bytes of one operation in the log. -/
def recordBytes (operation : OperationBody) : List UInt8 :=
  operationBytes operation false (operation.args.getD []) ++ BigEndian.encode 4 0

theorem length_recordBytes (operation : OperationBody) :
    (recordBytes operation).length = 13 + ((operation.args.getD []).flatMap argBytes).length := by
  simp only [recordBytes, operationBytes, Bool.false_eq_true, if_false, nil_append,
    length_append, length_cons, BigEndian.length_encode]
  omega

theorem foldlM_serializeArg {args : List SimpleString} (hargs : ∀ arg ∈ args, arg.length < 256)
    (serializedOut : List UInt8) :
    args.foldlM serializeArg serializedOut = some (serializedOut ++ args.flatMap argBytes) := by
  induction args generalizing serializedOut with
  | nil => simp
  | cons arg args ih =>
    have hrest := ih (fun a ha => hargs a (mem_cons_of_mem _ ha))
      (appendToBuffer 4 arg.length serializedOut ++ arg)
    rw [foldlM_cons, serializeArg, if_pos (hargs arg mem_cons_self), bind_eq_bind,
      bind_some, hrest]
    simp [argBytes, appendToBuffer_eq]

theorem serialize_of_lt {operation : OperationBody}
    (hargs : ∀ arg ∈ operation.args.getD [], arg.length < 256) (serializedOut : List UInt8) :
    serialize serializedOut operation = some (serializedOut ++ recordBytes operation) := by
  unfold serialize
  dsimp only
  rw [foldlM_serializeArg hargs]
  have hpadding : List.replicate 4 (0x00 : UInt8) = BigEndian.encode 4 0 := by decide
  simp [writePadding, hpadding, recordBytes, operationBytes, appendToBuffer_eq]

theorem serializeAll_of_lt {operations : List OperationBody}
    (hargs : ∀ operation ∈ operations, ∀ arg ∈ operation.args.getD [], arg.length < 256) :
    serializeAll operations = some (operations.flatMap recordBytes) := by
  -- the loop with what it has written so far
  have hloop : ∀ serializedOut, operations.foldlM serialize serializedOut =
      some (serializedOut ++ operations.flatMap recordBytes) := by
    induction operations with
    | nil => simp
    | cons operation operations ih =>
      intro serializedOut
      rw [foldlM_cons, serialize_of_lt (hargs operation mem_cons_self),
        bind_eq_bind, bind_some,
        ih (fun o ho => hargs o (mem_cons_of_mem _ ho))]
      simp
  exact hloop []

end OperationLogSerializer

/-! ### Reading the log back -/

namespace OperationLogDeserializer

open Lib RequestSerializer RequestDeserializer OperationLogSerializer

/-- What is read where `operation` has been written. -/
def readBack (operation : OperationBody) : OperationBody :=
  readOperation operation false (operation.args.getD [])

/-- The operations that the log can hold: the number fits beside the flags, no argument is empty,
    and the record fits into the step. -/
structure Fits (operation : OperationBody) : Prop where
  operatorNumber : operation.operatorNumber.toNat < 64
  args : ∀ arg ∈ operation.args.getD [], arg ≠ []
  size : (recordBytes operation).length < 256

variable {operation : OperationBody} {operations : List OperationBody}

theorem length_lt_of_recordBytes (hsize : (recordBytes operation).length < 256) :
    ∀ arg ∈ operation.args.getD [], arg.length < 256 := by
  intro arg harg
  rw [length_recordBytes] at hsize
  obtain ⟨before, after, hsplit⟩ := append_of_mem harg
  simp only [hsplit, flatMap_append, flatMap_cons, argBytes, length_append,
    BigEndian.length_encode] at hsize
  omega

theorem foldl_getTotalLength (args : List SimpleString) (totalLength : Nat) :
    args.foldl (fun totalLength arg => totalLength + 4 + arg.length) totalLength =
      totalLength + (args.flatMap argBytes).length := by
  induction args generalizing totalLength with
  | nil => simp
  | cons arg args ih =>
    rw [foldl_cons, ih, flatMap_cons, length_append, argBytes, length_append,
      BigEndian.length_encode]
    omega

/-- The length that is computed for a record without empty arguments. -/
theorem getTotalLength_readBack (hargs : ∀ arg ∈ operation.args.getD [], arg ≠ [])
    (hlength : (recordBytes operation).length < 2 ^ 31) :
    (readBack operation).getTotalLength false = some ((recordBytes operation).length - 4) := by
  have hall : (operation.args.getD []).takeWhile (· ≠ []) = operation.args.getD [] :=
    takeWhile_eq_self_iff.mpr (fun arg harg => decide_eq_true (hargs arg harg))
  rw [length_recordBytes] at hlength ⊢
  simp only [OperationBody.getTotalLength, readBack, readOperation, map_some,
    foldl_getTotalLength, hall, Bool.false_eq_true, if_false, some.injEq]
  rw [Nat.mod_eq_of_lt (by omega)]
  omega

section
variable {bytes rest : List UInt8} {position : Nat} {operation : OperationBody}
  (h : At bytes position (recordBytes operation ++ rest))
  (hoperator : operation.operatorNumber.toNat < 64)
  (hlen : position + (recordBytes operation).length < 2 ^ 31)
include h hoperator hlen

/-- Where a record stands its operation is read back, and the loop goes on where the byte leads
    it. -/
theorem deserializeFrom_at : deserializeFrom bytes position =
    ((readBack operation).getTotalLength false).bind fun totalLength =>
      if (totalLength + 4) % 256 = 0 then none
      else (deserializeFrom bytes (position + (totalLength + 4) % 256)).map
        (readBack operation :: ·) := by
  have hlength := h.length_eq
  rw [length_append, length_recordBytes] at hlength
  rw [recordBytes, append_assoc] at h
  rw [recordBytes, length_append] at hlen
  rw [deserializeFrom, dif_pos (by omega),
    deserializeOperation_at h hoperator (.inr ⟨rest, rfl⟩) (by omega), bind_some]
  rfl

/-- The first operation is read back whatever its size is. -/
theorem deserializeFrom_head {operations : List OperationBody}
    (hread : deserializeFrom bytes position = some operations) :
    ∃ others, operations = readBack operation :: others := by
  rw [deserializeFrom_at h hoperator hlen] at hread
  obtain ⟨totalLength, -, hread⟩ := bind_eq_some_iff.mp hread
  split at hread
  · cases hread
  · obtain ⟨others, -, rfl⟩ := map_eq_some_iff.mp hread
    exact ⟨others, rfl⟩

end

section
variable {bytes rest : List UInt8} {position : Nat}

/-- Behind a record that fits the loop goes on with what follows it. -/
theorem deserializeFrom_cons (hfits : Fits operation)
    (h : At bytes position (recordBytes operation ++ rest))
    (hlen : position + (recordBytes operation).length < 2 ^ 31) :
    deserializeFrom bytes position =
      (deserializeFrom bytes (position + (recordBytes operation).length)).map
        (readBack operation :: ·) := by
  have hpos := length_recordBytes operation
  rw [deserializeFrom_at h hfits.operatorNumber hlen, getTotalLength_readBack hfits.args (by omega),
    bind_some, Nat.sub_add_cancel (by omega), Nat.mod_eq_of_lt hfits.size, if_neg (by omega)]

variable (hfits : ∀ operation ∈ operations, Fits operation)
include hfits

/-- The operations in front of any position are read back when they fit. -/
theorem deserializeFrom_records (h : At bytes position (operations.flatMap recordBytes ++ rest))
    (hlen : position + (operations.flatMap recordBytes).length < 2 ^ 31) :
    deserializeFrom bytes position =
      (deserializeFrom bytes (position + (operations.flatMap recordBytes).length)).map
        (operations.map readBack ++ ·) := by
  induction operations generalizing position with
  | nil => simp
  | cons operation operations ih =>
    obtain ⟨hfirst, hrest⟩ := forall_mem_cons.mp hfits
    rw [flatMap_cons, append_assoc] at h
    rw [flatMap_cons, length_append] at hlen ⊢
    rw [deserializeFrom_cons hfirst h (by omega), ih hrest h.behind (by omega), Option.map_map,
      Nat.add_assoc]
    rfl

/-- A log of operations that fit is read back whole. -/
theorem deserializeAll_flatMap (hlen : (operations.flatMap recordBytes).length < 2 ^ 31) :
    deserializeAll (operations.flatMap recordBytes) = some (operations.map readBack) := by
  have hend : deserializeFrom (operations.flatMap recordBytes)
      (operations.flatMap recordBytes).length = some [] := by
    rw [deserializeFrom, dif_neg (Nat.lt_irrefl _)]
  rw [deserializeAll, deserializeFrom_records hfits (at_whole _) (by omega), Nat.zero_add, hend,
    map_some, append_nil]

/-- Behind operations that fit, one more is read back whatever its size is. -/
theorem deserializeAll_split (hoperator : operation.operatorNumber.toNat < 64) (rest : List UInt8)
    (hlen : (operations.flatMap recordBytes).length + (recordBytes operation).length < 2 ^ 31)
    {decoded : List OperationBody}
    (h : deserializeAll (operations.flatMap recordBytes ++ (recordBytes operation ++ rest)) =
      some decoded) :
    ∃ others, decoded = operations.map readBack ++ readBack operation :: others := by
  have hat := at_start (operations.flatMap recordBytes ++ (recordBytes operation ++ rest))
  rw [deserializeAll, deserializeFrom_records hfits hat (by omega)] at h
  obtain ⟨tail, htail, rfl⟩ := map_eq_some_iff.mp h
  obtain ⟨others, rfl⟩ := deserializeFrom_head hat.behind hoperator (by omega) htail
  exact ⟨others, rfl⟩

end

end OperationLogDeserializer

end MemDb
