import Mathlib.Algebra.Order.BigOperators.Group.List
import Mathlib.Data.List.Forall2
import MemDb.Lib.Loop
import MemDb.Persistence.OperationLogSerializer

/-! # The loops of the log codec

    Two loops of the codec count in a byte. The one that copies an argument compares the byte with a
    32-bit size, and ends only for sizes that a byte can reach. The one that reads a log steps over
    each record by a byte, and falls behind at the first record that is longer.

    `serialize` says at once whether its loops end; here they are written out, and `serialize` is
    what they do.
-/

namespace MemDb

open Lib List Option BigEndian

/-! ### Copying an argument -/

namespace OperationLogSerializer

open RequestSerializer

/-- The variables of the loop over the bytes of an argument. -/
structure CopyState where
  j : UInt8
  serializedOut : List UInt8

/-- A pass of `for (uint8_t j = 0; j < arg->size; j++)`. -/
def copyStep (arg : SimpleString) (state : CopyState) : CopyState ⊕ List UInt8 :=
  if _hj : state.j.toNat < arg.length then
    .inl ⟨state.j + 1, state.serializedOut ++ [arg[state.j.toNat]]⟩
  else .inr state.serializedOut

/-- An argument behind its length; `none` while the loop still runs after `fuel` passes. -/
def copyArg (fuel : Nat) (serializedOut : List UInt8) (arg : SimpleString) : Option (List UInt8) :=
  Loop.run (copyStep arg) fuel ⟨0, Utils.appendToBuffer 4 arg.length serializedOut⟩

/-- `serialize` with its loops written out; `none` while one of them still runs after `fuel`
    passes. -/
def serializeWithin (fuel : Nat) (serializedOut : List UInt8) (toDeserialize : OperationBody) :
    Option (List UInt8) := do
  let serializedOut := serializedOut ++ [withFlags toDeserialize.operatorNumber.toNat
    toDeserialize.flag1 toDeserialize.flag2]
  let serializedOut := Utils.appendToBuffer 8 toDeserialize.timestamp.toNat serializedOut
  let serializedOut ← (toDeserialize.args.getD []).foldlM (copyArg fuel) serializedOut
  return writePadding serializedOut

variable {arg : SimpleString} {result serializedOut : List UInt8}

/-- An argument that the counter can reach the end of is copied. -/
theorem run_copyStep (hsize : arg.length < 256) (fuel : Nat) (state : CopyState)
    (hj : state.j.toNat ≤ arg.length) (hfuel : arg.length - state.j.toNat < fuel) :
    Loop.run (copyStep arg) fuel state =
      some (state.serializedOut ++ arg.drop state.j.toNat) := by
  -- one pass for each byte that is left, and one to leave
  induction fuel generalizing state with
  | zero => cases hfuel
  | succ fuel ih =>
    rw [Loop.run, copyStep]
    by_cases hlt : state.j.toNat < arg.length
    · have hnext : (state.j + 1).toNat = state.j.toNat + 1 := by
        rw [UInt8.toNat_add]
        exact Nat.mod_eq_of_lt (by simp only [UInt8.toNat_one]; omega)
      rw [dif_pos hlt, Sum.elim_inl, ih _ (by dsimp only; omega) (by dsimp only; omega)]
      dsimp only
      rw [hnext, append_assoc, singleton_append, ← drop_eq_getElem_cons hlt]
    · rw [dif_neg hlt, Sum.elim_inr, drop_eq_nil_of_le (Nat.le_of_not_lt hlt),
        append_nil]

/-- For a longer argument the counter wraps in front of the end. -/
theorem copyStep_not_returns (hsize : 256 ≤ arg.length) (state : CopyState) (result : List UInt8) :
    ¬ Loop.Returns (copyStep arg) state result := by
  apply Loop.not_returns (fun _ => True) _ trivial
  intro state _
  have hlt : state.j.toNat < arg.length := Nat.lt_of_lt_of_le state.j.toNat_lt hsize
  exact ⟨_, dif_pos hlt, trivial⟩

/-- With the passes for the longest argument that is copied the loop is `serializeArg`. -/
theorem copyArg_eq_serializeArg : copyArg 256 = serializeArg := by
  funext serializedOut arg
  unfold copyArg serializeArg
  by_cases hsize : arg.length < 256
  · rw [if_pos hsize, run_copyStep hsize 256 _ (Nat.zero_le _)
      (Nat.lt_of_le_of_lt (Nat.sub_le _ _) hsize)]
    rfl
  · rw [if_neg hsize, eq_none_iff_forall_ne_some]
    intro result hrun
    exact copyStep_not_returns (Nat.le_of_not_lt hsize) _ result
      (Loop.returns_iff_run.mpr ⟨256, hrun⟩)

/-- And with more or fewer passes it does nothing else. -/
theorem serializeArg_of_copyArg {fuel : Nat} (h : copyArg fuel serializedOut arg = some result) :
    serializeArg serializedOut arg = some result := by
  have hreturns := Loop.returns_iff_run.mpr ⟨fuel, h⟩
  by_cases hsize : arg.length < 256
  · have hall : copyArg 256 serializedOut arg =
        some (Utils.appendToBuffer 4 arg.length serializedOut ++ arg) := by
      rw [copyArg_eq_serializeArg, serializeArg, if_pos hsize]
    rw [(Loop.returns_iff_run.mpr ⟨256, hall⟩).unique hreturns] at hall
    rw [← copyArg_eq_serializeArg, hall]
  · exact absurd hreturns (copyStep_not_returns (Nat.le_of_not_lt hsize) _ result)

variable {args : List SimpleString} {operation : OperationBody}

theorem foldlM_of_copyArg {fuel : Nat}
    (h : args.foldlM (copyArg fuel) serializedOut = some result) :
    args.foldlM serializeArg serializedOut = some result := by
  induction args generalizing serializedOut with
  | nil => exact h
  | cons arg args ih =>
    rw [foldlM_cons, bind_eq_bind, bind_eq_some_iff] at h ⊢
    obtain ⟨next, hnext, hrest⟩ := h
    exact ⟨next, serializeArg_of_copyArg hnext, ih hrest⟩

/-- The loops of `serialize` end with a result exactly when `serialize` has it. -/
theorem exists_serializeWithin :
    (∃ fuel, serializeWithin fuel serializedOut operation = some result) ↔
      serialize serializedOut operation = some result := by
  constructor
  · intro ⟨fuel, h⟩
    obtain ⟨written, hwritten, hresult⟩ := bind_eq_some_iff.mp h
    exact bind_eq_some_iff.mpr ⟨written, foldlM_of_copyArg hwritten, hresult⟩
  · -- enough for every argument that is copied
    intro h
    refine ⟨256, ?_⟩
    rw [serializeWithin, copyArg_eq_serializeArg]
    exact h

/-! ### What `serialize` writes -/

theorem length_lt_of_foldlM (h : args.foldlM serializeArg serializedOut = some result) :
    ∀ arg ∈ args, arg.length < 256 := by
  induction args generalizing serializedOut with
  | nil => simp
  | cons arg args ih =>
    rw [foldlM_cons, bind_eq_bind, bind_eq_some_iff] at h
    obtain ⟨next, hnext, hrest⟩ := h
    refine forall_mem_cons.mpr ⟨?_, ih hrest⟩
    by_contra hsize
    rw [serializeArg, if_neg hsize] at hnext
    cases hnext

/-- An operation is written when its arguments are below 256 bytes, and then as its record. -/
theorem serialize_eq_some_iff :
    serialize serializedOut operation = some result ↔
      (∀ arg ∈ operation.args.getD [], arg.length < 256) ∧
        result = serializedOut ++ recordBytes operation := by
  constructor
  · intro h
    obtain ⟨written, hwritten, -⟩ := bind_eq_some_iff.mp h
    have hargs := length_lt_of_foldlM hwritten
    rw [serialize_of_lt hargs] at h
    exact ⟨hargs, (some.inj h).symm⟩
  · intro ⟨hargs, hresult⟩
    rw [serialize_of_lt hargs, hresult]

theorem serializeAll_eq_some_iff {operations : List OperationBody} {bytes : List UInt8} :
    serializeAll operations = some bytes ↔
      (∀ operation ∈ operations, ∀ arg ∈ operation.args.getD [], arg.length < 256) ∧
        bytes = operations.flatMap recordBytes := by
  constructor
  · intro h
    have hargs : ∀ serializedOut, operations.foldlM serialize serializedOut = some bytes →
        ∀ operation ∈ operations, ∀ arg ∈ operation.args.getD [], arg.length < 256 := by
      clear h
      induction operations with
      | nil => simp
      | cons operation operations ih =>
        intro serializedOut h
        rw [foldlM_cons, bind_eq_bind, bind_eq_some_iff] at h
        obtain ⟨next, hnext, hrest⟩ := h
        exact forall_mem_cons.mpr ⟨(serialize_eq_some_iff.mp hnext).1, ih next hrest⟩
    have hargs := hargs [] h
    rw [serializeAll_of_lt hargs] at h
    exact ⟨hargs, (some.inj h).symm⟩
  · intro ⟨hargs, hbytes⟩
    rw [serializeAll_of_lt hargs, hbytes]

theorem length_flatMap_argBytes (args : List SimpleString) :
    (args.flatMap argBytes).length = (args.map fun arg => 4 + arg.length).sum := by
  simp [length_flatMap, argBytes]

/-- The loops end, with the header, each argument behind its length and the padding, exactly when
    every argument is below 256 bytes. -/
theorem serializeWithin_iff (operation : OperationBody) (serializedOut : List UInt8) :
    (∃ fuel bytes, serializeWithin fuel serializedOut operation = some (serializedOut ++ bytes) ∧
      bytes = withFlags operation.operatorNumber.toNat operation.flag1 operation.flag2 ::
        (encode 8 operation.timestamp.toNat ++
          (operation.args.getD []).flatMap (fun arg => encode 4 arg.length ++ arg)) ++
        replicate 4 0 ∧
      bytes.length = 1 + 8 + ((operation.args.getD []).map fun arg => 4 + arg.length).sum + 4) ↔
    ∀ arg ∈ operation.args.getD [], arg.length < 256 := by
  constructor
  · intro ⟨fuel, bytes, hwritten, _⟩
    exact (serialize_eq_some_iff.mp (exists_serializeWithin.mp ⟨fuel, hwritten⟩)).1
  · intro hargs
    obtain ⟨fuel, hwritten⟩ := exists_serializeWithin.mpr (serialize_of_lt hargs serializedOut)
    refine ⟨fuel, recordBytes operation, hwritten, ?_, ?_⟩
    · have hpadding : replicate 4 (0x00 : UInt8) = encode 4 0 := by decide
      rw [hpadding]
      rfl
    · rw [length_recordBytes, length_flatMap_argBytes]
      omega

/-- An operation with one argument of 256 bytes: it is never written. -/
theorem serializeWithin_long_argument :
    ¬ ∃ fuel result, serializeWithin fuel [] ⟨some [replicate 256 0], 0, 0, 1, false, false⟩ =
      some result := by
  intro ⟨fuel, result, h⟩
  obtain ⟨hargs, -⟩ := serialize_eq_some_iff.mp (exists_serializeWithin.mp ⟨fuel, h⟩)
  have hlong := hargs (replicate 256 0) mem_cons_self
  rw [length_replicate] at hlong
  exact Nat.lt_irrefl _ hlong

end OperationLogSerializer

/-! ### Reading what was written -/

namespace OperationLogDeserializer

open RequestSerializer OperationLogSerializer

/-- What is expected of an operation that has been written and read. -/
structure SameOperation (written read : OperationBody) : Prop where
  operatorNumber : read.operatorNumber = written.operatorNumber
  flag1 : read.flag1 = written.flag1
  flag2 : read.flag2 = written.flag2
  args : read.args = written.args

/-- The bytes are read as operations that are one by one those that were written. -/
def RoundTrips (operations : List OperationBody) (bytes : List UInt8) : Prop :=
  ∃ decoded, deserializeAll bytes = some decoded ∧ Forall₂ SameOperation operations decoded

/-- The step of the loop over a log behind an operation. -/
def toIncrease (operation : OperationBody) : Nat :=
  ((operation.getTotalLength false).getD 0 + 4) % 256

variable {decoded operations : List OperationBody}

/-- The steps of a loop that ends reach the end. -/
theorem length_le_of_deserializeFrom {bytes : List UInt8} {position : Nat}
    (h : deserializeFrom bytes position = some decoded) :
    bytes.length ≤ position + (decoded.map toIncrease).sum := by
  -- the induction follows the loop: each pass adds its own step
  induction position using deserializeFrom.induct bytes generalizing decoded with
  | case1 position hposition ih =>
    rw [deserializeFrom, dif_pos hposition] at h
    obtain ⟨operation, -, h⟩ := bind_eq_some_iff.mp h
    obtain ⟨totalLength, htotal, h⟩ := bind_eq_some_iff.mp h
    dsimp only at h
    split at h
    · cases h
    · next hne =>
      obtain ⟨rest, hrest, rfl⟩ := map_eq_some_iff.mp h
      have hle := ih totalLength hne hrest
      rw [map_cons, sum_cons, toIncrease, htotal, getD_some]
      omega
  | case2 position hposition => omega

/-- A sum that the bytes of its parts reach has no part beyond a byte. -/
theorem lt_of_sum_le_sum_mod {lengths : List Nat}
    (h : lengths.sum ≤ (lengths.map (· % 256)).sum) : ∀ length ∈ lengths, length < 256 := by
  induction lengths with
  | nil => simp
  | cons length lengths ih =>
    -- the rest cannot gain what the first one loses
    have hle : (lengths.map (· % 256)).sum ≤ lengths.sum := by
      have hsum := sum_le_sum (fun length (_ : length ∈ lengths) => Nat.mod_le length 256)
      rwa [List.map_id'] at hsum
    rw [sum_cons, map_cons, sum_cons] at h
    have hmod := Nat.mod_le length 256
    exact forall_mem_cons.mpr ⟨by omega, ih (by omega)⟩

/-- Behind an operation that is read as it was written, the step is the length of its record in a
    byte. -/
theorem SameOperation.toIncrease_eq {written read : OperationBody} (h : SameOperation written read)
    (hargs : written.args.isSome) : toIncrease read = (recordBytes written).length % 256 := by
  obtain ⟨args, hargs⟩ := isSome_iff_exists.mp hargs
  rw [length_recordBytes, toIncrease, OperationBody.getTotalLength, h.args, hargs, map_some,
    getD_some, getD_some, foldl_getTotalLength]
  simp only [Bool.false_eq_true, if_false]
  omega

theorem map_toIncrease (h : Forall₂ SameOperation operations decoded)
    (hargs : ∀ operation ∈ operations, operation.args.isSome) :
    decoded.map toIncrease =
      (operations.map fun operation => (recordBytes operation).length).map (· % 256) := by
  induction h with
  | nil => rfl
  | cons hsame _ ih =>
    obtain ⟨hfirst, hrest⟩ := forall_mem_cons.mp hargs
    simp only [map_cons]
    rw [hsame.toIncrease_eq hfirst, ih hrest]

/-- An operation whose arguments are not empty is read as it was written. -/
theorem sameOperation_readBack {operation : OperationBody} {args : List SimpleString}
    (hargs : operation.args = some args) (hnonempty : ∀ arg ∈ args, arg ≠ []) :
    SameOperation operation (readBack operation) := by
  have hall : args.takeWhile (· ≠ []) = args :=
    takeWhile_eq_self_iff.mpr (fun arg harg => decide_eq_true (hnonempty arg harg))
  refine ⟨rfl, rfl, rfl, ?_⟩
  rw [readBack, RequestDeserializer.readOperation, hargs, getD_some, hall]

/-- A log that is read as it was written has no record beyond a byte: the steps are the lengths in a
    byte, and they reach the end. -/
theorem length_lt_of_roundTrips (hargs : ∀ operation ∈ operations, operation.args.isSome)
    (h : RoundTrips operations (operations.flatMap recordBytes)) :
    ∀ operation ∈ operations, (recordBytes operation).length < 256 := by
  obtain ⟨decoded, hdecode, hsame⟩ := h
  have hle := length_le_of_deserializeFrom hdecode
  rw [map_toIncrease hsame hargs, Nat.zero_add, length_flatMap] at hle
  exact forall_mem_map.mp (lt_of_sum_le_sum_mod hle)

/-- A log that has been written is read as it was only when every record is below 256 bytes, and it
    is when the log also is below 2 GiB. -/
theorem roundTrips_serializeAll (operations : List OperationBody) (bytes : List UInt8)
    (hoperator : ∀ operation ∈ operations, operation.operatorNumber.toNat < 64)
    (hargs : ∀ operation ∈ operations, ∃ args, operation.args = some args ∧ ∀ arg ∈ args, arg ≠ [])
    (hserialize : serializeAll operations = some bytes) :
    (RoundTrips operations bytes →
      ∀ operation ∈ operations, (recordBytes operation).length < 256) ∧
    ((∀ operation ∈ operations, (recordBytes operation).length < 256) → bytes.length < 2 ^ 31 →
      RoundTrips operations bytes) := by
  obtain ⟨-, rfl⟩ := serializeAll_eq_some_iff.mp hserialize
  constructor
  · apply length_lt_of_roundTrips
    intro operation hoperation
    obtain ⟨args, hsome, -⟩ := hargs operation hoperation
    rw [hsome, isSome_some]
  · intro hrecords hlength
    have hfits : ∀ operation ∈ operations, Fits operation := by
      intro operation hoperation
      obtain ⟨args, hsome, hnonempty⟩ := hargs operation hoperation
      refine ⟨hoperator operation hoperation, ?_, hrecords operation hoperation⟩
      rwa [hsome, getD_some]
    refine ⟨_, deserializeAll_flatMap hfits hlength, forall₂_map_right_iff.mpr ?_⟩
    refine forall₂_same.mpr ?_
    intro operation hoperation
    obtain ⟨args, hsome, hnonempty⟩ := hargs operation hoperation
    exact sameOperation_readBack hsome hnonempty

/-- A `SET` with two arguments of the given sizes. -/
def setOfSizes (keySize valueSize : Nat) : OperationBody :=
  ⟨some [replicate keySize 65, replicate valueSize 66], 5, 1, 1, false, false⟩

theorem serializeAll_setOfSizes {keySize valueSize : Nat} (hkey : keySize < 256)
    (hvalue : valueSize < 256) :
    serializeAll [setOfSizes keySize valueSize] =
      some ([setOfSizes keySize valueSize].flatMap recordBytes) := by
  apply serializeAll_of_lt
  simp [setOfSizes, hkey, hvalue]

theorem length_recordBytes_setOfSizes (keySize valueSize : Nat) :
    (recordBytes (setOfSizes keySize valueSize)).length = 21 + keySize + valueSize := by
  rw [length_recordBytes, length_flatMap_argBytes]
  simp only [setOfSizes, getD_some, map_cons, map_nil, sum_cons, sum_nil,
    length_replicate]
  omega

/-- Two records, of 23 and 26 bytes. -/
theorem roundTrips_short : RoundTrips [setOfSizes 1 1, setOfSizes 2 3]
    ([setOfSizes 1 1, setOfSizes 2 3].flatMap recordBytes) :=
  (roundTrips_serializeAll _ _ (by decide) (by simp [setOfSizes]) (by decide)).2 (by decide)
    (by decide)

/-- A key and a value of 150 bytes: the record has 321, and the log is not read as it was
    written. -/
theorem not_roundTrips_long :
    serializeAll [setOfSizes 150 150] = some ([setOfSizes 150 150].flatMap recordBytes) ∧
      ¬ RoundTrips [setOfSizes 150 150] ([setOfSizes 150 150].flatMap recordBytes) := by
  refine ⟨serializeAll_setOfSizes (by decide) (by decide), ?_⟩
  intro h
  have hlength := length_lt_of_roundTrips (by simp [setOfSizes]) h (setOfSizes 150 150)
    mem_cons_self
  rw [length_recordBytes_setOfSizes] at hlength
  omega

end OperationLogDeserializer

end MemDb
