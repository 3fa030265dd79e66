import MemDb.Messages.Request

/-! # The Java client writes a request

    `RequestSerializer` of the Java client against `RequestDeserializer` of the server. A Java
    string is a list of UTF-16 units: the length in front of an argument counts these, but the ASCII
    encoder writes one `?` for the two units of a surrogate pair. And the second flag of the
    authentication is taken from the operation. `readsRequest_iff` says which requests arrive whole.
-/

namespace MemDb.Client

open Lib List Option BigEndian

/-! ### Requests of the client -/

structure AuthenticationRequest where
  authApiKey : List UInt16
  flag1 : Bool
  flag2 : Bool
deriving DecidableEq, Repr

structure OperationRequest where
  operatorNumber : Nat
  flag1 : Bool
  flag2 : Bool
  timestamp : Int64
  args : List (List UInt16)
deriving DecidableEq, Repr

structure Request where
  requestNumber : Int32
  authentication : AuthenticationRequest
  operationRequest : OperationRequest
deriving DecidableEq, Repr

/-! ### Characters -/

def isHighSurrogate (c : UInt16) : Bool := 0xD800 ≤ c && c ≤ 0xDBFF

def isLowSurrogate (c : UInt16) : Bool := 0xDC00 ≤ c && c ≤ 0xDFFF

/-- The two units are one character. -/
def surrogatePair (c next : UInt16) : Bool := isHighSurrogate c && isLowSurrogate next

/-- A unit of ASCII is its own byte, and any other becomes `?`. -/
def asciiByte (c : UInt16) : UInt8 := if c < 0x80 then c.toUInt8 else 0x3F

namespace RequestSerializer

/-- `getBytes(US_ASCII)`: each character that ASCII does not have becomes one `?`. -/
def stringToBytes : List UInt16 → List UInt8
  | [] => []
  | [c] => [asciiByte c]
  | c :: next :: rest =>
    if surrogatePair c next then 0x3F :: stringToBytes rest
    else asciiByte c :: stringToBytes (next :: rest)

/-- Six bits and two flags in one byte. -/
def withFlags (value : Nat) (flag1 flag2 : Bool) : UInt8 :=
  UInt8.ofNat (value <<< 2) ||| UInt8.ofNat (flag1.toNat <<< 1) ||| UInt8.ofNat flag2.toNat

def getRequestNumber (request : Request) : List UInt8 :=
  encode 4 request.requestNumber.toUInt32.toNat

/-- The second flag is that of the operation. -/
def getAuth (request : Request) : List UInt8 :=
  withFlags request.authentication.authApiKey.length request.authentication.flag1
      request.operationRequest.flag2 ::
    stringToBytes request.authentication.authApiKey

def getOperatorDesc (operationRequest : OperationRequest) : UInt8 :=
  withFlags operationRequest.operatorNumber operationRequest.flag1 operationRequest.flag2

def getTimestamp (timestamp : Int64) : List UInt8 := encode 8 timestamp.toUInt64.toNat

/-- An argument behind the number of its units. -/
def argBytes (arg : List UInt16) : List UInt8 := encode 4 arg.length ++ stringToBytes arg

def getOperations (request : Request) : List UInt8 :=
  getOperatorDesc request.operationRequest ::
    (getTimestamp request.operationRequest.timestamp ++
      request.operationRequest.args.flatMap argBytes)

/-- The message behind its header; `none` where it does not fit into an array. -/
def serialize (request : Request) : Option (List UInt8) :=
  let requestNumber := getRequestNumber request
  let auth := getAuth request
  let operation := getOperations request
  let totalSize := requestNumber.length + auth.length + operation.length
  if 1 + 4 + totalSize < 2 ^ 31 then
    some (0x00 :: encode 4 totalSize ++ requestNumber ++ auth ++ operation)
  else none

end RequestSerializer

/-- What the server is to find in a request of the client. -/
structure ReadsRequest (request : Request) (decoded : MemDb.Request) : Prop where
  requestNumber : decoded.requestNumber = request.requestNumber.toUInt32
  authKey : decoded.authentication.authKey =
    RequestSerializer.stringToBytes request.authentication.authApiKey
  authFlag1 : decoded.authentication.flag1 = request.authentication.flag1
  authFlag2 : decoded.authentication.flag2 = request.authentication.flag2
  operatorNumber : decoded.operation.operatorNumber.toNat = request.operationRequest.operatorNumber
  flag1 : decoded.operation.flag1 = request.operationRequest.flag1
  flag2 : decoded.operation.flag2 = request.operationRequest.flag2
  args : decoded.operation.args =
    some (request.operationRequest.args.map RequestSerializer.stringToBytes)

/-- No two neighbours in the string are a surrogate pair. -/
def PairFree (string : List UInt16) : Prop :=
  string.IsChain fun c next => surrogatePair c next = false

/-! ### Bytes of a string -/

namespace RequestSerializer

/-- The encoder writes as many bytes as there are units exactly when there is no surrogate pair. -/
theorem length_stringToBytes (string : List UInt16) :
    (stringToBytes string).length ≤ string.length ∧
      string.length ≤ 2 * (stringToBytes string).length ∧
      ((stringToBytes string).length = string.length ↔ PairFree string) := by
  unfold PairFree
  fun_induction stringToBytes string with
  | case1 => simp
  | case2 c => simp
  | case3 c next rest hpair ih =>
    obtain ⟨hle, hge, -⟩ := ih
    refine ⟨?_, ?_, ?_⟩
    · simp only [length_cons]
      omega
    · simp only [length_cons]
      omega
    · simp only [length_cons, isChain_cons_cons, hpair, Bool.true_eq_false, false_and,
        iff_false]
      omega
  | case4 c next rest hpair ih =>
    obtain ⟨hle, hge, hiff⟩ := ih
    refine ⟨?_, ?_, ?_⟩
    · simpa using hle
    · simp only [length_cons] at hge ⊢
      omega
    · rw [Bool.not_eq_true] at hpair
      simp only [isChain_cons_cons, hpair, true_and]
      rw [← hiff, length_cons, length_cons]
      omega

theorem stringToBytes_ne_nil {string : List UInt16} (h : string ≠ []) :
    stringToBytes string ≠ [] := by
  obtain ⟨-, hge, -⟩ := length_stringToBytes string
  intro hnil
  rw [hnil, length_nil] at hge
  exact h (length_eq_zero_iff.mp (by omega))

/-- A string of ASCII characters has no surrogate pair. -/
theorem pairFree_of_ascii {string : List UInt16} (h : ∀ c ∈ string, c.toNat < 128) :
    PairFree string := by
  unfold PairFree
  induction string with
  | nil => exact .nil
  | cons c string ih =>
    have hrest := ih fun other hother => h other (mem_cons_of_mem _ hother)
    cases string with
    | nil => exact .singleton c
    | cons next string =>
      refine isChain_cons_cons.mpr ⟨?_, hrest⟩
      have hc := h c mem_cons_self
      have hhigh : isHighSurrogate c = false := by
        simp only [isHighSurrogate, Bool.and_eq_false_iff, decide_eq_false_iff_not,
          UInt16.le_iff_toNat_le]
        left
        have : (0xD800 : UInt16).toNat = 0xD800 := rfl
        omega
      rw [surrogatePair, hhigh, Bool.false_and]

theorem withFlags_eq {value : Nat} (hvalue : value < 64) (flag1 flag2 : Bool) :
    withFlags value flag1 flag2 = MemDb.RequestSerializer.withFlags value flag1 flag2 := by
  have hall : ∀ value, value < 64 → ∀ flag1 flag2, withFlags value flag1 flag2 =
      MemDb.RequestSerializer.withFlags value flag1 flag2 := by
    decide
  exact hall value hvalue flag1 flag2

end RequestSerializer

/-! ### Reading the arguments -/

section arguments

open MemDb.Client.RequestSerializer MemDb.RequestDeserializer

/-- The server finds the bytes of every argument only if each has as many bytes as units: the first
    one that does not is read together with bytes behind it. -/
theorem pairFree_of_deserializeArgs {buffer : List UInt8} {position : Nat}
    {args : List (List UInt16)}
    (hat : At buffer position (args.flatMap argBytes)) (hsize : buffer.length < 2 ^ 31)
    (hne : ∀ arg ∈ args, arg ≠ []) (arguments : List SimpleString)
    (h : deserializeArgs buffer position arguments = some (arguments ++ args.map stringToBytes)) :
    ∀ arg ∈ args, PairFree arg := by
  induction args generalizing position arguments with
  | nil => simp
  | cons arg args ih =>
    obtain ⟨hunits, hne⟩ := forall_mem_cons.mp hne
    obtain ⟨hle, hge, hiff⟩ := length_stringToBytes arg
    have hpos : 0 < arg.length := length_pos_iff.mpr hunits
    simp only [flatMap_cons, argBytes, append_assoc] at hat
    have hlength := hat.length_eq
    simp only [length_append, length_encode] at hlength
    rw [deserializeArgs, dif_pos (by omega),
      Utils.parseFromBuffer_encode hat (by decide) (by omega), bind_some, if_neg (by omega)] at h
    obtain ⟨argValue, hfill, hrest⟩ := bind_eq_some_iff.mp h
    -- what is read for this argument stays its value to the end
    have hvalue : argValue = stringToBytes arg := by
      obtain ⟨more, hmore⟩ := deserializeArgs_isPrefix hrest
      rw [append_assoc, append_cancel_left_eq, map_cons] at hmore
      exact (cons.inj hmore).1
    have hbytes := length_of_fill hfill
    rw [hvalue] at hbytes hrest
    refine forall_mem_cons.mpr ⟨hiff.mp hbytes,
      ih hat.number.behind hne (arguments ++ [stringToBytes arg]) ?_⟩
    rw [hbytes, append_assoc, singleton_append, ← map_cons]
    exact hrest

end arguments

/-! ### Reading the request -/

section request
variable {request : Request} {bytes : List UInt8}

open MemDb.Client.RequestSerializer MemDb.RequestDeserializer

/-- The bytes behind the header of the packet. -/
theorem drop_serialize (hbytes : serialize request = some bytes) :
    At (bytes.drop 5) 0 (getRequestNumber request ++ (getAuth request ++ getOperations request)) ∧
      (bytes.drop 5).length < 2 ^ 31 := by
  simp only [serialize, Option.ite_none_right_eq_some, Option.some.injEq] at hbytes
  obtain ⟨hsize, rfl⟩ := hbytes
  have hdrop : (0x00 :: encode 4 ((getRequestNumber request).length +
      (getAuth request).length + (getOperations request).length) ++ getRequestNumber request ++
        getAuth request ++ getOperations request).drop 5 =
      getRequestNumber request ++ (getAuth request ++ getOperations request) := by
    rw [append_assoc, append_assoc]
    exact drop_left' (by simp)
  refine ⟨⟨[], hdrop, rfl⟩, ?_⟩
  rw [hdrop]
  simp only [length_append]
  omega

/-- The request of the server that a request of the client stands for on the wire. -/
def Request.onWire (request : Request) : MemDb.Request where
  authentication := ⟨stringToBytes request.authentication.authApiKey, request.authentication.flag1,
    request.operationRequest.flag2⟩
  operation := ⟨some (request.operationRequest.args.map stringToBytes),
    request.operationRequest.timestamp.toUInt64, 1,
    UInt8.ofNat request.operationRequest.operatorNumber, request.operationRequest.flag1,
    request.operationRequest.flag2⟩
  requestNumber := request.requestNumber.toUInt32
  authenticationType := .USER

variable (hkey : request.authentication.authApiKey.length ≤ 63)
  (hascii : ∀ c ∈ request.authentication.authApiKey, c.toNat < 128)
  (hflag1 : request.authentication.flag1 = false)
  (hoperator : request.operationRequest.operatorNumber < 64)
  (hbytes : serialize request = some bytes)

include hascii in
theorem length_authKey : (stringToBytes request.authentication.authApiKey).length =
    request.authentication.authApiKey.length :=
  (length_stringToBytes _).2.2.mpr (pairFree_of_ascii hascii)

include hkey hascii

theorem getAuth_eq : getAuth request =
    MemDb.RequestSerializer.withFlags (stringToBytes request.authentication.authApiKey).length
      request.authentication.flag1 request.operationRequest.flag2 ::
        stringToBytes request.authentication.authApiKey := by
  rw [getAuth, length_authKey hascii, withFlags_eq (by omega)]

include hflag1 hbytes

include hoperator in
/-- Where each argument has as many bytes as units, the client writes what the server would. -/
theorem serialize_onWire (hfree : ∀ arg ∈ request.operationRequest.args, PairFree arg) :
    MemDb.RequestSerializer.serialize request.onWire = some (bytes.drop 5) := by
  have hargs : request.operationRequest.args.flatMap argBytes =
      (request.operationRequest.args.map stringToBytes).flatMap
        MemDb.RequestSerializer.argBytes := by
    rw [List.flatMap_def, List.flatMap_def, List.map_map]
    congr 1
    apply map_congr_left
    intro arg harg
    rw [argBytes, Function.comp_apply, MemDb.RequestSerializer.argBytes,
      (length_stringToBytes arg).2.2.mpr (hfree arg harg)]
  rw [MemDb.RequestSerializer.serialize_eq
    (show request.onWire.operation.args = some (request.operationRequest.args.map stringToBytes)
      from rfl), (drop_serialize hbytes).1.eq, getAuth_eq hkey hascii]
  simp [Request.onWire, getRequestNumber, getOperations, getOperatorDesc, getTimestamp,
    MemDb.RequestSerializer.operationBytes, withFlags_eq hoperator, hargs, hflag1,
    Nat.mod_eq_of_lt (show request.operationRequest.operatorNumber < 256 by omega)]

/-- What the server has read as the authentication and the arguments, once it has read a request. -/
theorem deserialize_parts {decoded : MemDb.Request}
    (hdecoded : deserialize (bytes.drop 5) = some decoded) :
    decoded.authentication.flag2 = request.operationRequest.flag2 ∧
      deserializeArguments (bytes.drop 5)
        (5 + request.authentication.authApiKey.length + 9) = some decoded.operation.args := by
  have hat := (drop_serialize hbytes).1
  rw [getAuth_eq hkey hascii, getRequestNumber, cons_append] at hat
  have hauth := @MemDb.Request.deserializeAuthenticacion_at _ _
    ⟨stringToBytes request.authentication.authApiKey, request.authentication.flag1,
      request.operationRequest.flag2⟩ hat.number (by rw [length_authKey hascii]; omega)
  unfold deserialize at hdecoded
  rw [hauth] at hdecoded
  simp only [bind_eq_bind, bind_some, bind_eq_some_iff] at hdecoded
  obtain ⟨requestNumber, -, operation, hoperation, hresult⟩ := hdecoded
  cases hresult
  refine ⟨rfl, ?_⟩
  simp only [deserializeOperation, hflag1, Bool.false_eq_true, if_false, bind_eq_bind,
    bind_eq_some_iff] at hoperation
  obtain ⟨_, -, _, -, _, -, _, -, _, -, args, hargs, hresult⟩ := hoperation
  cases hresult
  rw [AuthenticationBody.getTotalLength, length_authKey hascii] at hargs
  rw [show 5 + request.authentication.authApiKey.length + 9 =
    1 + request.authentication.authApiKey.length + 4 + 9 by omega]
  exact hargs

end request

section
variable {request : Request} {bytes : List UInt8}
  (hkey : request.authentication.authApiKey.length ≤ 63)
  (hascii : ∀ c ∈ request.authentication.authApiKey, c.toNat < 128)
  (hflag1 : request.authentication.flag1 = false)
include hkey hascii hflag1

/-- Where the server has read all of a request, its second flags agree and it has no surrogate
    pair. -/
theorem pairFree_of_readsRequest (hargs : ∀ arg ∈ request.operationRequest.args, arg ≠ [])
    (hbytes : RequestSerializer.serialize request = some bytes) {decoded : MemDb.Request}
    (hdecoded : RequestDeserializer.deserialize (bytes.drop 5) = some decoded)
    (hreads : ReadsRequest request decoded) :
    request.authentication.flag2 = request.operationRequest.flag2 ∧
      ∀ arg ∈ request.operationRequest.args, PairFree arg := by
  obtain ⟨hflag2, harguments⟩ := deserialize_parts hkey hascii hflag1 hbytes hdecoded
  refine ⟨hreads.authFlag2.symm.trans hflag2, ?_⟩
  obtain ⟨hraw, hsize⟩ := drop_serialize hbytes
  have hat : At (bytes.drop 5) (5 + request.authentication.authApiKey.length + 9)
      (request.operationRequest.args.flatMap RequestSerializer.argBytes) := by
    have hargs := hraw.behind.behind.next.number
    simp only [RequestSerializer.getRequestNumber, RequestSerializer.getAuth, length_cons,
      length_encode, length_authKey hascii] at hargs
    rw [show 5 + request.authentication.authApiKey.length + 9 =
      0 + 4 + (request.authentication.authApiKey.length + 1) + 1 + 8 by omega]
    exact hargs
  rw [hreads.args, RequestDeserializer.deserializeArguments] at harguments
  split at harguments
  · cases harguments
  · obtain ⟨args, hread, hsome⟩ := map_eq_some_iff.mp harguments
    cases hsome
    exact pairFree_of_deserializeArgs hat hsize hargs [] hread

/-- What the server reads where no argument has a surrogate pair. -/
theorem deserialize_of_pairFree (hoperator : request.operationRequest.operatorNumber < 64)
    (hbytes : RequestSerializer.serialize request = some bytes)
    (hfree : ∀ arg ∈ request.operationRequest.args, PairFree arg) :
    RequestDeserializer.deserialize (bytes.drop 5) = some (request.onWire.decoded
      (request.operationRequest.args.map RequestSerializer.stringToBytes)) := by
  have hwire := serialize_onWire hkey hascii hflag1 hoperator hbytes hfree
  have hdecode := MemDb.Request.deserialize_serialize_eq
    (show request.onWire.operation.args =
      some (request.operationRequest.args.map RequestSerializer.stringToBytes) from rfl)
    (show (RequestSerializer.stringToBytes request.authentication.authApiKey).length < 64 by
      rw [length_authKey hascii]; omega)
    (show (UInt8.ofNat request.operationRequest.operatorNumber).toNat < 64 by
      rw [UInt8.toNat_ofNat']; omega)
    (by
      intro bytes' hbytes'
      cases hwire.symm.trans hbytes'
      exact (drop_serialize hbytes).2)
  rwa [hwire, bind_some] at hdecode

end

/-- The server reads what the client has written exactly when the two objects of the request have
    the same second flag and no argument has a surrogate pair. -/
theorem readsRequest_iff (request : Request) (bytes : List UInt8)
    (hkey : request.authentication.authApiKey.length ≤ 63)
    (hascii : ∀ c ∈ request.authentication.authApiKey, c.toNat < 128)
    (hflag1 : request.authentication.flag1 = false)
    (hoperator : request.operationRequest.operatorNumber < 64)
    (hargs : ∀ arg ∈ request.operationRequest.args, arg ≠ [])
    (hbytes : RequestSerializer.serialize request = some bytes) :
    (∃ decoded, RequestDeserializer.deserialize (bytes.drop 5) = some decoded ∧
        ReadsRequest request decoded) ↔
      request.authentication.flag2 = request.operationRequest.flag2 ∧
      ∀ arg ∈ request.operationRequest.args, PairFree arg := by
  constructor
  · rintro ⟨decoded, hdecoded, hreads⟩
    exact pairFree_of_readsRequest hkey hascii hflag1 hargs hbytes hdecoded hreads
  · rintro ⟨hflag2, hfree⟩
    refine ⟨_, deserialize_of_pairFree hkey hascii hflag1 hoperator hbytes hfree, ?_⟩
    constructor
    · rfl
    · rfl
    · rfl
    · exact hflag2.symm
    · show (UInt8.ofNat request.operationRequest.operatorNumber).toNat = _
      rw [UInt8.toNat_ofNat', Nat.mod_eq_of_lt (by omega)]
    · rfl
    · rfl
    · have hne : ∀ arg ∈ request.operationRequest.args.map RequestSerializer.stringToBytes,
          arg ≠ [] := by
        intro arg harg
        obtain ⟨string, hstring, rfl⟩ := mem_map.mp harg
        exact RequestSerializer.stringToBytes_ne_nil (hargs string hstring)
      show some (takeWhile _ _) = _
      rw [MemDb.Request.takeWhile_ne_nil_eq.mpr hne]

/-- `SET k` with the given value and second flag of the operation. -/
def setOfJava (value : List UInt16) (flag2 : Bool) : Request where
  requestNumber := 1
  authentication := ⟨[0x75], false, false⟩
  operationRequest := ⟨1, false, flag2, 0, [[0x6B], value]⟩

/-- A value with a letter that ASCII does not have. -/
theorem readsRequest_iff_letter :
    ∃ bytes decoded, RequestSerializer.serialize (setOfJava [0xE9, 0x61] false) = some bytes ∧
      RequestDeserializer.deserialize (bytes.drop 5) = some decoded ∧
      ReadsRequest (setOfJava [0xE9, 0x61] false) decoded := by
  obtain ⟨bytes, hbytes⟩ : ∃ bytes, RequestSerializer.serialize (setOfJava [0xE9, 0x61] false) =
      some bytes := isSome_iff_exists.mp (by decide +kernel)
  obtain ⟨decoded, hdecoded, hreads⟩ := (readsRequest_iff (setOfJava [0xE9, 0x61] false) bytes
    (by decide) (by simp [setOfJava]) rfl (by decide) (by decide) hbytes).mpr
      ⟨rfl, by simp [setOfJava, PairFree, surrogatePair, isHighSurrogate]⟩
  exact ⟨bytes, decoded, hbytes, hdecoded, hreads⟩

/-- With the second flag of the operation set, the server finds that of the authentication set; and
    a value of one character that takes two units is not read. -/
theorem flag_and_surrogates_misread :
    (∃ bytes decoded, RequestSerializer.serialize (setOfJava [0x76] true) = some bytes ∧
      RequestDeserializer.deserialize (bytes.drop 5) = some decoded ∧
      (setOfJava [0x76] true).authentication.flag2 = false ∧
      decoded.authentication.flag2 = true) ∧
    (∃ bytes, RequestSerializer.serialize (setOfJava [0xD83D, 0xDE00] false) = some bytes ∧
      ¬ ∃ decoded, RequestDeserializer.deserialize (bytes.drop 5) = some decoded ∧
        ReadsRequest (setOfJava [0xD83D, 0xDE00] false) decoded) := by
  constructor
  · simp only [exists_and_left]
    decide +kernel
  · obtain ⟨bytes, hbytes⟩ : ∃ bytes, RequestSerializer.serialize
        (setOfJava [0xD83D, 0xDE00] false) = some bytes :=
      isSome_iff_exists.mp (by decide +kernel)
    refine ⟨bytes, hbytes, ?_⟩
    rintro ⟨decoded, hdecoded, hreads⟩
    obtain ⟨-, hfree⟩ := pairFree_of_readsRequest (by decide) (by simp [setOfJava]) rfl (by decide)
      hbytes hdecoded hreads
    have hpair := hfree [0xD83D, 0xDE00] (by decide)
    simp [PairFree, surrogatePair, isHighSurrogate, isLowSurrogate] at hpair

end MemDb.Client
