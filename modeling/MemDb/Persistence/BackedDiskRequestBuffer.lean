import MemDb.Messages.Request

/-! # The request buffer on disk

    `BackedDiskRequestBuffer` appends requests to a file and its iterator takes them off the end of
    the file. An operation is `none` when the source throws or reads outside a buffer.

    The writer puts the length in front of a request, and the iterator looks for it in the last four
    bytes of the file, which belong to the request itself; it then reads the request from
    `filePath`, the directory, and not from the file. So an iterator never returns a request that
    was added: what it returns is read from a buffer of zeros.
-/

namespace MemDb.BackedDiskRequestBuffer

open Lib RequestSerializer RequestDeserializer List Option Utils

/-! ### Files -/

/-- `seekBytes`: a buffer of `total` bytes that starts as zeros and takes what can be read. -/
def seekBytes (contents : List UInt8) (ptr : Int) (total : Nat) : List UInt8 :=
  let read := if ptr < 0 then [] else (contents.drop ptr.toNat).take total
  read ++ replicate (total - read.length) 0

/-- What `std::ifstream` reads from the path of a directory. -/
def directoryContents : List UInt8 := []

/-- `deleteTopBytes`: the file loses its last bytes; seeking before its start throws. -/
def deleteTopBytes (contents : List UInt8) (nBytesToDelete : Nat) : Option (List UInt8) :=
  if nBytesToDelete ≤ contents.length then some (contents.take (contents.length - nBytesToDelete))
  else none

/-! ### The buffer and its iterator -/

/-- `add`, with the contents of the file before and after. -/
def add (file : List UInt8) (request : Request) : Option (List UInt8) := do
  let serialized ← serialize request
  return file ++ appendBeginningToBuffer 4 serialized.length serialized

def hasNext (file : List UInt8) : Bool := file.length > 4

def next (file : List UInt8) : Option (Request × List UInt8) := do
  let filePtr : Int := file.length - 4
  let requestLengthBuffer := seekBytes file filePtr 4
  let requestLength ← parseFromBuffer 4 requestLengthBuffer 0
  let requestBuffer := seekBytes directoryContents filePtr requestLength
  let request ← deserialize requestBuffer
  let file ← deleteTopBytes file (requestBuffer.length + 4)
  return (request, file)

variable {file bytes : List UInt8} {request : Request} {position size : Nat}

theorem next_length {file' : List UInt8} (h : next file = some (request, file')) :
    file'.length < file.length := by
  unfold next deleteTopBytes at h
  simp only [bind_eq_bind, bind_eq_some_iff] at h
  obtain ⟨_, _, _, _, contents, hdelete, hresult⟩ := h
  split at hdelete
  · cases hresult
    cases hdelete
    rw [length_take]
    omega
  · simp at hdelete

/-- A full drain: `next` as long as `hasNext`. -/
def drain (file : List UInt8) : Option (List Request × List UInt8) :=
  if hasNext file then
    match _h : next file with
    | none => none
    | some (request, file') => (drain file').map fun (requests, file) => (request :: requests, file)
  else some ([], file)
termination_by file.length
decreasing_by exact next_length _h

/-! ### What the iterator returns -/

/-- The part of a request that its bytes carry. -/
def content (request : Request) : Request := { request with authenticationType := .USER }

/-- The request read from a buffer of zeros, which may come without an argument vector. -/
def zeroRequest (args : Option (List SimpleString)) : Request where
  authentication := ⟨[], false, false⟩
  operation := ⟨args, 0, 1, 0, false, false⟩
  requestNumber := 0
  authenticationType := .USER

theorem parseFromBuffer_zeros {sizeof value : Nat}
    (h : parseFromBuffer sizeof (replicate size 0) position = some value) :
    value = 0 := by
  have hloop : ∀ n, parseFromBufferLoop (replicate n 0) = 0 := by
    intro n
    induction n with
    | zero => rfl
    | succ n ih => simp [replicate_succ, parseFromBufferLoop, shiftedInt, ih]
  unfold parseFromBuffer at h
  split at h
  · rw [drop_replicate, take_replicate, hloop, Nat.zero_mod] at h
    exact (some.inj h).symm
  · simp at h

theorem getValueWithoutFlags_zeros {value : Nat}
    (h : getValueWithoutFlags (replicate size 0) position = some value) : value = 0 := by
  unfold getValueWithoutFlags at h
  obtain ⟨byte, hbyte, rfl⟩ := map_eq_some_iff.mp h
  obtain ⟨-, rfl⟩ := by simpa [getElem?_replicate] using hbyte
  rfl

theorem getFlag_zeros {flagMask : Nat} {flag : Bool}
    (h : getFlag (replicate size 0) position flagMask = some flag) : flag = false := by
  unfold getFlag at h
  obtain ⟨byte, hbyte, rfl⟩ := map_eq_some_iff.mp h
  obtain ⟨-, rfl⟩ := by simpa [getElem?_replicate] using hbyte
  simp

theorem deserializeArgs_zeros {arguments args : List SimpleString}
    (h : deserializeArgs (replicate size 0) position arguments = some args) :
    args = arguments := by
  rw [deserializeArgs] at h
  split at h
  · obtain ⟨argLength, hlength, hrest⟩ := bind_eq_some_iff.mp h
    rw [if_pos (parseFromBuffer_zeros hlength)] at hrest
    exact (some.inj hrest).symm
  · exact (some.inj h).symm

theorem deserializeArguments_zeros {args : Option (List SimpleString)}
    (h : deserializeArguments (replicate size 0) position = some args) :
    args = none ∨ args = some [] := by
  unfold deserializeArguments at h
  split at h
  · left
    exact (some.inj h).symm
  · right
    obtain ⟨arguments, harguments, rfl⟩ := map_eq_some_iff.mp h
    rw [deserializeArgs_zeros harguments]

theorem deserializeOperation_zeros {operation : OperationBody}
    (h : deserializeOperation (replicate size 0) position false = some operation) :
    ∃ args, operation = ⟨args, 0, 1, 0, false, false⟩ ∧ (args = none ∨ args = some []) := by
  unfold deserializeOperation at h
  simp only [bind_eq_bind, bind_eq_some_iff] at h
  obtain ⟨operatorNumber, hop, flag1, hflag1, flag2, hflag2, timestamp, htime, nodeId, hnode,
    args, hargs, hresult⟩ := h
  rw [getValueWithoutFlags_zeros hop, getFlag_zeros hflag1, getFlag_zeros hflag2,
    parseFromBuffer_zeros htime] at hresult
  obtain rfl : nodeId = 1 := by simpa [deserializeNodeId] using hnode.symm
  exact ⟨args, (some.inj hresult).symm, deserializeArguments_zeros hargs⟩

theorem fill_self (buffer : List UInt8) : fill buffer 5 5 = some [] := by
  have hcopy := @copyFrom_of_lt buffer 5 0 (by decide)
  rw [if_pos (.inl rfl)] at hcopy
  unfold fill
  rw [hcopy]
  rfl

theorem deserialize_zeros (h : deserialize (replicate size 0) = some request) :
    ∃ args, request = zeroRequest args ∧ (args = none ∨ args = some []) := by
  unfold deserialize deserializeAuthenticacion at h
  simp only [bind_eq_bind, bind_eq_some_iff] at h
  obtain ⟨requestNumber, hnumber, authentication,
    ⟨authLength, hlength, authKey, hkey, flag1, hflag1, flag2, hflag2, hauth⟩,
    operation, hoperation, hresult⟩ := h
  obtain rfl := getValueWithoutFlags_zeros hlength
  obtain rfl := getFlag_zeros hflag1
  obtain rfl := getFlag_zeros hflag2
  obtain rfl : authKey = [] := by
    rw [Nat.add_zero, fill_self] at hkey
    exact (some.inj hkey).symm
  cases hauth
  obtain ⟨args, rfl, hargs⟩ := deserializeOperation_zeros hoperation
  rw [parseFromBuffer_zeros hnumber] at hresult
  exact ⟨args, (some.inj hresult).symm, hargs⟩

theorem seekBytes_directory (ptr : Int) (total : Nat) :
    seekBytes directoryContents ptr total = replicate total 0 := by
  simp [seekBytes, directoryContents]

theorem next_zeroRequest {file' : List UInt8} (h : next file = some (request, file')) :
    ∃ args, request = zeroRequest args ∧ (args = none ∨ args = some []) := by
  unfold next at h
  simp only [bind_eq_bind, bind_eq_some_iff, seekBytes_directory] at h
  obtain ⟨requestLength, _, request', hrequest, _, _, hresult⟩ := h
  cases hresult
  exact deserialize_zeros hrequest

/-- Every request of a drain was read from a buffer of zeros. -/
theorem drain_zeroRequest {file file' : List UInt8} {requests : List Request}
    (h : drain file = some (requests, file')) :
    ∀ request ∈ requests,
      ∃ args, request = zeroRequest args ∧ (args = none ∨ args = some []) := by
  rw [drain] at h
  split at h
  · split at h
    · simp at h
    · next request rest hnext =>
      obtain ⟨⟨tail, file''⟩, hdrain, hresult⟩ := map_eq_some_iff.mp h
      cases hresult
      have hlen := next_length hnext
      intro r hr
      rcases mem_cons.mp hr with rfl | hr
      · exact next_zeroRequest hnext
      · exact drain_zeroRequest hdrain r hr
  · cases h
    simp
termination_by file.length

/-! ### Adds and drains -/

inductive Action where
  | add (request : Request)
  | drain
deriving DecidableEq, Repr

/-- The codec gives back what a request's bytes carry. -/
def RoundTrips (request : Request) : Prop :=
  (serialize request).bind deserialize = some (content request)

/-- From a file and the requests added since the last drain: every `add` returns, and every drain
    returns the added requests, each once and in any order, and empties the file. -/
def Faithful (file : List UInt8) (pending : List Request) : List Action → Prop
  | [] => True
  | .add request :: actions =>
    ∃ file', add file request = some file' ∧ Faithful file' (pending ++ [request]) actions
  | .drain :: actions =>
    ∃ requests, drain file = some (requests, []) ∧
      (requests.map content).Perm (pending.map content) ∧ Faithful [] [] actions

theorem add_eq (h : serialize request = some bytes) (file : List UInt8) :
    add file request = some (file ++ (BigEndian.encode 4 bytes.length ++ bytes)) := by
  unfold add
  rw [h, bind_eq_bind, bind_some, appendBeginningToBuffer_eq]
  rfl

theorem RoundTrips.serialize_isSome (h : RoundTrips request) :
    ∃ bytes, serialize request = some bytes := by
  obtain ⟨bytes, hbytes, -⟩ := bind_eq_some_iff.mp h
  exact ⟨bytes, hbytes⟩

/-- The bytes of the only request that a drain could give back are zeros. -/
theorem serialize_of_content_zeroRequest {args : Option (List SimpleString)}
    (hbytes : serialize request = some bytes) (hcontent : content request = zeroRequest args)
    (hargs : args = none ∨ args = some []) :
    bytes = replicate 14 0 := by
  have hsame : serialize request = serialize (zeroRequest args) := by
    rw [← hcontent]
    rfl
  rw [hsame] at hbytes
  rcases hargs with rfl | rfl
  · simp [serialize, zeroRequest] at hbytes
  · have hzeros : serialize (zeroRequest (some [])) = some (replicate 14 0) := by decide
    exact some.inj (hbytes.symm.trans hzeros)

/-- The last four bytes of the file are taken for the length of a request. -/
theorem next_append (front last : List UInt8) (hlast : last.length = 4) :
    next (front ++ last) = (parseFromBuffer 4 last 0).bind fun requestLength =>
      (deserialize (replicate requestLength 0)).bind fun request =>
        (deleteTopBytes (front ++ last) (requestLength + 4)).map fun file => (request, file) := by
  have hptr : ((front ++ last).length - 4 : Int) = front.length := by
    rw [length_append, hlast]
    omega
  have hseek : seekBytes (front ++ last) front.length 4 = last := by
    unfold seekBytes
    simp only [if_neg (by omega : ¬ (front.length : Int) < 0), Int.toNat_natCast, drop_left]
    rw [take_of_length_le (by omega), hlast]
    simp
  unfold next
  simp only [hptr, hseek, seekBytes_directory, length_replicate, bind_eq_bind]
  congr 1
  funext requestLength
  congr 1
  funext request
  cases deleteTopBytes (front ++ last) (requestLength + 4) <;> rfl

theorem next_eq_none_of_deleteTopBytes {front last : List UInt8} (hlast : last.length = 4)
    {requestLength : Nat} (hparse : parseFromBuffer 4 last 0 = some requestLength)
    (hdelete : deleteTopBytes (front ++ last) (requestLength + 4) = none) :
    next (front ++ last) = none := by
  rw [next_append front last hlast, hparse]
  simp [hdelete]

theorem drain_eq_none (hhas : hasNext file = true) (hnext : next file = none) :
    drain file = none := by
  rw [drain, if_pos hhas]
  split
  · rfl
  · next h => exact absurd (hnext.symm.trans h) (by simp)

/-- A file that ends in four zeros makes `next` read outside an empty buffer. -/
theorem drain_eq_none_of_zeros (front : List UInt8) :
    drain (front ++ replicate 14 0) = none := by
  have hsplit : front ++ replicate 14 (0 : UInt8) =
      (front ++ replicate 10 0) ++ [0, 0, 0, 0] := by
    rw [append_assoc]
    rfl
  rw [hsplit]
  apply drain_eq_none
  · unfold hasNext
    simp only [length_append, length_replicate, length_cons, decide_eq_true_eq]
    omega
  · rw [next_append _ _ rfl]
    rfl

/-- Once the file ends in a request that was added, no drain is faithful any more. -/
theorem Faithful.no_drain {actions : List Action} {front : List UInt8} {pending : List Request}
    (hbytes : serialize request = some bytes)
    (h : Faithful (front ++ bytes) (pending ++ [request]) actions) :
    .drain ∉ actions := by
  induction actions generalizing front bytes request pending with
  | nil => simp
  | cons action actions ih =>
    match action with
    | .add request' =>
      obtain ⟨file', hadd, hrest⟩ := h
      obtain ⟨bytes', hbytes', hfile⟩ := bind_eq_some_iff.mp hadd
      rw [add_eq hbytes', some_inj] at hadd
      rw [← hadd, ← append_assoc] at hrest
      simpa using ih hbytes' hrest
    | .drain =>
      obtain ⟨requests, hdrain, hperm, -⟩ := h
      -- the last request added is one of those returned, so it is the zero request
      have hmem : content request ∈ requests.map content := by
        rw [hperm.mem_iff]
        simp
      obtain ⟨returned, hreturned, hcontent⟩ := mem_map.mp hmem
      obtain ⟨args, rfl, hargs⟩ := drain_zeroRequest hdrain returned hreturned
      have hzeros := serialize_of_content_zeroRequest hbytes hcontent.symm hargs
      rw [hzeros, drain_eq_none_of_zeros] at hdrain
      simp at hdrain

theorem faithful_of_no_drain {actions : List Action}
    (htrip : ∀ request, .add request ∈ actions → RoundTrips request) (hno : .drain ∉ actions)
    (file : List UInt8) (pending : List Request) : Faithful file pending actions := by
  induction actions generalizing file pending with
  | nil => trivial
  | cons action actions ih =>
    match action with
    | .add request =>
      obtain ⟨bytes, hbytes⟩ := (htrip request mem_cons_self).serialize_isSome
      refine ⟨_, add_eq hbytes file, ih ?_ ?_ _ _⟩
      · intro request' hmem
        exact htrip request' (mem_cons_of_mem _ hmem)
      · intro hmem
        exact hno (mem_cons_of_mem _ hmem)
    | .drain => exact absurd mem_cons_self hno

/-- Adds and drains are faithful exactly when no request is added before a drain. -/
theorem faithful_iff_no_add_before_drain {actions : List Action}
    (htrip : ∀ request, .add request ∈ actions → RoundTrips request) :
    Faithful [] [] actions ↔
      ∀ before after, actions = before ++ .drain :: after →
        ∀ request, .add request ∉ before := by
  induction actions with
  | nil => simp [Faithful]
  | cons action actions ih =>
    have htrip' : ∀ request, .add request ∈ actions → RoundTrips request := by
      intro request hmem
      exact htrip request (mem_cons_of_mem _ hmem)
    match action with
    -- after an `add` the file has a request, and no `drain` may follow
    | .add request =>
      obtain ⟨bytes, hbytes⟩ := (htrip request mem_cons_self).serialize_isSome
      constructor
      · intro hfaithful before after hactions request' _
        obtain ⟨file', hadd, hrest⟩ := hfaithful
        rw [add_eq hbytes, some_inj] at hadd
        rw [← hadd, ← append_assoc] at hrest
        have hno := hrest.no_drain hbytes
        have hmem : Action.drain ∈ Action.add request :: actions := by
          rw [hactions]
          simp
        simp [hno] at hmem
      · intro hno
        refine faithful_of_no_drain htrip ?_ [] []
        intro hmem
        obtain ⟨before, after, hactions⟩ := append_of_mem hmem
        match before with
        | [] => simp at hactions
        | first :: before =>
          obtain ⟨rfl, -⟩ := cons.inj hactions
          exact hno _ after hactions request mem_cons_self
    -- a `drain` of the empty file returns nothing, and leaves the file as it was
    | .drain =>
      have hempty : drain [] = some ([], []) := by
        rw [drain]
        rfl
      constructor
      · intro hfaithful before after hactions request hmem
        obtain ⟨-, -, -, hrest⟩ := hfaithful
        match before with
        | [] => simp at hmem
        | first :: before =>
          obtain ⟨rfl, htail⟩ := cons.inj hactions
          have hmem' : .add request ∈ before := by simpa using hmem
          exact (ih htrip').mp hrest before after htail request hmem'
      · intro hno
        refine ⟨[], hempty, Perm.refl _, (ih htrip').mpr ?_⟩
        intro before after hactions request hmem
        exact hno (.drain :: before) after (by rw [hactions]; rfl) request
          (mem_cons_of_mem _ hmem)

/-- `SET k hello` from a client. -/
def helloRequest : Request where
  authentication := ⟨[], false, false⟩
  operation := ⟨some [[107], [104, 101, 108, 108, 111]], 0, 1, 1, false, false⟩
  requestNumber := 1
  authenticationType := .USER

theorem roundTrips_helloRequest : RoundTrips helloRequest := by
  apply Request.deserialize_serialize
  constructor
  · decide
  · decide
  · decide
  · exact ⟨_, rfl, by decide⟩
  · intro bytes hbytes
    have hlen : (serialize helloRequest).map length = some 28 := by decide
    rw [hbytes] at hlen
    have : bytes.length = 28 := by simpa using hlen
    omega

theorem faithful_drain_add : Faithful [] [] [.drain, .add helloRequest] := by
  apply (faithful_iff_no_add_before_drain ?_).mpr
  · intro before after hactions request
    match before with
    | [] => simp
    | [first] => simp at hactions
    | first :: second :: before => simp at hactions
  · intro request hmem
    obtain rfl : request = helloRequest := by simpa using hmem
    exact roundTrips_helloRequest

/-- The buffer cannot be drained once `SET k hello` was added: the bytes `ello` are read as the
    length of the request, and more bytes are to be deleted than the file has. -/
theorem drain_add_helloRequest :
    RoundTrips helloRequest ∧ (add [] helloRequest).bind drain = none := by
  refine ⟨roundTrips_helloRequest, ?_⟩
  have hfile : add [] helloRequest =
      some ([0, 0, 0, 28, 0, 0, 0, 1, 0, 4, 0, 0, 0, 0, 0, 0, 0, 0, 0, 0, 0, 1, 107, 0, 0, 0, 5,
        104] ++ [101, 108, 108, 111]) := by decide
  have hlength : parseFromBuffer 4 [101, 108, 108, 111] 0 = some 1701604463 := by decide
  rw [hfile, bind_some]
  apply drain_eq_none (by decide)
  exact next_eq_none_of_deleteTopBytes rfl hlength (by decide)

end MemDb.BackedDiskRequestBuffer
