import MemDb.Utils
import MemDb.Lib.Framing
import Mathlib.Data.Int.Basic

/-! # Packets on a connection

    `Connection::writeSync` and `Connection::readSync` over a byte stream that delivers exactly the
    written bytes in order. Writing is the list of bytes handed to the socket; reading takes bytes
    off the front of what has arrived and is `none` when `readWithTimeout` reports an error, which
    on such a stream means that it ended before the buffer was full.

    A message of at least `FRAGMENT_MIN_SIZE` bytes is sent in fragments. The size of the last one
    is `size % FRAGMENT_MIN_SIZE`, which is 0 for a multiple of `FRAGMENT_MIN_SIZE`: its last
    fragment is then sent without content, and the reader takes what follows for the content.
-/

namespace MemDb.Connection

open Lib Lib.Framing List BigEndian Option Utils

def FRAGMENT_MIN_SIZE : Nat := 1024

/-! ### Writing -/

/-- `int nFragments`, a 64-bit size converted to a 32-bit signed integer. -/
def nFragments (size : Nat) : Int :=
  ((size / FRAGMENT_MIN_SIZE + if size % FRAGMENT_MIN_SIZE = 0 then 0 else 1 : Nat) : Int).bmod
    (2 ^ 32)

/-- The header of a fragment: the content length behind the type byte. -/
def fragmentHeader (lastPacket : Bool) (contentSizeInFragment : Nat) : List UInt8 :=
  appendBeginningToBuffer 1 (if lastPacket then 0x03 else 0x01)
    (appendBeginningToBuffer 4 contentSizeInFragment [])

/-- The loop of `fragmentPacketAndSend` when `remaining` fragments are left and
    `startFromInitialPacket` points to `start`. -/
def sendFragments (size : Nat) : (remaining : Nat) → (start : List UInt8) → List UInt8
  | 0, _ => []
  | remaining + 1, start =>
    let lastPacket := remaining == 0
    let contentSizeInFragment :=
      if lastPacket then size % FRAGMENT_MIN_SIZE else FRAGMENT_MIN_SIZE
    fragmentHeader lastPacket contentSizeInFragment ++ start.take contentSizeInFragment ++
      sendFragments size remaining (if lastPacket then start else start.drop contentSizeInFragment)

def fragmentPacketAndSend (initialPacket : List UInt8) : List UInt8 :=
  sendFragments initialPacket.length (nFragments initialPacket.length).toNat initialPacket

def writeSync (toWrite : List UInt8) : List UInt8 :=
  if toWrite.length < FRAGMENT_MIN_SIZE then
    -- `addContentLengthHeader`, then `addNoFragmentationHeader`
    0x00 :: appendBeginningToBuffer 4 toWrite.length toWrite
  else
    fragmentPacketAndSend toWrite

/-! ### Reading -/

/-- `readWithTimeout`: fill a buffer of `size` bytes. -/
def readBytes (size : Nat) (stream : List UInt8) : Option (List UInt8 × List UInt8) :=
  if size ≤ stream.length then some (stream.take size, stream.drop size) else none

variable {size : Nat} {message : List UInt8}

theorem readBytes_length {stream buffer rest : List UInt8}
    (h : readBytes size stream = some (buffer, rest)) :
    buffer.length = size ∧ buffer.length + rest.length = stream.length := by
  unfold readBytes at h
  split at h
  · cases h
    simp only [length_take, length_drop]
    omega
  · simp at h

/-- `readPacketContent`: a length of 0 makes it read the next four bytes as the length. -/
def readPacketContent (stream : List UInt8) : Option (List UInt8 × List UInt8) :=
  match _hheader : readBytes 4 stream with
  | none => none
  | some (messageLengthHeaderBuffer, rest) =>
    let packetLength := parse messageLengthHeaderBuffer
    if packetLength = 0 then readPacketContent rest else readBytes packetLength rest
termination_by stream.length
decreasing_by
  have := readBytes_length _hheader
  omega

theorem readPacketContent_eq (stream : List UInt8) :
    readPacketContent stream = (readBytes 4 stream).bind fun header =>
      if parse header.1 = 0 then readPacketContent header.2
      else readBytes (parse header.1) header.2 := by
  rw [readPacketContent]
  split
  · next h => rw [h, bind_none]
  · next h => rw [h, bind_some]

/-- What is read and what is left are fewer bytes than there were: at least a length was read. -/
theorem readPacketContent_length {stream content rest : List UInt8}
    (h : readPacketContent stream = some (content, rest)) :
    content.length + rest.length < stream.length := by
  rw [readPacketContent_eq] at h
  obtain ⟨⟨header, tail⟩, hheader, hcontent⟩ := bind_eq_some_iff.mp h
  have hlen := readBytes_length hheader
  split at hcontent
  · have ih := readPacketContent_length hcontent
    simp only at ih
    omega
  · have hrest := readBytes_length hcontent
    simp only at hrest
    omega
termination_by stream.length

def isFragmentPacket (packetTypeHeader : UInt8) : Bool := packetTypeHeader &&& 0x01 != 0

def isLastFragmentPacket (packetTypeHeader : UInt8) : Bool := packetTypeHeader &&& 0x03 == 0x03

/-- The loop of `readFragmentedPacket`, with the type byte of the fragment to be read and the
    content read so far. -/
def readFragmentedPacket (typePacketHeader : UInt8) (result stream : List UInt8) :
    Option (List UInt8 × List UInt8) :=
  match _hcontent : readPacketContent stream with
  | none => none
  | some (content, rest) =>
    if isLastFragmentPacket typePacketHeader then some (result ++ content, rest)
    else
      match rest with
      | [] => none
      | nextType :: rest => readFragmentedPacket nextType (result ++ content) rest
termination_by stream.length
decreasing_by
  have := readPacketContent_length _hcontent
  simp only [length_cons] at this
  omega

def readPacket (packetType : UInt8) (stream : List UInt8) : Option (List UInt8 × List UInt8) :=
  if isFragmentPacket packetType then readFragmentedPacket packetType [] stream
  else readPacketContent stream

def readSync : List UInt8 → Option (List UInt8 × List UInt8)
  | [] => none
  | typePacketHeader :: rest => readPacket typePacketHeader rest

/-! ### How a packet is read -/

theorem readBytes_append {buffer : List UInt8} (h : buffer.length = size) (rest : List UInt8) :
    readBytes size (buffer ++ rest) = some (buffer, rest) := by
  subst h
  simp [readBytes]

theorem parse_encode_length (h : size < 2 ^ 32) :
    parse (encode 4 size) = size := by
  rw [parse_eq]
  exact decode_encode_of_lt h

/-- A content that is not empty is read behind its length. -/
theorem readPacketContent_append {content : List UInt8} (hne : content ≠ [])
    (hlt : content.length < 2 ^ 32) (rest : List UInt8) :
    readPacketContent (encode 4 content.length ++ (content ++ rest)) =
      some (content, rest) := by
  rw [readPacketContent_eq, readBytes_append (length_encode 4 content.length)]
  have hpos : ¬ content.length = 0 := by
    intro h
    exact hne (eq_nil_of_length_eq_zero h)
  simp only [bind_some, parse_encode_length hlt, if_neg hpos]
  exact readBytes_append rfl rest

/-- A length of 0 at the end of the stream is no packet. -/
theorem readPacketContent_encode_zero : readPacketContent (encode 4 0) = none := by
  have hheader := readBytes_append (length_encode 4 0) []
  rw [append_nil] at hheader
  rw [readPacketContent_eq, hheader]
  simp only [bind_some, parse_encode_length (by decide : 0 < 2 ^ 32), if_true]
  rw [readPacketContent_eq]
  simp [readBytes]

section fragments
variable {typePacketHeader nextType : UInt8} {result stream content rest : List UInt8}

theorem readFragmentedPacket_none (h : readPacketContent stream = none) :
    readFragmentedPacket typePacketHeader result stream = none := by
  rw [readFragmentedPacket]
  split
  · rfl
  · next heq => simp [h] at heq

theorem readFragmentedPacket_last (h : readPacketContent stream = some (content, rest))
    (hlast : isLastFragmentPacket typePacketHeader = true) :
    readFragmentedPacket typePacketHeader result stream = some (result ++ content, rest) := by
  rw [readFragmentedPacket]
  split
  · next heq => simp [h] at heq
  · next heq =>
    cases h.symm.trans heq
    simp [hlast]

theorem readFragmentedPacket_next (h : readPacketContent stream = some (content, nextType :: rest))
    (hlast : isLastFragmentPacket typePacketHeader = false) :
    readFragmentedPacket typePacketHeader result stream =
      readFragmentedPacket nextType (result ++ content) rest := by
  rw [readFragmentedPacket]
  split
  · next heq => simp [h] at heq
  · next heq =>
    cases h.symm.trans heq
    simp [hlast]

end fragments

/-! ### Fragments -/

theorem sendFragments_one (size : Nat) (start : List UInt8) :
    sendFragments size 1 start =
      0x03 :: (encode 4 (size % FRAGMENT_MIN_SIZE) ++
        start.take (size % FRAGMENT_MIN_SIZE)) := by
  simp [sendFragments, fragmentHeader, appendBeginningToBuffer_eq, encode]

theorem sendFragments_succ (size remaining : Nat) (start : List UInt8) :
    sendFragments size (remaining + 2) start =
      0x01 :: (encode 4 FRAGMENT_MIN_SIZE ++ (start.take FRAGMENT_MIN_SIZE ++
        sendFragments size (remaining + 1) (start.drop FRAGMENT_MIN_SIZE))) := by
  rw [sendFragments]
  simp [fragmentHeader, appendBeginningToBuffer_eq, encode]

/-- The reader takes in all full fragments and stands before the length of the last one. -/
theorem readFragmentedPacket_sendFragments (size remaining : Nat) {start : List UInt8}
    (hlen : FRAGMENT_MIN_SIZE * remaining ≤ start.length) (result rest : List UInt8) :
    ∃ typePacketHeader stream,
      sendFragments size (remaining + 1) start ++ rest = typePacketHeader :: stream ∧
      isFragmentPacket typePacketHeader = true ∧
      readFragmentedPacket typePacketHeader result stream =
        readFragmentedPacket 0x03 (result ++ start.take (FRAGMENT_MIN_SIZE * remaining))
          (encode 4 (size % FRAGMENT_MIN_SIZE) ++
            ((start.drop (FRAGMENT_MIN_SIZE * remaining)).take (size % FRAGMENT_MIN_SIZE) ++
              rest)) := by
  induction remaining generalizing start result with
  | zero =>
    refine ⟨0x03, _, by rw [sendFragments_one, cons_append], by decide, ?_⟩
    simp [append_assoc]
  | succ remaining ih =>
    have hfull : (start.take FRAGMENT_MIN_SIZE).length = FRAGMENT_MIN_SIZE := by
      rw [length_take]
      simp only [FRAGMENT_MIN_SIZE] at hlen ⊢
      omega
    have hne : start.take FRAGMENT_MIN_SIZE ≠ [] := by
      intro h
      rw [h] at hfull
      exact absurd hfull (by decide)
    have hdrop : FRAGMENT_MIN_SIZE * remaining ≤ (start.drop FRAGMENT_MIN_SIZE).length := by
      rw [length_drop]
      simp only [FRAGMENT_MIN_SIZE] at hlen ⊢
      omega
    obtain ⟨nextType, stream, hstream, -, hread⟩ :=
      ih hdrop (result ++ start.take FRAGMENT_MIN_SIZE)
    refine ⟨0x01, _, by rw [sendFragments_succ, cons_append], by decide, ?_⟩
    -- this fragment is read, and the rest of the packet as the induction hypothesis has it
    have hcontent : readPacketContent (encode 4 FRAGMENT_MIN_SIZE ++
        (start.take FRAGMENT_MIN_SIZE ++ (nextType :: stream))) =
        some (start.take FRAGMENT_MIN_SIZE, nextType :: stream) := by
      have := readPacketContent_append hne (by rw [hfull]; decide) (nextType :: stream)
      rwa [hfull] at this
    rw [append_assoc, append_assoc, hstream,
      readFragmentedPacket_next hcontent (by decide), hread, append_assoc,
      drop_drop, ← take_add, Nat.mul_succ, Nat.add_comm FRAGMENT_MIN_SIZE]

/-! ### Messages -/

/-- The lengths at which a message is read back: it is sent in one packet, or its last fragment
    has a content and the number of its fragments is an `int`. -/
def Framable (message : List UInt8) : Prop :=
  message.length < FRAGMENT_MIN_SIZE ∨
    (message.length % FRAGMENT_MIN_SIZE ≠ 0 ∧ message.length / FRAGMENT_MIN_SIZE + 1 < 2 ^ 31)

theorem nFragments_of_lt {count : Nat}
    (hcount : (size / FRAGMENT_MIN_SIZE + if size % FRAGMENT_MIN_SIZE = 0 then 0 else 1) = count)
    (hlt : count < 2 ^ 31) : (nFragments size).toNat = count := by
  unfold nFragments
  rw [hcount, Int.bmod_eq_of_le (by omega) (by omega), Int.toNat_natCast]

theorem writeSync_of_lt (hlen : message.length < FRAGMENT_MIN_SIZE) :
    writeSync message = 0x00 :: (encode 4 message.length ++ message) := by
  unfold writeSync
  rw [if_pos hlen, appendBeginningToBuffer_eq]

theorem framed_of_lt (hne : message ≠ []) (hlen : message.length < FRAGMENT_MIN_SIZE) :
    Framed writeSync readSync message := by
  intro rest
  rw [writeSync_of_lt hlen, cons_append, append_assoc]
  show readPacketContent _ = _
  exact readPacketContent_append hne (by simp only [FRAGMENT_MIN_SIZE] at hlen; omega) rest

/-- Reading back what `fragmentPacketAndSend` wrote comes down to reading the last fragment. -/
theorem readSync_fragments {remaining : Nat} (hlen : FRAGMENT_MIN_SIZE * remaining ≤ message.length)
    (hbig : ¬ message.length < FRAGMENT_MIN_SIZE)
    (hcount : (nFragments message.length).toNat = remaining + 1) (rest : List UInt8) :
    readSync (writeSync message ++ rest) =
      readFragmentedPacket 0x03 (message.take (FRAGMENT_MIN_SIZE * remaining))
        (encode 4 (message.length % FRAGMENT_MIN_SIZE) ++
          ((message.drop (FRAGMENT_MIN_SIZE * remaining)).take
            (message.length % FRAGMENT_MIN_SIZE) ++ rest)) := by
  obtain ⟨typePacketHeader, stream, hstream, htype, hread⟩ :=
    readFragmentedPacket_sendFragments message.length remaining hlen [] rest
  unfold writeSync fragmentPacketAndSend
  rw [if_neg hbig, hcount, hstream]
  show readPacket typePacketHeader stream = _
  unfold readPacket
  rw [if_pos htype, hread, nil_append]

theorem framed_of_fragments (hbig : ¬ message.length < FRAGMENT_MIN_SIZE)
    (hmod : message.length % FRAGMENT_MIN_SIZE ≠ 0)
    (hlt : message.length / FRAGMENT_MIN_SIZE + 1 < 2 ^ 31) :
    Framed writeSync readSync message := by
  intro rest
  have hdiv := Nat.div_add_mod message.length FRAGMENT_MIN_SIZE
  have hlen : FRAGMENT_MIN_SIZE * (message.length / FRAGMENT_MIN_SIZE) ≤ message.length := by
    omega
  have hcount := nFragments_of_lt (by rw [if_neg hmod]) hlt
  rw [readSync_fragments hlen hbig hcount rest]
  -- the last fragment holds all that is left, which is not empty
  have hlast : (message.drop (FRAGMENT_MIN_SIZE * (message.length / FRAGMENT_MIN_SIZE))).length =
      message.length % FRAGMENT_MIN_SIZE := by
    rw [length_drop]
    omega
  rw [← hlast, take_length]
  have hne : message.drop (FRAGMENT_MIN_SIZE * (message.length / FRAGMENT_MIN_SIZE)) ≠ [] := by
    intro h
    rw [h] at hlast
    exact hmod hlast.symm
  have hsmall : message.length % FRAGMENT_MIN_SIZE < 2 ^ 32 := by
    simp only [FRAGMENT_MIN_SIZE]
    omega
  have hcontent := readPacketContent_append hne (by rw [hlast]; exact hsmall) rest
  rw [readFragmentedPacket_last hcontent (by decide), take_append_drop]

theorem framed_of_framable (hne : message ≠ []) (h : Framable message) :
    Framed writeSync readSync message := by
  by_cases hlen : message.length < FRAGMENT_MIN_SIZE
  · exact framed_of_lt hne hlen
  · obtain ⟨hmod, hlt⟩ := h.resolve_left hlen
    exact framed_of_fragments hlen hmod hlt

/-! ### Messages that are lost -/

/-- The last fragment of a multiple of `FRAGMENT_MIN_SIZE` is sent empty. -/
theorem readSync_writeSync_multiple (hne : message ≠ [])
    (hmod : message.length % FRAGMENT_MIN_SIZE = 0)
    (hlt : message.length / FRAGMENT_MIN_SIZE < 2 ^ 31) :
    readSync (writeSync message) = none := by
  have hpos : 0 < message.length := length_pos_iff.mpr hne
  have hbig : ¬ message.length < FRAGMENT_MIN_SIZE := by
    intro h
    rw [Nat.mod_eq_of_lt h] at hmod
    omega
  obtain ⟨remaining, hdiv⟩ : ∃ k, message.length / FRAGMENT_MIN_SIZE = k + 1 := by
    have : 0 < message.length / FRAGMENT_MIN_SIZE :=
      Nat.div_pos (Nat.le_of_not_lt hbig) (by decide)
    exact ⟨message.length / FRAGMENT_MIN_SIZE - 1, by omega⟩
  have hcount : (nFragments message.length).toNat = message.length / FRAGMENT_MIN_SIZE :=
    nFragments_of_lt (by rw [if_pos hmod, Nat.add_zero]) hlt
  have hlen : FRAGMENT_MIN_SIZE * remaining ≤ message.length := by
    have := Nat.div_mul_le_self message.length FRAGMENT_MIN_SIZE
    rw [hdiv, Nat.succ_mul, Nat.mul_comm] at this
    omega
  have hread := readSync_fragments hlen hbig (hcount.trans hdiv) []
  rw [hmod, take_zero, append_nil, append_nil, append_nil] at hread
  rw [hread]
  exact readFragmentedPacket_none readPacketContent_encode_zero

theorem readFragmentedPacket_length {typePacketHeader : UInt8}
    {result stream message rest : List UInt8}
    (h : readFragmentedPacket typePacketHeader result stream = some (message, rest)) :
    message.length ≤ result.length + stream.length := by
  rw [readFragmentedPacket] at h
  split at h
  · simp at h
  · next content tail hcontent =>
    have hlen := readPacketContent_length hcontent
    split at h
    · cases h
      rw [length_append]
      omega
    · split at h
      · simp at h
      · simp only [length_cons] at hlen
        have ih := readFragmentedPacket_length h
        rw [length_append] at ih
        omega
termination_by stream.length
decreasing_by
  simp only [length_cons] at hlen
  omega

/-- A message is no longer than the stream it was read from. -/
theorem readSync_length {stream rest : List UInt8} (h : readSync stream = some (message, rest)) :
    message.length ≤ stream.length := by
  match stream with
  | [] => simp [readSync] at h
  | typePacketHeader :: stream =>
    rw [length_cons]
    change readPacket typePacketHeader stream = some (message, rest) at h
    unfold readPacket at h
    split at h
    · have := readFragmentedPacket_length h
      rw [length_nil] at this
      omega
    · have := readPacketContent_length h
      omega

theorem length_sendFragments_le (size remaining : Nat) (start : List UInt8) :
    (sendFragments size remaining start).length ≤ (FRAGMENT_MIN_SIZE + 5) * remaining := by
  induction remaining generalizing start with
  | zero => simp [sendFragments]
  | succ remaining ih =>
    have hmod : size % FRAGMENT_MIN_SIZE < FRAGMENT_MIN_SIZE := Nat.mod_lt _ (by decide)
    by_cases hlast : remaining = 0
    · subst hlast
      simp only [Nat.zero_add, sendFragments_one, length_cons, length_append,
        length_encode, length_take]
      omega
    · obtain ⟨left, rfl⟩ : ∃ k, remaining = k + 1 := ⟨remaining - 1, by omega⟩
      have := ih (start.drop FRAGMENT_MIN_SIZE)
      simp only [sendFragments_succ, length_cons, length_append,
        length_encode, length_take]
      rw [Nat.mul_succ]
      omega

/-- When the number of fragments is not an `int`, fewer bytes are written than the message has. -/
theorem readSync_writeSync_overflow (hbig : ¬ message.length < FRAGMENT_MIN_SIZE)
    (hover : 2 ^ 31 ≤ message.length / FRAGMENT_MIN_SIZE +
      if message.length % FRAGMENT_MIN_SIZE = 0 then 0 else 1) (rest : List UInt8) :
    readSync (writeSync message) ≠ some (message, rest) := by
  intro hread
  have hlen := readSync_length hread
  have hwritten := length_sendFragments_le message.length
    (nFragments message.length).toNat message
  unfold writeSync fragmentPacketAndSend at hlen
  rw [if_neg hbig] at hlen
  -- the count wraps: it is negative, or 2 ^ 32 smaller than the number of fragments
  have hwrap : (nFragments message.length).toNat = 0 ∨
      ((nFragments message.length).toNat < 2 ^ 31 ∧
        (nFragments message.length).toNat + 2 ^ 32 ≤ message.length / FRAGMENT_MIN_SIZE + 1) := by
    unfold nFragments
    rw [Int.bmod_def]
    split at hover <;> split <;> omega
  have hdiv := Nat.div_mul_le_self message.length FRAGMENT_MIN_SIZE
  simp only [FRAGMENT_MIN_SIZE] at *
  omega

/-- A message of another length is not read back even when it is written alone. -/
theorem readSync_writeSync_ne (hne : message ≠ []) (h : ¬ Framable message) :
    readSync (writeSync message) ≠ some (message, []) := by
  unfold Framable at h
  obtain ⟨hbig, hnot⟩ := not_or.mp h
  by_cases hmod : message.length % FRAGMENT_MIN_SIZE = 0
  · by_cases hlt : message.length / FRAGMENT_MIN_SIZE < 2 ^ 31
    · rw [readSync_writeSync_multiple hne hmod hlt]
      simp
    · exact readSync_writeSync_overflow hbig (by rw [if_pos hmod]; omega) []
  · exact readSync_writeSync_overflow hbig (by rw [if_neg hmod]; omega) []

/-! ### Sequences of messages -/

/-- What a peer has written after `writeSync` of each message in turn. -/
def writeMessages (messages : List (List UInt8)) : List UInt8 := writeAll writeSync messages

/-- `count` calls of `readSync`. -/
def readMessages (count : Nat) (stream : List UInt8) :
    Option (List (List UInt8) × List UInt8) :=
  readMany readSync count stream

/-- The messages written so far are read back in order with no byte left over, after each message
    of a sequence, exactly when every message of it has a framable length. -/
theorem readMessages_writeMessages_iff {messages : List (List UInt8)}
    (hne : ∀ m ∈ messages, m ≠ []) :
    (∀ m ∈ messages, Framable m) ↔
      ∀ front, front <+: messages →
        readMessages front.length (writeMessages front) = some (front, []) := by
  have hframed : (∀ m ∈ messages, Framable m) ↔ ∀ m ∈ messages, Framed writeSync readSync m := by
    constructor
    · intro h m hm
      exact framed_of_framable (hne m hm) (h m hm)
    · intro h m hm
      by_contra hnot
      have halone := h m hm []
      rw [append_nil] at halone
      exact readSync_writeSync_ne (hne m hm) hnot halone
  rw [hframed]
  apply framed_iff_readMany_prefixes
  intro m hm hnot
  apply readSync_writeSync_ne (hne m hm)
  intro hframable
  exact hnot (framed_of_framable (hne m hm) hframable)

theorem readMessages_writeMessages_two :
    readMessages 2 (writeMessages [[1, 2], [3]]) = some ([[1, 2], [3]], []) := by
  have hne : ∀ m ∈ ([[1, 2], [3]] : List (List UInt8)), m ≠ [] := by decide
  have hframable : ∀ m ∈ ([[1, 2], [3]] : List (List UInt8)), Framable m := by
    unfold Framable
    decide
  exact (readMessages_writeMessages_iff hne).mp hframable [[1, 2], [3]] prefix_rfl

/-- A message of 1024 bytes never arrives. -/
theorem readMessages_writeMessages_fragment :
    readMessages 1 (writeMessages [replicate FRAGMENT_MIN_SIZE 0]) = none := by
  have hlost : readSync (writeSync (replicate FRAGMENT_MIN_SIZE 0)) = none := by
    apply readSync_writeSync_multiple
    · intro h
      exact absurd (congrArg length h) (by rw [length_replicate]; decide)
    · rw [length_replicate, Nat.mod_self]
    · rw [length_replicate]
      decide
  unfold readMessages writeMessages
  simp only [writeAll, flatMap_singleton, readMany, hlost]
  rfl

end MemDb.Connection
