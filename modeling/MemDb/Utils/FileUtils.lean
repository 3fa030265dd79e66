import MemDb.Utils

/-! # Files

    The functions of `FileUtils` on one file: its bytes, or nothing where there is no such file.
    What a stream writes to depends on the mode in which it is opened; a stream that is truncated
    starts with an empty file, whatever it seeks to afterwards.
-/

namespace MemDb

open List

/-- The bytes of a file; `none` where there is none. -/
abbrev File := Option (List UInt8)

/-- The modes in which streams are opened for writing. -/
inductive OpenMode where
  | trunc
  | app
deriving DecidableEq, Repr

namespace FileUtils

/-- What a stream that is opened for writing finds; a file that is not there is created. -/
def openForWriting (mode : OpenMode) (file : File) : List UInt8 :=
  match mode with
  | .trunc => []
  | .app => file.getD []

/-- Bytes written at a position; a gap in front of it is filled with zeros. -/
def writeAt (position : Nat) (bytes contents : List UInt8) : List UInt8 :=
  if bytes = [] then contents
  else contents.take position ++ replicate (position - contents.length) 0 ++ bytes ++
    contents.drop (position + bytes.length)

/-- `writeBytes` at an offset. -/
def writeBytes (ptr : Nat) (bytes : List UInt8) (file : File) : File :=
  some (writeAt ptr bytes (openForWriting .trunc file))

def appendBytes (bytes : List UInt8) (file : File) : File :=
  let contents := openForWriting .app file
  some (writeAt contents.length bytes contents)

/-- `createFile`, where there is none. -/
def createIfMissing (file : File) : File := some (file.getD [])

/-- `clear` removes the file. -/
def clear (_file : File) : File := none

/-- `size`: the position at the end of the stream, which is -1 at 64 bits when it cannot be
    opened. -/
def size (file : File) : Nat := file.elim (2 ^ 64 - 1) length

def readBytes (file : File) : List UInt8 := file.getD []

/-- A buffer of zeros into which as many bytes are read as there are. -/
def readInto (ptr total : Nat) (file : File) : List UInt8 :=
  let read := ((file.getD []).drop ptr).take total
  read ++ replicate (total - read.length) 0

/-- `seekBytes`; `none` where the vector is greater than vectors can be. -/
def seekBytes (ptr total : Nat) (file : File) : Option (List UInt8) :=
  if total < 2 ^ 63 then some (readInto ptr total file) else none

@[simp] theorem size_some (contents : List UInt8) : size (some contents) = contents.length := rfl

theorem length_getD_le_size (file : File) : (file.getD []).length ≤ size file := by
  cases file with
  | none => exact Nat.zero_le _
  | some contents => exact Nat.le_refl _

theorem appendBytes_eq (bytes : List UInt8) (file : File) :
    appendBytes bytes file = some (file.getD [] ++ bytes) := by
  by_cases hbytes : bytes = []
  · simp [appendBytes, openForWriting, writeAt, hbytes]
  · simp [appendBytes, openForWriting, writeAt, hbytes]

/-- Of what the file held nothing is left. -/
theorem writeBytes_eq {bytes : List UInt8} (hbytes : bytes ≠ []) (ptr : Nat) (file : File) :
    writeBytes ptr bytes file = some (replicate ptr 0 ++ bytes) := by
  simp [writeBytes, openForWriting, writeAt, hbytes]

@[simp] theorem length_readInto (ptr total : Nat) (file : File) :
    (readInto ptr total file).length = total := by
  simp only [readInto, length_append, length_replicate, length_take, length_drop]
  omega

/-- A file that is not there is read as an empty one. -/
theorem readInto_getD (ptr total : Nat) (file : File) :
    readInto ptr total file = readInto ptr total (some (file.getD [])) := rfl

theorem readInto_of_le {ptr total : Nat} {contents : List UInt8}
    (h : ptr + total ≤ contents.length) :
    readInto ptr total (some contents) = (contents.drop ptr).take total := by
  have hlength : ((contents.drop ptr).take total).length = total := by
    simp only [length_take, length_drop]
    omega
  simp [readInto, hlength]

/-- Bytes are read where they stand in the file. -/
theorem readInto_append (front bytes rest : List UInt8) :
    readInto front.length bytes.length (some (front ++ (bytes ++ rest))) = bytes := by
  rw [readInto_of_le (by simp only [length_append]; omega), drop_left, take_left]

/-- Behind the end of a file nothing but zeros is read. -/
theorem readInto_of_ge {ptr : Nat} {file : File} (h : (file.getD []).length ≤ ptr) (total : Nat) :
    readInto ptr total file = replicate total 0 := by
  simp [readInto, drop_eq_nil_of_le h]

end FileUtils

end MemDb
