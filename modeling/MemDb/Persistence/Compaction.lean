import MemDb.Messages.Request

/-! # Compacting the operation log

    Before operations are moved from the intermediate file to a segment, `OperationLogCompacter`
    drops those that a later operation on the same key makes superfluous. More than ten operations
    are compacted in a tree of blocks: the blocks of the lowest level are taken as they are, and
    every other block merges the two below it.

    The operations are walked from the last one back. The timestamp noted for a key is that of the
    first operation met, and stays when a greater one replaces it.
-/

namespace MemDb

/-! ### Maps with strings as keys -/

/-- What `strcmp` reads: the bytes in front of the first zero. -/
def cString (bytes : List UInt8) : List UInt8 := bytes.takeWhile (· ≠ 0)

/-- The key of an operation: its first argument. -/
def OperationBody.keyArg (operation : OperationBody) : Option SimpleString :=
  operation.args.bind List.head?

/-- What `SimpleString::operator<` compares of an operation's key. The buffer of a key is as long as
    the key and does not end with a zero, so `strcmp` reads on in what stands behind it in
    memory. -/
def OperationBody.keyString (behind : OperationBody → List UInt8) (operation : OperationBody) :
    Option (List UInt8) :=
  operation.keyArg.map fun key => cString (key ++ behind operation)

/-- A zero byte behind every key. -/
def zeroBehind (_ : OperationBody) : List UInt8 := [0]

/-- A `std::map` with strings as keys, as its entries in the order of the keys. Of a key it has what
    is compared of it. -/
abbrev StringMap (V : Type) := List (List UInt8 × V)

namespace StringMap
variable {V : Type}

def lookup (key : List UInt8) (map : StringMap V) : Option V :=
  (map.find? fun entry => !decide (entry.1 < key) && !decide (key < entry.1)).map (·.2)

/-- Assignment to `map[key]`; an entry that is there keeps its key. -/
def assign (key : List UInt8) (value : V) : StringMap V → StringMap V
  | [] => [(key, value)]
  | (k, v) :: rest =>
    if key < k then (key, value) :: (k, v) :: rest
    else if k < key then (k, v) :: assign key value rest
    else (k, value) :: rest

end StringMap

section
variable (behind : OperationBody → List UInt8)

/-! ### One thread -/

namespace SingleThreadedLogCompacter

/-- The loop over the operations from the last one back; `none` where it reads the key of an
    operation without arguments. -/
def compactLoop : List OperationBody → StringMap OperationBody → StringMap UInt64 →
    Option (StringMap OperationBody × StringMap UInt64)
  | [], compactedToReturn, timestampsByKeys => some (compactedToReturn, timestampsByKeys)
  | actualOperation :: rest, compactedToReturn, timestampsByKeys =>
    (actualOperation.keyString behind).bind fun actualOperationKey =>
      match timestampsByKeys.lookup actualOperationKey with
      | some timestamp =>
        -- the timestamp that is noted stays
        compactLoop rest (if timestamp < actualOperation.timestamp then
            compactedToReturn.assign actualOperationKey actualOperation
          else compactedToReturn) timestampsByKeys
      | none =>
        compactLoop rest (compactedToReturn.assign actualOperationKey actualOperation)
          (timestampsByKeys.assign actualOperationKey actualOperation.timestamp)

/-- `compact`: what is left of the operations goes behind `compacted`. -/
def compact (uncompacted compacted : List OperationBody) (timestampsByKeys : StringMap UInt64) :
    Option (List OperationBody × StringMap UInt64) :=
  (compactLoop behind uncompacted.reverse [] timestampsByKeys).map fun result =>
    (compacted ++ result.1.map (·.2), result.2)

end SingleThreadedLogCompacter

/-! ### Several threads -/

namespace MultiThreadedLogCompactor

/-- The operations of a block of the lowest level; the last one takes the remainder. -/
def leaf (uncompacted : List OperationBody) (numberBlock totalBlocks : Nat) : List OperationBody :=
  let logsPerBlock := uncompacted.length / totalBlocks
  let begin := uncompacted.drop (logsPerBlock * numberBlock)
  if numberBlock + 1 ≠ totalBlocks then begin.take logsPerBlock else begin

/-- The right block first, and what it notes is known to the left one. -/
def mergeAndCompact (leftToCompact rightToCompact : List OperationBody) :
    Option (List OperationBody) := do
  let (compacted, timestampsByKeys) ← SingleThreadedLogCompacter.compact behind rightToCompact [] []
  let (compacted, _) ←
    SingleThreadedLogCompacter.compact behind leftToCompact compacted timestampsByKeys
  return compacted

/-- The block with a number in a phase of the tree, the given number of phases above the lowest. -/
def get (uncompacted : List OperationBody) (totalBlocks : Nat) :
    (phases numberBlock : Nat) → Option (List OperationBody)
  | 0, numberBlock => some (leaf uncompacted numberBlock totalBlocks)
  | phases + 1, numberBlock => do
    let compactionBlockLeft ← get uncompacted totalBlocks phases (numberBlock * 2)
    let compactionBlockRight ← get uncompacted totalBlocks phases (numberBlock * 2 + 1)
    mergeAndCompact behind compactionBlockLeft compactionBlockRight

def compact (numberThreads : Nat) (uncompacted : List OperationBody) :
    Option (List OperationBody) :=
  let height := Nat.log2 numberThreads + 2
  get behind uncompacted (2 ^ (height - 1)) (height - 1) 0

end MultiThreadedLogCompactor

/-- `OperationLogCompacter::compact`; the bound is the literal `10.000`. -/
def OperationLogCompacter.compact (numberThreads : Nat) (uncompacted : List OperationBody) :
    Option (List OperationBody) :=
  if uncompacted.length > 10 then MultiThreadedLogCompactor.compact behind numberThreads uncompacted
  else (SingleThreadedLogCompacter.compact behind uncompacted [] []).map (·.1)

end

end MemDb
