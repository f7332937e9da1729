/-
Parameter lists: fullword addresses one after the other, the last one
marked by its high-order bit. `encode` is the only place that sets the
bit and `decode` the only one that looks at it. A list that cannot be
followed to its end within `maxParms` words is refused.
-/
import TsoBridge.Storage

namespace TsoBridge

/-- A parameter list: the leading addresses and the last one. -/
structure ParmList where
  leading : List Address
  last : Address
deriving DecidableEq

namespace ParmList

/-- The high-order bit, which marks the last word. -/
def endBit : UInt32 := 0x80000000

/-- The most words a list may have. -/
def maxParms : Nat := 32

/-- The number of parameters. -/
def count (parms : ParmList) : Nat :=
  parms.leading.length + 1

/-- Whether the high-order bit of a word is on. -/
def marked (word : UInt32) : Bool :=
  word &&& endBit != 0

/-- The address in a word of a list. -/
def address (word : UInt32) : Address :=
  word &&& 0x7FFFFFFF

/-- The words of the leading addresses. -/
def encodeLeading : List Address → Outcome Bytes
  | [] => .ok []
  | first :: rest => do
    if marked first then fail (.invalidParmList (.wide first))
    return Word.ofFull first ++ (← encodeLeading rest)

/-- The words of a list. -/
def encode (parms : ParmList) : Outcome Bytes := do
  let leading ← encodeLeading parms.leading
  if marked parms.last then fail (.invalidParmList (.wide parms.last))
  return leading ++ Word.ofFull (parms.last ||| endBit)

/-- Puts a list into the engine's storage; the address is what a service
finds in register 1. -/
def place (parms : ParmList) (storage : Storage) : Outcome (Address × Storage) := do
  storage.obtainWith Storage.engineSubpool (← parms.encode)

/-- Follows a list whose next word has the given index, `fuel` words at
most. -/
def follow (storage : Storage) (r1 : Address) (index : Nat) : Nat → Outcome (List Address)
  | 0 => fail (.invalidParmList (.unterminated maxParms))
  | fuel + 1 => do
    let word ← storage.readFull (← r1.plus (4 * index))
    if marked word then return [address word]
    else return address word :: (← follow storage r1 (index + 1) fuel)

/-- The addresses of the list at `r1`. -/
def decode (storage : Storage) (r1 : Address) : Outcome (List Address) :=
  follow storage r1 0 maxParms

/-- The addresses of the list at `r1`, which must have `expected` of
them. -/
def decodeExact (storage : Storage) (r1 : Address) (expected : Nat) :
    Outcome (Vector Address expected) := do
  let found ← decode storage r1
  if h : found.length = expected then return ⟨found.toArray, by simpa using h⟩
  else fail (.invalidParmList (.count expected found.length))

end ParmList
end TsoBridge
