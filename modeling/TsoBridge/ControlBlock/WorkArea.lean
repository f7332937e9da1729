/-
The work area of the allocation services: 256 bytes in which the caller
leaves its request and finds the answer. It holds a parameter list of the
service's own, an event control block, one request block to allocate and
one to free, a dataset name behind its length, and the return and reason
codes.

    +0x00  request parameter list   20
    +0x14  event control block       4
    +0x18  allocate block           84
    +0x70  free block               40
    +0x98  dataset name             46
    +0xC8  return code               4
    +0xCC  reason code               4

Both request blocks start alike, so one set of offsets serves both.
-/
import TsoBridge.Field

namespace TsoBridge

-- ======================================================= dataset status

/-- How a dataset is to be allocated. -/
inductive DatasetStatus where
  | shr
  | old
  | new
  | mod
deriving DecidableEq

namespace DatasetStatus

/-- The flag byte of a status. -/
def flag : DatasetStatus → UInt8
  | .shr => 0x08
  | .old => 0x01
  | .new => 0x04
  | .mod => 0x02

/-- The status of a flag byte; zero means NEW. -/
def ofFlag? (flag : UInt8) : Option DatasetStatus :=
  if flag = 0 || flag = 0x04 then some .new
  else if flag = 0x08 then some .shr
  else if flag = 0x01 then some .old
  else if flag = 0x02 then some .mod
  else none

/-- The status as operands and listings write it. -/
def keyword : DatasetStatus → String
  | .shr => "SHR"
  | .old => "OLD"
  | .new => "NEW"
  | .mod => "MOD"

/-- The status a word of an operand list stands for. -/
def ofKeyword? (word : String) : Option DatasetStatus :=
  if word = "SHR" then some .shr
  else if word = "OLD" then some .old
  else if word = "NEW" then some .new
  else if word = "MOD" then some .mod
  else none

end DatasetStatus

-- ============================================================== results

/-- What a service left in the work area. -/
structure AllocationResult where
  /-- Return code of the service. -/
  serviceRc : Int32
  /-- Dynamic allocation reason code. -/
  reasonCode : UInt16
  /-- Catalog return code. -/
  catalogRc : UInt16
  /-- Flag byte of the request block. -/
  secondaryFlags : UInt8
  /-- The DD name in the request block. -/
  assignedName : String
deriving DecidableEq

/-- Whether the request was met. -/
def AllocationResult.succeeded (result : AllocationResult) : Bool :=
  result.serviceRc == 0 && result.reasonCode == 0

/-- The result with the value of register 15 as return code where the
area itself holds none. -/
def AllocationResult.orElse (result : AllocationResult) (r15 : Int32) : AllocationResult :=
  if result.serviceRc = 0 ∧ r15 ≠ 0 then { result with serviceRc := r15 } else result

namespace WorkArea

-- =============================================================== layout

/-- The size of the area. -/
def size : Nat := 256

/-- The service's own parameter list. -/
def listOffset : Nat := 0x00

/-- The event control block. -/
def ecbOffset : Nat := 0x14

/-- The block of an allocate request. -/
def allocateOffset : Nat := 0x18

/-- The block of a free request. -/
def freeOffset : Nat := 0x70

/-- The dataset name: a halfword length and the name. -/
def dsnameOffset : Nat := 0x98

/-- The most bytes of a dataset name. -/
def dsnameLimit : Nat := 44

/-- The return code. -/
def rcOffset : Nat := 0xC8

/-- The reason code. -/
def reasonOffset : Nat := 0xCC

namespace Header

/-- Entry code. -/
def code : Nat := 0

/-- Flag byte. -/
def flags : Nat := 2

/-- Dynamic allocation reason code. -/
def reason : Nat := 4

/-- Catalog return code. -/
def catalog : Nat := 6

/-- Address of the dataset name. -/
def dsname : Nat := 8

/-- The DD name. -/
def ddname : Nat := 12

/-- Dataset status, in an allocate block only. -/
def status : Nat := 68

/-- Normal disposition, in an allocate block only. -/
def disposition : Nat := 69

end Header

/-- Entry code: allocate by dataset name. -/
def allocateCode : UInt16 := 0x0008

/-- Entry code: free. -/
def freeCode : UInt16 := 0x0018

/-- Disposition of a dataset that stays. -/
def keep : UInt8 := 0x08

/-- Disposition of a temporary dataset. -/
def delete : UInt8 := 0x04

-- ============================================================= requests

/-- The fields of the dataset name; no name asks for a temporary
dataset. -/
def dsnameFields (dsname : String) : List (Nat × Bytes) :=
  [(dsnameOffset, Word.ofHalf (UInt16.ofNat (min dsname.toList.length dsnameLimit))),
   (dsnameOffset + 2, CodePage.encodeField dsnameLimit dsname)]

/-- Writes an allocate request into an area that will stand at
`address`. -/
def prepareAllocate (area : Bytes) (address : Address) (ddname : String)
    (dsname : Option String) (status : DatasetStatus) : Outcome Bytes := do
  let block := allocateOffset
  let area ← Field.writeHalf area (block + Header.code) allocateCode
  let name ← address.plus dsnameOffset
  Field.writeAll area <|
    [(block + Header.dsname, Word.ofFull name),
     (block + Header.ddname, CodePage.encodeField 8 ddname),
     (block + Header.status, [status.flag]),
     (block + Header.disposition, [if dsname.isSome then keep else delete])]
    ++ dsnameFields (dsname.getD "")

/-- Writes a free request into an area that will stand at `address`. -/
def prepareFree (area : Bytes) (address : Address) (ddname : String) : Outcome Bytes := do
  let block := freeOffset
  let area ← Field.writeHalf area (block + Header.code) freeCode
  let name ← address.plus dsnameOffset
  Field.writeAll area <|
    [(block + Header.dsname, Word.ofFull name),
     (block + Header.ddname, CodePage.encodeField 8 ddname)]
    ++ dsnameFields ""

-- ============================================================== answers

/-- The dataset name in the area. -/
def readDsname (area : Bytes) : Outcome String := do
  let length ← Field.readHalf area dsnameOffset
  let name ← Field.read area (dsnameOffset + 2) (min length.toNat dsnameLimit)
  return CodePage.decode name

/-- The answer in the request block at `block`. -/
def decode (area : Bytes) (block : Nat) : Outcome AllocationResult := do
  let serviceRc ← Field.readSigned area rcOffset
  let reasonCode ← Field.readHalf area (block + Header.reason)
  let catalogRc ← Field.readHalf area (block + Header.catalog)
  let secondaryFlags ← Field.readByte area (block + Header.flags)
  let name ← Field.read area (block + Header.ddname) 8
  return { serviceRc, reasonCode, catalogRc, secondaryFlags,
           assignedName := CodePage.decodeField name }

/-- The answer to an allocate request. -/
def decodeAllocate (area : Bytes) : Outcome AllocationResult :=
  decode area allocateOffset

/-- The answer to a free request. -/
def decodeFree (area : Bytes) : Outcome AllocationResult :=
  decode area freeOffset

-- ================================================================ codes

/-- Reason code: the DD name is in use. -/
def ddnameInUse : UInt16 := 0x0410

/-- Reason code: the DD name is not allocated. -/
def ddnameNotFound : UInt16 := 0x0438

/-- Reason code: the dataset is not in the catalog. -/
def dsnameNotFound : UInt16 := 0x1708

/-- Return code of a refused request. -/
def refusedRc : Int32 := 12

/-- Return code of a malformed request. -/
def malformedRc : Int32 := 16

end WorkArea
end TsoBridge
