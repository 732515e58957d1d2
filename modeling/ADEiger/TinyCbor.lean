import ADEiger.Loop
import Mathlib.Algebra.Group.Nat.Defs
import Mathlib.Tactic.SplitIfs

/-! tinycbor's cursor over the bytes of a message.
A cursor reads the head of the item it stands at when it gets there, and the rest only when it
is moved on; a container is entered and left with a second cursor. -/
namespace TinyCbor

open Loop (whileLoop)

abbrev Bytes := List UInt8

/-- `aborted` is not a code of the source: an assertion failed or a byte behind the end was read,
and the function does not return. -/
inductive CborError where
  | unknownLength | advancePastEOF | unexpectedEOF | unexpectedBreak | unknownType | illegalType
  | illegalNumber | illegalSimpleType | dataTooLarge | nestingTooDeep | outOfMemory | aborted
  deriving DecidableEq, Repr

def CborIntegerType : UInt8 := 0x00
def CborByteStringType : UInt8 := 0x40
def CborTextStringType : UInt8 := 0x60
def CborArrayType : UInt8 := 0x80
def CborMapType : UInt8 := 0xa0
def CborTagType : UInt8 := 0xc0
def CborSimpleType : UInt8 := 0xe0
def CborBooleanType : UInt8 := 0xf5
def CborHalfFloatType : UInt8 := 0xf9
def CborFloatType : UInt8 := 0xfa
def CborDoubleType : UInt8 := 0xfb
def CborInvalidType : UInt8 := 0xff

def MajorTypeMask : UInt8 := 0xe0
def NegativeInteger : UInt8 := 0x20
def BreakByte : UInt8 := 0xff
def Value8Bit : ℕ := 24
def Value16Bit : ℕ := 25
def Value64Bit : ℕ := 27
def IndefiniteLength : ℕ := 31
def UINT32_MAX : ℕ := 2 ^ 32 - 1
def CBOR_PARSER_MAX_RECURSIONS : ℕ := 1024

/-- `ptr` is what is left of the buffer; `remaining` counts the items of the container from this
one on, `UINT32_MAX` when their number is not known. -/
structure CborValue where
  ptr : Bytes
  remaining : ℕ
  extra : UInt16
  type : UInt8
  integerValueTooLarge : Bool
  negativeInteger : Bool
  iteratingStringChunks : Bool
  unknownLength : Bool
  containerIsMap : Bool
  nextIsMapKey : Bool
  deriving DecidableEq, Repr

/-- What a function leaves that moves a cursor, also when it fails; no error is `CborNoError`. -/
abbrev Moved := Option CborError × CborValue

def Moved.check : Moved → Except CborError CborValue
  | (some e, _) => .error e
  | (none, it) => .ok it

section Head

def bigEndian (bytes : Bytes) : ℕ := bytes.foldl (fun v b => 256 * v + b.toNat) 0

def extractNumber : Bytes → Except CborError ℕ × Bytes
  | [] => (.error .aborted, [])
  | byte :: ptr =>
    let info := byte.toNat % 32
    if info < Value8Bit then (.ok info, ptr)
    else if Value64Bit < info then (.error .illegalNumber, ptr)
    else
      let bytesNeeded := 2 ^ (info - Value8Bit)
      if ptr.length < bytesNeeded then (.error .unexpectedEOF, ptr)
      else (.ok (bigEndian (ptr.take bytesNeeded)), ptr.drop bytesNeeded)

def isFixedType (type : UInt8) : Bool :=
  type != CborTextStringType && type != CborByteStringType && type != CborArrayType &&
    type != CborMapType

/-- Of the number that follows the first byte. -/
def bytesNeeded (descriptor : ℕ) : ℕ :=
  if descriptor < Value8Bit then 0 else 2 ^ (descriptor - Value8Bit)

/-- The simple types and the floating point numbers. -/
def preparseSimple (it : CborValue) (byte : UInt8) (descriptor : ℕ) (rest : Bytes) : Moved :=
  if descriptor = 20 then (none, { it with extra := 0, type := CborBooleanType })
  else if descriptor = 26 ∨ descriptor = 27 then
    (none, { it with type := byte, integerValueTooLarge := true })
  else if descriptor = 21 ∨ descriptor = 22 ∨ descriptor = 23 ∨ descriptor = 25 then
    (none, { it with type := byte })
  else if descriptor = 24 then
    let it := { it with extra := .ofNat (bigEndian (rest.take 1)) }
    if it.extra < 32 then (some .illegalSimpleType, { it with type := CborInvalidType })
    else (none, it)
  else (none, it)

/-- The numbers of up to 16 bits. -/
def preparseExtra (it : CborValue) (descriptor : ℕ) (rest : Bytes) : CborValue :=
  if descriptor < Value8Bit then it
  else if descriptor = Value8Bit then { it with extra := .ofNat (bigEndian (rest.take 1)) }
  else if descriptor = Value16Bit then { it with extra := .ofNat (bigEndian (rest.take 2)) }
  else { it with integerValueTooLarge := true }

def preparseValue (it : CborValue) : Moved :=
  match it.ptr with
  | [] => (some .unexpectedEOF, { it with type := CborInvalidType })
  | byte :: rest =>
    let type := byte &&& MajorTypeMask
    let descriptor := byte.toNat % 32
    let it := { it with
      type := type, extra := .ofNat descriptor, integerValueTooLarge := false
      negativeInteger := false, iteratingStringChunks := false, unknownLength := false }
    if Value64Bit < descriptor then
      if descriptor ≠ IndefiniteLength then
        (some (if type = CborSimpleType then .unknownType else .illegalNumber), it)
      else if isFixedType type = false then (none, { it with unknownLength := true })
      else (some (if type = CborSimpleType then .unexpectedBreak else .illegalNumber), it)
    else
      if rest.length < bytesNeeded descriptor then (some .unexpectedEOF, it)
      else if type = CborSimpleType then preparseSimple it byte descriptor rest
      else if type = NegativeInteger then
        (none, preparseExtra { it with negativeInteger := true, type := CborIntegerType }
          descriptor rest)
      else (none, preparseExtra it descriptor rest)

def preparseNextValueNodecrement (it : CborValue) : Moved :=
  if it.remaining = UINT32_MAX ∧ it.ptr.head? = some BreakByte then
    if (it.containerIsMap && it.nextIsMapKey) || it.type == CborTagType then
      (some .unexpectedBreak, it)
    else (none, { it with ptr := it.ptr.tail, type := CborInvalidType, remaining := 0 })
  else preparseValue it

/-- `--it->remaining`, when the number of items is known. -/
def countItem (it : CborValue) : CborValue :=
  if it.remaining = UINT32_MAX then it
  else { it with remaining := (it.remaining + UINT32_MAX) % 2 ^ 32 }

/-- A tag is not an item of its own. -/
def preparseNextValue (it : CborValue) : Moved :=
  if it.type = CborTagType then preparseNextValueNodecrement it
  else
    let it := countItem it
    if it.remaining = 0 then (none, { it with type := CborInvalidType })
    else preparseNextValueNodecrement { it with nextIsMapKey := !it.nextIsMapKey }

def parserInit (buffer : Bytes) : Moved :=
  preparseValue ⟨buffer, 1, 0, CborInvalidType, false, false, false, false, false, false⟩

end Head

section Query

namespace CborValue

def isValid (it : CborValue) : Bool := it.type != CborInvalidType

def atEnd (it : CborValue) : Bool := it.remaining == 0

def isContainer (it : CborValue) : Bool := it.type == CborArrayType || it.type == CborMapType

def isUnsignedInteger (it : CborValue) : Bool := it.type == CborIntegerType && !it.negativeInteger

/-- Also of the floating point numbers of 32 and 64 bits. -/
def decodeInt64 (it : CborValue) : ℕ :=
  match it.ptr with
  | [] => 0
  | byte :: rest => bigEndian (rest.take (if byte.toNat % 2 = 0 then 4 else 8))

def extractInt64 (it : CborValue) : ℕ :=
  if it.integerValueTooLarge then it.decodeInt64 else it.extra.toNat

/-- Of a string, an array or a map. -/
def getLength (it : CborValue) : Except CborError ℕ :=
  if it.unknownLength then .error .unknownLength else .ok it.extractInt64

end CborValue

end Query

section Strings

def lastChunk (it : CborValue) : Except CborError (Option Bytes) × CborValue :=
  match preparseNextValue it with
  | (some err, it) => (.error err, it)
  | (none, it) => (.ok none, it)

/-- Past the head of a string that comes in chunks. -/
def prepareStringIteration (it : CborValue) : CborValue :=
  if it.unknownLength && !it.iteratingStringChunks then
    { it with ptr := it.ptr.tail, iteratingStringChunks := true }
  else it

/-- The chunk at the cursor, or none at the break behind the last one. -/
def nextChunk (it : CborValue) : Except CborError (Option Bytes) × CborValue :=
  match it.ptr with
  | [] => (.error .unexpectedEOF, it)
  | byte :: rest =>
    if byte = BreakByte then lastChunk { it with ptr := rest }
    else if byte &&& MajorTypeMask = it.type then
      match extractNumber (byte :: rest) with
      | (.error err, ptr) => (.error err, { it with ptr := ptr })
      | (.ok len, ptr) =>
        if ptr.length < len then (.error .unexpectedEOF, { it with ptr := ptr })
        else (.ok (some (ptr.take len)),
          { it with ptr := ptr.drop len, iteratingStringChunks := true })
    else (.error .illegalType, it)

/-- A string of known length is a single chunk. -/
def getStringChunk (it : CborValue) : Except CborError (Option Bytes) × CborValue :=
  if it.iteratingStringChunks && !it.unknownLength then lastChunk it
  else nextChunk (prepareStringIteration it)

/-- The chunks together, and where the cursor is left, also after an error. -/
def stringChunks : ℕ → CborValue → Except CborError Bytes × CborValue
  | 0, it => (.error .aborted, it)
  | n + 1, it =>
    match getStringChunk it with
    | (.error err, it) => (.error err, it)
    | (.ok none, it) => (.ok [], it)
    | (.ok (some chunk), it) =>
      match stringChunks n it with
      | (.error err, it) => (.error err, it)
      | (.ok text, it) => (.ok (chunk ++ text), it)

/-- Every chunk but the last takes a byte. -/
def copyString (it : CborValue) : Except CborError Bytes × CborValue :=
  stringChunks (it.ptr.length + 1) it

end Strings

section Advance

/-- A failed assertion on the number; the strings do not come here. -/
def advanceInternal (it : CborValue) : Except CborError CborValue :=
  match extractNumber it.ptr with
  | (.error _, _) => .error .aborted
  | (.ok _, ptr) => (preparseNextValue { it with ptr := ptr }).check

def advanceFixed (it : CborValue) : Except CborError CborValue :=
  if it.type = CborInvalidType ∨ isFixedType it.type = false then .error .aborted
  else if it.remaining = 0 then .error .advancePastEOF
  else advanceInternal it

def isTag (it : CborValue) : Bool := it.type == CborTagType

def skipTag (it : CborValue) : Except CborError CborValue :=
  whileLoop isTag advanceFixed .aborted (·.ptr.length) it

/-- The cursor for the items inside, before it is at the first. -/
def inside (it : CborValue) (ptr : Bytes) (remaining : ℕ) : CborValue :=
  ⟨ptr, remaining, it.extra, it.type, false, false, false, false, it.type == CborMapType, false⟩

/-- In an empty container the cursor is at no item. -/
def enterContainer (it : CborValue) : Except CborError CborValue :=
  if it.unknownLength then (preparseNextValueNodecrement (inside it it.ptr.tail UINT32_MAX)).check
  else
    match extractNumber it.ptr with
    | (.error _, _) => .error .aborted
    | (.ok len, ptr) =>
      if UINT32_MAX ≤ len then .error .dataTooLarge
      else if it.type = CborMapType ∧ UINT32_MAX / 2 < len then .error .dataTooLarge
      else if len = 0 then
        .ok { it with ptr := ptr, remaining := 0, type := CborInvalidType }
      else
        let remaining := if it.type = CborMapType then 2 * len else len
        (preparseNextValueNodecrement (inside it ptr remaining)).check

def leaveContainer (it recursed : CborValue) : Except CborError CborValue :=
  if recursed.type ≠ CborInvalidType then .error .aborted
  else (preparseNextValue { it with ptr := recursed.ptr }).check

def notAtEnd (it : CborValue) : Bool := !it.atEnd

/-- Over one item, `container` being used for an array or a map. -/
def advanceItem (container : CborValue → Except CborError CborValue) (it : CborValue) :
    Except CborError CborValue :=
  if isFixedType it.type then advanceInternal it
  else if it.isContainer then container it
  else match copyString it with
    | (.error err, _) => .error err
    | (.ok _, it) => .ok it

def advanceRecursive : ℕ → CborValue → Except CborError CborValue
  | 0 => advanceItem fun _ => .error .nestingTooDeep
  | nestingLevel + 1 => advanceItem fun it => do
    let recursed ← enterContainer it
    let recursed ← whileLoop notAtEnd (advanceRecursive nestingLevel) .aborted
      (·.ptr.length) recursed
    leaveContainer it recursed

def advance (it : CborValue) : Except CborError CborValue :=
  if it.type = CborInvalidType then .error .aborted
  else if it.remaining = 0 then .error .advancePastEOF
  else advanceRecursive CBOR_PARSER_MAX_RECURSIONS it

end Advance

end TinyCbor
