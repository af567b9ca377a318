import StackAsm.Image.Bytes
import StackAsm.Image.Opcode

/-!
# Writing images

An image is a header followed by the instructions.  The header holds a magic
number, a version and the number of instructions.  An instruction is its opcode
byte followed by its operand: eight bytes for a value, four for a pointer.

A program that does not fit is written up to the point where that shows.
-/

set_option autoImplicit false

namespace StackAsm.Image

def magic : Bytes := [0x53, 0x56, 0x4D, 0x31]

def version : UInt8 := 1

inductive EncodeError where
  | tooManyInstructions
  | wideOperand (operand : Nat)
deriving DecidableEq, Repr

def EncodeError.message : EncodeError → String
  | .tooManyInstructions => "Too many instructions for image"
  | .wideOperand operand =>
    "Pointer " ++ Text.Decimal.ofNat operand ++ " does not fit in an image operand"

/-- What was written, and why writing stopped early if it did. -/
structure Written where
  bytes : Bytes
  failure : Option EncodeError := none
deriving DecidableEq, Repr

/-- Writes `next` after what was written, unless writing has stopped. -/
def Written.andThen (first next : Written) : Written :=
  match first.failure with
  | some error => ⟨first.bytes, some error⟩
  | none => ⟨first.bytes ++ next.bytes, next.failure⟩

def encodePointer (operand : Nat) : Written :=
  if operand < 0x100000000 then ⟨Bytes.bigEndian 4 operand, none⟩
  else ⟨[], some (.wideOperand operand)⟩

def encodeOperand : Instruction → Written
  | .push value => ⟨Bytes.bigEndian 8 value.toUInt64.toNat, none⟩
  | instruction =>
    match instruction.pointer? with
    | some operand => encodePointer operand
    | none => ⟨[], none⟩

def encodeInstruction (instruction : Instruction) : Written :=
  Written.andThen ⟨[instruction.opcode.toByte], none⟩ (encodeOperand instruction)

def encodeInstructions : List Instruction → Written
  | [] => ⟨[], none⟩
  | instruction :: rest => (encodeInstruction instruction).andThen (encodeInstructions rest)

def versionHeader : Bytes :=
  magic ++ [version, 0, 0, 0]

def encodeCount (count : Nat) : Written :=
  if count < 0x100000000 then ⟨Bytes.bigEndian 4 count, none⟩ else ⟨[], some .tooManyInstructions⟩

def encode (program : Program) : Written :=
  Written.andThen ⟨versionHeader, none⟩
    ((encodeCount program.size).andThen (encodeInstructions program.toList))

end StackAsm.Image
