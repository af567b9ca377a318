import StackAsm.Instruction

/-!
# Opcode bytes

Each opcode has a byte of its own in an image.
-/

set_option autoImplicit false

namespace StackAsm.Opcode

def toByte : Opcode → UInt8
  | .noop => 0x00
  | .print => 0x02
  | .push => 0x10
  | .pop => 0x11
  | .add => 0x20
  | .sub => 0x21
  | .mul => 0x22
  | .div => 0x23
  | .jump => 0x60
  | .jumpIfZero => 0x61
  | .jumpIfNonZero => 0x62
  | .call => 0x63
  | .ret => 0x64
  | .get => 0x70
  | .set => 0x71
  | .getArg => 0x72
  | .setArg => 0x73

def all : List Opcode :=
  [.noop, .print, .push, .pop, .add, .sub, .mul, .div, .jump, .jumpIfZero, .jumpIfNonZero,
    .call, .ret, .get, .set, .getArg, .setArg]

/-- The opcode that a byte stands for. -/
def ofByte? (byte : UInt8) : Option Opcode :=
  all.find? fun opcode => opcode.toByte == byte

/-- An opcode is found again from its byte. -/
theorem ofByte?_toByte (opcode : Opcode) : ofByte? opcode.toByte = some opcode := by
  cases opcode <;> decide

/-- A byte that stands for an opcode is that opcode's byte. -/
theorem toByte_of_ofByte? {byte : UInt8} {opcode : Opcode}
    (found : ofByte? byte = some opcode) : opcode.toByte = byte := by
  simpa using List.find?_some found

end StackAsm.Opcode
