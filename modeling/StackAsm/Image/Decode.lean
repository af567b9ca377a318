import StackAsm.Image.Encode
import StackAsm.Journal
import StackAsm.Text.Quoted

/-!
# Reading images

The magic number is tested first, then the major version; the rest of the
version is read and ignored.  Bytes after the last instruction are left unread.
-/

set_option autoImplicit false

namespace StackAsm.Image

inductive DecodeError where
  | truncated
  | badMagic
  | unsupportedVersion (version : UInt8)
  | unknownOpcode (byte : UInt8) (index : Nat)
deriving DecidableEq, Repr

/-- Two hexadecimal digits in upper case. -/
def hexByte (byte : UInt8) : String :=
  String.ofList [Text.hexDigit 'A' (byte.toNat / 16), Text.hexDigit 'A' (byte.toNat % 16)]

def DecodeError.message : DecodeError → String
  | .truncated => "IO error: failed to fill whole buffer"
  | .badMagic => "Invalid bytecode format: Invalid magic number"
  | .unsupportedVersion version =>
    "Unsupported bytecode version: " ++ Text.Decimal.ofNat version.toNat
  | .unknownOpcode byte index =>
    "Unknown opcode 0x" ++ hexByte byte ++ " at instruction " ++ Text.Decimal.ofNat index

abbrev Reading (α : Type) := Except DecodeError (α × Bytes)

def readByte : Bytes → Reading UInt8
  | [] => .error .truncated
  | byte :: rest => .ok (byte, rest)

def readNumber (width : Nat) (bytes : Bytes) : Reading Nat :=
  match Bytes.readNat? width bytes with
  | none => .error .truncated
  | some reading => .ok reading

def readPointer (make : Nat → Instruction) (bytes : Bytes) : Reading Instruction :=
  match readNumber 4 bytes with
  | .error error => .error error
  | .ok (operand, rest) => .ok (make operand, rest)

def readValue (make : Value → Instruction) (bytes : Bytes) : Reading Instruction :=
  match readNumber 8 bytes with
  | .error error => .error error
  | .ok (operand, rest) => .ok (make (UInt64.ofNat operand).toInt64, rest)

def readOperand (bytes : Bytes) : Opcode → Reading Instruction
  | .noop => .ok (.noop, bytes)
  | .print => .ok (.print, bytes)
  | .push => readValue .push bytes
  | .pop => .ok (.pop, bytes)
  | .add => .ok (.add, bytes)
  | .sub => .ok (.sub, bytes)
  | .mul => .ok (.mul, bytes)
  | .div => .ok (.div, bytes)
  | .jump => readPointer .jump bytes
  | .jumpIfZero => readPointer .jumpIfZero bytes
  | .jumpIfNonZero => readPointer .jumpIfNonZero bytes
  | .call => readPointer .call bytes
  | .ret => .ok (.ret, bytes)
  | .get => readPointer .get bytes
  | .set => readPointer .set bytes
  | .getArg => readPointer .getArg bytes
  | .setArg => readPointer .setArg bytes

def readInstruction (index : Nat) (bytes : Bytes) : Reading Instruction :=
  match readByte bytes with
  | .error error => .error error
  | .ok (byte, rest) =>
    match Opcode.ofByte? byte with
    | none => .error (.unknownOpcode byte index)
    | some opcode => readOperand rest opcode

/-- Reads a number of instructions after the ones already read. -/
def readInstructions (done : Array Instruction) : Nat → Bytes → Reading Program
  | 0, bytes => .ok (done, bytes)
  | count + 1, bytes =>
    match readInstruction done.size bytes with
    | .error error => .error error
    | .ok (instruction, rest) => readInstructions (done.push instruction) count rest

def readMagic (bytes : Bytes) : Except DecodeError Bytes :=
  if bytes.length < magic.length then .error .truncated
  else if bytes.take magic.length = magic then .ok (bytes.drop magic.length)
  else .error .badMagic

def readVersion (bytes : Bytes) : Except DecodeError Bytes :=
  match readByte bytes with
  | .error error => .error error
  | .ok (major, rest) =>
    if major = version then
      match readNumber 3 rest with
      | .error error => .error error
      | .ok (_, rest) => .ok rest
    else .error (.unsupportedVersion major)

def decode (bytes : Bytes) : Reading Program :=
  match readMagic bytes with
  | .error error => .error error
  | .ok rest =>
    match readVersion rest with
    | .error error => .error error
    | .ok rest =>
      match readNumber 4 rest with
      | .error error => .error error
      | .ok (count, rest) => readInstructions #[] count rest

def decodeEvents (result : Reading Program) : List Event :=
  match result with
  | .error _ => []
  | .ok (program, _) => [.imageDecoded program.size]

end StackAsm.Image
