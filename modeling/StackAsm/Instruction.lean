import StackAsm.Text.Decimal

/-!
# Instructions and programs

The machine's only values are signed 64-bit numbers.  A pointer operand is an
instruction index for jumps and calls, and an index into the value stack,
counted from the current frame, for the four addressing instructions.
-/

set_option autoImplicit false

namespace StackAsm

/-- The machine's only kind of value. -/
abbrev Value := Int64

/-- The number of different pointers: a pointer fits in 64 bits. -/
def pointerLimit : Nat := 0x10000000000000000

def Value.render (value : Value) : String :=
  Text.Decimal.ofInt value.toInt

inductive Instruction where
  | push (value : Value)
  | pop
  | add
  | sub
  | mul
  | div
  | print
  | jump (target : Nat)
  | jumpIfZero (target : Nat)
  | jumpIfNonZero (target : Nat)
  | get (index : Nat)
  | set (index : Nat)
  | getArg (index : Nat)
  | setArg (index : Nat)
  | call (target : Nat)
  | ret
  | noop
deriving DecidableEq, Repr, Inhabited

inductive Opcode where
  | noop
  | print
  | push
  | pop
  | add
  | sub
  | mul
  | div
  | jump
  | jumpIfZero
  | jumpIfNonZero
  | call
  | ret
  | get
  | set
  | getArg
  | setArg
deriving DecidableEq, Repr

/-- The word that stands for an opcode in a listing. -/
def Opcode.mnemonic : Opcode → String
  | .noop => "Noop"
  | .print => "Print"
  | .push => "Push"
  | .pop => "Pop"
  | .add => "Add"
  | .sub => "Sub"
  | .mul => "Mul"
  | .div => "Div"
  | .jump => "Jump"
  | .jumpIfZero => "JE"
  | .jumpIfNonZero => "JNE"
  | .call => "Call"
  | .ret => "Ret"
  | .get => "Get"
  | .set => "Set"
  | .getArg => "GetArg"
  | .setArg => "SetArg"

namespace Instruction

def opcode : Instruction → Opcode
  | .push _ => .push
  | .pop => .pop
  | .add => .add
  | .sub => .sub
  | .mul => .mul
  | .div => .div
  | .print => .print
  | .jump _ => .jump
  | .jumpIfZero _ => .jumpIfZero
  | .jumpIfNonZero _ => .jumpIfNonZero
  | .get _ => .get
  | .set _ => .set
  | .getArg _ => .getArg
  | .setArg _ => .setArg
  | .call _ => .call
  | .ret => .ret
  | .noop => .noop

def pointer? : Instruction → Option Nat
  | .jump target => some target
  | .jumpIfZero target => some target
  | .jumpIfNonZero target => some target
  | .get index => some index
  | .set index => some index
  | .getArg index => some index
  | .setArg index => some index
  | .call target => some target
  | _ => none

/-- The operand in decimal, for the instructions that carry one. -/
def operand? : Instruction → Option String
  | .push value => some value.render
  | instruction => instruction.pointer?.map Text.Decimal.ofNat

def render (instruction : Instruction) : String :=
  match instruction.operand? with
  | some operand => instruction.opcode.mnemonic ++ " " ++ operand
  | none => instruction.opcode.mnemonic

end Instruction

abbrev Program := Array Instruction

namespace Program

/-- A program that adds two numbers through a procedure reading its two
arguments, and then counts down from three. -/
def demo : Program :=
  #[.push 3, .push 4, .call 7, .print, .pop, .pop, .jump 11,
    .getArg 1, .getArg 0, .add, .ret,
    .pop, .push 3, .print, .push 1, .sub, .get 0, .jumpIfNonZero 13, .pop, .pop]

end Program

end StackAsm
