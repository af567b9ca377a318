import StackAsm.Instruction

/-!
# Frames and faults

A call leaves a frame behind; a run ends early with a fault, which is an error
together with the index of the instruction that met it.
-/

set_option autoImplicit false

namespace StackAsm

/-- What a call remembers until its return. -/
structure Frame where
  /-- The instruction to resume at. -/
  returnPointer : Nat
  /-- The stack depth at the call: the arguments lie below it, the locals of
  the callee at and above it. -/
  stackOffset : Nat
deriving DecidableEq, Repr, Inhabited

def Frame.render (frame : Frame) : String :=
  "CallFrame \x7b return_pointer: " ++ Text.Decimal.ofNat frame.returnPointer ++
    ", stack_offset: " ++ Text.Decimal.ofNat frame.stackOffset ++ " \x7d"

inductive Machine.Error where
  | stackUnderflow
  | callStackUnderflow
  | noActiveFrame
  | indexOutOfBounds (index depth : Nat)
  | argumentOutOfBounds (index offset : Nat)
  | divisionByZero
  | arithmeticOverflow
  | instructionLimitExceeded (limit : Nat)
deriving DecidableEq, Repr

def Machine.Error.message : Machine.Error → String
  | .stackUnderflow => "Stack underflow"
  | .callStackUnderflow => "Return with empty call stack"
  | .noActiveFrame => "Argument access outside of a procedure call"
  | .indexOutOfBounds index depth =>
    "Stack index out of bounds: " ++ Text.Decimal.ofNat index ++
      " (stack depth " ++ Text.Decimal.ofNat depth ++ ")"
  | .argumentOutOfBounds index offset =>
    "Argument index out of bounds: " ++ Text.Decimal.ofNat index ++
      " (frame offset " ++ Text.Decimal.ofNat offset ++ ")"
  | .divisionByZero => "Division by zero"
  | .arithmeticOverflow => "Arithmetic overflow"
  | .instructionLimitExceeded limit =>
    "Instruction limit of " ++ Text.Decimal.ofNat limit ++ " exceeded"

structure Fault where
  error : Machine.Error
  pc : Nat
deriving DecidableEq, Repr

def Fault.message (fault : Fault) : String :=
  fault.error.message ++ " at instruction " ++ Text.Decimal.ofNat fault.pc

end StackAsm
