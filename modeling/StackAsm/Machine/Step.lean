import StackAsm.Machine.State

/-!
# The effect of one instruction

Arithmetic is exact: the result of an operation is the integer result if it is
a value, and an overflow otherwise.  An instruction that fails keeps what it
did before the failure, such as operands already popped.
-/

set_option autoImplicit false

namespace StackAsm

/-- The value equal to an integer, if there is one. -/
def Value.ofInt? (n : Int) : Option Value :=
  if -0x8000000000000000 ≤ n ∧ n < 0x8000000000000000 then some (Int64.ofInt n) else none

namespace Machine

/-- How a run is bounded and observed. -/
structure Options where
  /-- Journal every instruction and the stack it meets. -/
  trace : Bool := false
  /-- Write each printed value to the console. -/
  echo : Bool := false
  /-- The number of instructions after which a run is stopped. -/
  limit : Option Nat := none
deriving DecidableEq, Repr

def pushExact (result : Int) : Action Unit :=
  match Value.ofInt? result with
  | none => throw .arithmeticOverflow
  | some value => push value

/-- Pops the right operand, then the left one, and pushes the exact result. -/
def arithmetic (operation : Int → Int → Int) : Action Unit := do
  let right ← pop
  let left ← pop
  pushExact (operation left.toInt right.toInt)

/-- Pops the divisor, then the dividend, and pushes the quotient truncated
toward zero. -/
def divide : Action Unit := do
  let right ← pop
  let left ← pop
  if right = 0 then throw .divisionByZero
  else pushExact (left.toInt.tdiv right.toInt)

/-- Jumps if the top value passes a test.  The value is only consumed by a jump
that is taken. -/
def branch (test : Value → Bool) (target : Nat) : Action Unit := do
  if test (← peek) then
    let _ ← pop
    setPc target

def loadFrom (slot : Action Nat) : Action Unit := do
  push (← load (← slot))

def storeTo (slot : Action Nat) : Action Unit := do
  let index ← slot
  store index (← peek)

/-- The effect of an instruction.  The program counter already points past it. -/
def step (options : Options) : Instruction → Action Unit
  | .noop => return
  | .push value => push value
  | .pop => do
    let _ ← pop
  | .add => arithmetic (· + ·)
  | .sub => arithmetic (· - ·)
  | .mul => arithmetic (· * ·)
  | .div => divide
  | .print => do
    let value ← peek
    emit value
    if options.echo then echo value
  | .jump target => setPc target
  | .jumpIfZero target => branch (fun value => value == 0) target
  | .jumpIfNonZero target => branch (fun value => value != 0) target
  | .get index => loadFrom (localIndex index)
  | .set index => storeTo (localIndex index)
  | .getArg index => loadFrom (argumentIndex index)
  | .setArg index => storeTo (argumentIndex index)
  | .call target => do
    pushFrame (← get).pc
    setPc target
  | .ret => do
    setPc (← popFrame).returnPointer

end Machine

end StackAsm
