import StackAsm.Machine.Step

/-!
# Runs

A run repeats fetching and executing until the program counter leaves the
program, an instruction fails, or the instruction limit is reached.  Programs
may run forever, so a run is given the number of instructions it may execute
before it is interrupted; an interrupted run can be continued.
-/

set_option autoImplicit false

namespace StackAsm.Machine

/-- How a run stands. -/
inductive Status where
  /-- The program counter left the program. -/
  | halted
  /-- An instruction failed or the limit was reached. -/
  | faulted (fault : Fault)
  /-- The run was interrupted. -/
  | running
deriving DecidableEq, Repr

/-- The limit, if the machine has used it up. -/
def limitReached? (options : Options) (machine : Machine) : Option Nat :=
  match options.limit with
  | none => none
  | some limit => if limit ≤ machine.steps then some limit else none

def recordExecuting (options : Options) (pc : Nat) (instruction : Instruction) :
    Action Unit := do
  if options.trace then
    record [.executing pc instruction]
    showStack

/-- Moves past the instruction found at the program counter and lets it take
effect. -/
def perform (options : Options) (instruction : Instruction) : Action Unit := do
  let pc := (← get).pc
  advance
  recordExecuting options pc instruction
  step options instruction

/-- Runs a machine for at most `fuel` instructions. -/
def run (options : Options) (program : Program) : Nat → Machine → Status × Machine
  | 0, machine => (.running, machine)
  | fuel + 1, machine =>
    let pc := machine.pc
    match program[pc]? with
    | none => (.halted, machine)
    | some instruction =>
      match limitReached? options machine with
      | some limit => (.faulted ⟨.instructionLimitExceeded limit, pc⟩, machine)
      | none =>
        match (perform options instruction).run machine with
        | .error error machine => (.faulted ⟨error, pc⟩, machine)
        | .ok _ machine => run options program fuel machine

structure Execution where
  /-- The printed values, in order. -/
  output : Array Value
  /-- The value stack at the end, bottom first. -/
  stack : Array Value
  /-- The number of instructions executed. -/
  steps : Nat
deriving DecidableEq, Repr

def Execution.top? (execution : Execution) : Option Value :=
  execution.stack.back?

def execution (machine : Machine) : Execution :=
  ⟨machine.output, machine.stack, machine.steps⟩

def initial (options : Options) (program : Program) : Machine :=
  { tracing := options.trace
    journal := if options.trace then #[.runStarted program.size] else #[] }

def recordEnd (status : Status) (machine : Machine) : Machine :=
  match status with
  | .halted =>
    { machine with journal := machine.journal.push (.runHalted machine.steps machine.depth) }
  | .faulted fault =>
    { machine with journal := machine.journal.push (.runFaulted machine.steps fault) }
  | .running => machine

/-- Runs a program from its first instruction with an empty stack. -/
def runProgram (options : Options) (fuel : Nat) (program : Program) : Status × Machine :=
  let (status, machine) := run options program fuel (initial options program)
  (status, recordEnd status machine)

end StackAsm.Machine
