import StackAsm.Journal

/-!
# The machine's state and its elementary operations

A machine has a program counter, a stack of values, the frames of the pending
calls and the values printed so far.  It also keeps what an observer sees: the
journal and the text written to the console.  The operations below are the only
ones through which instructions act on a machine; each either succeeds or fails
with an error, and leaves a machine in both cases.
-/

set_option autoImplicit false

namespace StackAsm

/-- The state of a run. -/
structure Machine where
  /-- The index of the next instruction. -/
  pc : Nat := 0
  /-- The number of instructions fetched so far. -/
  steps : Nat := 0
  /-- The value stack, bottom first. -/
  stack : Array Value := #[]
  /-- The frames of the pending calls, innermost first. -/
  frames : List Frame := []
  /-- The printed values, in order. -/
  output : Array Value := #[]
  /-- Whether changes of the stack and calls are journalled. -/
  tracing : Bool := false
  /-- What happened so far, in order. -/
  journal : Array Event := #[]
  /-- The pieces of text written to the console, in order. -/
  console : Array String := #[]
deriving DecidableEq, Repr, Inhabited

namespace Machine

abbrev Action (α : Type) := EStateM Error Machine α

def depth (machine : Machine) : Nat :=
  machine.stack.size

def hasNext (program : Program) (machine : Machine) : Bool :=
  machine.pc < program.size

/-- The stack offset of the innermost frame, zero outside all calls. -/
def currentOffset (machine : Machine) : Nat :=
  match machine.frames with
  | [] => 0
  | frame :: _ => frame.stackOffset

/-- The events that show the stack, its top first. -/
def stackEvents (machine : Machine) : List Event :=
  .stackShown machine.depth machine.frames.length ::
    (machine.stack.toList.mapIdx fun index value => Event.slotShown index value).reverse

def record (events : List Event) : Action Unit :=
  modify fun machine => { machine with journal := machine.journal ++ events }

/-- The machine with an event journalled if it is traced. -/
def traced (event : Event) (machine : Machine) : Machine :=
  if machine.tracing then { machine with journal := machine.journal.push event } else machine

def recordTraced (event : Event) : Action Unit :=
  modify (traced event)

def setTracing (enabled : Bool) : Action Unit :=
  modify fun machine => { machine with tracing := enabled }

def setPc (pc : Nat) : Action Unit :=
  modify fun machine => { machine with pc := pc }

/-- Moves past one instruction and counts it. -/
def advance : Action Unit :=
  modify fun machine => { machine with pc := machine.pc + 1, steps := machine.steps + 1 }

/-- Reads the instruction at the program counter and moves past it.  At the end
of the program nothing changes. -/
def fetch (program : Program) : Action (Option Instruction) := do
  match program[(← get).pc]? with
  | none => return none
  | some instruction =>
    advance
    return some instruction

def push (value : Value) : Action Unit := do
  recordTraced (.pushed value)
  modify fun machine => { machine with stack := machine.stack.push value }

def peek : Action Value := do
  match (← get).stack.back? with
  | none => throw .stackUnderflow
  | some value => return value

def pop : Action Value := do
  match (← get).stack.back? with
  | none => throw .stackUnderflow
  | some value =>
    recordTraced (.popped value)
    modify fun machine => { machine with stack := machine.stack.pop }
    return value

def checkIndex (index : Nat) : Action Nat := do
  let depth := (← get).depth
  if index < depth then return index else throw (.indexOutOfBounds index depth)

/-- The absolute index of a local slot of the current frame.  An index whose
sum with the frame's offset is no pointer is reported as it stands. -/
def localIndex (index : Nat) : Action Nat := do
  let machine ← get
  let absolute := index + machine.currentOffset
  if absolute < pointerLimit then checkIndex absolute
  else throw (.indexOutOfBounds index machine.depth)

/-- The absolute index of an argument of the current frame.  Argument zero lies
directly below the frame's boundary. -/
def argumentIndex (index : Nat) : Action Nat := do
  match (← get).frames with
  | [] => throw .noActiveFrame
  | frame :: _ =>
    if index < frame.stackOffset then checkIndex (frame.stackOffset - 1 - index)
    else throw (.argumentOutOfBounds index frame.stackOffset)

def load (index : Nat) : Action Value := do
  let machine ← get
  match machine.stack[index]? with
  | none => throw (.indexOutOfBounds index machine.depth)
  | some value => return value

def store (index : Nat) (value : Value) : Action Unit := do
  match (← get).stack[index]? with
  | none => throw (.indexOutOfBounds index (← get).depth)
  | some old =>
    recordTraced (.stored index old value)
    modify fun machine => { machine with stack := machine.stack.setIfInBounds index value }

/-- Enters a procedure: a frame remembers where to resume and where the
callee's part of the stack begins. -/
def pushFrame (returnPointer : Nat) : Action Unit := do
  let frame : Frame := ⟨returnPointer, (← get).depth⟩
  recordTraced (.called frame)
  modify fun machine => { machine with frames := frame :: machine.frames }

def popFrame : Action Frame := do
  match (← get).frames with
  | [] => throw .callStackUnderflow
  | frame :: rest =>
    modify fun machine => { machine with frames := rest }
    return frame

def emit (value : Value) : Action Unit :=
  modify fun machine => { machine with output := machine.output.push value }

def echo (value : Value) : Action Unit :=
  modify fun machine => { machine with console := machine.console.push (value.render ++ "\n") }

def showStack : Action Unit :=
  modify fun machine => { machine with journal := machine.journal ++ machine.stackEvents }

def consoleText (machine : Machine) : String :=
  String.join machine.console.toList

end Machine

end StackAsm
