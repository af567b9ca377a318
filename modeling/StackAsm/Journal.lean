import StackAsm.Machine.Fault
import StackAsm.Text.Lines

/-!
# The journal

Everything the assembler and the machine report about their work is an event.
An event has a level and a text; a reader of the journal chooses the least
important level that is still shown.
-/

set_option autoImplicit false

namespace StackAsm

inductive Level where
  | error
  | warn
  | info
  | debug
  | trace
deriving DecidableEq, Repr

namespace Level

def name : Level → String
  | .error => "ERROR"
  | .warn => "WARN"
  | .info => "INFO"
  | .debug => "DEBUG"
  | .trace => "TRACE"

def rank : Level → Nat
  | .error => 0
  | .warn => 1
  | .info => 2
  | .debug => 3
  | .trace => 4

/-- A journal kept at level `kept` shows events up to that level. -/
def shownAt (level kept : Level) : Bool :=
  level.rank ≤ kept.rank

end Level

/-- The forms in which an assembled unit is written to a file. -/
inductive OutputForm where
  | bytecode
  | json
  | listing
deriving DecidableEq, Repr

def OutputForm.name : OutputForm → String
  | .bytecode => "Bytecode"
  | .json => "Json"
  | .listing => "Listing"

/-- One thing that happened. -/
inductive Event where
  | pushed (value : Value)
  | popped (value : Value)
  | stored (index : Nat) (old new : Value)
  | called (frame : Frame)
  /-- The stack is shown; its values follow, one event each. -/
  | stackShown (depth frames : Nat)
  | slotShown (index : Nat) (value : Value)
  | executing (pc : Nat) (instruction : Instruction)
  | runStarted (instructions : Nat)
  | runHalted (steps depth : Nat)
  | runFaulted (steps : Nat) (fault : Fault)
  | imageDecoded (instructions : Nat)
  | namesResolved (labels procedures : Nat)
  | assembled (instructions : Nat)
  | imageLoaded (path : String)
  | imageSize (instructions : Nat)
  | runCompleted (steps printed depth : Nat)
  | outputWritten (form : OutputForm) (path : String)
  | executorStarted
  | demoCreated (path : String)
deriving DecidableEq, Repr

namespace Event

def level : Event → Level
  | .pushed _ => .trace
  | .popped _ => .trace
  | .stored _ _ _ => .trace
  | .called _ => .trace
  | .stackShown _ _ => .trace
  | .slotShown _ _ => .trace
  | .executing _ _ => .trace
  | .runStarted _ => .trace
  | .runHalted _ _ => .debug
  | .runFaulted _ _ => .debug
  | .imageDecoded _ => .debug
  | .namesResolved _ _ => .debug
  | .assembled _ => .debug
  | .imageLoaded _ => .info
  | .imageSize _ => .info
  | .runCompleted _ _ _ => .info
  | .outputWritten _ _ => .debug
  | .executorStarted => .info
  | .demoCreated _ => .info

open Text in
def message : Event → String
  | .pushed value => "PUSH: " ++ value.render
  | .popped value => "POP: " ++ value.render
  | .stored index old new =>
    "STORE [" ++ Decimal.ofNat index ++ "]: " ++ old.render ++ " -> " ++ new.render
  | .called frame => "CALL: " ++ frame.render
  | .stackShown depth frames =>
    "STACK (depth=" ++ Decimal.ofNat depth ++ ", frames=" ++ Decimal.ofNat frames ++ "):"
  | .slotShown index value => Decimal.ofNat index ++ ": " ++ value.render
  | .executing pc instruction =>
    "Executing instruction at PC " ++ Decimal.ofNat pc ++ ": " ++ instruction.render
  | .runStarted instructions =>
    "Starting execution of " ++ Decimal.ofNat instructions ++
      " instructions with stack tracing enabled"
  | .runHalted steps depth =>
    "execution halted after " ++ Decimal.ofNat steps ++ " steps with stack depth " ++
      Decimal.ofNat depth
  | .runFaulted steps fault =>
    "execution faulted after " ++ Decimal.ofNat steps ++ " steps: " ++ fault.message
  | .imageDecoded instructions =>
    "parsed program image with " ++ Decimal.ofNat instructions ++ " instructions"
  | .namesResolved labels procedures =>
    "resolved " ++ Decimal.ofNat labels ++ " labels and " ++ Decimal.ofNat procedures ++
      " procedures"
  | .assembled instructions => "compiled " ++ Decimal.ofNat instructions ++ " instructions"
  | .imageLoaded path => "Loaded program: " ++ path
  | .imageSize instructions => "Instructions: " ++ Decimal.ofNat instructions
  | .runCompleted steps printed depth =>
    "Execution completed: " ++ Decimal.ofNat steps ++ " steps, " ++ Decimal.ofNat printed ++
      " values printed, final stack depth " ++ Decimal.ofNat depth
  | .outputWritten form path => "wrote " ++ form.name ++ " output to " ++ path
  | .executorStarted => "stackvm bytecode runtime v0.1.0"
  | .demoCreated path => "Created demo image: " ++ path

/-- The line of the journal that reports an event. -/
def line (event : Event) : String :=
  event.level.name ++ " " ++ event.message

/-- The lines that report an event on a stream.  A text of several lines is set
in after its first line, so that the first lines stand out. -/
def streamLines (event : Event) : List String :=
  Text.streamLines (event.level.name.toList ++ ' ' :: Text.setIn event.message.toList)

def shownAt (kept : Level) (events : List Event) : List Event :=
  events.filter fun event => event.level.shownAt kept

end Event

end StackAsm
