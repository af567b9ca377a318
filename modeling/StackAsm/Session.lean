import StackAsm.Files.Access
import StackAsm.Image.Decode
import StackAsm.Machine.Run

/-!
# Sessions

A session loads programs from image files and executes them under one
configuration.  Its errors say whether the file, the image or the run failed.
-/

set_option autoImplicit false

namespace StackAsm.Session

/-- How a session executes programs and what it reports. -/
structure Config where
  /-- Report loading and completion. -/
  debug : Bool := false
  /-- Journal every instruction and the stack it meets. -/
  trace : Bool := false
  /-- Write printed values to the console. -/
  echo : Bool := false
  /-- The number of instructions a run may execute. -/
  limit : Option Nat := none
deriving DecidableEq, Repr

def Config.options (config : Config) : Machine.Options :=
  ⟨config.trace, config.echo, config.limit⟩

inductive Failure where
  | fault (fault : Fault)
  | file (error : FileError)
  | unreadable (error : FileError)
  | image (error : Image.DecodeError)
  | unwritable (error : Image.EncodeError)
  | interrupted
deriving DecidableEq, Repr

def Failure.message : Failure → String
  | .fault cause => "VM fault: " ++ cause.message
  | .file error => "IO error: " ++ error.message
  | .unreadable error => "Bytecode parsing error: IO error: " ++ error.message
  | .image error => "Bytecode parsing error: " ++ error.message
  | .unwritable error => "IO error: " ++ error.message
  | .interrupted => "Execution interrupted"

/-- What an operation of a session gives: its result, the events it reported
and the text it wrote to the console. -/
structure Report (α : Type) where
  result : Except Failure α
  events : List Event := []
  console : String := ""

/-- The program in the contents of a file.  A directory can be opened, but its
bytes cannot be read. -/
def loadContents (config : Config) (path : String) :
    Except FileError Bytes → Report Program
  | .error .isADirectory => { result := .error (.unreadable .isADirectory) }
  | .error error => { result := .error (.file error) }
  | .ok contents =>
    let reading := Image.decode contents
    let decoded := Image.decodeEvents reading
    match reading with
    | .error error => { result := .error (.image error), events := decoded }
    | .ok (program, _) =>
      { result := .ok program
        events := decoded ++
          if config.debug then [.imageLoaded path, .imageSize program.size] else [] }

def execute (config : Config) (fuel : Nat) (program : Program) : Report Machine.Execution :=
  let (status, machine) := Machine.runProgram config.options fuel program
  let events := machine.journal.toList
  let console := machine.consoleText
  match status with
  | .faulted fault => ⟨.error (.fault fault), events, console⟩
  | .running => ⟨.error .interrupted, events, console⟩
  | .halted =>
    let execution := machine.execution
    let completed : List Event :=
      if config.debug then
        [.runCompleted execution.steps execution.output.size execution.stack.size]
      else []
    ⟨.ok execution, events ++ completed, console⟩

section

variable {m : Type → Type} [Monad m] [Files m]

def load (config : Config) (path : String) : m (Report Program) := do
  return loadContents config path (← Files.read path)

def executeFile (config : Config) (fuel : Nat) (path : String) :
    m (Report Machine.Execution) := do
  let loaded : Report Program ← load config path
  match loaded.result with
  | .error failure => return ⟨.error failure, loaded.events, loaded.console⟩
  | .ok program =>
    let executed := execute config fuel program
    return ⟨executed.result, loaded.events ++ executed.events, executed.console⟩

/-- Writes a program to an image file.  A program that does not fit leaves the
bytes before the point where that shows. -/
def writeImage (path : String) (program : Program) : m (Except Failure Unit) := do
  let written := Image.encode program
  match ← Files.write path written.bytes with
  | .error error => return .error (.file error)
  | .ok _ =>
    match written.failure with
    | some error => return .error (.unwritable error)
    | none => return .ok ()

end

end StackAsm.Session
