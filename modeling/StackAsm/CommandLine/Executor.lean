import StackAsm.CommandLine.Arguments
import StackAsm.CommandLine.Report
import StackAsm.Session

/-!
# The executor's command line

The executor runs the program in an image file.  It can first write the
demonstration program to that file.
-/

set_option autoImplicit false

namespace StackAsm.CommandLine.Executor

structure Invocation where
  image : String
  writeDemo : Bool
  debug : Bool
  trace : Bool
  limit : Option Nat
deriving DecidableEq, Repr

def Invocation.level (invocation : Invocation) : Level :=
  if invocation.trace then .trace else if invocation.debug then .debug else .warn

def Invocation.config (invocation : Invocation) : Session.Config :=
  ⟨invocation.debug, invocation.trace, true, invocation.limit⟩

def grammar : Grammar where
  options := [⟨"write-demo", none, .flag⟩, ⟨"debug", none, .flag⟩, ⟨"trace", none, .flag⟩,
    limitOption, helpOption, versionOption]
  operand := some nonEmptyPath

def Invocation.ofArguments (arguments : List String) : Except Rejection Invocation :=
  match readCommand grammar arguments with
  | .error rejection => .error rejection
  | .ok (given, image) =>
    .ok ⟨image, given.hasFlag "write-demo", given.hasFlag "debug", given.hasFlag "trace",
      given.limit?⟩

section

variable {m : Type → Type} [Monad m] [Files m]

def prepare (invocation : Invocation) : m (Except Session.Failure (List Event)) := do
  if invocation.writeDemo then
    match ← Session.writeImage invocation.image Program.demo with
    | .error failure => return .error failure
    | .ok _ => return .ok [.demoCreated invocation.image]
  else return .ok []

def perform (fuel : Nat) (invocation : Invocation) : m Report := do
  match ← prepare invocation with
  | .error failure => return { events := [.executorStarted], failure := some failure.message }
  | .ok created =>
    let executed : Session.Report Machine.Execution ←
      Session.executeFile invocation.config fuel invocation.image
    let events := .executorStarted :: created ++ executed.events
    match executed.result with
    | .error failure => return ⟨executed.console, events, some failure.message⟩
    | .ok _ => return ⟨executed.console, events, none⟩

end

end StackAsm.CommandLine.Executor
