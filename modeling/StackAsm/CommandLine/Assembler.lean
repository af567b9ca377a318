import StackAsm.CommandLine.Arguments
import StackAsm.CommandLine.Report
import StackAsm.Files.Path
import StackAsm.Listing
import StackAsm.Session

/-!
# The assembler's command line

The assembler builds an output file from a source, runs a source, or checks it.
-/

set_option autoImplicit false

namespace StackAsm.CommandLine.Assembler

inductive Command where
  | build (input : String) (output : Option String) (form : OutputForm) (marker : String)
  | run (input : String) (trace : Bool) (limit : Option Nat) (marker : String)
  | check (input : String) (marker : String)
deriving DecidableEq, Repr

/-- A command and whether its work is reported in detail. -/
structure Invocation where
  debug : Bool
  command : Command
deriving DecidableEq, Repr

def Invocation.level (invocation : Invocation) : Level :=
  match invocation.command with
  | .run _ true _ _ => .trace
  | _ => if invocation.debug then .debug else .warn

/-! ## Arguments -/

/-- The flag for detailed reports, which stands before or after the
subcommand. -/
def debugFlag : Spec :=
  ⟨"debug", none, .flag⟩

def commentOption : Spec :=
  ⟨"comment", none, .value anyText⟩

def formOfWord : String → OutputForm
  | "json" => .json
  | "listing" => .listing
  | _ => .bytecode

def topGrammar : Grammar where
  options := [debugFlag, helpOption, versionOption]
  subcommands := ["build", "run", "check", "help"]

def buildGrammar : Grammar where
  options := [⟨"output", some 'o', .value nonEmptyPath⟩,
    ⟨"emit", none, .value (oneOf ["bytecode", "json", "listing"])⟩,
    commentOption, debugFlag, helpOption]
  operand := some nonEmptyPath

def runGrammar : Grammar where
  options := [⟨"trace", none, .flag⟩, limitOption, commentOption, debugFlag, helpOption]
  operand := some nonEmptyPath

def checkGrammar : Grammar where
  options := [commentOption, debugFlag, helpOption]
  operand := some nonEmptyPath

/-- The comment marker given, a semicolon by default. -/
def markerText (given : Given) : String :=
  (given.value? "comment").getD ";"

def buildCommand (given : Given) (input : String) : Command :=
  .build input (given.value? "output") (formOfWord ((given.value? "emit").getD "bytecode"))
    (markerText given)

def runCommand (given : Given) (input : String) : Command :=
  .run input (given.hasFlag "trace") given.limit? (markerText given)

def checkCommand (given : Given) (input : String) : Command :=
  .check input (markerText given)

def readSubcommand (debug : Bool) (grammar : Grammar) (make : Given → String → Command)
    (arguments : List String) : Except Rejection Invocation :=
  match readCommand grammar arguments with
  | .error rejection => .error rejection
  | .ok (given, input) => .ok ⟨debug || given.hasFlag "debug", make given input⟩

/-- Help may be asked for one subcommand. -/
def helpFor : List String → Rejection
  | [] => .helpRequested
  | [name] => if name ∈ topGrammar.subcommands then .helpRequested else .unknownSubcommand
  | _ => .unknownSubcommand

def Invocation.ofArguments (arguments : List String) : Except Rejection Invocation :=
  match readAll topGrammar {} arguments with
  | .error rejection => .error rejection
  | .ok (given, none) =>
    .error (if given.flags.isEmpty then .noArguments else .missingSubcommand)
  | .ok (given, some (name, rest)) =>
    let debug := given.hasFlag "debug"
    if name = "build" then readSubcommand debug buildGrammar buildCommand rest
    else if name = "run" then readSubcommand debug runGrammar runCommand rest
    else if name = "check" then readSubcommand debug checkGrammar checkCommand rest
    else .error (helpFor rest)

/-! ## Commands -/

inductive Failure where
  | unreadable (path : String) (error : FileError)
  | marker (error : SourceError)
  | source (path : String) (error : SourceError)
  | image (path : String) (failure : Session.Failure)
  | output (path : String) (error : FileError)
  | session (failure : Session.Failure)
deriving DecidableEq, Repr

def sessionCause : Session.Failure → String
  | .fault fault => fault.message
  | .file error => error.message
  | .unreadable error => "IO error: " ++ error.message
  | .image error => error.message
  | .unwritable error => error.message
  | .interrupted => "Execution interrupted"

def Failure.message : Failure → String
  | .unreadable path error => "Failed to read source file " ++ path ++ ": " ++ error.message
  | .marker error => error.message
  | .source path error => "Failed to compile " ++ path ++ ": " ++ error.message
  | .image path failure => "Failed to write image " ++ path ++ ": " ++ sessionCause failure
  | .output path error => "Failed to write " ++ path ++ ": " ++ error.message
  | .session failure => failure.message ++ ": " ++ sessionCause failure

structure Compiled where
  result : Except Failure Assembly
  events : List Event := []

def compileContents (input markerText : String) (contents : Except FileError Bytes) : Compiled :=
  match contents.bind Bytes.text with
  | .error error => { result := .error (.unreadable input error) }
  | .ok text =>
    match Source.Marker.ofString markerText with
    | .error error => { result := .error (.marker error) }
    | .ok marker =>
      let source := Source.scan marker text
      match Assembly.ofLines source with
      | .error error => ⟨.error (.source input error), Assembly.events source⟩
      | .ok assembly => ⟨.ok assembly, Assembly.events source⟩

/-- The path an output goes to when none is chosen.  A listing has none: it is
shown on the console. -/
def defaultOutput? (input : String) : OutputForm → Option String
  | .bytecode => some (Path.withExtension input "svb")
  | .json => some (Path.withExtension input "json")
  | .listing => none

section

variable {m : Type → Type} [Monad m] [Files m]

def compile (input markerText : String) : m Compiled := do
  return compileContents input markerText (← Files.read input)

def writeText (path text : String) : m (Except Failure Unit) := do
  match ← Files.write path (Bytes.ofText text) with
  | .error error => return .error (.output path error)
  | .ok _ => return .ok ()

def writeOutput (path : String) (form : OutputForm) (assembly : Assembly) :
    m (Except Failure Unit) := do
  match form with
  | .bytecode =>
    match ← Session.writeImage path assembly.program with
    | .error failure => return .error (.image path failure)
    | .ok _ => return .ok ()
  | .json => writeText path (Listing.ofAssembly assembly).json
  | .listing => writeText path (Listing.ofAssembly assembly).text

def build (input : String) (output : Option String) (form : OutputForm) (markerText : String) :
    m Report := do
  let compiled : Compiled ← compile input markerText
  match compiled.result with
  | .error failure => return { events := compiled.events, failure := some failure.message }
  | .ok assembly =>
    match output <|> defaultOutput? input form with
    | none =>
      return { console := (Listing.ofAssembly assembly).text, events := compiled.events }
    | some path =>
      match ← writeOutput path form assembly with
      | .error failure => return { events := compiled.events, failure := some failure.message }
      | .ok _ =>
        return { console := "Wrote " ++ path ++ "\n"
                 events := compiled.events ++ [.outputWritten form path] }

def run (config : Session.Config) (fuel : Nat) (input markerText : String) : m Report := do
  let compiled : Compiled ← compile input markerText
  match compiled.result with
  | .error failure => return { events := compiled.events, failure := some failure.message }
  | .ok assembly =>
    let executed := Session.execute config fuel assembly.program
    let events := compiled.events ++ executed.events
    match executed.result with
    | .error failure => return ⟨executed.console, events, some (Failure.session failure).message⟩
    | .ok _ => return ⟨executed.console, events, none⟩

def check (input markerText : String) : m Report := do
  let compiled : Compiled ← compile input markerText
  match compiled.result with
  | .error failure => return { events := compiled.events, failure := some failure.message }
  | .ok assembly =>
    return { console := input ++ ": ok (" ++ Text.Decimal.ofNat assembly.program.size ++
               " instructions)\n"
             events := compiled.events }

/-- Carries out an invocation; a run executes at most `fuel` instructions. -/
def perform (fuel : Nat) (invocation : Invocation) : m Report :=
  match invocation.command with
  | .build input output form marker => build input output form marker
  | .run input trace limit marker => run ⟨invocation.debug, trace, true, limit⟩ fuel input marker
  | .check input marker => check input marker

end

end StackAsm.CommandLine.Assembler
