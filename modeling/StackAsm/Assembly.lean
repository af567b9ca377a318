import StackAsm.Journal
import StackAsm.Symbols

/-!
# Assembly

Every statement becomes exactly one instruction, so that the indices of the
symbols stay valid.  Declarations of labels and closing statements become
instructions without effect.  An opening statement becomes a jump past the
procedure, so that a body is only entered through a call.
-/

set_option autoImplicit false

namespace StackAsm

def lower (symbols : Symbols) (source : Numbered) : Except SourceError Instruction :=
  match source.statement with
  | .plain instruction => .ok instruction
  | .label _ => .ok .noop
  | .procEnd => .ok .noop
  | .proc name =>
    match symbols.procedure? name with
    | some procedure => .ok (.jump procedure.exit)
    | none => .error (.undefinedProcedure name source.line)
  | .call name =>
    match symbols.procedure? name with
    | some procedure => .ok (.call procedure.callTarget)
    | none => .error (.undefinedProcedure name source.line)
  | .jump kind label =>
    match symbols.label? label with
    | some target => .ok (kind.instruction target)
    | none => .error (.undefinedLabel label source.line)

/-- A buffer that collects instructions.  One emitter serves any number of
units after each other. -/
structure Emitter where
  buffer : Array Instruction := #[]

namespace Emitter

def fill (symbols : Symbols) (emitter : Emitter) :
    List Numbered → Option SourceError × Emitter
  | [] => (none, emitter)
  | source :: rest =>
    match lower symbols source with
    | .error error => (some error, emitter)
    | .ok instruction => fill symbols ⟨emitter.buffer.push instruction⟩ rest

/-- The program of a unit.  The buffer is emptied before it is filled, and
handed over when every statement was lowered. -/
def generate (emitter : Emitter) (symbols : Symbols) (statements : List Numbered) :
    Except SourceError Program × Emitter :=
  match fill symbols { emitter with buffer := emitter.buffer.shrink 0 } statements with
  | (some error, filled) => (.error error, filled)
  | (none, filled) => (.ok filled.buffer, {})

end Emitter

structure Assembly where
  program : Program
  symbols : Symbols
  /-- The source line of each instruction. -/
  lines : List Nat

namespace Assembly

def ofLines (source : List Source.Line) : Except SourceError Assembly :=
  match Source.statements source with
  | .error error => .error error
  | .ok statements =>
    match Symbols.resolve statements with
    | .error error => .error error
    | .ok symbols =>
      match (({} : Emitter).generate symbols statements).1 with
      | .error error => .error error
      | .ok program => .ok ⟨program, symbols, source.map Source.Line.number⟩

def ofRawLines (marker : Source.Marker) (raw : List String) : Except SourceError Assembly :=
  ofLines (Source.scanLines marker raw)

def ofText (marker : Source.Marker) (text : String) : Except SourceError Assembly :=
  ofLines (Source.scan marker text)

end Assembly

def Symbols.resolveEvents (statements : List Numbered) : List Event :=
  match Symbols.resolve statements with
  | .error _ => []
  | .ok symbols => [.namesResolved symbols.labels.size symbols.procedures.size]

/-- What assembling meaningful lines reports: the resolved names as soon as
they are known, and the number of instructions at the end. -/
def Assembly.events (source : List Source.Line) : List Event :=
  match Source.statements source with
  | .error _ => []
  | .ok statements =>
    Symbols.resolveEvents statements ++
      match ofLines source with
      | .error _ => []
      | .ok assembly => [.assembled assembly.program.size]

end StackAsm
