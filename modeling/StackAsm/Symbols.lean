import StackAsm.NameTable
import StackAsm.Source.Statement

/-!
# Symbols

Statements are numbered from zero; a statement's number is the index of its
instruction.  A label stands for the index of its declaration.  A procedure is
opened by one statement and closed by the next closing one; procedures do not
nest.  All labels are examined before the procedures.
-/

set_option autoImplicit false

namespace StackAsm

structure Procedure where
  /-- The index of the opening statement. -/
  entry : Nat
  /-- The index after the closing statement. -/
  exit : Nat
deriving DecidableEq, Repr

/-- Where a call lands: the first statement of the body. -/
def Procedure.callTarget (procedure : Procedure) : Nat :=
  procedure.entry + 1

structure Symbols where
  labels : NameTable Nat
  procedures : NameTable Procedure

namespace Symbols

def label? (symbols : Symbols) (name : String) : Option Nat :=
  symbols.labels.get? name

def procedure? (symbols : Symbols) (name : String) : Option Procedure :=
  symbols.procedures.get? name

/-- Where a name was declared. -/
structure Site where
  /-- The index of the declaring statement. -/
  index : Nat
  /-- The source line of the declaring statement. -/
  line : Nat
deriving DecidableEq, Repr

/-- Adds the labels declared by statements whose indices start at `index`. -/
def collectLabels (index : Nat) (found : NameTable Site) :
    List Numbered → Except SourceError (NameTable Site)
  | [] => .ok found
  | ⟨line, .label name⟩ :: rest =>
    match found.get? name with
    | some first => .error (.duplicateLabel name line first.line)
    | none => collectLabels (index + 1) (found.insert name ⟨index, line⟩) rest
  | _ :: rest => collectLabels (index + 1) found rest

structure Closed where
  opened : Site
  exit : Nat
deriving DecidableEq, Repr

/-- Adds the procedures declared by statements whose indices start at `index`.
At most one procedure is open at a time. -/
def collectProcedures (index : Nat) (current : Option (String × Site))
    (found : NameTable Closed) :
    List Numbered → Except SourceError (NameTable Closed)
  | [] =>
    match current with
    | some (name, opened) => .error (.unterminatedProcedure name opened.line)
    | none => .ok found
  | ⟨line, .proc name⟩ :: rest =>
    match current with
    | some (outer, _) => .error (.nestedProcedure name outer line)
    | none =>
      match found.get? name with
      | some first => .error (.duplicateProcedure name line first.opened.line)
      | none => collectProcedures (index + 1) (some (name, ⟨index, line⟩)) found rest
  | ⟨line, .procEnd⟩ :: rest =>
    match current with
    | none => .error (.unmatchedEnd line)
    | some (name, opened) =>
      collectProcedures (index + 1) none (found.insert name ⟨opened, index + 1⟩) rest
  | _ :: rest => collectProcedures (index + 1) current found rest

def resolve (statements : List Numbered) : Except SourceError Symbols :=
  match collectLabels 0 .empty statements with
  | .error error => .error error
  | .ok labels =>
    match collectProcedures 0 none .empty statements with
    | .error error => .error error
    | .ok procedures =>
      .ok ⟨labels.map Site.index, procedures.map fun closed => ⟨closed.opened.index, closed.exit⟩⟩

end Symbols

end StackAsm
