import StackAsm.Assembly
import StackAsm.Text.Indented

/-!
# Listings

A listing shows an assembled source: what its names stand for, and for each
instruction its index, its source line and its text.  It is written either as
one text line for an instruction or as JSON.
-/

set_option autoImplicit false

namespace StackAsm

structure Listing.Entry where
  index : Nat
  line : Nat
  instruction : String
deriving DecidableEq, Repr

structure Listing where
  labels : NameTable Nat
  procedures : NameTable Procedure
  entries : List Listing.Entry

namespace Listing

def ofAssembly (assembly : Assembly) : Listing where
  labels := assembly.symbols.labels
  procedures := assembly.symbols.procedures
  entries := (assembly.program.toList.zip assembly.lines).mapIdx fun index pair =>
    ⟨index, pair.2, pair.1.render⟩

def padLeft (width : Nat) (text : String) : List Char :=
  List.replicate (width - text.length) ' ' ++ text.toList

def padRight (width : Nat) (text : String) : List Char :=
  text.toList ++ List.replicate (width - text.length) ' '

/-- The text line of an instruction: its index right-aligned in four columns,
its text left-aligned in sixteen, its source line. -/
def Entry.textLine (entry : Entry) : List Char :=
  padLeft 4 (Text.Decimal.ofNat entry.index) ++ "  ".toList ++ padRight 16 entry.instruction ++
    " ; line ".toList ++ (Text.Decimal.ofNat entry.line).toList ++ ['\n']

def text (listing : Listing) : String :=
  String.ofList (listing.entries.flatMap Entry.textLine)

open Text.Indented in
def labelMember (entry : String × Nat) : List Char :=
  member entry.1 (number entry.2)

open Text.Indented in
def procedureMember (entry : String × Procedure) : List Char :=
  member entry.1 (object 2
    [member "entry" (number entry.2.entry), member "exit" (number entry.2.exit)])

open Text.Indented in
def Entry.element (entry : Entry) : List Char :=
  object 2
    [member "index" (number entry.index), member "line" (number entry.line),
      member "instruction" (string entry.instruction)]

open Text.Indented in
def json (listing : Listing) : String :=
  String.ofList (object 0
    [member "labels" (object 1 (listing.labels.entries.map labelMember)),
      member "procedures" (object 1 (listing.procedures.entries.map procedureMember)),
      member "instructions" (array 1 (listing.entries.map Entry.element))])

end Listing

end StackAsm
