import StackAsm.Source.Error
import StackAsm.Text.Blank
import StackAsm.Text.Lines

/-!
# Meaningful source lines

A comment begins at a marker and reaches to the end of the line.  What stands
before it is cut into words; a line with at least one word is meaningful, and
its position among the meaningful lines is its instruction index.

A raw line may itself hold newlines.  A comment never reaches past a newline,
so a marker with a newline after it begins none.
-/

set_option autoImplicit false

namespace StackAsm.Source

/-- A comment marker shows at least one character. -/
structure Marker where
  text : List Char
  visible : Text.isAllBlank text = false
deriving DecidableEq, Repr

namespace Marker

def ofString (text : String) : Except SourceError Marker :=
  if visible : Text.isAllBlank text.toList = false then .ok ⟨text.toList, visible⟩
  else .error .blankMarker

def toString (marker : Marker) : String :=
  String.ofList marker.text

def semicolon : Marker :=
  ⟨[';'], by decide⟩

/-- Whether a text begins with the marker and has no newline after it. -/
def opens (marker : Marker) (text : List Char) : Bool :=
  marker.text.isPrefixOf text && !(text.drop marker.text.length).contains '\n'

end Marker

/-- The part of a raw line before its comment. -/
def codePart (marker : Marker) : List Char → List Char
  | [] => []
  | c :: rest => if marker.opens (c :: rest) then [] else c :: codePart marker rest

/-- A meaningful line: its number, its first word and the words after it. -/
structure Line where
  /-- The position of the raw line, counted from one. -/
  number : Nat
  mnemonic : String
  operands : List String
deriving DecidableEq, Repr

namespace Line

def ofTokens? (number : Nat) : List String → Option Line
  | [] => none
  | mnemonic :: operands => some ⟨number, mnemonic, operands⟩

def tokens (line : Line) : List String :=
  line.mnemonic :: line.operands

end Line

def tokens (marker : Marker) (raw : String) : List String :=
  (Text.words (codePart marker raw.toList)).map String.ofList

/-- The meaningful ones among raw lines whose numbers start at `number`. -/
def scanFrom (marker : Marker) (number : Nat) : List String → List Line
  | [] => []
  | raw :: rest =>
    match Line.ofTokens? number (tokens marker raw) with
    | none => scanFrom marker (number + 1) rest
    | some line => line :: scanFrom marker (number + 1) rest

def scanLines (marker : Marker) (raw : List String) : List Line :=
  scanFrom marker 1 raw

def rawLines (text : String) : List String :=
  (Text.lines text.toList).map String.ofList

def scan (marker : Marker) (text : String) : List Line :=
  scanLines marker (rawLines text)

end StackAsm.Source
