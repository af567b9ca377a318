import StackAsm.Text.Decimal
import StackAsm.Text.Quoted

/-!
# Indented JSON

Objects and arrays are written with one item on a line, two spaces deeper than
their brackets.  An empty object or array is its two brackets.
-/

set_option autoImplicit false

namespace StackAsm.Text.Indented

def margin (depth : Nat) : List Char :=
  '\n' :: List.replicate (2 * depth) ' '

/-- The items of a block, each on a line of its own, commas between them. -/
def items (depth : Nat) : List (List Char) → List Char
  | [] => []
  | [item] => margin depth ++ item
  | item :: rest => margin depth ++ item ++ ',' :: items depth rest

/-- A block between brackets that stand at a depth. -/
def block (opening closing : Char) (depth : Nat) (contents : List (List Char)) : List Char :=
  if contents.isEmpty then [opening, closing]
  else opening :: items (depth + 1) contents ++ margin depth ++ [closing]

def object (depth : Nat) (members : List (List Char)) : List Char :=
  block '\x7b' '\x7d' depth members

def array (depth : Nat) (elements : List (List Char)) : List Char :=
  block '[' ']' depth elements

def member (key : String) (value : List Char) : List Char :=
  Quoted.quote key.toList ++ ':' :: ' ' :: value

def number (n : Nat) : List Char :=
  (Decimal.ofNat n).toList

def string (text : String) : List Char :=
  Quoted.quote text.toList

end StackAsm.Text.Indented
