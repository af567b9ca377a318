/-!
# Decimal numbers

Numbers are written in decimal without leading zeros, a minus sign in front of
negative ones.  Reading takes the digits from left to right and stops at the
first defect: at each character the digit itself is tested before the value
reached so far is tested against the range.
-/

set_option autoImplicit false

namespace StackAsm.Text.Decimal

def ofNat (n : Nat) : String :=
  n.repr

def ofInt (n : Int) : String :=
  if n < 0 then "-" ++ ofNat n.natAbs else ofNat n.natAbs

inductive Error where
  | empty
  | invalidDigit
  | tooLarge
  | tooSmall
deriving DecidableEq, Repr

def Error.message : Error → String
  | .empty => "cannot parse integer from empty string"
  | .invalidDigit => "invalid digit found in string"
  | .tooLarge => "number too large to fit in target type"
  | .tooSmall => "number too small to fit in target type"

def digit? (c : Char) : Option Nat :=
  if '0' ≤ c ∧ c ≤ '9' then some (c.toNat - '0'.toNat) else none

inductive Sign where
  | plus
  | minus
deriving DecidableEq, Repr

/-- The value reached by appending a digit to the digits read so far. -/
def Sign.append (sign : Sign) (value : Int) (digit : Nat) : Int :=
  match sign with
  | .plus => value * 10 + digit
  | .minus => value * 10 - digit

def Sign.overflow : Sign → Error
  | .plus => .tooLarge
  | .minus => .tooSmall

/-- Reads digits after the ones that gave `value`, keeping every value on the
way between `low` and `high`. -/
def readDigits (low high : Int) (sign : Sign) (value : Int) :
    List Char → Except Error Int
  | [] => .ok value
  | c :: rest =>
    match digit? c with
    | none => .error .invalidDigit
    | some digit =>
      let next := sign.append value digit
      if low ≤ next ∧ next ≤ high then readDigits low high sign next rest
      else .error sign.overflow

def readMagnitude (low high : Int) (sign : Sign) : List Char → Except Error Int
  | [] => .error .invalidDigit
  | digits => readDigits low high sign 0 digits

def readUnsigned (high : Int) : List Char → Except Error Int
  | [] => .error .empty
  | '+' :: digits => readMagnitude 0 high .plus digits
  | digits => readMagnitude 0 high .plus digits

def readSigned (low high : Int) : List Char → Except Error Int
  | [] => .error .empty
  | '+' :: digits => readMagnitude low high .plus digits
  | '-' :: digits => readMagnitude low high .minus digits
  | digits => readMagnitude low high .plus digits

def readInt64 (text : String) : Except Error Int64 :=
  (readSigned (-0x8000000000000000) 0x7fffffffffffffff text.toList).map Int64.ofInt

def readWord (text : String) : Except Error Nat :=
  (readUnsigned 0xffffffffffffffff text.toList).map Int.toNat

end StackAsm.Text.Decimal
