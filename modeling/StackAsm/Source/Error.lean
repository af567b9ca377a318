import StackAsm.Text.Decimal

/-!
# Causes for refusing a source

Every cause but an unusable comment marker names the source line it was found
at, counted from one with blank and comment lines included.
-/

set_option autoImplicit false

namespace StackAsm

inductive SourceError where
  | unknownMnemonic (mnemonic : String) (line : Nat)
  | invalidOperand (mnemonic operand : String) (reason : Text.Decimal.Error) (line : Nat)
  | operandCount (mnemonic : String) (expected found : Nat) (line : Nat)
  | undefinedLabel (name : String) (line : Nat)
  | undefinedProcedure (name : String) (line : Nat)
  | duplicateLabel (name : String) (line first : Nat)
  | duplicateProcedure (name : String) (line first : Nat)
  | unterminatedProcedure (name : String) (line : Nat)
  | nestedProcedure (inner outer : String) (line : Nat)
  | unmatchedEnd (line : Nat)
  | blankMarker
deriving DecidableEq, Repr

namespace SourceError

/-- The source line a cause points at. -/
def line? : SourceError → Option Nat
  | .unknownMnemonic _ line => some line
  | .invalidOperand _ _ _ line => some line
  | .operandCount _ _ _ line => some line
  | .undefinedLabel _ line => some line
  | .undefinedProcedure _ line => some line
  | .duplicateLabel _ line _ => some line
  | .duplicateProcedure _ line _ => some line
  | .unterminatedProcedure _ line => some line
  | .nestedProcedure _ _ line => some line
  | .unmatchedEnd line => some line
  | .blankMarker => none

open Text in
def message : SourceError → String
  | .unknownMnemonic mnemonic line =>
    "Unknown mnemonic '" ++ mnemonic ++ "' at line " ++ Decimal.ofNat line
  | .invalidOperand mnemonic operand reason line =>
    "Invalid operand '" ++ operand ++ "' for " ++ mnemonic ++ " at line " ++
      Decimal.ofNat line ++ ": " ++ reason.message
  | .operandCount mnemonic expected found line =>
    mnemonic ++ " expects " ++ Decimal.ofNat expected ++ " operand(s), found " ++
      Decimal.ofNat found ++ " at line " ++ Decimal.ofNat line
  | .undefinedLabel name line =>
    "Undefined label '" ++ name ++ "' at line " ++ Decimal.ofNat line
  | .undefinedProcedure name line =>
    "Undefined procedure '" ++ name ++ "' at line " ++ Decimal.ofNat line
  | .duplicateLabel name line first =>
    "Duplicate label '" ++ name ++ "' at line " ++ Decimal.ofNat line ++
      " (first declared at line " ++ Decimal.ofNat first ++ ")"
  | .duplicateProcedure name line first =>
    "Duplicate procedure '" ++ name ++ "' at line " ++ Decimal.ofNat line ++
      " (first declared at line " ++ Decimal.ofNat first ++ ")"
  | .unterminatedProcedure name line =>
    "Procedure '" ++ name ++ "' opened at line " ++ Decimal.ofNat line ++
      " has no matching End"
  | .nestedProcedure inner outer line =>
    "Procedure '" ++ inner ++ "' at line " ++ Decimal.ofNat line ++
      " is nested inside '" ++ outer ++ "'"
  | .unmatchedEnd line => "End at line " ++ Decimal.ofNat line ++ " has no matching Proc"
  | .blankMarker => "Invalid compiler configuration: comment marker must not be empty"

end SourceError

end StackAsm
