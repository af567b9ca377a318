import StackAsm.Instruction
import StackAsm.Source.Line

/-!
# Statements

Each meaningful line is one statement.  Its first word decides how many
operands it has and what they are: nothing, a name, or a number.  The number of
operands is tested before the operand itself.
-/

set_option autoImplicit false

namespace StackAsm

inductive JumpKind where
  | always
  | ifZero
  | ifNonZero
deriving DecidableEq, Repr

namespace JumpKind

def instruction (kind : JumpKind) (target : Nat) : Instruction :=
  match kind with
  | .always => .jump target
  | .ifZero => .jumpIfZero target
  | .ifNonZero => .jumpIfNonZero target

def mnemonic : JumpKind → String
  | .always => "Jump"
  | .ifZero => "JE"
  | .ifNonZero => "JNE"

end JumpKind

/-- A line with its operands decoded and its names not yet resolved. -/
inductive Statement where
  /-- An instruction that names nothing. -/
  | plain (instruction : Instruction)
  /-- A jump to a label. -/
  | jump (kind : JumpKind) (label : String)
  /-- A call of a procedure. -/
  | call (name : String)
  /-- The declaration of a label. -/
  | label (name : String)
  /-- The opening line of a procedure. -/
  | proc (name : String)
  /-- The closing line of a procedure. -/
  | procEnd
deriving DecidableEq, Repr

structure Numbered where
  line : Nat
  statement : Statement
deriving DecidableEq, Repr

namespace Source.Line

def bare (line : Line) (statement : Statement) : Except SourceError Statement :=
  match line.operands with
  | [] => .ok statement
  | operands => .error (.operandCount line.mnemonic 0 operands.length line.number)

/-- The operand of a line that has exactly one. -/
def operand (line : Line) : Except SourceError String :=
  match line.operands with
  | [operand] => .ok operand
  | operands => .error (.operandCount line.mnemonic 1 operands.length line.number)

def named (line : Line) (make : String → Statement) : Except SourceError Statement :=
  match line.operand with
  | .error error => .error error
  | .ok name => .ok (make name)

def literal {α : Type} (line : Line) (read : String → Except Text.Decimal.Error α)
    (make : α → Instruction) : Except SourceError Statement :=
  match line.operand with
  | .error error => .error error
  | .ok operand =>
    match read operand with
    | .error reason => .error (.invalidOperand line.mnemonic operand reason line.number)
    | .ok value => .ok (.plain (make value))

def statement (line : Line) : Except SourceError Statement :=
  match line.mnemonic with
  | "Push" => line.literal Text.Decimal.readInt64 .push
  | "Pop" => line.bare (.plain .pop)
  | "Add" => line.bare (.plain .add)
  | "Sub" => line.bare (.plain .sub)
  | "Mul" => line.bare (.plain .mul)
  | "Div" => line.bare (.plain .div)
  | "Print" => line.bare (.plain .print)
  | "Ret" => line.bare (.plain .ret)
  | "Get" => line.literal Text.Decimal.readWord .get
  | "Set" => line.literal Text.Decimal.readWord .set
  | "GetArg" => line.literal Text.Decimal.readWord .getArg
  | "SetArg" => line.literal Text.Decimal.readWord .setArg
  | "Jump" => line.named (.jump .always)
  | "JE" => line.named (.jump .ifZero)
  | "JNE" => line.named (.jump .ifNonZero)
  | "Call" => line.named .call
  | "label" => line.named .label
  | "Proc" => line.named .proc
  | "End" => line.bare .procEnd
  | mnemonic => .error (.unknownMnemonic mnemonic line.number)

def numbered (line : Line) : Except SourceError Numbered :=
  line.statement.map fun statement => ⟨line.number, statement⟩

end Source.Line

/-- The statements on the given lines, or the defect of the first line that has
one. -/
def Source.statements : List Line → Except SourceError (List Numbered)
  | [] => .ok []
  | line :: rest =>
    match line.numbered with
    | .error error => .error error
    | .ok statement =>
      match statements rest with
      | .error error => .error error
      | .ok later => .ok (statement :: later)

namespace Statement

def tokens : Statement → List String
  | .plain instruction => instruction.opcode.mnemonic :: instruction.operand?.toList
  | .jump kind name => [kind.mnemonic, name]
  | .call name => ["Call", name]
  | .label name => ["label", name]
  | .proc name => ["Proc", name]
  | .procEnd => ["End"]

def render (statement : Statement) : String :=
  " ".intercalate statement.tokens

end Statement

end StackAsm
