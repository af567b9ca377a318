import Mathlib.Data.List.Forall2
import StackAsm.Proofs.Literals
import StackAsm.Source.Statement

/-!
# The statement on a line

The first word of a line fixes the operands that have to follow it, and a line
is parsed exactly when these follow.  Which names a parsed line declares or
refers to can be read off its words.
-/

set_option autoImplicit false

namespace StackAsm.Source

namespace Line

open Text.Decimal

/-! ## Operands -/

theorem bare_eq_ok_iff {line : Line} {statement result : Statement} :
    line.bare statement = .ok result ↔ line.operands = [] ∧ statement = result := by
  unfold bare
  cases line.operands with
  | nil => simp
  | cons operand rest => simp

theorem operand_eq_ok_iff {line : Line} {operand : String} :
    line.operand = .ok operand ↔ line.operands = [operand] := by
  unfold Line.operand
  split
  · rename_i only same
    simp [same]
  · rename_i several
    constructor
    · intro impossible
      cases impossible
    · intro single
      exact absurd single (several operand)

theorem named_eq_ok_iff {line : Line} {make : String → Statement} {result : Statement} :
    line.named make = .ok result ↔ ∃ name, line.operands = [name] ∧ make name = result := by
  simp only [← operand_eq_ok_iff]
  unfold named
  cases line.operand <;> simp

theorem literal_eq_ok_iff {α : Type} {line : Line}
    {read : String → Except Text.Decimal.Error α} {make : α → Instruction}
    {result : Statement} :
    line.literal read make = .ok result ↔
      ∃ operand, line.operands = [operand] ∧
        ∃ value, read operand = .ok value ∧ .plain (make value) = result := by
  simp only [← operand_eq_ok_iff]
  unfold literal
  cases line.operand with
  | error error => simp
  | ok operand =>
    cases call : read operand <;> simp [call]

/-! ## Well-formed lines -/

inductive WellFormed (line : Line) : Prop where
  | bare
      (known : line.mnemonic ∈ ["Pop", "Add", "Sub", "Mul", "Div", "Print", "Ret", "End"])
      (operands : line.operands = [])
  | named
      (known : line.mnemonic ∈ ["Jump", "JE", "JNE", "Call", "label", "Proc"])
      (operands : ∃ name, line.operands = [name])
  | signed
      (known : line.mnemonic = "Push")
      (operands : ∃ operand, line.operands = [operand] ∧ SignedLiteral operand)
  | unsigned
      (known : line.mnemonic ∈ ["Get", "Set", "GetArg", "SetArg"])
      (operands : ∃ operand, line.operands = [operand] ∧ UnsignedLiteral operand)

theorem statement_eq_bare {line : Line}
    (known : line.mnemonic ∈ ["Pop", "Add", "Sub", "Mul", "Div", "Print", "Ret", "End"]) :
    ∃ statement, line.statement = line.bare statement := by
  obtain ⟨number, mnemonic, operands⟩ := line
  simp only [List.mem_cons, List.not_mem_nil, or_false] at known
  rcases known with rfl | rfl | rfl | rfl | rfl | rfl | rfl | rfl
  all_goals exact ⟨_, rfl⟩

theorem statement_eq_named {line : Line}
    (known : line.mnemonic ∈ ["Jump", "JE", "JNE", "Call", "label", "Proc"]) :
    ∃ make, line.statement = line.named make := by
  obtain ⟨number, mnemonic, operands⟩ := line
  simp only [List.mem_cons, List.not_mem_nil, or_false] at known
  rcases known with rfl | rfl | rfl | rfl | rfl | rfl
  all_goals exact ⟨_, rfl⟩

theorem statement_eq_unsigned {line : Line}
    (known : line.mnemonic ∈ ["Get", "Set", "GetArg", "SetArg"]) :
    ∃ make, line.statement = line.literal readWord make := by
  obtain ⟨number, mnemonic, operands⟩ := line
  simp only [List.mem_cons, List.not_mem_nil, or_false] at known
  rcases known with rfl | rfl | rfl | rfl
  all_goals exact ⟨_, rfl⟩

theorem statement_eq_signed {line : Line} (known : line.mnemonic = "Push") :
    line.statement = line.literal readInt64 .push := by
  obtain ⟨number, mnemonic, operands⟩ := line
  obtain rfl : mnemonic = "Push" := known
  rfl

/-- A line has a statement exactly when it is well formed. -/
theorem statement_isOk_iff (line : Line) :
    (∃ statement, line.statement = .ok statement) ↔ line.WellFormed := by
  constructor
  · rintro ⟨statement, parsed⟩
    unfold Line.statement at parsed
    split at parsed
    case h_1 known =>
      obtain ⟨operand, single, value, read, _⟩ := literal_eq_ok_iff.mp parsed
      exact .signed known ⟨operand, single, (readInt64_isOk_iff operand).mp ⟨value, read⟩⟩
    case h_9 known | h_10 known | h_11 known | h_12 known =>
      obtain ⟨operand, single, value, read, _⟩ := literal_eq_ok_iff.mp parsed
      exact .unsigned (by simp [known])
        ⟨operand, single, (readWord_isOk_iff operand).mp ⟨value, read⟩⟩
    case h_13 known | h_14 known | h_15 known | h_16 known | h_17 known | h_18 known =>
      obtain ⟨name, single, _⟩ := named_eq_ok_iff.mp parsed
      exact .named (by simp [known]) ⟨name, single⟩
    case h_20 => cases parsed
    all_goals
      rename_i known
      exact .bare (by simp [known]) (bare_eq_ok_iff.mp parsed).1
  · intro wellFormed
    cases wellFormed with
    | bare known none =>
      obtain ⟨statement, shape⟩ := statement_eq_bare known
      exact ⟨statement, shape.trans (bare_eq_ok_iff.mpr ⟨none, rfl⟩)⟩
    | named known single =>
      obtain ⟨make, shape⟩ := statement_eq_named known
      obtain ⟨name, single⟩ := single
      exact ⟨make name, shape.trans (named_eq_ok_iff.mpr ⟨name, single, rfl⟩)⟩
    | signed known single =>
      obtain ⟨operand, single, literal⟩ := single
      obtain ⟨value, read⟩ := (readInt64_isOk_iff operand).mpr literal
      exact ⟨_, (statement_eq_signed known).trans
        (literal_eq_ok_iff.mpr ⟨operand, single, value, read, rfl⟩)⟩
    | unsigned known single =>
      obtain ⟨make, shape⟩ := statement_eq_unsigned known
      obtain ⟨operand, single, literal⟩ := single
      obtain ⟨value, read⟩ := (readWord_isOk_iff operand).mpr literal
      exact ⟨_, shape.trans (literal_eq_ok_iff.mpr ⟨operand, single, value, read, rfl⟩)⟩

/-! ## Names on a line -/

/-- The words of the line that a statement was read from. -/
inductive Reads (line : Line) : Statement → Prop where
  | plain (instruction : Instruction)
      (word : line.mnemonic ∉ ["Jump", "JE", "JNE", "Call", "label", "Proc", "End"]) :
      Reads line (.plain instruction)
  | jump (kind : JumpKind) (name : String)
      (word : line.mnemonic = kind.mnemonic) (operands : line.operands = [name]) :
      Reads line (.jump kind name)
  | call (name : String)
      (word : line.mnemonic = "Call") (operands : line.operands = [name]) :
      Reads line (.call name)
  | label (name : String)
      (word : line.mnemonic = "label") (operands : line.operands = [name]) :
      Reads line (.label name)
  | proc (name : String)
      (word : line.mnemonic = "Proc") (operands : line.operands = [name]) :
      Reads line (.proc name)
  | procEnd (word : line.mnemonic = "End") (operands : line.operands = []) :
      Reads line .procEnd

theorem reads_of_statement {line : Line} {statement : Statement}
    (parsed : line.statement = .ok statement) : line.Reads statement := by
  unfold Line.statement at parsed
  split at parsed
  case h_1 known | h_9 known | h_10 known | h_11 known | h_12 known =>
    obtain ⟨_, _, _, _, rfl⟩ := literal_eq_ok_iff.mp parsed
    exact .plain _ (by simp [known])
  case h_13 known | h_14 known | h_15 known =>
    obtain ⟨name, single, rfl⟩ := named_eq_ok_iff.mp parsed
    exact .jump _ name known single
  case h_16 known =>
    obtain ⟨name, single, rfl⟩ := named_eq_ok_iff.mp parsed
    exact .call name known single
  case h_17 known =>
    obtain ⟨name, single, rfl⟩ := named_eq_ok_iff.mp parsed
    exact .label name known single
  case h_18 known =>
    obtain ⟨name, single, rfl⟩ := named_eq_ok_iff.mp parsed
    exact .proc name known single
  case h_19 known =>
    obtain ⟨none, rfl⟩ := bare_eq_ok_iff.mp parsed
    exact .procEnd known none
  case h_20 => cases parsed
  all_goals
    rename_i known
    obtain ⟨_, rfl⟩ := bare_eq_ok_iff.mp parsed
    exact .plain _ (by simp [known])

theorem numbered_eq_ok_iff {line : Line} {source : Numbered} :
    line.numbered = .ok source ↔
      line.number = source.line ∧ line.statement = .ok source.statement := by
  obtain ⟨number, statement⟩ := source
  unfold numbered
  cases line.statement with
  | error error => simp [Except.map]
  | ok parsed => simp [Except.map]

end Line

/-! ## All lines -/

theorem statements_eq_ok_iff {lines : List Line} {statements : List Numbered} :
    Source.statements lines = .ok statements ↔
      List.Forall₂ (fun line source => line.numbered = .ok source) lines statements := by
  induction lines generalizing statements with
  | nil => simp [Source.statements, eq_comm]
  | cons line rest ih =>
    rw [Source.statements, List.forall₂_cons_left_iff]
    cases head : line.numbered with
    | error error => simp
    | ok source =>
      simp only [← ih]
      cases Source.statements rest with
      | error error => simp
      | ok later => simp [eq_comm]

theorem statements_isOk_iff (lines : List Line) :
    (∃ statements, Source.statements lines = .ok statements) ↔
      ∀ line ∈ lines, line.WellFormed := by
  simp only [statements_eq_ok_iff, ← Line.statement_isOk_iff]
  constructor
  · rintro ⟨statements, parsed⟩
    induction parsed with
    | nil => simp
    | cons head _ ih =>
      exact List.forall_mem_cons.mpr ⟨⟨_, (Line.numbered_eq_ok_iff.mp head).2⟩, ih⟩
  · intro each
    induction lines with
    | nil => exact ⟨[], .nil⟩
    | cons line rest ih =>
      obtain ⟨⟨statement, parsed⟩, others⟩ := List.forall_mem_cons.mp each
      obtain ⟨later, tail⟩ := ih others
      exact ⟨⟨line.number, statement⟩ :: later,
        .cons (Line.numbered_eq_ok_iff.mpr ⟨rfl, parsed⟩) tail⟩

theorem reads_of_statements {lines : List Line} {statements : List Numbered}
    (parsed : Source.statements lines = .ok statements) :
    List.Forall₂ (fun line source => line.Reads source.statement) lines statements :=
  (statements_eq_ok_iff.mp parsed).imp fun _ _ numbered =>
    Line.reads_of_statement (Line.numbered_eq_ok_iff.mp numbered).2

end StackAsm.Source
