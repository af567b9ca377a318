import StackAsm.Proofs.Parsing

/-!
# Defects of literals

A text that is not read as a number has one defect, and it is the first one: a
character that is no digit, or a digit with which the number leaves the range,
behind digits that write a number in the range.  What follows the defect does
not matter.  Hence the operand of a line is either a literal, and gives the
number it writes, or has a defect, and gives the reason of it.
-/

set_option autoImplicit false

namespace StackAsm

namespace Text.Decimal

/-! ## The first defect -/

section Range

variable (low high : Int)

inductive Spoils (sign : Sign) (n : Nat) (c : Char) : Error → Prop where
  | noDigit (other : ¬ IsDigit c) : Spoils sign n c .invalidDigit
  | beyond (digit : IsDigit c)
      (outside : ¬ (low ≤ sign.value (n * 10 + digitValue c) ∧
        sign.value (n * 10 + digitValue c) ≤ high)) :
      Spoils sign n c sign.overflow

/-- A character of a text that goes on behind the digits of `start` is wrong,
and all before it are digits of a number in the range. -/
def SpoiledFrom (sign : Sign) (start : Nat) (text : List Char) (error : Error) : Prop :=
  ∃ digits c rest, text = digits ++ c :: rest ∧ (∀ d ∈ digits, IsDigit d) ∧
    (low ≤ sign.value (numeralFrom start digits) ∧
      sign.value (numeralFrom start digits) ≤ high) ∧
        Spoils low high sign (numeralFrom start digits) c error

/-- The sign of a text and what stands behind it.  A minus is a sign only where
negative numbers are read. -/
def splitSign (negative : Bool) : List Char → Sign × List Char
  | '+' :: digits => (.plus, digits)
  | '-' :: digits => if negative then (.minus, digits) else (.plus, '-' :: digits)
  | digits => (.plus, digits)

inductive Defect (negative : Bool) (text : List Char) : Error → Prop where
  | empty (nothing : text = []) : Defect negative text .empty
  | loneSign (something : text ≠ []) (nothing : (splitSign negative text).2 = []) :
      Defect negative text .invalidDigit
  | spoiled {error : Error}
      (first : SpoiledFrom low high (splitSign negative text).1 0 (splitSign negative text).2
        error) :
      Defect negative text error

end Range

section Reading

variable {low high : Int} {sign : Sign}

theorem not_spoiledFrom_nil {start : Nat} {error : Error} :
    ¬ SpoiledFrom low high sign start [] error := by
  intro spoiled
  obtain ⟨digits, c, rest, parts, _⟩ := spoiled
  simp at parts

theorem spoiledFrom_cons_iff {start : Nat} {c : Char} {rest : List Char} {error : Error}
    (inRange : low ≤ sign.value start ∧ sign.value start ≤ high) :
    SpoiledFrom low high sign start (c :: rest) error ↔
      Spoils low high sign start c error ∨
        IsDigit c ∧ SpoiledFrom low high sign (start * 10 + digitValue c) rest error := by
  constructor
  · intro spoiled
    obtain ⟨digits, wrong, later, parts, all, reached, spoils⟩ := spoiled
    cases digits with
    | nil =>
      obtain ⟨rfl, _⟩ := List.cons.inj parts
      exact .inl spoils
    | cons d digits =>
      obtain ⟨rfl, rfl⟩ := List.cons.inj parts
      obtain ⟨digit, others⟩ := List.forall_mem_cons.mp all
      rw [numeralFrom_cons] at reached spoils
      exact .inr ⟨digit, digits, wrong, later, rfl, others, reached, spoils⟩
  · intro spoiled
    rcases spoiled with spoils | ⟨digit, digits, wrong, later, rfl, all, reached, spoils⟩
    · exact ⟨[], c, rest, rfl, by simp, inRange, spoils⟩
    · rw [← numeralFrom_cons] at reached spoils
      exact ⟨c :: digits, wrong, later, rfl, List.forall_mem_cons.mpr ⟨digit, all⟩, reached,
        spoils⟩

theorem readDigits_eq_error_iff (spans : low ≤ 0 ∧ 0 ≤ high) (sign : Sign) (start : Nat)
    (inRange : low ≤ sign.value start ∧ sign.value start ≤ high) (text : List Char)
    (error : Error) :
    readDigits low high sign (sign.value start) text = .error error ↔
      SpoiledFrom low high sign start text error := by
  induction text generalizing start with
  | nil => simp [readDigits, not_spoiledFrom_nil]
  | cons c rest ih =>
    rw [readDigits, spoiledFrom_cons_iff inRange]
    by_cases digit : IsDigit c
    · simp only [digit?_eq_some digit, sign.append_value, digit, true_and]
      split
      · rename_i next
        have sound : ¬ Spoils low high sign start c error := by
          intro spoils
          cases spoils with
          | noDigit other => exact other digit
          | beyond _ outside => exact outside next
        rw [ih _ next, or_iff_right sound]
      · rename_i outside
        constructor
        · intro same
          cases same
          exact .inl (.beyond digit outside)
        · intro spoiled
          rcases spoiled with spoils | ⟨digits, _, _, _, _, reached, _⟩
          · cases spoils with
            | noDigit other => exact absurd digit other
            | beyond => rfl
          · -- A later defect would stand behind a number in the range, but no number on the
            -- way there is closer to zero than this one.
            exact absurd (sign.value_inRange spans (le_numeralFrom _ digits) reached) outside
    · simp only [digit?_eq_none digit, digit, false_and, or_false]
      constructor
      · intro same
        cases same
        exact .noDigit digit
      · intro spoils
        cases spoils with
        | noDigit => rfl
        | beyond isDigit => exact absurd isDigit digit

theorem readMagnitude_eq_error_iff (spans : low ≤ 0 ∧ 0 ≤ high) (sign : Sign) (digits : List Char)
    (error : Error) :
    readMagnitude low high sign digits = .error error ↔
      digits = [] ∧ error = .invalidDigit ∨ SpoiledFrom low high sign 0 digits error := by
  have zero : sign.value 0 = 0 := by cases sign <;> rfl
  cases digits with
  | nil => simp [readMagnitude, not_spoiledFrom_nil, eq_comm]
  | cons c rest =>
    have read := readDigits_eq_error_iff spans sign 0 (by rw [zero]; exact spans) (c :: rest) error
    rw [zero] at read
    simp [readMagnitude, read]

/-- A reader that cuts off the sign first fails with the defect of the text. -/
theorem eq_error_iff_of_splitSign {negative : Bool} {read : List Char → Except Error Int}
    (spans : low ≤ 0 ∧ 0 ≤ high) (empty : read [] = .error .empty)
    (cuts : ∀ text, text ≠ [] →
      read text = readMagnitude low high (splitSign negative text).1 (splitSign negative text).2)
    (text : List Char) (error : Error) :
    read text = .error error ↔ Defect low high negative text error := by
  constructor
  · intro failed
    by_cases nothing : text = []
    · subst nothing
      obtain rfl : Error.empty = error := by simpa [empty] using failed
      exact .empty rfl
    · rw [cuts text nothing, readMagnitude_eq_error_iff spans] at failed
      rcases failed with ⟨alone, rfl⟩ | first
      · exact .loneSign nothing alone
      · exact .spoiled first
  · intro defect
    cases defect with
    | empty nothing =>
      subst nothing
      exact empty
    | loneSign something alone =>
      rw [cuts text something, readMagnitude_eq_error_iff spans]
      exact .inl ⟨alone, rfl⟩
    | spoiled first =>
      have something : text ≠ [] := by
        intro nothing
        subst nothing
        exact not_spoiledFrom_nil first
      rw [cuts text something, readMagnitude_eq_error_iff spans]
      exact .inr first

end Reading

theorem splitSign_of_digits {negative : Bool} {text : List Char}
    (noPlus : ∀ digits, text ≠ '+' :: digits)
    (noMinus : negative = true → ∀ digits, text ≠ '-' :: digits) :
    splitSign negative text = (.plus, text) := by
  unfold splitSign
  split
  · rename_i digits
    exact absurd rfl (noPlus digits)
  · rename_i digits
    cases negative with
    | true => exact absurd rfl (noMinus rfl digits)
    | false => rfl
  · rfl

theorem readSigned_eq_error_iff {low high : Int} (spans : low ≤ 0 ∧ 0 ≤ high) (text : List Char)
    (error : Error) : readSigned low high text = .error error ↔ Defect low high true text error := by
  refine eq_error_iff_of_splitSign spans rfl ?_ text error
  intro text something
  unfold readSigned
  split
  · exact absurd rfl something
  · rfl
  · rfl
  · rename_i noPlus noMinus
    rw [splitSign_of_digits noPlus fun _ => noMinus]

theorem readUnsigned_eq_error_iff {high : Int} (spans : 0 ≤ high) (text : List Char)
    (error : Error) : readUnsigned high text = .error error ↔ Defect 0 high false text error := by
  refine eq_error_iff_of_splitSign ⟨Int.le_refl 0, spans⟩ rfl ?_ text error
  intro text something
  unfold readUnsigned
  split
  · exact absurd rfl something
  · rfl
  · rename_i noPlus
    have noMinus : false = true → ∀ digits, text ≠ '-' :: digits := by
      intro impossible
      cases impossible
    rw [splitSign_of_digits noPlus noMinus]

theorem readInt64_eq_error_iff (text : String) (error : Error) :
    readInt64 text = .error error ↔
      Defect (-0x8000000000000000) 0x7fffffffffffffff true text.toList error := by
  rw [← readSigned_eq_error_iff (by decide), readInt64]
  cases readSigned (-0x8000000000000000) 0x7fffffffffffffff text.toList <;> simp [Except.map]

theorem readWord_eq_error_iff (text : String) (error : Error) :
    readWord text = .error error ↔ Defect 0 0xffffffffffffffff false text.toList error := by
  rw [← readUnsigned_eq_error_iff (by decide), readWord]
  cases readUnsigned 0xffffffffffffffff text.toList <;> simp [Except.map]

end Text.Decimal

/-! ## Operands that are numbers -/

namespace Source.Line

open Text.Decimal

theorem literal_single_eq_error_iff {α : Type} {number : Nat} {mnemonic operand : String}
    {read : String → Except Text.Decimal.Error α} {make : α → Instruction} {error : SourceError} :
    Line.literal ⟨number, mnemonic, [operand]⟩ read make = .error error ↔
      ∃ reason, read operand = .error reason ∧
        error = .invalidOperand mnemonic operand reason number := by
  have single : Line.operand ⟨number, mnemonic, [operand]⟩ = .ok operand :=
    operand_eq_ok_iff.mpr rfl
  simp only [Line.literal, single]
  cases read operand <;> simp [eq_comm]

/-- Lines with a first word and one operand give the instruction of a number
exactly when the operand writes that number, and otherwise the reason for which
it writes none. -/
structure TakesNumber {α : Type} (mnemonic : String) (make : α → Instruction)
    (writes : List Char → α → Prop) (defect : List Char → Text.Decimal.Error → Prop) : Prop where
  ok : ∀ number operand statement,
    Line.statement ⟨number, mnemonic, [operand]⟩ = .ok statement ↔
      ∃ value, writes operand.toList value ∧ statement = .plain (make value)
  error : ∀ number operand error,
    Line.statement ⟨number, mnemonic, [operand]⟩ = .error error ↔
      ∃ reason, defect operand.toList reason ∧
        error = .invalidOperand mnemonic operand reason number

theorem takesNumber_of_literal {α : Type} {mnemonic : String} {make : α → Instruction}
    {read : String → Except Text.Decimal.Error α} {writes : List Char → α → Prop}
    {defect : List Char → Text.Decimal.Error → Prop}
    (reads : ∀ number operand, Line.statement ⟨number, mnemonic, [operand]⟩ =
      Line.literal ⟨number, mnemonic, [operand]⟩ read make)
    (ok : ∀ operand value, read operand = .ok value ↔ writes operand.toList value)
    (error : ∀ operand reason, read operand = .error reason ↔ defect operand.toList reason) :
    TakesNumber mnemonic make writes defect := by
  constructor
  · intro number operand statement
    rw [reads, literal_eq_ok_iff]
    simp [ok, eq_comm]
  · intro number operand found
    rw [reads, literal_single_eq_error_iff]
    simp only [error]

def TakesValue (mnemonic : String) (make : Value → Instruction) : Prop :=
  TakesNumber mnemonic make
    (fun text value => ∃ n, SignedNumeral text n ∧
      -0x8000000000000000 ≤ n ∧ n ≤ 0x7fffffffffffffff ∧ value = Int64.ofInt n)
    (Defect (-0x8000000000000000) 0x7fffffffffffffff true)

def TakesIndex (mnemonic : String) (make : Nat → Instruction) : Prop :=
  TakesNumber mnemonic make
    (fun text n => UnsignedNumeral text n ∧ n ≤ 0xffffffffffffffff)
    (Defect 0 0xffffffffffffffff false)

theorem takesIndex_of_literal {mnemonic : String} {make : Nat → Instruction}
    (reads : ∀ number operand, Line.statement ⟨number, mnemonic, [operand]⟩ =
      Line.literal ⟨number, mnemonic, [operand]⟩ readWord make) : TakesIndex mnemonic make := by
  refine takesNumber_of_literal reads ?_ readWord_eq_error_iff
  intro operand n
  rw [readWord_eq_ok_iff, Nat.lt_succ_iff]

theorem takesValue_push : TakesValue "Push" .push := by
  refine takesNumber_of_literal (fun _ _ => rfl) ?_ readInt64_eq_error_iff
  intro operand value
  rw [readInt64_eq_ok_iff]
  constructor
  · intro numeral
    have above := value.le_toInt
    have below := value.toInt_lt
    exact ⟨value.toInt, numeral, by omega, by omega, by simp⟩
  · intro written
    obtain ⟨n, numeral, above, below, rfl⟩ := written
    rwa [Int64.toInt_ofInt_of_le (by omega) (by omega)]

/-- The operands that are numbers are read exactly, and the defect of any other
operand is reported in these words. -/
theorem statement_takes_numbers :
    TakesValue "Push" .push ∧ TakesIndex "Get" .get ∧ TakesIndex "Set" .set ∧
      TakesIndex "GetArg" .getArg ∧ TakesIndex "SetArg" .setArg ∧
        [Error.empty, .invalidDigit, .tooLarge, .tooSmall].map Error.message =
          ["cannot parse integer from empty string", "invalid digit found in string",
            "number too large to fit in target type", "number too small to fit in target type"] := by
  refine ⟨takesValue_push, ?_, ?_, ?_, ?_, rfl⟩
  all_goals
    apply takesIndex_of_literal
    intro number operand
    rfl

example :
    Line.statement ⟨1, "Push", ["-9223372036854775809x"]⟩ =
        .error (.invalidOperand "Push" "-9223372036854775809x" .tooSmall 1) ∧
      Line.statement ⟨1, "Push", ["-922337203685477580x9"]⟩ =
        .error (.invalidOperand "Push" "-922337203685477580x9" .invalidDigit 1) := by
  decide +kernel

end Source.Line

end StackAsm
