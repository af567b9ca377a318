import StackAsm.Proofs.LineEnds
import StackAsm.Proofs.Parsing

/-!
# Statements written and read again

A statement is written as its words with a space between them.  Its words read
alone give the statement back, whatever its name is.  Statements whose names are
words, written one on a line, are read back from the text with the numbers of
their lines, under every marker that does not occur in them.  Texts have no
other statements than these.
-/

set_option autoImplicit false

namespace StackAsm

/-! ## Texts made of words -/

namespace Text

theorem isBlank_of_isDigit {c : Char} (digit : Decimal.IsDigit c) : isBlank c = false := by
  have above : 48 ≤ c.toNat := digit.1
  have below : c.toNat ≤ 57 := digit.2
  simp only [isBlank, Bool.or_eq_false_iff, Bool.and_eq_false_iff, beq_eq_false_iff_ne,
    decide_eq_false_iff_not]
  omega

theorem isWord_ofNat (n : Nat) : IsWord (Decimal.ofNat n).toList := by
  obtain ⟨nonempty, digits, _⟩ := Decimal.magnitude_ofNat n
  exact ⟨nonempty, fun c member => isBlank_of_isDigit (digits c member)⟩

theorem isWord_ofInt (n : Int) : IsWord (Decimal.ofInt n).toList := by
  rw [Decimal.ofInt]
  split
  · have sign : IsWord "-".toList := by decide
    rw [String.toList_append]
    exact ⟨by simp, List.forall_mem_append.mpr ⟨sign.2, (isWord_ofNat _).2⟩⟩
  · exact isWord_ofNat _

theorem words_spaced {words : List String} (areWords : ∀ word ∈ words, IsWord word.toList) :
    Text.words (" ".intercalate words).toList = words.map String.toList := by
  induction words with
  | nil => rfl
  | cons word rest ih =>
    obtain ⟨isWord, others⟩ := List.forall_mem_cons.mp areWords
    cases rest with
    | nil =>
      rw [String.intercalate_singleton]
      exact words_of_isWord isWord
    | cons next rest =>
      have space : isBlank ' ' = true := by decide
      have gap : StartsBlank (' ' :: (" ".intercalate (next :: rest)).toList) :=
        startsBlank_cons space _
      have parts : (" ".intercalate (word :: next :: rest)).toList =
          word.toList ++ ' ' :: (" ".intercalate (next :: rest)).toList := by
        simp [String.intercalate_cons_cons]
      rw [parts, words_append isWord gap, words_cons_of_blank space, List.map_cons,
        ih others]

theorem mem_spaced {words : List String} (areWords : ∀ word ∈ words, IsWord word.toList)
    {c : Char} (member : c ∈ (" ".intercalate words).toList) : c = ' ' ∨ isBlank c = false := by
  induction words with
  | nil => simp at member
  | cons word rest ih =>
    obtain ⟨isWord, others⟩ := List.forall_mem_cons.mp areWords
    cases rest with
    | nil =>
      rw [String.intercalate_singleton] at member
      exact .inr (isWord.2 c member)
    | cons next rest =>
      rw [String.intercalate_cons_cons, String.toList_append, String.toList_append,
        List.mem_append, List.mem_append] at member
      rcases member with (here | space) | later
      · exact .inr (isWord.2 c here)
      · exact .inl (by simpa using space)
      · exact ih others later

end Text

open Text (isBlank IsWord)

/-! ## Statements that can be written -/

def Instruction.Spelled : Instruction → Prop
  | .push _ | .pop | .add | .sub | .mul | .div | .print | .ret => True
  | .get index | .set index | .getArg index | .setArg index => index < pointerLimit
  | .jump _ | .jumpIfZero _ | .jumpIfNonZero _ | .call _ | .noop => False

namespace Statement

def Spelled : Statement → Prop
  | .plain instruction => instruction.Spelled
  | _ => True

def name? : Statement → Option String
  | .jump _ name | .call name | .label name | .proc name => some name
  | .plain _ | .procEnd => none

/-- A statement that a line of a text can have. -/
structure Writable (statement : Statement) : Prop where
  spelled : statement.Spelled
  named : ∀ name ∈ statement.name?, IsWord name.toList

theorem render_plain (instruction : Instruction) :
    (Statement.plain instruction).render = instruction.render := by
  rw [render, tokens, Instruction.render]
  cases instruction.operand? with
  | none => exact String.intercalate_singleton
  | some operand => simp [String.intercalate_cons_cons]

theorem isWord_mnemonic (opcode : Opcode) : IsWord opcode.mnemonic.toList := by
  cases opcode <;> decide

theorem isWord_operand {instruction : Instruction} {operand : String}
    (carried : instruction.operand? = some operand) : IsWord operand.toList := by
  unfold Instruction.operand? at carried
  split at carried
  · rename_i value
    obtain rfl := Option.some.inj carried
    exact Text.isWord_ofInt value.toInt
  · obtain ⟨pointer, _, rfl⟩ := Option.map_eq_some_iff.mp carried
    exact Text.isWord_ofNat pointer

theorem isWord_of_mem_tokens {statement : Statement}
    (named : ∀ name ∈ statement.name?, IsWord name.toList) :
    ∀ word ∈ statement.tokens, IsWord word.toList := by
  cases statement with
  | plain instruction =>
    intro word member
    rcases List.mem_cons.mp member with rfl | operand
    · exact isWord_mnemonic instruction.opcode
    · exact isWord_operand (Option.mem_toList.mp operand)
  | jump kind name =>
    refine List.forall_mem_cons.mpr ⟨?_, List.forall_mem_singleton.mpr (named name rfl)⟩
    cases kind <;> decide
  | call name | label name | proc name =>
    exact List.forall_mem_cons.mpr ⟨by decide, List.forall_mem_singleton.mpr (named name rfl)⟩
  | procEnd => exact List.forall_mem_singleton.mpr (by decide)

theorem Writable.not_mem_render {statement : Statement} (writable : statement.Writable) {c : Char}
    (blank : isBlank c = true) (noSpace : c ≠ ' ') : c ∉ statement.render.toList := by
  intro member
  rcases Text.mem_spaced (isWord_of_mem_tokens writable.named) member with space | visible
  · exact noSpace space
  · simp [blank] at visible

end Statement

namespace Source

/-! ## Words read alone -/

theorem Line.literal_ofNat {index : Nat} (fits : index < pointerLimit) (number : Nat)
    (mnemonic : String) (make : Nat → Instruction) :
    Line.literal ⟨number, mnemonic, [Text.Decimal.ofNat index]⟩ Text.Decimal.readWord make =
      .ok (.plain (make index)) :=
  literal_eq_ok_iff.mpr ⟨_, rfl, index, Text.Decimal.readWord_ofNat fits, rfl⟩

/-- The words of a statement are read as the statement, whatever its name is. -/
theorem Line.statement_of_tokens {statement : Statement} (spelled : statement.Spelled)
    (number : Nat) :
    ∃ line, Line.ofTokens? number statement.tokens = some line ∧
      line.number = number ∧ line.statement = .ok statement := by
  cases statement with
  | jump kind name => cases kind <;> exact ⟨_, rfl, rfl, rfl⟩
  | call name | label name | proc name | procEnd => exact ⟨_, rfl, rfl, rfl⟩
  | plain instruction =>
    cases instruction with
    | jump | jumpIfZero | jumpIfNonZero | call | noop => exact spelled.elim
    | pop | add | sub | mul | div | print | ret => exact ⟨_, rfl, rfl, rfl⟩
    | push value =>
      refine ⟨_, rfl, rfl, (statement_eq_signed rfl).trans (literal_eq_ok_iff.mpr ?_)⟩
      exact ⟨_, rfl, value, Text.Decimal.readInt64_ofInt value, rfl⟩
    | get index => exact ⟨_, rfl, rfl, literal_ofNat spelled number "Get" .get⟩
    | set index => exact ⟨_, rfl, rfl, literal_ofNat spelled number "Set" .set⟩
    | getArg index => exact ⟨_, rfl, rfl, literal_ofNat spelled number "GetArg" .getArg⟩
    | setArg index => exact ⟨_, rfl, rfl, literal_ofNat spelled number "SetArg" .setArg⟩

theorem Line.spelled_of_statement {line : Line} {statement : Statement}
    (parsed : line.statement = .ok statement) : statement.Spelled := by
  unfold Line.statement at parsed
  split at parsed
  case h_1 =>
    obtain ⟨_, _, _, _, rfl⟩ := literal_eq_ok_iff.mp parsed
    trivial
  case h_9 | h_10 | h_11 | h_12 =>
    obtain ⟨operand, _, index, read, rfl⟩ := literal_eq_ok_iff.mp parsed
    exact ((Text.Decimal.readWord_eq_ok_iff operand index).mp read).2
  case h_13 | h_14 | h_15 | h_16 | h_17 | h_18 =>
    obtain ⟨_, _, rfl⟩ := named_eq_ok_iff.mp parsed
    trivial
  case h_20 => cases parsed
  all_goals
    obtain ⟨_, rfl⟩ := bare_eq_ok_iff.mp parsed
    trivial

theorem Line.name_mem_tokens {line : Line} {statement : Statement} {name : String}
    (parsed : line.statement = .ok statement) (named : name ∈ statement.name?) :
    name ∈ line.tokens := by
  have operand : name ∈ line.operands := by
    cases reads_of_statement parsed with
    | plain | procEnd => cases named
    | jump _ _ _ operands | call _ _ operands | label _ _ operands | proc _ _ operands =>
      cases named
      simp [operands]
  exact List.mem_cons_of_mem _ operand

/-- The statements of a text can be written. -/
theorem writable_of_scan {marker : Marker} {text : String} {parsed : List Numbered}
    (read : Source.statements (scan marker text) = .ok parsed) :
    ∀ source ∈ parsed, source.statement.Writable := by
  intro source member
  obtain ⟨index, here⟩ := List.getElem?_of_mem member
  have layout : lineLayout (scan marker text) index source.line source.statement := by
    rw [lineLayout_eq read]
    exact here
  obtain ⟨line, stands, _, parsed⟩ := layout
  refine ⟨Line.spelled_of_statement parsed, ?_⟩
  intro name named
  have scanned := ((scan_numbers marker text).mem_iff line).mp (List.mem_of_getElem? stands)
  obtain ⟨raw, _, words⟩ := Option.map_eq_some_iff.mp scanned.2
  have member := Line.name_mem_tokens parsed named
  rw [← words] at member
  exact isWord_of_mem_tokens member

/-! ## Written texts -/

theorem tokens_render {marker : Marker} {statement : Statement} (writable : statement.Writable)
    (unmarked : ¬ marker.text <:+: statement.render.toList) :
    tokens marker statement.render = statement.tokens := by
  have whole : codePart marker statement.render.toList = statement.render.toList := by
    refine codePart_eq_iff.mpr (.whole ?_)
    intro position opens
    exact unmarked (opens.1.isInfix.trans (List.drop_suffix _ _).isInfix)
  rw [tokens, whole, Statement.render,
    Text.words_spaced (Statement.isWord_of_mem_tokens writable.named), List.map_map]
  simp [Function.comp_def]

theorem statements_scanFrom {marker : Marker} {statements : List Statement}
    (writable : ∀ statement ∈ statements, statement.Writable)
    (unmarked : ∀ statement ∈ statements, ¬ marker.text <:+: statement.render.toList)
    (number : Nat) :
    Source.statements (scanFrom marker number (statements.map Statement.render)) =
      .ok (statements.mapIdx fun index statement => ⟨index + number, statement⟩) := by
  induction statements generalizing number with
  | nil => rfl
  | cons statement rest ih =>
    rw [List.forall_mem_cons] at writable unmarked
    obtain ⟨line, words, numbered, parsed⟩ :=
      Line.statement_of_tokens writable.1.spelled number
    have head : line.numbered = .ok ⟨number, statement⟩ :=
      Line.numbered_eq_ok_iff.mpr ⟨numbered, parsed⟩
    have shift : (fun index statement => (⟨index + (number + 1), statement⟩ : Numbered)) =
        fun index statement => ⟨index + 1 + number, statement⟩ := by
      funext index statement
      rw [Nat.add_right_comm, Nat.add_assoc]
    rw [List.map_cons, scanFrom_cons, tokens_render writable.1 unmarked.1, words,
      Option.toList_some, List.singleton_append, Source.statements, head]
    simp only [ih writable.2 unmarked.2, List.mapIdx_cons, Nat.zero_add, shift]

theorem statements_scan_joined {marker : Marker} {statements : List Statement}
    (writable : ∀ statement ∈ statements, statement.Writable)
    (unmarked : ∀ statement ∈ statements, ¬ marker.text <:+: statement.render.toList)
    (ending : LineEnd) (closed : Bool) :
    Source.statements (scan marker
        (joined closed (statements.map fun statement => (statement.render, ending)))) =
      .ok (statements.mapIdx fun index statement => ⟨index + 1, statement⟩) := by
  have single : ∀ line ∈ statements.map fun statement => (statement.render, ending),
      '\n' ∉ line.1.toList := by
    rw [List.forall_mem_map]
    intro statement member
    exact (writable statement member).not_mem_render (by decide) (by decide)
  have loose : ∀ line ∈ statements.map fun statement => (statement.render, ending),
      ∀ kept, line.1.toList = kept ++ ['\r'] →
        tokens marker (String.ofList kept) = tokens marker line.1 := by
    rw [List.forall_mem_map]
    intro statement member kept ends
    have blank : isBlank '\r' = true := by decide
    have noReturn := (writable statement member).not_mem_render blank (by decide)
    simp [ends] at noReturn
  rw [scan, scanLines, scanFrom_joined marker single loose closed, List.map_map]
  exact statements_scanFrom writable unmarked 1

/-- Reading takes back writing: a text of statements is read as them, line by
line; the words of a statement that was read are read as it again; and what is
read from a text can be written. -/
theorem statements_render :
    (∀ instruction, (Statement.plain instruction).render = instruction.render) ∧
    (∀ (marker : Marker) (statements : List Statement) (ending : LineEnd) (closed : Bool),
      (∀ statement ∈ statements, statement.Writable) →
      (∀ statement ∈ statements, ¬ marker.text <:+: statement.render.toList) →
        Source.statements (scan marker
            (joined closed (statements.map fun statement => (statement.render, ending)))) =
          .ok (statements.mapIdx fun index statement => ⟨index + 1, statement⟩)) ∧
    (∀ (line : Line) (statement : Statement) (number : Nat), line.statement = .ok statement →
      ∃ again, Line.ofTokens? number statement.tokens = some again ∧
        again.statement = .ok statement) ∧
    ∀ (marker : Marker) (text : String) (parsed : List Numbered),
      Source.statements (scan marker text) = .ok parsed →
        ∀ source ∈ parsed, source.statement.Writable := by
  refine ⟨Statement.render_plain, ?_, ?_, ?_⟩
  · intro marker statements ending closed writable unmarked
    exact statements_scan_joined writable unmarked ending closed
  · intro line statement number parsed
    obtain ⟨again, words, _, read⟩ :=
      Line.statement_of_tokens (Line.spelled_of_statement parsed) number
    exact ⟨again, words, read⟩
  · intro marker text parsed read
    exact writable_of_scan read

def extremes : List Statement :=
  [.plain (.push Int64.minValue), .plain (.setArg 18446744073709551615), .label ";", .procEnd]

theorem statements_render_extremes :
    ∃ marker : Marker, marker.toString = "\r;" ∧
      (∀ statement ∈ extremes, statement.Writable) ∧
      (∀ statement ∈ extremes, ¬ marker.text <:+: statement.render.toList) ∧
      Source.statements (scan marker
          "Push -9223372036854775808\r\nSetArg 18446744073709551615\r\nlabel ;\r\nEnd") =
        .ok (extremes.mapIdx fun index statement => ⟨index + 1, statement⟩) ∧
      Line.statement ⟨3, "Push", ["+007"]⟩ = .ok (.plain (.push 7)) ∧
      Line.statement ⟨3, "Push", ["7"]⟩ = .ok (.plain (.push 7)) := by
  let marker : Marker := ⟨"\r;".toList, by decide⟩
  have writable : ∀ statement ∈ extremes, statement.Writable := by
    have fits : 18446744073709551615 < pointerLimit := by decide
    simp only [extremes, List.forall_mem_cons]
    refine ⟨⟨trivial, nofun⟩, ⟨fits, nofun⟩, ⟨trivial, ?_⟩, ⟨trivial, nofun⟩, nofun⟩
    intro name named
    obtain rfl : ";" = name := Option.some.inj named
    decide
  have unmarked : ∀ statement ∈ extremes, ¬ marker.text <:+: statement.render.toList := by
    decide +kernel
  have text := statements_render.2.1 marker extremes .returnNewline false writable unmarked
  have read : Line.statement ⟨3, "Push", ["+007"]⟩ = .ok (.plain (.push 7)) := by decide +kernel
  obtain ⟨again, words, readAgain⟩ := statements_render.2.2.1 _ _ 3 read
  cases words
  exact ⟨marker, rfl, writable, unmarked, text, read, readAgain⟩

end Source

end StackAsm
