import StackAsm.Proofs.Lowering

/-!
# Lines that mean nothing

A raw line without words changes no instruction and no symbol.  It only changes
the numbers of the lines below it.  No pass of the assembler compares line
numbers or computes with them, so that each pass commutes with every change of
numbers.
-/

set_option autoImplicit false

namespace StackAsm

/-! ## Lines without words -/

namespace Text

theorem consWord_eq_nil_iff {word : List Char} {rest : List (List Char)} :
    consWord word rest = [] ↔ word = [] ∧ rest = [] := by
  cases word <;> simp [consWord]

theorem words_eq_nil_iff (text : List Char) : words text = [] ↔ isAllBlank text = true := by
  rw [words, consWord_eq_nil_iff]
  induction text with
  | nil => simp [frontWord, isAllBlank]
  | cons c rest ih =>
    have split : isAllBlank (c :: rest) = (isBlank c && isAllBlank rest) := rfl
    rw [frontWord, split]
    cases isBlank c with
    | false => simp
    | true => simpa [consWord_eq_nil_iff] using ih

end Text

namespace Source

open Text (isAllBlank words_eq_nil_iff)

theorem codePart_append (marker : Marker) (text : List Char) :
    ∃ comment, text = codePart marker text ++ comment ∧
      (comment = [] ∨ marker.opens comment = true) := by
  induction text with
  | nil => exact ⟨[], rfl, .inl rfl⟩
  | cons c rest ih =>
    rw [codePart]
    split
    · rename_i opens
      exact ⟨c :: rest, rfl, .inr opens⟩
    · obtain ⟨comment, same, ends⟩ := ih
      exact ⟨comment, by rw [List.cons_append, ← same], ends⟩

theorem mem_of_mem_codePart {marker : Marker} {code comment : List Char}
    (ends : comment = [] ∨ marker.opens comment = true) :
    ∀ c ∈ codePart marker (code ++ comment), c ∈ code := by
  induction code with
  | nil =>
    cases comment with
    | nil => simp [codePart]
    | cons c rest =>
      have opens : marker.opens (c :: rest) = true := ends.resolve_left (List.cons_ne_nil _ _)
      simp [codePart, opens]
  | cons c rest ih =>
    rw [List.cons_append, codePart]
    split
    · simp
    · intro other member
      rcases List.mem_cons.mp member with rfl | later
      · exact List.mem_cons_self
      · exact List.mem_cons_of_mem _ (ih other later)

/-- A line has no words when blanks stand on it, a comment, or both. -/
theorem tokens_eq_nil_iff (marker : Marker) (raw : String) :
    tokens marker raw = [] ↔
      ∃ blanks comment, raw.toList = blanks ++ comment ∧ isAllBlank blanks = true ∧
        (comment = [] ∨ marker.opens comment = true) := by
  rw [tokens, List.map_eq_nil_iff, words_eq_nil_iff]
  constructor
  · intro blank
    obtain ⟨comment, same, ends⟩ := codePart_append marker raw.toList
    exact ⟨_, comment, same, blank, ends⟩
  · intro parts
    obtain ⟨blanks, comment, same, blank, ends⟩ := parts
    rw [same]
    refine List.all_eq_true.mpr ?_
    intro c member
    exact List.all_eq_true.mp blank c (mem_of_mem_codePart ends c member)

end Source

/-! ## Change of numbers -/

/-- The error with both its line and the line it refers back to renumbered. -/
def SourceError.renumber (f : Nat → Nat) : SourceError → SourceError
  | .unknownMnemonic mnemonic line => .unknownMnemonic mnemonic (f line)
  | .invalidOperand mnemonic operand reason line =>
    .invalidOperand mnemonic operand reason (f line)
  | .operandCount mnemonic expected found line => .operandCount mnemonic expected found (f line)
  | .undefinedLabel name line => .undefinedLabel name (f line)
  | .undefinedProcedure name line => .undefinedProcedure name (f line)
  | .duplicateLabel name line first => .duplicateLabel name (f line) (f first)
  | .duplicateProcedure name line first => .duplicateProcedure name (f line) (f first)
  | .unterminatedProcedure name line => .unterminatedProcedure name (f line)
  | .nestedProcedure inner outer line => .nestedProcedure inner outer (f line)
  | .unmatchedEnd line => .unmatchedEnd (f line)
  | .blankMarker => .blankMarker

def renumbered {α β : Type} (f : Nat → Nat) (value : α → β) :
    Except SourceError α → Except SourceError β
  | .error error => .error (error.renumber f)
  | .ok result => .ok (value result)

def Source.Line.renumber (f : Nat → Nat) (line : Source.Line) : Source.Line :=
  { line with number := f line.number }

def Numbered.renumber (f : Nat → Nat) (source : Numbered) : Numbered :=
  { source with line := f source.line }

def Symbols.Site.renumber (f : Nat → Nat) (site : Symbols.Site) : Symbols.Site :=
  { site with line := f site.line }

def Symbols.Closed.renumber (f : Nat → Nat) (closed : Symbols.Closed) : Symbols.Closed :=
  { closed with opened := closed.opened.renumber f }

def Assembly.renumber (f : Nat → Nat) (assembly : Assembly) : Assembly :=
  { assembly with lines := assembly.lines.map f }

section Passes

variable (f : Nat → Nat)

namespace Source

theorem Line.bare_renumber (line : Line) (statement : Statement) :
    (line.renumber f).bare statement = renumbered f id (line.bare statement) := by
  obtain ⟨number, mnemonic, operands⟩ := line
  cases operands <;> rfl

theorem Line.operand_renumber (line : Line) :
    (line.renumber f).operand = renumbered f id line.operand := by
  obtain ⟨number, mnemonic, operands⟩ := line
  rcases operands with _ | ⟨first, _ | ⟨second, rest⟩⟩ <;> rfl

theorem Line.named_renumber (line : Line) (make : String → Statement) :
    (line.renumber f).named make = renumbered f id (line.named make) := by
  rw [named, named, operand_renumber]
  cases line.operand <;> rfl

theorem Line.literal_renumber {α : Type} (line : Line)
    (read : String → Except Text.Decimal.Error α) (make : α → Instruction) :
    (line.renumber f).literal read make = renumbered f id (line.literal read make) := by
  rw [literal, literal, operand_renumber]
  cases line.operand with
  | error error => rfl
  | ok operand =>
    simp only [renumbered, id]
    cases read operand <;> rfl

theorem Line.statement_renumber (line : Line) :
    (line.renumber f).statement = renumbered f id line.statement := by
  have same : (line.renumber f).mnemonic = line.mnemonic := rfl
  unfold statement
  rw [same]
  split
  case h_1 | h_9 | h_10 | h_11 | h_12 => exact literal_renumber f line _ _
  case h_13 | h_14 | h_15 | h_16 | h_17 | h_18 => exact named_renumber f line _
  case h_20 => rfl
  all_goals exact bare_renumber f line _

theorem Line.numbered_renumber (line : Line) :
    (line.renumber f).numbered = renumbered f (Numbered.renumber f) line.numbered := by
  rw [numbered, numbered, statement_renumber]
  cases line.statement <;> rfl

theorem statements_renumber (lines : List Line) :
    statements (lines.map (Line.renumber f)) =
      renumbered f (List.map (Numbered.renumber f)) (statements lines) := by
  induction lines with
  | nil => rfl
  | cons line rest ih =>
    rw [List.map_cons, statements, statements, Line.numbered_renumber, ih]
    cases line.numbered with
    | error error => rfl
    | ok source => cases statements rest <;> rfl

end Source

namespace Symbols

theorem collectLabels_renumber (index : Nat) (found : NameTable Site)
    (statements : List Numbered) :
    collectLabels index (found.map (Site.renumber f)) (statements.map (Numbered.renumber f)) =
      renumbered f (NameTable.map (Site.renumber f)) (collectLabels index found statements) := by
  induction statements generalizing index found with
  | nil => rfl
  | cons source rest ih =>
    obtain ⟨line, statement⟩ := source
    cases statement with
    | label name =>
      simp only [List.map_cons, Numbered.renumber, collectLabels, NameTable.get?_map]
      cases found.get? name with
      | some first => rfl
      | none =>
        have next := ih (index + 1) (found.insert name ⟨index, line⟩)
        rwa [NameTable.map_insert] at next
    | plain _ | jump _ _ | call _ | proc _ | procEnd => exact ih (index + 1) found

theorem collectProcedures_renumber (index : Nat) (current : Option (String × Site))
    (found : NameTable Closed) (statements : List Numbered) :
    collectProcedures index (current.map fun opened => (opened.1, opened.2.renumber f))
        (found.map (Closed.renumber f)) (statements.map (Numbered.renumber f)) =
      renumbered f (NameTable.map (Closed.renumber f))
        (collectProcedures index current found statements) := by
  induction statements generalizing index current found with
  | nil => rcases current with _ | ⟨name, opened⟩ <;> rfl
  | cons source rest ih =>
    obtain ⟨line, statement⟩ := source
    cases statement with
    | proc name =>
      rcases current with _ | ⟨outer, opened⟩
      · simp only [List.map_cons, Numbered.renumber, collectProcedures, NameTable.get?_map,
          Option.map_none]
        cases found.get? name with
        | some first => rfl
        | none => exact ih (index + 1) (some (name, ⟨index, line⟩)) found
      · rfl
    | procEnd =>
      rcases current with _ | ⟨name, opened⟩
      · rfl
      · have next := ih (index + 1) none (found.insert name ⟨opened, index + 1⟩)
        rwa [NameTable.map_insert] at next
    | plain _ | jump _ _ | call _ | label _ =>
      have next := ih (index + 1) current found
      rcases current with _ | ⟨name, opened⟩ <;> exact next

/-- Symbols stand for positions, and these do not depend on line numbers. -/
theorem resolve_renumber (statements : List Numbered) :
    resolve (statements.map (Numbered.renumber f)) = renumbered f id (resolve statements) := by
  have labels := collectLabels_renumber f 0 .empty statements
  have procedures := collectProcedures_renumber f 0 none .empty statements
  have start : ∀ {α β : Type} (g : α → β), NameTable.map g .empty = .empty := fun _ => rfl
  rw [start] at labels
  rw [start, Option.map_none] at procedures
  rw [resolve, resolve, labels, procedures]
  cases collectLabels 0 .empty statements with
  | error error => rfl
  | ok labels =>
    cases collectProcedures 0 none .empty statements with
    | error error => rfl
    | ok procedures =>
      simp only [renumbered, NameTable.map_map]
      rfl

end Symbols

theorem lower_renumber (symbols : Symbols) (source : Numbered) :
    lower symbols (source.renumber f) = renumbered f id (lower symbols source) := by
  obtain ⟨line, statement⟩ := source
  cases statement with
  | plain _ | label _ | procEnd => rfl
  | proc name | call name =>
    simp only [Numbered.renumber, lower]
    cases symbols.procedure? name <;> rfl
  | jump kind name =>
    simp only [Numbered.renumber, lower]
    cases symbols.label? name <;> rfl

theorem Emitter.generate_renumber (emitter : Emitter) (symbols : Symbols)
    (statements : List Numbered) :
    (emitter.generate symbols (statements.map (Numbered.renumber f))).1 =
      renumbered f id (emitter.generate symbols statements).1 := by
  have errorsOnly : ∀ {α : Type} (result : Except SourceError α),
      renumbered f id result = result.mapError (SourceError.renumber f) := by
    intro α result
    cases result <;> rfl
  rw [errorsOnly]
  refine generate_map emitter ?_
  intro source _
  rw [lower_renumber, errorsOnly]

/-- Assembling commutes with every change of line numbers. -/
theorem Assembly.ofLines_renumber (lines : List Source.Line) :
    ofLines (lines.map (Source.Line.renumber f)) =
      renumbered f (Assembly.renumber f) (ofLines lines) := by
  rw [ofLines, ofLines, Source.statements_renumber]
  cases Source.statements lines with
  | error error => rfl
  | ok statements =>
    simp only [renumbered, Symbols.resolve_renumber]
    cases Symbols.resolve statements with
    | error error => rfl
    | ok symbols =>
      simp only [renumbered, Emitter.generate_renumber, id]
      cases (Emitter.generate {} symbols statements).1 with
      | error error => rfl
      | ok program =>
        simp only [Assembly.renumber, List.map_map]
        rfl

end Passes

/-! ## Added lines -/

/-- The number of a line after one more line was added below the first `k`. -/
def shift (k number : Nat) : Nat :=
  if k < number then number + 1 else number

namespace Source

variable (marker : Marker)

theorem Line.ofTokens?_renumber (f : Nat → Nat) (number : Nat) (words : List String) :
    Line.ofTokens? (f number) words = (Line.ofTokens? number words).map (Line.renumber f) := by
  cases words <;> rfl

theorem scanFrom_cons (number : Nat) (raw : String) (rest : List String) :
    scanFrom marker number (raw :: rest) =
      (Line.ofTokens? number (tokens marker raw)).toList ++ scanFrom marker (number + 1) rest := by
  rw [scanFrom]
  cases Line.ofTokens? number (tokens marker raw) <;> rfl

theorem scanFrom_shift {k number : Nat} (below : k < number) (raw : List String) :
    scanFrom marker (number + 1) raw =
      (scanFrom marker number raw).map (Line.renumber (shift k)) := by
  induction raw generalizing number with
  | nil => rfl
  | cons head rest ih =>
    have moved : number + 1 = shift k number := by simp [shift, below]
    rw [scanFrom_cons, scanFrom_cons, ih (by omega), List.map_append, moved,
      Line.ofTokens?_renumber, Option.toList_map]

theorem scanFrom_insertIdx {filler : String} (silent : tokens marker filler = [])
    (number k : Nat) (raw : List String) :
    scanFrom marker (number + 1) (raw.insertIdx k filler) =
      (scanFrom marker (number + 1) raw).map (Line.renumber (shift (number + k))) := by
  induction k generalizing number raw with
  | zero =>
    rw [List.insertIdx_zero, scanFrom_cons, silent]
    exact scanFrom_shift marker (by omega) raw
  | succ k ih =>
    cases raw with
    | nil => rfl
    | cons head rest =>
      have kept : shift (number + (k + 1)) (number + 1) = number + 1 := by simp [shift]
      have unmoved : (Line.ofTokens? (number + 1) (tokens marker head)).map
          (Line.renumber (shift (number + (k + 1)))) =
            Line.ofTokens? (number + 1) (tokens marker head) := by
        rw [← Line.ofTokens?_renumber, kept]
      have next := ih (number + 1) rest
      rw [show number + 1 + k = number + (k + 1) by omega] at next
      rw [List.insertIdx_succ_cons, scanFrom_cons, scanFrom_cons, next, List.map_append,
        ← Option.toList_map, unmoved]

end Source

/-- Adding a line without words below the first `k` lines keeps the program and
the symbols of an accepted source, and the cause for which a source is refused;
only line numbers above `k` move by one. -/
theorem Assembly.ofRawLines_insertIdx (marker : Source.Marker) (raw : List String) (k : Nat)
    (filler : String) (silent : Source.tokens marker filler = []) :
    (∀ assembly, ofRawLines marker raw = .ok assembly →
        ofRawLines marker (raw.insertIdx k filler) =
          .ok { assembly with lines := assembly.lines.map (shift k) }) ∧
      ∀ error, ofRawLines marker raw = .error error →
        ofRawLines marker (raw.insertIdx k filler) = .error (error.renumber (shift k)) := by
  have scanned : Source.scanLines marker (raw.insertIdx k filler) =
      (Source.scanLines marker raw).map (Source.Line.renumber (shift k)) := by
    have inserted := Source.scanFrom_insertIdx marker silent 0 k raw
    rwa [Nat.zero_add, Nat.zero_add] at inserted
  have padded : ofRawLines marker (raw.insertIdx k filler) =
      renumbered (shift k) (Assembly.renumber (shift k)) (ofRawLines marker raw) := by
    rw [ofRawLines, ofRawLines, scanned, ofLines_renumber]
  constructor
  · intro assembly accepted
    rw [padded, accepted]
    rfl
  · intro error refused
    rw [padded, refused]
    rfl

theorem Assembly.ofRawLines_insertIdx_remark :
    (∃ assembly, ofRawLines .semicolon ["Push 1", "label a", "Jump a"] = .ok assembly ∧
      assembly.program = #[.push 1, .noop, .jump 1] ∧ assembly.lines = [1, 2, 3] ∧
      ofRawLines .semicolon ["Push 1", "  ; remark", "label a", "Jump a"] =
        .ok { assembly with lines := [1, 3, 4] }) ∧
    ofRawLines .semicolon ["label a", "Push 1", "label a"] = .error (.duplicateLabel "a" 3 1) ∧
    ofRawLines .semicolon ["label a", "  ; remark", "Push 1", "label a"] =
      .error (.duplicateLabel "a" 4 1) := by
  have silent : Source.tokens .semicolon "  ; remark" = [] :=
    (Source.tokens_eq_nil_iff _ _).mpr
      ⟨"  ".toList, "; remark".toList, by decide, by decide, .inr (by decide)⟩
  have accepted := (ofRawLines_insertIdx .semicolon ["Push 1", "label a", "Jump a"] 1 _ silent).1
  have refused := (ofRawLines_insertIdx .semicolon ["label a", "Push 1", "label a"] 1 _ silent).2
  exact ⟨⟨_, rfl, rfl, rfl, accepted _ rfl⟩, rfl, refused _ rfl⟩

end StackAsm
