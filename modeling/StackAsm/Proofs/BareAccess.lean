import StackAsm.Assembly
import StackAsm.Proofs.Declarations

/-!
# Accesses without a test

Assembling looks into lists at places that it does not test: at the first word
of a line, at the operand after a count of the operands, at the statement that
declared a name before.  In the definitions of this module every such access may
fail, and the whole pass fails with it.  Lines hold their words and nothing else,
and tables hold indices and no source lines, so that it is left to the indices
whether an access succeeds.  No access fails: each pass gives what it gives in
`Assembly.ofText`, on every text.
-/

set_option autoImplicit false

namespace StackAsm.Bare

open Source (Marker)
open Symbols (Site Closed)

/-- A pass that rejects a source with an error, or fails in an access. -/
abbrev Pass (α : Type) := ExceptT SourceError Option α

section Passes

variable {α β : Type}

def access (found : Option α) : Pass α :=
  ExceptT.mk (found.map .ok)

def plain (result : Except SourceError α) : Pass α :=
  ExceptT.mk (some result)

@[simp]
theorem access_some (value : α) : access (some value) = pure value :=
  rfl

@[simp]
theorem plain_ok (value : α) : plain (.ok value) = pure value :=
  rfl

@[simp]
theorem plain_error (error : SourceError) : plain (.error error : Except _ α) = throw error :=
  rfl

@[simp]
theorem throw_bind (error : SourceError) (next : α → Pass β) :
    (throw error >>= next : Pass β) = throw error :=
  rfl

end Passes

/-! ## Lines -/

structure WordLine where
  number : Nat
  tokens : List String

namespace WordLine

def ofTokens? (number : Nat) (tokens : List String) : Option WordLine :=
  if tokens.isEmpty then none else some ⟨number, tokens⟩

def mnemonic (line : WordLine) : Pass String :=
  access line.tokens[0]?

def operands (line : WordLine) : Pass (List String) :=
  access (if 1 ≤ line.tokens.length then some (line.tokens.drop 1) else none)

def expectOperands (line : WordLine) (expected : Nat) : Pass Unit := do
  let found := (← line.operands).length
  if found ≠ expected then
    throw (.operandCount (← line.mnemonic) expected found line.number)

def bare (line : WordLine) (statement : Statement) : Pass Statement := do
  line.expectOperands 0
  return statement

def operand (line : WordLine) : Pass String := do
  line.expectOperands 1
  access (← line.operands)[0]?

def named (line : WordLine) (make : String → Statement) : Pass Statement := do
  return make (← line.operand)

def literal {α : Type} (line : WordLine) (read : String → Except Text.Decimal.Error α)
    (make : α → Instruction) : Pass Statement := do
  let operand ← line.operand
  match read operand with
  | .error reason => throw (.invalidOperand (← line.mnemonic) operand reason line.number)
  | .ok value => return .plain (make value)

def statement (line : WordLine) : Pass Statement := do
  match ← line.mnemonic with
  | "Push" => line.literal Text.Decimal.readInt64 .push
  | "Pop" => line.bare (.plain .pop)
  | "Add" => line.bare (.plain .add)
  | "Sub" => line.bare (.plain .sub)
  | "Mul" => line.bare (.plain .mul)
  | "Div" => line.bare (.plain .div)
  | "Print" => line.bare (.plain .print)
  | "Ret" => line.bare (.plain .ret)
  | "Get" => line.literal Text.Decimal.readWord .get
  | "Set" => line.literal Text.Decimal.readWord .set
  | "GetArg" => line.literal Text.Decimal.readWord .getArg
  | "SetArg" => line.literal Text.Decimal.readWord .setArg
  | "Jump" => line.named (.jump .always)
  | "JE" => line.named (.jump .ifZero)
  | "JNE" => line.named (.jump .ifNonZero)
  | "Call" => line.named .call
  | "label" => line.named .label
  | "Proc" => line.named .proc
  | "End" => line.bare .procEnd
  | mnemonic => throw (.unknownMnemonic mnemonic line.number)

def numbered (line : WordLine) : Pass Numbered := do
  return ⟨line.number, ← line.statement⟩

def ofLine (line : Source.Line) : WordLine :=
  ⟨line.number, line.tokens⟩

end WordLine

def scanFrom (marker : Marker) (number : Nat) : List String → List WordLine
  | [] => []
  | raw :: rest =>
    match WordLine.ofTokens? number (Source.tokens marker raw) with
    | none => scanFrom marker (number + 1) rest
    | some line => line :: scanFrom marker (number + 1) rest

def statements : List WordLine → Pass (List Numbered)
  | [] => return []
  | line :: rest => do
    let source ← line.numbered
    return source :: (← statements rest)

section Lines

variable (line : Source.Line)

open WordLine

@[simp]
theorem number_ofLine : (ofLine line).number = line.number :=
  rfl

@[simp]
theorem mnemonic_ofLine : (ofLine line).mnemonic = pure line.mnemonic :=
  rfl

@[simp]
theorem operands_ofLine : (ofLine line).operands = pure line.operands := by
  simp [operands, ofLine, Source.Line.tokens]

theorem expectOperands_ofLine (expected : Nat) :
    (ofLine line).expectOperands expected =
      if line.operands.length = expected then pure ()
      else throw (.operandCount line.mnemonic expected line.operands.length line.number) := by
  rw [expectOperands, operands_ofLine, pure_bind]
  by_cases counted : line.operands.length = expected <;> simp [counted]

theorem bare_ofLine (statement : Statement) :
    (ofLine line).bare statement = plain (line.bare statement) := by
  rw [WordLine.bare, expectOperands_ofLine, Source.Line.bare]
  cases line.operands with
  | nil => rfl
  | cons first rest => simp

theorem operand_ofLine : (ofLine line).operand = plain line.operand := by
  rw [operand, expectOperands_ofLine, operands_ofLine, Source.Line.operand]
  match line.operands with
  | [] => rfl
  | [only] => rfl
  | first :: second :: rest => simp

theorem named_ofLine (make : String → Statement) :
    (ofLine line).named make = plain (line.named make) := by
  rw [named, operand_ofLine, Source.Line.named]
  cases line.operand <;> rfl

theorem literal_ofLine {α : Type} (read : String → Except Text.Decimal.Error α)
    (make : α → Instruction) :
    (ofLine line).literal read make = plain (line.literal read make) := by
  rw [literal, operand_ofLine, Source.Line.literal]
  cases line.operand with
  | error error => rfl
  | ok operand =>
    rw [plain_ok, pure_bind]
    dsimp only
    cases read operand <;> rfl

theorem statement_ofLine : (ofLine line).statement = plain line.statement := by
  rw [WordLine.statement, mnemonic_ofLine, pure_bind]
  simp only [literal_ofLine, bare_ofLine, named_ofLine]
  unfold Source.Line.statement
  generalize line.mnemonic = word
  split
  case h_20 => simp [*]
  all_goals rfl

theorem numbered_ofLine : (ofLine line).numbered = plain line.numbered := by
  rw [numbered, statement_ofLine, Source.Line.numbered]
  cases line.statement <;> rfl

end Lines

theorem scanFrom_eq_map (marker : Marker) (number : Nat) (raw : List String) :
    scanFrom marker number raw =
      (Source.scanFrom marker number raw).map WordLine.ofLine := by
  induction raw generalizing number with
  | nil => rfl
  | cons first rest ih =>
    rw [scanFrom, Source.scanFrom]
    cases Source.tokens marker first with
    | nil => exact ih (number + 1)
    | cons mnemonic operands =>
      dsimp only [WordLine.ofTokens?, Source.Line.ofTokens?, List.isEmpty_cons]
      rw [List.map_cons, ← ih (number + 1)]
      rfl

theorem statements_map_ofLine (lines : List Source.Line) :
    statements (lines.map WordLine.ofLine) = plain (Source.statements lines) := by
  induction lines with
  | nil => rfl
  | cons line rest ih =>
    rw [List.map_cons, statements, numbered_ofLine, ih, Source.statements]
    cases line.numbered with
    | error error => rfl
    | ok source => cases Source.statements rest <;> rfl

/-! ## Names -/

/-- Adds the indices of labels.  A label declared twice is looked up among all
the statements by the index the table has for it. -/
def collectLabels (all : List Numbered) (index : Nat) (labels : NameTable Nat) :
    List Numbered → Pass (NameTable Nat)
  | [] => return labels
  | ⟨line, .label name⟩ :: rest =>
    match labels.get? name with
    | some first => do
      let declared ← access all[first]?
      throw (.duplicateLabel name line declared.line)
    | none => collectLabels all (index + 1) (labels.insert name index) rest
  | _ :: rest => collectLabels all (index + 1) labels rest

/-- Adds the extents of procedures.  The open procedure is known by its name and
its index. -/
def collectProcedures (all : List Numbered) (index : Nat) (current : Option (String × Nat))
    (procedures : NameTable Procedure) : List Numbered → Pass (NameTable Procedure)
  | [] =>
    match current with
    | some (name, entry) => do
      let opened ← access all[entry]?
      throw (.unterminatedProcedure name opened.line)
    | none => return procedures
  | ⟨line, .proc name⟩ :: rest =>
    match current with
    | some (outer, _) => throw (.nestedProcedure name outer line)
    | none =>
      match procedures.get? name with
      | some existing => do
        let opened ← access all[existing.entry]?
        throw (.duplicateProcedure name line opened.line)
      | none => collectProcedures all (index + 1) (some (name, index)) procedures rest
  | ⟨line, .procEnd⟩ :: rest =>
    match current with
    | none => throw (.unmatchedEnd line)
    | some (name, entry) =>
      collectProcedures all (index + 1) none (procedures.insert name ⟨entry, index + 1⟩) rest
  | _ :: rest => collectProcedures all (index + 1) current procedures rest

def resolve (all : List Numbered) : Pass Symbols := do
  let labels ← collectLabels all 0 .empty all
  let procedures ← collectProcedures all 0 none .empty all
  return ⟨labels, procedures⟩

def Located (all : List Numbered) (site : Site) : Prop :=
  all[site.index]?.map Numbered.line = some site.line

theorem Located.throw_line {α : Type} {all : List Numbered} {site : Site}
    (located : Located all site) (error : Nat → SourceError) :
    (access all[site.index]? >>= fun source => throw (error source.line) : Pass α) =
      throw (error site.line) := by
  obtain ⟨source, stands, same⟩ := Option.map_eq_some_iff.mp located
  rw [stands, access_some, pure_bind, same]

theorem forall_get?_insert {α : Type} {holds : α → Prop} {table : NameTable α} {name : String}
    {value : α} (new : holds value)
    (old : ∀ query found, table.get? query = some found → holds found) :
    ∀ query found, (table.insert name value).get? query = some found → holds found := by
  intro query found written
  rw [NameTable.get?_insert] at written
  split at written
  · cases written
    exact new
  · exact old query found written

section Names

variable (all front rest : List Numbered)

theorem located_here {source : Numbered} (shape : all = front ++ source :: rest) :
    Located all ⟨front.length, source.line⟩ := by
  rw [Located, shape]
  simp

/-- The table holds indices of statements already passed. -/
theorem collectLabels_eq (found : NameTable Site) (shape : all = front ++ rest)
    (located : ∀ name site, found.get? name = some site → Located all site) :
    collectLabels all front.length (found.map Site.index) rest =
      plain ((Symbols.collectLabels front.length found rest).map (NameTable.map Site.index)) := by
  induction rest generalizing front found with
  | nil => rfl
  | cons source rest ih =>
    have further : all = front ++ [source] ++ rest := by simp [shape]
    have next : (front ++ [source]).length = front.length + 1 := by simp
    have here := located_here all front rest shape
    have skips := ih (front ++ [source]) found further located
    rw [next] at skips
    obtain ⟨line, statement⟩ := source
    cases statement with
    | label name =>
      rw [collectLabels, Symbols.collectLabels, NameTable.get?_map]
      cases taken : found.get? name with
      | some first => exact (located name first taken).throw_line (.duplicateLabel name line)
      | none =>
        have extended : ∀ query site,
            (found.insert name ⟨front.length, line⟩).get? query = some site →
              Located all site := forall_get?_insert here located
        have enters := ih _ _ further extended
        rw [next, NameTable.map_insert] at enters
        exact enters
    | plain _ | jump _ _ | call _ | proc _ | procEnd => exact skips

/-- So does the table of procedures, and the open procedure was passed. -/
theorem collectProcedures_eq (current : Option (String × Site)) (found : NameTable Closed)
    (shape : all = front ++ rest) (opened : ∀ pair ∈ current, Located all pair.2)
    (located : ∀ name closed, found.get? name = some closed → Located all closed.opened) :
    collectProcedures all front.length (current.map fun pair => (pair.1, pair.2.index))
        (found.map fun closed => ⟨closed.opened.index, closed.exit⟩) rest =
      plain ((Symbols.collectProcedures front.length current found rest).map
        (NameTable.map fun closed => ⟨closed.opened.index, closed.exit⟩)) := by
  induction rest generalizing front current found with
  | nil =>
    cases current with
    | none => rfl
    | some pair => exact (opened pair rfl).throw_line (.unterminatedProcedure pair.1)
  | cons source rest ih =>
    have further : all = front ++ [source] ++ rest := by simp [shape]
    have next : (front ++ [source]).length = front.length + 1 := by simp
    have here := located_here all front rest shape
    have skips := ih (front ++ [source]) current found further opened located
    rw [next] at skips
    obtain ⟨line, statement⟩ := source
    cases statement with
    | proc name =>
      cases current with
      | some pair => rfl
      | none =>
        simp only [collectProcedures, Symbols.collectProcedures, Option.map_none,
          NameTable.get?_map]
        cases taken : found.get? name with
        | some first =>
          exact (located name first taken).throw_line (.duplicateProcedure name line)
        | none =>
          have opens : ∀ pair ∈ some (name, (⟨front.length, line⟩ : Site)),
              Located all pair.2 := by
            intro pair member
            cases member
            exact here
          have enters := ih _ _ found further opens located
          rw [next] at enters
          exact enters
    | procEnd =>
      cases current with
      | none => rfl
      | some pair =>
        have extended : ∀ query closed,
            (found.insert pair.1 ⟨pair.2, front.length + 1⟩).get? query = some closed →
              Located all closed.opened := forall_get?_insert (opened pair rfl) located
        have noneOpen : ∀ pair ∈ (none : Option (String × Site)), Located all pair.2 := by
          intro pair member
          cases member
        have closes := ih _ none _ further noneOpen extended
        rw [next, NameTable.map_insert] at closes
        exact closes
    | plain _ | jump _ _ | call _ | label _ => exact skips

theorem resolve_eq : resolve all = plain (Symbols.resolve all) := by
  have labels : collectLabels all 0 .empty all =
      plain ((Symbols.collectLabels 0 .empty all).map (NameTable.map Site.index)) :=
    collectLabels_eq all [] all .empty rfl nofun
  have procedures : collectProcedures all 0 none .empty all =
      plain ((Symbols.collectProcedures 0 none .empty all).map
        (NameTable.map fun closed => ⟨closed.opened.index, closed.exit⟩)) :=
    collectProcedures_eq all [] all none .empty rfl nofun nofun
  rw [resolve, Symbols.resolve, labels, procedures]
  cases Symbols.collectLabels 0 .empty all with
  | error error => rfl
  | ok found => cases Symbols.collectProcedures 0 none .empty all <;> rfl

end Names

/-! ## Instructions -/

/-- Lowers a statement of a source with a given number of lines.  A call has to
lead to one of them, or behind the last. -/
def lower (count : Nat) (symbols : Symbols) (source : Numbered) : Pass Instruction :=
  match source.statement with
  | .call name =>
    match symbols.procedure? name with
    | some procedure => do
      let target ← access
        (if procedure.callTarget ≤ count then some procedure.callTarget else none)
      return .call target
    | none => throw (.undefinedProcedure name source.line)
  | _ => plain (StackAsm.lower symbols source)

def emit (count : Nat) (symbols : Symbols) (buffer : Program) :
    List Numbered → Pass Program
  | [] => return buffer
  | source :: rest => do
    emit count symbols (buffer.push (← lower count symbols source)) rest

def ofText (marker : Marker) (text : String) : Pass Assembly := do
  let lines := scanFrom marker 1 (Source.rawLines text)
  let statements ← statements lines
  let symbols ← resolve statements
  let program ← emit statements.length symbols #[] statements
  return ⟨program, symbols, lines.map WordLine.number⟩

theorem lower_eq {all : List Numbered} {symbols : Symbols}
    (resolved : Symbols.resolve all = .ok symbols) (source : Numbered) :
    lower all.length symbols source = plain (StackAsm.lower symbols source) := by
  rw [lower, StackAsm.lower]
  cases source.statement with
  | call name =>
    dsimp only
    cases known : symbols.procedure? name with
    | none => rfl
    | some procedure =>
      obtain ⟨enters, exits⟩ := Symbols.procedure?_bounds resolved known
      have inside : procedure.callTarget ≤ all.length := by
        unfold Procedure.callTarget
        omega
      simp only [if_pos inside]
      rfl
  | plain _ | jump _ _ | label _ | proc _ | procEnd => rfl

section Emission

variable {all : List Numbered} {symbols : Symbols}
  (resolved : Symbols.resolve all = .ok symbols)

include resolved

theorem emit_eq_fill (buffer : Program) (rest : List Numbered) :
    emit all.length symbols buffer rest =
      plain (match Emitter.fill symbols ⟨buffer⟩ rest with
        | (some error, _) => .error error
        | (none, filled) => .ok filled.buffer) := by
  induction rest generalizing buffer with
  | nil => rfl
  | cons source rest ih =>
    rw [emit, Emitter.fill, lower_eq resolved]
    cases StackAsm.lower symbols source with
    | error error => rfl
    | ok instruction => exact ih (buffer.push instruction)

theorem emit_eq_generate :
    emit all.length symbols #[] all = plain (({} : Emitter).generate symbols all).1 := by
  have emptied : (#[] : Program).shrink 0 = #[] := by simp
  rw [emit_eq_fill resolved, Emitter.generate, emptied]
  cases Emitter.fill symbols ⟨#[]⟩ all with
  | mk failure filled => cases failure <;> rfl

end Emission

/-- No access fails, whatever the text. -/
theorem ofText_eq (marker : Marker) (text : String) :
    ofText marker text = plain (Assembly.ofText marker text) := by
  have lines : scanFrom marker 1 (Source.rawLines text) =
      (Source.scan marker text).map WordLine.ofLine := scanFrom_eq_map marker 1 _
  rw [ofText, lines, statements_map_ofLine, Assembly.ofText, Assembly.ofLines]
  cases Source.statements (Source.scan marker text) with
  | error error => rfl
  | ok all =>
    simp only [plain_ok, pure_bind, resolve_eq, List.map_map]
    cases resolved : Symbols.resolve all with
    | error error => rfl
    | ok symbols =>
      simp only [plain_ok, pure_bind, emit_eq_generate resolved]
      cases (({} : Emitter).generate symbols all).1 <;> rfl

end StackAsm.Bare
