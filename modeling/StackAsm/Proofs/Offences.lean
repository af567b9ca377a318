import StackAsm.Proofs.Parsing

/-!
# Offences in a source

An offence is described by what stands on the lines, without the tables the
passes of the assembler keep.  Each kind is looked for from the first line to
the last, one kind after the other.  A pass that looks for one kind either fails
with its first offence or finds none.
-/

set_option autoImplicit false

namespace StackAsm.Source

/-! ## Offences -/

/-- Which statement stands at a position, and on the source line with which
number. -/
abbrev Layout := Nat → Nat → Statement → Prop

abbrev Offence := Nat → SourceError → Prop

def lineLayout (lines : List Line) : Layout := fun position number statement =>
  ∃ line, lines[position]? = some line ∧ line.number = number ∧ line.statement = .ok statement

def Misread (lines : List Line) : Offence := fun position error =>
  ∃ line, lines[position]? = some line ∧ line.statement = .error error

section Offences

variable (layout : Layout)

def Above (position number : Nat) (statement : Statement) : Prop :=
  ∃ earlier < position, layout earlier number statement

def Bracketed (position : Nat) : Prop :=
  (∃ number name, layout position number (.proc name)) ∨ ∃ number, layout position number .procEnd

/-- A procedure is open at a position when the last opening or closing line
above it opens that procedure. -/
def OpenAbove (position number : Nat) (name : String) : Prop :=
  ∃ entry < position, layout entry number (.proc name) ∧
    ∀ between, entry < between → between < position → ¬ Bracketed layout between

def RepeatedLabel : Offence := fun position error =>
  ∃ name number first, layout position number (.label name) ∧
    Above layout position first (.label name) ∧ error = .duplicateLabel name number first

inductive MisplacedBracket (position : Nat) : SourceError → Prop where
  | nested {inner outer : String} {number opened : Nat}
      (stands : layout position number (.proc inner))
      (inside : OpenAbove layout position opened outer) :
      MisplacedBracket position (.nestedProcedure inner outer number)
  | repeated {name : String} {number first : Nat}
      (stands : layout position number (.proc name))
      (outside : ∀ opened outer, ¬ OpenAbove layout position opened outer)
      (known : Above layout position first (.proc name)) :
      MisplacedBracket position (.duplicateProcedure name number first)
  | unmatched {number : Nat}
      (stands : layout position number .procEnd)
      (outside : ∀ opened outer, ¬ OpenAbove layout position opened outer) :
      MisplacedBracket position (.unmatchedEnd number)

def Unterminated : Offence := fun position error =>
  ∃ name number, layout position number (.proc name) ∧
    (∀ later, position < later → ¬ Bracketed layout later) ∧
      error = .unterminatedProcedure name number

inductive Undeclared (position : Nat) : SourceError → Prop where
  | label {kind : JumpKind} {name : String} {number : Nat}
      (stands : layout position number (.jump kind name))
      (missing : ∀ elsewhere line, ¬ layout elsewhere line (.label name)) :
      Undeclared position (.undefinedLabel name number)
  | procedure {name : String} {number : Nat}
      (stands : layout position number (.call name))
      (missing : ∀ elsewhere line, ¬ layout elsewhere line (.proc name)) :
      Undeclared position (.undefinedProcedure name number)

end Offences

def First (offence : Offence) : Offence := fun position error =>
  offence position error ∧ ∀ earlier < position, ∀ other, ¬ offence earlier other

/-- The first offence of the first kind that occurs at all. -/
def Reported : List Offence → Offence
  | [], _, _ => False
  | kind :: later, position, error =>
    First kind position error ∨
      (∀ elsewhere other, ¬ kind elsewhere other) ∧ Reported later position error

def offences (lines : List Line) : List Offence :=
  [Misread lines, RepeatedLabel (lineLayout lines), MisplacedBracket (lineLayout lines),
    Unterminated (lineLayout lines), Undeclared (lineLayout lines)]

/-! ## Judging a list from front to back -/

def Judges (offence : Offence) : Option SourceError → Prop
  | some found => ∃ position, ∀ elsewhere error,
      First offence elsewhere error ↔ elsewhere = position ∧ error = found
  | none => ∀ elsewhere error, ¬ offence elsewhere error

theorem reported_iff_of_judges {offence : Offence} {later : List Offence}
    {failure : Option SourceError} (judged : Judges offence failure) (error : SourceError) :
    (∃ position, Reported (offence :: later) position error) ↔
      failure = some error ∨ failure = none ∧ ∃ position, Reported later position error := by
  cases failure with
  | none =>
    have clear : ∀ elsewhere other, ¬ offence elsewhere other := judged
    constructor
    · intro reported
      obtain ⟨position, first | ⟨_, rest⟩⟩ := reported
      · exact absurd first.1 (clear position error)
      · exact .inr ⟨rfl, position, rest⟩
    · intro reported
      obtain impossible | ⟨_, position, rest⟩ := reported
      · cases impossible
      · exact ⟨position, .inr ⟨clear, rest⟩⟩
  | some found =>
    obtain ⟨position, only⟩ := judged
    have first : First offence position found := (only position found).mpr ⟨rfl, rfl⟩
    constructor
    · intro reported
      obtain ⟨elsewhere, other | ⟨clear, _⟩⟩ := reported
      · exact .inl (congrArg some ((only elsewhere error).mp other).2.symm)
      · exact absurd first.1 (clear position found)
    · intro reported
      obtain same | ⟨impossible, _⟩ := reported
      · cases same
        exact ⟨position, .inl first⟩
      · cases impossible

section Scan

variable {α σ : Type}

/-- A pass looks at one element after the other.  It fails at an element that
offends, and otherwise goes on in a state that fits the elements seen. -/
structure Scans (pass : σ → List α → Option SourceError) (fits : Nat → σ → Prop)
    (offence : Offence) (all : List α) : Prop where
  step : ∀ position source rest state, all[position]? = some source → fits position state →
    (∃ found, pass state (source :: rest) = some found ∧
      ∀ error, offence position error ↔ error = found) ∨
    ((∃ next, pass state (source :: rest) = pass next rest ∧ fits (position + 1) next) ∧
      ∀ error, ¬ offence position error)
  bounded : ∀ position error, offence position error → position < all.length

variable {pass : σ → List α → Option SourceError} {fits : Nat → σ → Prop}
  {offence : Offence} {all : List α}

theorem Scans.cases (scans : Scans pass fits offence all) (state : σ) (start : fits 0 state) :
    (∃ found, pass state all = some found ∧ Judges offence (some found)) ∨
      Judges offence none ∧ ∃ final, fits all.length final ∧ pass state all = pass final [] := by
  suffices general : ∀ rest position state, all.drop position = rest → fits position state →
      (∀ earlier < position, ∀ error, ¬ offence earlier error) → position ≤ all.length →
      (∃ found, pass state rest = some found ∧ Judges offence (some found)) ∨
        Judges offence none ∧ ∃ final, fits all.length final ∧ pass state rest = pass final [] by
    refine general all 0 state rfl start ?_ (Nat.zero_le _)
    intro earlier impossible
    omega
  intro rest
  induction rest with
  | nil =>
    intro position state remaining fitting clear within
    have ended : position = all.length := by
      have past := List.drop_eq_nil_iff.mp remaining
      omega
    refine .inr ⟨?_, state, ended ▸ fitting, rfl⟩
    intro elsewhere error offends
    exact clear elsewhere (ended ▸ scans.bounded elsewhere error offends) error offends
  | cons source rest ih =>
    intro position state remaining fitting clear within
    have stands : all[position]? = some source := by
      have head := congrArg List.head? remaining
      simpa using head
    have inside : position < all.length := (List.getElem?_eq_some_iff.mp stands).1
    rcases scans.step position source rest state stands fitting with
      ⟨found, failed, only⟩ | ⟨⟨next, goes, fitsNext⟩, free⟩
    · refine .inl ⟨found, failed, position, ?_⟩
      intro elsewhere error
      constructor
      · intro first
        have notLater : ¬ position < elsewhere := fun later =>
          first.2 position later found ((only found).mpr rfl)
        have notEarlier : ¬ elsewhere < position := fun earlier =>
          clear elsewhere earlier error first.1
        obtain rfl : elsewhere = position := by omega
        exact ⟨rfl, (only error).mp first.1⟩
      · intro same
        obtain ⟨rfl, rfl⟩ := same
        exact ⟨(only error).mpr rfl, clear⟩
    · rw [goes]
      refine ih (position + 1) next ?_ fitsNext ?_ (by omega)
      · rw [← List.drop_drop, remaining]
        rfl
      · intro earlier before error
        by_cases here : earlier = position
        · subst here
          exact free error
        · exact clear earlier (by omega) error

theorem Scans.judges (scans : Scans pass fits offence all)
    (settled : ∀ final, pass final [] = none) (state : σ) (start : fits 0 state) :
    Judges offence (pass state all) := by
  rcases scans.cases state start with ⟨found, failed, judged⟩ | ⟨judged, final, _, ended⟩
  · rw [failed]
    exact judged
  · rw [ended, settled final]
    exact judged

end Scan

/-! ## Layouts -/

def statementLayout (statements : List Numbered) : Layout := fun position number statement =>
  statements[position]? = some ⟨number, statement⟩

theorem lineLayout_eq {lines : List Line} {statements : List Numbered}
    (parsed : Source.statements lines = .ok statements) :
    lineLayout lines = statementLayout statements := by
  have reads := statements_eq_ok_iff.mp parsed
  clear parsed
  funext position number statement
  apply propext
  unfold lineLayout statementLayout
  induction reads generalizing position with
  | nil => simp
  | @cons line source rest later head _ ih =>
    cases position with
    | succ position => simpa using ih position
    | zero =>
      obtain ⟨numbered, read⟩ := Line.numbered_eq_ok_iff.mp head
      obtain ⟨sourceNumber, sourceStatement⟩ := source
      simp only [List.getElem?_cons_zero, Option.some.injEq, exists_eq_left', read, numbered,
        Except.ok.injEq, Numbered.mk.injEq]

theorem above_succ (layout : Layout) (position number : Nat) (statement : Statement) :
    Above layout (position + 1) number statement ↔
      Above layout position number statement ∨ layout position number statement := by
  constructor
  · intro above
    obtain ⟨earlier, before, stands⟩ := above
    by_cases here : earlier = position
    · exact .inr (here ▸ stands)
    · exact .inl ⟨earlier, by omega, stands⟩
  · intro above
    obtain ⟨earlier, before, stands⟩ | stands := above
    · exact ⟨earlier, by omega, stands⟩
    · exact ⟨position, by omega, stands⟩

theorem openAbove_succ (layout : Layout) (position number : Nat) (name : String) :
    OpenAbove layout (position + 1) number name ↔
      layout position number (.proc name) ∨
        ¬ Bracketed layout position ∧ OpenAbove layout position number name := by
  constructor
  · intro opened
    obtain ⟨entry, before, stands, quiet⟩ := opened
    by_cases here : entry = position
    · exact .inl (here ▸ stands)
    · refine .inr ⟨quiet position (by omega) (by omega), entry, by omega, stands, ?_⟩
      intro between after below
      exact quiet between after (by omega)
  · intro opened
    obtain stands | ⟨calm, entry, before, stands, quiet⟩ := opened
    · refine ⟨position, by omega, stands, ?_⟩
      intro between after below
      omega
    · refine ⟨entry, by omega, stands, ?_⟩
      intro between after below
      by_cases here : between = position
      · exact here ▸ calm
      · exact quiet between after (by omega)

section Standing

variable {statements : List Numbered} {position : Nat} {source : Numbered}
  (stands : statements[position]? = some source)

include stands

theorem statementLayout_iff (number : Nat) (statement : Statement) :
    statementLayout statements position number statement ↔ source = ⟨number, statement⟩ := by
  rw [statementLayout, stands, Option.some.injEq]

theorem bracketed_iff :
    Bracketed (statementLayout statements) position ↔
      (∃ name, source.statement = .proc name) ∨ source.statement = .procEnd := by
  obtain ⟨line, statement⟩ := source
  simp [Bracketed, statementLayout_iff stands]

end Standing

/-! ## Lines of the errors -/

section Lines

variable {line : Line} {error : SourceError}

theorem bare_error_line {statement : Statement} (failed : line.bare statement = .error error) :
    error.line? = some line.number := by
  unfold Line.bare at failed
  split at failed
  · cases failed
  · cases failed
    rfl

theorem operand_error_line (failed : line.operand = .error error) :
    error.line? = some line.number := by
  unfold Line.operand at failed
  split at failed
  · cases failed
  · cases failed
    rfl

theorem named_error_line {make : String → Statement} (failed : line.named make = .error error) :
    error.line? = some line.number := by
  unfold Line.named at failed
  split at failed
  · rename_i missing
    cases failed
    exact operand_error_line missing
  · cases failed

theorem literal_error_line {α : Type} {read : String → Except Text.Decimal.Error α}
    {make : α → Instruction} (failed : line.literal read make = .error error) :
    error.line? = some line.number := by
  unfold Line.literal at failed
  split at failed
  · rename_i missing
    cases failed
    exact operand_error_line missing
  · split at failed
    · cases failed
      rfl
    · cases failed

theorem statement_error_line (failed : line.statement = .error error) :
    error.line? = some line.number := by
  unfold Line.statement at failed
  split at failed
  case h_1 | h_9 | h_10 | h_11 | h_12 => exact literal_error_line failed
  case h_13 | h_14 | h_15 | h_16 | h_17 | h_18 => exact named_error_line failed
  case h_20 =>
    cases failed
    rfl
  all_goals exact bare_error_line failed

end Lines

def Located (lines : List Line) (offence : Offence) : Prop :=
  ∀ position error, offence position error →
    ∃ line, lines[position]? = some line ∧ error.line? = some line.number

theorem located_of_layout {lines : List Line} {position number : Nat} {statement : Statement}
    {error : SourceError} (stands : lineLayout lines position number statement)
    (named : error.line? = some number) :
    ∃ line, lines[position]? = some line ∧ error.line? = some line.number := by
  obtain ⟨line, here, same, _⟩ := stands
  exact ⟨line, here, same ▸ named⟩

theorem offences_located (lines : List Line) : ∀ kind ∈ offences lines, Located lines kind := by
  simp only [offences, List.forall_mem_cons]
  refine ⟨?_, ?_, ?_, ?_, ?_, by simp⟩
  · intro position error misread
    obtain ⟨line, here, failed⟩ := misread
    exact ⟨line, here, statement_error_line failed⟩
  · intro position error repeated
    obtain ⟨name, number, first, stands, _, rfl⟩ := repeated
    exact located_of_layout stands rfl
  · intro position error misplaced
    cases misplaced with
    | nested stands | repeated stands | unmatched stands => exact located_of_layout stands rfl
  · intro position error unterminated
    obtain ⟨name, number, stands, _, rfl⟩ := unterminated
    exact located_of_layout stands rfl
  · intro position error undeclared
    cases undeclared with
    | label stands | procedure stands => exact located_of_layout stands rfl

theorem reported_located {lines : List Line} {kinds : List Offence}
    (each : ∀ kind ∈ kinds, Located lines kind) : Located lines (Reported kinds) := by
  induction kinds with
  | nil =>
    intro position error impossible
    exact impossible.elim
  | cons kind later ih =>
    intro position error reported
    obtain ⟨here, others⟩ := List.forall_mem_cons.mp each
    obtain first | ⟨_, rest⟩ := reported
    · exact here position error first.1
    · exact ih others position error rest

end StackAsm.Source
