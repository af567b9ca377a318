import StackAsm.Proofs.Lowering
import StackAsm.Proofs.Offences

/-!
# Which error is reported

The passes of the assembler look for different offences.  The error reported is
the one of the first pass that finds an offence, and in that pass the one of the
first line that offends.  What a pass keeps in its tables is what stands on the
lines above the one it looks at.
-/

set_option autoImplicit false

namespace StackAsm.Source

/-! ## The passes -/

def failure? {α : Type} : Except SourceError α → Option SourceError
  | .error error => some error
  | .ok _ => none

theorem statements_judges (lines : List Line) :
    Judges (Misread lines) (failure? (Source.statements lines)) := by
  have scans : Scans (fun (_ : Unit) rest => failure? (Source.statements rest))
      (fun _ _ => True) (Misread lines) lines := by
    constructor
    · intro position line rest state stands _
      cases read : line.statement with
      | error found =>
        have failed : line.numbered = .error found := by simp [Line.numbered, read, Except.map]
        refine .inl ⟨found, by simp [Source.statements, failed, failure?], ?_⟩
        intro error
        simp [Misread, stands, read, eq_comm]
      | ok statement =>
        have passed : line.numbered = .ok ⟨line.number, statement⟩ := by
          simp [Line.numbered, read, Except.map]
        refine .inr ⟨⟨(), ?_, trivial⟩, by simp [Misread, stands, read]⟩
        rw [Source.statements, passed]
        dsimp only
        cases Source.statements rest <;> rfl
    · intro position error misread
      obtain ⟨line, stands, _⟩ := misread
      exact (List.getElem?_eq_some_iff.mp stands).1
  exact scans.judges (fun _ => rfl) () trivial

open Symbols (Site Closed collectLabels collectProcedures)

def LabelsAbove (statements : List Numbered) (position : Nat) (found : NameTable Site) : Prop :=
  ∀ name first, (∃ site, found.get? name = some site ∧ site.line = first) ↔
    Above (statementLayout statements) position first (.label name)

section Labels

variable {statements : List Numbered} {position line : Nat} {found : NameTable Site}

theorem LabelsAbove.other {statement : Statement} (known : LabelsAbove statements position found)
    (stands : statements[position]? = some ⟨line, statement⟩) (noLabel : statement.label? = none) :
    LabelsAbove statements (position + 1) found := by
  intro name first
  rw [known name first, above_succ, statementLayout_iff stands]
  constructor
  · exact .inl
  · intro above
    obtain above | here := above
    · exact above
    · cases here
      cases noLabel

theorem LabelsAbove.label {name : String} (known : LabelsAbove statements position found)
    (stands : statements[position]? = some ⟨line, .label name⟩) (fresh : found.get? name = none)
    (index : Nat) : LabelsAbove statements (position + 1) (found.insert name ⟨index, line⟩) := by
  intro query first
  rw [above_succ, ← known query first, statementLayout_iff stands, NameTable.get?_insert]
  by_cases same : query = name
  · subst same
    simp [fresh]
  · simp [same, Ne.symm same]

theorem labels_scan (statements : List Numbered) :
    Scans (fun (state : Nat × NameTable Site) rest => failure? (collectLabels state.1 state.2 rest))
      (fun position state => LabelsAbove statements position state.2)
      (RepeatedLabel (statementLayout statements)) statements := by
  constructor
  · intro position source rest state stands known
    obtain ⟨index, found⟩ := state
    obtain ⟨line, statement⟩ := source
    have repeats : ∀ error, RepeatedLabel (statementLayout statements) position error ↔
        ∃ name, statement = .label name ∧ ∃ site, found.get? name = some site ∧
          error = .duplicateLabel name line site.line := by
      intro error
      constructor
      · intro repeated
        obtain ⟨name, number, first, here, above, same⟩ := repeated
        obtain ⟨site, present, rfl⟩ := (known name first).mpr above
        cases (statementLayout_iff stands number (.label name)).mp here
        exact ⟨name, rfl, site, present, same⟩
      · intro repeated
        obtain ⟨name, rfl, site, present, same⟩ := repeated
        exact ⟨name, line, site.line, stands, (known name site.line).mp ⟨site, present, rfl⟩, same⟩
    simp only [repeats]
    cases statement with
    | label name =>
      cases present : found.get? name with
      | some site =>
        refine .inl ⟨.duplicateLabel name line site.line, ?_, ?_⟩
        · simp [collectLabels, present, failure?]
        · intro error
          simp [present]
      | none =>
        refine .inr ⟨⟨(index + 1, found.insert name ⟨index, line⟩), ?_, ?_⟩, by simp [present]⟩
        · simp [collectLabels, present]
        · exact known.label stands present index
    | plain _ | jump _ _ | call _ | proc _ | procEnd =>
      exact .inr ⟨⟨(index + 1, found), rfl, known.other stands rfl⟩, by simp⟩
  · intro position error repeated
    obtain ⟨name, number, first, stands, _⟩ := repeated
    exact (List.getElem?_eq_some_iff.mp stands).1

theorem labels_judges (statements : List Numbered) :
    Judges (RepeatedLabel (statementLayout statements))
      (failure? (collectLabels 0 .empty statements)) := by
  apply (labels_scan statements).judges (fun _ => rfl) (0, .empty)
  intro name first
  simp [Above]

end Labels

/-- The open procedure and the procedures found are those above, with the lines
that open them. -/
structure ProceduresAbove (statements : List Numbered) (position : Nat)
    (current : Option (String × Site)) (found : NameTable Closed) : Prop where
  isOpen : ∀ number name, (∃ site, current = some (name, site) ∧ site.line = number) ↔
    OpenAbove (statementLayout statements) position number name
  declared : ∀ name first, ((∃ closed, found.get? name = some closed ∧
      closed.opened.line = first) ∨ ∃ site, current = some (name, site) ∧ site.line = first) ↔
    Above (statementLayout statements) position first (.proc name)
  apart : ∀ name site, current = some (name, site) → found.get? name = none

section Procedures

variable {statements : List Numbered} {position line : Nat} {current : Option (String × Site)}
  {found : NameTable Closed}

theorem ProceduresAbove.other {statement : Statement}
    (known : ProceduresAbove statements position current found)
    (stands : statements[position]? = some ⟨line, statement⟩)
    (noBracket : statement.bracket? = none) :
    ProceduresAbove statements (position + 1) current found := by
  have noProc : ∀ number name, ¬ (⟨line, statement⟩ : Numbered) = ⟨number, .proc name⟩ := by
    intro number name same
    cases same
    cases noBracket
  have calm : ¬ Bracketed (statementLayout statements) position := by
    rw [bracketed_iff stands]
    intro bracketed
    obtain ⟨name, same⟩ | same := bracketed
    · cases same
      cases noBracket
    · cases same
      cases noBracket
  refine ⟨?_, ?_, known.apart⟩
  · intro number name
    rw [known.isOpen, openAbove_succ, statementLayout_iff stands]
    simp [noProc, calm]
  · intro name first
    rw [known.declared, above_succ, statementLayout_iff stands]
    simp [noProc]

theorem ProceduresAbove.opening {name : String}
    (known : ProceduresAbove statements position none found)
    (stands : statements[position]? = some ⟨line, .proc name⟩) (fresh : found.get? name = none)
    (index : Nat) :
    ProceduresAbove statements (position + 1) (some (name, ⟨index, line⟩)) found := by
  have bracketed : Bracketed (statementLayout statements) position :=
    (bracketed_iff stands).mpr (.inl ⟨name, rfl⟩)
  refine ⟨?_, ?_, ?_⟩
  · intro number query
    rw [openAbove_succ, statementLayout_iff stands]
    simp [bracketed, and_comm]
  · intro query first
    rw [above_succ, ← known.declared, statementLayout_iff stands]
    simp [and_comm]
  · intro query site same
    cases same
    exact fresh

theorem ProceduresAbove.closing {name : String} {opened : Site}
    (known : ProceduresAbove statements position (some (name, opened)) found)
    (stands : statements[position]? = some ⟨line, .procEnd⟩) (exit : Nat) :
    ProceduresAbove statements (position + 1) none (found.insert name ⟨opened, exit⟩) := by
  have bracketed : Bracketed (statementLayout statements) position :=
    (bracketed_iff stands).mpr (.inr rfl)
  have fresh := known.apart name opened rfl
  refine ⟨?_, ?_, ?_⟩
  · intro number query
    rw [openAbove_succ, statementLayout_iff stands]
    simp [bracketed]
  · intro query first
    rw [above_succ, ← known.declared, statementLayout_iff stands, NameTable.get?_insert]
    by_cases same : query = name
    · subst same
      simp [fresh]
    · simp [same, Ne.symm same]
  · intro query site impossible
    cases impossible

def bracketFailure? (line : Nat) (current : Option (String × Site)) (found : NameTable Closed) :
    Statement → Option SourceError
  | .proc name =>
    match current with
    | some (outer, _) => some (.nestedProcedure name outer line)
    | none => (found.get? name).map fun closed =>
        .duplicateProcedure name line closed.opened.line
  | .procEnd => if current.isNone then some (.unmatchedEnd line) else none
  | _ => none

theorem misplacedBracket_iff {statement : Statement}
    (known : ProceduresAbove statements position current found)
    (stands : statements[position]? = some ⟨line, statement⟩) (error : SourceError) :
    MisplacedBracket (statementLayout statements) position error ↔
      bracketFailure? line current found statement = some error := by
  have outside : (∀ opened outer, ¬ OpenAbove (statementLayout statements) position opened outer) ↔
      current = none := by
    simp only [← known.isOpen]
    rcases current with _ | ⟨name, site⟩ <;> simp
  constructor
  · intro misplaced
    cases misplaced with
    | nested here inside =>
      cases (statementLayout_iff stands _ _).mp here
      obtain ⟨site, rfl, _⟩ := (known.isOpen _ _).mpr inside
      rfl
    | @repeated name number first here free above =>
      cases (statementLayout_iff stands _ _).mp here
      obtain rfl := outside.mp free
      obtain ⟨closed, present, rfl⟩ | ⟨site, impossible, _⟩ := (known.declared _ _).mpr above
      · simp [bracketFailure?, present]
      · cases impossible
    | unmatched here free =>
      cases (statementLayout_iff stands _ _).mp here
      obtain rfl := outside.mp free
      rfl
  · intro failed
    cases statement with
    | proc name =>
      cases current with
      | some opened =>
        obtain ⟨outer, site⟩ := opened
        cases failed
        exact .nested stands ((known.isOpen _ _).mp ⟨site, rfl, rfl⟩)
      | none =>
        cases present : found.get? name with
        | none => simp [bracketFailure?, present] at failed
        | some closed =>
          simp only [bracketFailure?, present, Option.map_some, Option.some.injEq] at failed
          subst failed
          exact .repeated stands (outside.mpr rfl)
            ((known.declared _ _).mp (.inl ⟨closed, present, rfl⟩))
    | procEnd =>
      cases current with
      | some opened => cases failed
      | none =>
        cases failed
        exact .unmatched stands (outside.mpr rfl)
    | plain _ | jump _ _ | call _ | label _ => cases failed

theorem procedures_scan (statements : List Numbered) :
    Scans (fun (state : Nat × Option (String × Site) × NameTable Closed) rest =>
        failure? (collectProcedures state.1 state.2.1 state.2.2 rest))
      (fun position state => ProceduresAbove statements position state.2.1 state.2.2)
      (MisplacedBracket (statementLayout statements)) statements := by
  constructor
  · intro position source rest state stands known
    obtain ⟨index, current, found⟩ := state
    obtain ⟨line, statement⟩ := source
    simp only [misplacedBracket_iff known stands]
    cases statement with
    | proc name =>
      rcases current with _ | ⟨outer, site⟩
      · cases present : found.get? name with
        | some closed =>
          refine .inl ⟨.duplicateProcedure name line closed.opened.line, ?_, ?_⟩
          · simp [collectProcedures, present, failure?]
          · intro error
            simp [bracketFailure?, present, eq_comm]
        | none =>
          refine .inr ⟨⟨(index + 1, some (name, ⟨index, line⟩), found), ?_, ?_⟩, ?_⟩
          · simp [collectProcedures, present]
          · exact known.opening stands present index
          · simp [bracketFailure?, present]
      · refine .inl ⟨.nestedProcedure name outer line, rfl, ?_⟩
        intro error
        simp [bracketFailure?, eq_comm]
    | procEnd =>
      rcases current with _ | ⟨name, opened⟩
      · refine .inl ⟨.unmatchedEnd line, rfl, ?_⟩
        intro error
        simp [bracketFailure?, eq_comm]
      · refine .inr ⟨⟨(index + 1, none, found.insert name ⟨opened, index + 1⟩), rfl, ?_⟩, ?_⟩
        · exact known.closing stands (index + 1)
        · simp [bracketFailure?]
    | plain _ | jump _ _ | call _ | label _ =>
      refine .inr ⟨⟨(index + 1, current, found), ?_, known.other stands rfl⟩, ?_⟩
      · cases current <;> rfl
      · simp [bracketFailure?]
  · intro position error misplaced
    cases misplaced with
    | nested stands | repeated stands | unmatched stands =>
      exact (List.getElem?_eq_some_iff.mp stands).1

theorem proceduresAbove_zero (statements : List Numbered) :
    ProceduresAbove statements 0 none .empty := by
  refine ⟨?_, ?_, ?_⟩
  · intro number name
    simp [OpenAbove]
  · intro name first
    simp [Above]
  · intro name site impossible
    cases impossible

/-- The procedure that is open at the end is the one that is never closed. -/
theorem unterminated_judges (index : Nat)
    (known : ProceduresAbove statements statements.length current found) :
    Judges (Unterminated (statementLayout statements))
      (failure? (collectProcedures index current found [])) := by
  have ended : ∀ position number statement,
      statementLayout statements position number statement → position < statements.length :=
    fun position number statement stands => (List.getElem?_eq_some_iff.mp stands).1
  rcases current with _ | ⟨name, opened⟩
  · intro position error unterminated
    obtain ⟨name, number, stands, quiet, _⟩ := unterminated
    have isOpen : OpenAbove (statementLayout statements) statements.length number name :=
      ⟨position, ended _ _ _ stands, stands, fun between after _ => quiet between after⟩
    obtain ⟨site, impossible, _⟩ := (known.isOpen number name).mpr isOpen
    cases impossible
  · obtain ⟨entry, _, stands, quiet⟩ := (known.isOpen opened.line name).mp ⟨opened, rfl, rfl⟩
    have quietBelow : ∀ later, entry < later → ¬ Bracketed (statementLayout statements) later := by
      intro later after bracketed
      have inside : later < statements.length := by
        obtain ⟨_, _, here⟩ | ⟨_, here⟩ := bracketed
        · exact ended _ _ _ here
        · exact ended _ _ _ here
      exact quiet later after inside bracketed
    refine ⟨entry, fun elsewhere error => ⟨?_, ?_⟩⟩
    · intro first
      obtain ⟨⟨query, number, here, quietHere, rfl⟩, _⟩ := first
      have notBelow : ¬ entry < elsewhere := fun after =>
        quietBelow elsewhere after (.inl ⟨number, query, here⟩)
      have notAbove : ¬ elsewhere < entry := fun after =>
        quietHere entry after (.inl ⟨opened.line, name, stands⟩)
      obtain rfl : elsewhere = entry := by omega
      cases (statementLayout_iff stands number (.proc query)).mp here
      exact ⟨rfl, rfl⟩
    · intro same
      obtain ⟨rfl, rfl⟩ := same
      refine ⟨⟨name, opened.line, stands, quietBelow, rfl⟩, ?_⟩
      intro earlier before other unterminated
      obtain ⟨_, _, _, quietThere, _⟩ := unterminated
      exact quietThere elsewhere before (.inl ⟨opened.line, name, stands⟩)

/-- One pass looks for misplaced brackets and for the procedure that is never
closed. -/
theorem procedures_reported (statements : List Numbered) (later : List Offence)
    (error : SourceError) :
    (∃ position, Reported (MisplacedBracket (statementLayout statements) ::
        Unterminated (statementLayout statements) :: later) position error) ↔
      failure? (collectProcedures 0 none .empty statements) = some error ∨
        failure? (collectProcedures 0 none .empty statements) = none ∧
          ∃ position, Reported later position error := by
  have start := proceduresAbove_zero statements
  rcases (procedures_scan statements).cases (0, none, .empty) start with
    ⟨found, failed, judged⟩ | ⟨judged, ⟨index, current, closed⟩, known, ended⟩
  · have failed : failure? (collectProcedures 0 none .empty statements) = some found := failed
    rw [reported_iff_of_judges judged, failed]
    simp
  · have ended : failure? (collectProcedures 0 none .empty statements) =
        failure? (collectProcedures index current closed []) := ended
    rw [reported_iff_of_judges judged, reported_iff_of_judges (unterminated_judges index known), ended]
    simp

end Procedures

section Undeclared

variable {statements : List Numbered} {symbols : Symbols}

theorem mem_names_iff {name? : Statement → Option String} {declare : String → Statement}
    (declares : ∀ statement name, name? statement = some name ↔ statement = declare name)
    (statements : List Numbered) (name : String) :
    name ∈ statements.filterMap (fun source => name? source.statement) ↔
      ∃ position line, statementLayout statements position line (declare name) := by
  simp only [List.mem_filterMap, declares]
  constructor
  · intro member
    obtain ⟨⟨line, statement⟩, inside, rfl⟩ := member
    obtain ⟨position, stands⟩ := List.mem_iff_getElem?.mp inside
    exact ⟨position, line, stands⟩
  · intro declared
    obtain ⟨position, line, stands⟩ := declared
    exact ⟨_, List.mem_of_getElem? stands, rfl⟩

theorem label?_eq_none_iff (resolved : Symbols.resolve statements = .ok symbols) (name : String) :
    symbols.label? name = none ↔
      ∀ position line, ¬ statementLayout statements position line (.label name) := by
  have declared := mem_names_iff (fun _ _ => Statement.label?_eq_some_iff) statements name
  rw [← Option.not_isSome_iff_eq_none, Symbols.label?_isSome_iff resolved, labelNames, declared]
  simp only [not_exists]

theorem procedure?_eq_none_iff (resolved : Symbols.resolve statements = .ok symbols)
    (name : String) :
    symbols.procedure? name = none ↔
      ∀ position line, ¬ statementLayout statements position line (.proc name) := by
  have declared := mem_names_iff (fun _ _ => Statement.procedure?_eq_some_iff) statements name
  rw [← Option.not_isSome_iff_eq_none, Symbols.procedure?_isSome_iff resolved, procedureNames,
    declared]
  simp only [not_exists]

theorem undeclared_iff {position : Nat} {source : Numbered}
    (resolved : Symbols.resolve statements = .ok symbols)
    (stands : statements[position]? = some source) (error : SourceError) :
    Undeclared (statementLayout statements) position error ↔
      lower symbols source = .error error := by
  constructor
  · intro undeclared
    cases undeclared with
    | label here missing =>
      obtain rfl := (statementLayout_iff stands _ _).mp here
      simp [lower, (label?_eq_none_iff resolved _).mpr missing]
    | procedure here missing =>
      obtain rfl := (statementLayout_iff stands _ _).mp here
      simp [lower, (procedure?_eq_none_iff resolved _).mpr missing]
  · intro failed
    obtain ⟨line, statement⟩ := source
    cases statement with
    | jump kind name =>
      cases known : symbols.label? name with
      | some target => simp [lower, known] at failed
      | none =>
        simp only [lower, known, Except.error.injEq] at failed
        subst failed
        exact .label stands ((label?_eq_none_iff resolved name).mp known)
    | call name =>
      cases known : symbols.procedure? name with
      | some procedure => simp [lower, known] at failed
      | none =>
        simp only [lower, known, Except.error.injEq] at failed
        subst failed
        exact .procedure stands ((procedure?_eq_none_iff resolved name).mp known)
    | proc name =>
      cases known : symbols.procedure? name with
      | some procedure => simp [lower, known] at failed
      | none => exact absurd stands ((procedure?_eq_none_iff resolved name).mp known position line)
    | plain _ | label _ | procEnd => simp [lower] at failed

theorem fill_judges (resolved : Symbols.resolve statements = .ok symbols) (emitter : Emitter) :
    Judges (Undeclared (statementLayout statements)) (emitter.fill symbols statements).1 := by
  have scans : Scans (fun emitter rest => (Emitter.fill symbols emitter rest).1)
      (fun _ _ => True) (Undeclared (statementLayout statements)) statements := by
    constructor
    · intro position source rest state stands _
      simp only [undeclared_iff resolved stands]
      cases call : lower symbols source with
      | error found =>
        refine .inl ⟨found, by simp [Emitter.fill, call], ?_⟩
        intro error
        simp [eq_comm]
      | ok instruction =>
        exact .inr ⟨⟨⟨state.buffer.push instruction⟩, by simp [Emitter.fill, call], trivial⟩, by simp⟩
    · intro position error undeclared
      cases undeclared with
      | label stands | procedure stands => exact (List.getElem?_eq_some_iff.mp stands).1
  exact scans.judges (fun _ => rfl) emitter trivial

theorem generate_judges (resolved : Symbols.resolve statements = .ok symbols)
    (emitter : Emitter) :
    Judges (Undeclared (statementLayout statements))
      (failure? (emitter.generate symbols statements).1) := by
  have judged := fill_judges resolved { emitter with buffer := emitter.buffer.shrink 0 }
  unfold Emitter.generate
  cases call : Emitter.fill symbols { emitter with buffer := emitter.buffer.shrink 0 } statements with
  | mk failure filled =>
    rw [call] at judged
    cases failure with
    | none => exact judged
    | some found => exact judged

end Undeclared

/-! ## Numbers of the lines -/

theorem ofTokens?_eq_some_iff {number : Nat} {words : List String} {line : Line} :
    Line.ofTokens? number words = some line ↔ line.number = number ∧ line.tokens = words := by
  obtain ⟨lineNumber, mnemonic, operands⟩ := line
  cases words with
  | nil => simp [Line.ofTokens?, Line.tokens]
  | cons word rest =>
    simp only [Line.ofTokens?, Line.tokens, Option.some.injEq, Line.mk.injEq, List.cons.injEq]
    grind

theorem mem_scanFrom_iff (marker : Marker) (number : Nat) (raw : List String) (line : Line) :
    line ∈ scanFrom marker number raw ↔
      ∃ offset, line.number = number + offset ∧
        raw[offset]?.map (tokens marker) = some line.tokens := by
  induction raw generalizing number with
  | nil => simp [scanFrom]
  | cons head rest ih =>
    have split : line ∈ scanFrom marker number (head :: rest) ↔
        Line.ofTokens? number (tokens marker head) = some line ∨
          line ∈ scanFrom marker (number + 1) rest := by
      rw [scanFrom]
      cases Line.ofTokens? number (tokens marker head) with
      | none => simp
      | some first => simp [eq_comm]
    rw [split, ih, ofTokens?_eq_some_iff]
    constructor
    · intro found
      obtain ⟨here, words⟩ | ⟨offset, below, words⟩ := found
      · exact ⟨0, here, by simp [words]⟩
      · exact ⟨offset + 1, by omega, by simpa using words⟩
    · intro found
      obtain ⟨offset, placed, words⟩ := found
      cases offset with
      | zero => exact .inl ⟨placed, by simpa using words.symm⟩
      | succ offset => exact .inr ⟨offset, by omega, by simpa using words⟩

theorem scanFrom_sorted (marker : Marker) (number : Nat) (raw : List String) :
    (scanFrom marker number raw).Pairwise (fun line later => line.number < later.number) := by
  induction raw generalizing number with
  | nil => exact .nil
  | cons head rest ih =>
    rw [scanFrom]
    cases first : Line.ofTokens? number (tokens marker head) with
    | none => exact ih (number + 1)
    | some line =>
      refine List.pairwise_cons.mpr ⟨?_, ih (number + 1)⟩
      intro later member
      obtain ⟨offset, placed, _⟩ := (mem_scanFrom_iff marker (number + 1) rest later).mp member
      obtain ⟨here, _⟩ := ofTokens?_eq_some_iff.mp first
      omega

/-- Meaningful lines are the raw lines with words on them, from the top to the
bottom, and carry their positions among all raw lines, counted from one. -/
structure Numbers (marker : Marker) (raw : List String) (lines : List Line) : Prop where
  mem_iff : ∀ line, line ∈ lines ↔
    0 < line.number ∧ raw[line.number - 1]?.map (tokens marker) = some line.tokens
  sorted : lines.Pairwise fun line later => line.number < later.number

theorem scanLines_numbers (marker : Marker) (raw : List String) :
    Numbers marker raw (scanLines marker raw) := by
  refine ⟨?_, scanFrom_sorted marker 1 raw⟩
  intro line
  rw [scanLines, mem_scanFrom_iff]
  constructor
  · intro found
    obtain ⟨offset, placed, words⟩ := found
    have before : line.number - 1 = offset := by omega
    exact ⟨by omega, before ▸ words⟩
  · intro found
    obtain ⟨positive, words⟩ := found
    exact ⟨line.number - 1, by omega, words⟩

theorem scan_numbers (marker : Marker) (text : String) :
    Numbers marker (rawLines text) (scan marker text) :=
  scanLines_numbers marker (rawLines text)

end StackAsm.Source

namespace StackAsm.Assembly

open Source

theorem ofLines_eq_error_iff (lines : List Line) (error : SourceError) :
    ofLines lines = .error error ↔ ∃ position, Reported (offences lines) position error := by
  rw [offences, reported_iff_of_judges (statements_judges lines)]
  cases parsed : Source.statements lines with
  | error found => simp [ofLines, parsed, failure?]
  | ok statements =>
    rw [lineLayout_eq parsed, reported_iff_of_judges (labels_judges statements),
      procedures_reported statements]
    cases labels : Symbols.collectLabels 0 .empty statements with
    | error found => simp [ofLines, parsed, Symbols.resolve, labels, failure?]
    | ok labelTable =>
      cases procedures : Symbols.collectProcedures 0 none .empty statements with
      | error found => simp [ofLines, parsed, Symbols.resolve, labels, procedures, failure?]
      | ok procedureTable =>
        have resolved := Symbols.resolve_eq_ok_iff.mpr ⟨_, _, labels, procedures, rfl⟩
        rw [reported_iff_of_judges (generate_judges resolved {})]
        cases generated : (({} : Emitter).generate _ statements).1 with
        | error found => simp [ofLines, parsed, resolved, generated, failure?]
        | ok program => simp [ofLines, parsed, resolved, generated, failure?, Reported]

/-- A text is refused with the first offence of the first kind that occurs, and
the error names the raw line of that offence. -/
theorem ofText_eq_error_iff (marker : Marker) (text : String) :
    Numbers marker (rawLines text) (scan marker text) ∧
      ∀ error, ofText marker text = .error error ↔
        ∃ position line, Reported (offences (scan marker text)) position error ∧
          (scan marker text)[position]? = some line ∧ error.line? = some line.number := by
  refine ⟨scan_numbers marker text, ?_⟩
  intro error
  rw [ofText, ofLines_eq_error_iff]
  constructor
  · intro reported
    obtain ⟨position, reported⟩ := reported
    obtain ⟨line, here, named⟩ :=
      reported_located (offences_located (scan marker text)) position error reported
    exact ⟨position, line, reported, here, named⟩
  · intro reported
    obtain ⟨position, _, reported, _⟩ := reported
    exact ⟨position, reported⟩

example :
    failure? (ofText .semicolon "Jump nowhere\n; twice\nlabel a\n\nlabel a\nEnd") =
      some (.duplicateLabel "a" 5 3) := by decide +kernel

end StackAsm.Assembly
