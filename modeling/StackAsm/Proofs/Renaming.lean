import Mathlib.Logic.Equiv.Basic
import StackAsm.Proofs.Consistency
import StackAsm.Proofs.Tables

/-!
# Other names for labels and procedures

Names are only compared with each other, labels with labels and procedures with
procedures.  When different names stay different, every pass of the assembler
commutes with a renaming: the program is the same, the symbols have the new
names, and so has the cause for which a source is refused.  Labels and
procedures are renamed independently, and nothing is asked of the new names of
labels and of procedures together.
-/

set_option autoImplicit false

namespace StackAsm

/-! ## Renaming -/

def Statement.rename (r q : String → String) : Statement → Statement
  | .plain instruction => .plain instruction
  | .jump kind name => .jump kind (r name)
  | .call name => .call (q name)
  | .label name => .label (r name)
  | .proc name => .proc (q name)
  | .procEnd => .procEnd

def Numbered.rename (r q : String → String) (source : Numbered) : Numbered :=
  { source with statement := source.statement.rename r q }

def SourceError.rename (r q : String → String) : SourceError → SourceError
  | .undefinedLabel name line => .undefinedLabel (r name) line
  | .duplicateLabel name line first => .duplicateLabel (r name) line first
  | .undefinedProcedure name line => .undefinedProcedure (q name) line
  | .duplicateProcedure name line first => .duplicateProcedure (q name) line first
  | .unterminatedProcedure name line => .unterminatedProcedure (q name) line
  | .nestedProcedure inner outer line => .nestedProcedure (q inner) (q outer) line
  | error => error

def Symbols.rename (r q : String → String) (symbols : Symbols) : Symbols :=
  ⟨symbols.labels.rename r, symbols.procedures.rename q⟩

def labelsOf (statements : List Numbered) : Set String :=
  {name | name ∈ labelNames statements ∨ name ∈ targetNames statements}

def proceduresOf (statements : List Numbered) : Set String :=
  {name | name ∈ procedureNames statements ∨ name ∈ calleeNames statements}

def renamed {α β : Type} (r q : String → String) (value : α → β)
    (result : Except SourceError α) : Except SourceError β :=
  (result.mapError (SourceError.rename r q)).map value

/-! ## The passes -/

namespace Symbols

variable (r q : String → String)

/-- Only new names of labels are seen when labels are collected. -/
theorem collectLabels_rename (unseen : String → String) {names : Set String}
    (injective : Set.InjOn r names) (index : Nat) {found : NameTable Site}
    (within : found.Within names) {statements : List Numbered}
    (members : ∀ name ∈ labelNames statements, name ∈ names) :
    collectLabels index (found.rename r) (statements.map (Numbered.rename r q)) =
      renamed r unseen (NameTable.rename r) (collectLabels index found statements) := by
  induction statements generalizing index found with
  | nil => rfl
  | cons source rest ih =>
    obtain ⟨line, statement⟩ := source
    cases statement with
    | label name =>
      obtain ⟨member, later⟩ := List.forall_mem_cons.mp members
      have looked := NameTable.get?_rename_of_mem injective within member
      simp only [List.map_cons, Numbered.rename, Statement.rename, collectLabels, looked]
      cases found.get? name with
      | some first => rfl
      | none =>
        have next := ih (index + 1) (within.insert member ⟨index, line⟩) later
        rwa [NameTable.rename_insert injective within member] at next
    | plain _ | jump _ _ | call _ | proc _ | procEnd => exact ih (index + 1) within members

theorem collectProcedures_rename (unseen : String → String) {names : Set String}
    (injective : Set.InjOn q names) (index : Nat) {current : Option (String × Site)}
    {found : NameTable Closed} (within : found.Within names) {statements : List Numbered}
    (members : ∀ name ∈ procedureNames (pending current ++ statements), name ∈ names) :
    collectProcedures index (current.map fun opened => (q opened.1, opened.2)) (found.rename q)
        (statements.map (Numbered.rename r q)) =
      renamed unseen q (NameTable.rename q)
        (collectProcedures index current found statements) := by
  induction statements generalizing index current found with
  | nil => cases current <;> rfl
  | cons source rest ih =>
    obtain ⟨line, statement⟩ := source
    cases statement with
    | proc name =>
      cases current with
      | some opened => rfl
      | none =>
        have looked := NameTable.get?_rename_of_mem injective within
          (members name List.mem_cons_self)
        simp only [List.map_cons, Numbered.rename, Statement.rename, collectProcedures, looked,
          Option.map_none]
        cases found.get? name with
        | some first => rfl
        | none =>
          have next := @ih (index + 1) (some (name, ⟨index, line⟩)) found within members
          exact next
    | procEnd =>
      cases current with
      | none => rfl
      | some opened =>
        obtain ⟨name, site⟩ := opened
        obtain ⟨member, later⟩ := List.forall_mem_cons.mp members
        have next := @ih (index + 1) none _ (within.insert member ⟨site, index + 1⟩) later
        rw [NameTable.rename_insert injective within member] at next
        exact next
    | plain _ | jump _ _ | call _ | label _ =>
      have later : ∀ name ∈ procedureNames (pending current ++ rest), name ∈ names := by
        cases current <;> exact members
      have next := ih (index + 1) within later
      cases current <;> exact next

theorem resolve_rename {statements : List Numbered}
    (labels : Set.InjOn r (labelsOf statements))
    (procedures : Set.InjOn q (proceduresOf statements)) :
    resolve (statements.map (Numbered.rename r q)) =
      renamed r q (Symbols.rename r q) (resolve statements) := by
  have first := collectLabels_rename r q q labels 0 (NameTable.within_empty _)
    (fun _ member => .inl member)
  have second := @collectProcedures_rename r q r _ procedures 0 none _
    (NameTable.within_empty _) statements (fun _ member => .inl member)
  have start : ∀ {α : Type} (f : String → String),
      NameTable.rename f (.empty : NameTable α) = .empty := fun _ => rfl
  rw [start] at first
  rw [start, Option.map_none] at second
  rw [resolve, resolve, first, second]
  cases collectLabels 0 .empty statements with
  | error error => rfl
  | ok found =>
    cases collectProcedures 0 none .empty statements with
    | error error => rfl
    | ok closed =>
      simp only [renamed, Except.mapError, Except.map, NameTable.map_rename]
      rfl

end Symbols

section Lower

variable (r q : String → String) {statements : List Numbered} {symbols : Symbols}
  (labels : Set.InjOn r (labelsOf statements))
  (procedures : Set.InjOn q (proceduresOf statements))
  (resolved : Symbols.resolve statements = .ok symbols)

include labels resolved in
theorem Symbols.label?_rename {name : String} (member : name ∈ labelsOf statements) :
    (symbols.rename r q).label? (r name) = symbols.label? name := by
  have within : symbols.labels.Within (labelsOf statements) := by
    intro known present
    exact .inl ((label?_isSome_iff resolved known).mp present)
  exact NameTable.get?_rename_of_mem labels within member

include procedures resolved in
theorem Symbols.procedure?_rename {name : String} (member : name ∈ proceduresOf statements) :
    (symbols.rename r q).procedure? (q name) = symbols.procedure? name := by
  have within : symbols.procedures.Within (proceduresOf statements) := by
    intro known present
    exact .inl ((procedure?_isSome_iff resolved known).mp present)
  exact NameTable.get?_rename_of_mem procedures within member

include labels procedures resolved in
theorem lower_rename {source : Numbered} (member : source ∈ statements) :
    lower (symbols.rename r q) (source.rename r q) =
      (lower symbols source).mapError (SourceError.rename r q) := by
  obtain ⟨line, statement⟩ := source
  cases statement with
  | plain _ | label _ | procEnd => rfl
  | jump kind name =>
    have occurs : name ∈ labelsOf statements := .inr (List.mem_filterMap.mpr ⟨_, member, rfl⟩)
    simp only [Numbered.rename, Statement.rename, lower,
      Symbols.label?_rename r q labels resolved occurs]
    cases symbols.label? name <;> rfl
  | proc name =>
    have occurs : name ∈ proceduresOf statements := .inl (List.mem_filterMap.mpr ⟨_, member, rfl⟩)
    simp only [Numbered.rename, Statement.rename, lower,
      Symbols.procedure?_rename r q procedures resolved occurs]
    cases symbols.procedure? name <;> rfl
  | call name =>
    have occurs : name ∈ proceduresOf statements := .inr (List.mem_filterMap.mpr ⟨_, member, rfl⟩)
    simp only [Numbered.rename, Statement.rename, lower,
      Symbols.procedure?_rename r q procedures resolved occurs]
    cases symbols.procedure? name <;> rfl

end Lower

/-! ## Labels and procedures apart -/

/-- Each pass looks at the names of one kind only, whatever is done to the names
of the other kind. -/
structure NamesApart (statements : List Numbered) : Prop where
  labels : ∀ q, Symbols.collectLabels 0 .empty (statements.map (Numbered.rename id q)) =
    Symbols.collectLabels 0 .empty statements
  procedures : ∀ r,
    Symbols.collectProcedures 0 none .empty (statements.map (Numbered.rename r id)) =
      Symbols.collectProcedures 0 none .empty statements
  jumps : ∀ source ∈ statements, source.statement.target?.isSome → ∀ labels procedures others,
    lower ⟨labels, procedures⟩ source = lower ⟨labels, others⟩ source
  others : ∀ source ∈ statements, source.statement.target? = none → ∀ labels others procedures,
    lower ⟨labels, procedures⟩ source = lower ⟨others, procedures⟩ source

theorem renamed_id {α : Type} (result : Except SourceError (NameTable α)) :
    renamed id id (NameTable.rename id) result = result := by
  cases result with
  | error error => cases error <;> rfl
  | ok table =>
    have same := NameTable.rename_id table
    exact congrArg Except.ok same

theorem namesApart (statements : List Numbered) : NamesApart statements := by
  constructor
  · intro q
    have collected := Symbols.collectLabels_rename id q id
      (Set.injOn_id (labelsOf statements)) 0 (NameTable.within_empty _)
      (fun _ member => .inl member)
    rwa [NameTable.rename_id, renamed_id] at collected
  · intro r
    have collected := @Symbols.collectProcedures_rename r id id _
      (Set.injOn_id (proceduresOf statements)) 0 none _ (NameTable.within_empty _) statements
      (fun _ member => .inl member)
    rwa [NameTable.rename_id, renamed_id] at collected
  · intro source _ refers labels procedures others
    obtain ⟨line, statement⟩ := source
    cases statement with
    | jump kind name => rfl
    | _ => cases refers
  · intro source _ refers labels others procedures
    obtain ⟨line, statement⟩ := source
    cases statement with
    | jump kind name => cases refers
    | _ => rfl

namespace Assembly

theorem ofStatements_renamed (r q : String → String) {statements : List Numbered}
    (labels : Set.InjOn r (labelsOf statements))
    (procedures : Set.InjOn q (proceduresOf statements)) :
    ofStatements (statements.map (Numbered.rename r q)) =
      renamed r q (fun assembly => { assembly with symbols := assembly.symbols.rename r q })
        (ofStatements statements) := by
  rw [ofStatements, ofStatements, Symbols.resolve_rename r q labels procedures]
  cases resolved : Symbols.resolve statements with
  | error error => rfl
  | ok symbols =>
    have generated := Emitter.generate_map {} fun source member =>
      lower_rename r q labels procedures resolved member
    have lines : (statements.map (Numbered.rename r q)).map Numbered.line =
        statements.map Numbered.line := by
      rw [List.map_map]
      rfl
    simp only [renamed, Except.mapError, Except.map, generated, lines]
    cases (Emitter.generate {} symbols statements).1 <;> rfl

/-- Names that stay different can be replaced by any others, for labels and for
procedures apart. -/
theorem ofStatements_rename (r q : String → String) (statements : List Numbered)
    (labels : Set.InjOn r (labelsOf statements))
    (procedures : Set.InjOn q (proceduresOf statements)) :
    (∀ assembly, ofStatements statements = .ok assembly →
        ofStatements (statements.map (Numbered.rename r q)) =
          .ok { assembly with symbols := assembly.symbols.rename r q }) ∧
      (∀ error, ofStatements statements = .error error →
        ofStatements (statements.map (Numbered.rename r q)) = .error (error.rename r q)) ∧
      NamesApart statements := by
  rw [ofStatements_renamed r q labels procedures]
  refine ⟨?_, ?_, namesApart statements⟩
  · intro assembly accepted
    rw [accepted]
    rfl
  · intro error refused
    rw [refused]
    rfl

def sharedName : List Numbered :=
  [⟨1, .label "f"⟩, ⟨2, .label "g"⟩, ⟨3, .proc "f"⟩, ⟨4, .procEnd⟩, ⟨5, .call "f"⟩,
    ⟨6, .jump .ifZero "f"⟩]

def nestedName : List Numbered :=
  [⟨1, .proc "f"⟩, ⟨2, .proc "g"⟩]

theorem ofStatements_rename_sharedName :
    Set.InjOn (Equiv.swap "f" "g") (labelsOf sharedName) ∧
      Set.InjOn (Equiv.swap "f" "h") (proceduresOf sharedName) ∧
      sharedName.map (Numbered.rename (Equiv.swap "f" "g") (Equiv.swap "f" "h")) =
        [⟨1, .label "g"⟩, ⟨2, .label "f"⟩, ⟨3, .proc "h"⟩, ⟨4, .procEnd⟩, ⟨5, .call "h"⟩,
          ⟨6, .jump .ifZero "g"⟩] ∧
      (∃ assembly, ofStatements sharedName = .ok assembly ∧
        assembly.program = #[.noop, .noop, .jump 4, .noop, .call 3, .jumpIfZero 0] ∧
        ofStatements
            (sharedName.map (Numbered.rename (Equiv.swap "f" "g") (Equiv.swap "f" "h"))) =
          .ok { assembly with
            symbols := assembly.symbols.rename (Equiv.swap "f" "g") (Equiv.swap "f" "h") }) ∧
      NamesApart sharedName ∧
      ofStatements nestedName = .error (.nestedProcedure "g" "f" 2) ∧
      ofStatements (nestedName.map (Numbered.rename id (Equiv.swap "f" "h"))) =
        .error (.nestedProcedure "g" "h" 2) := by
  have labels : Set.InjOn (Equiv.swap "f" "g") (labelsOf sharedName) :=
    (Equiv.swap "f" "g").injective.injOn
  have procedures : Set.InjOn (Equiv.swap "f" "h") (proceduresOf sharedName) :=
    (Equiv.swap "f" "h").injective.injOn
  obtain ⟨accepted, _, apart⟩ := ofStatements_rename _ _ sharedName labels procedures
  obtain ⟨_, refused, _⟩ := ofStatements_rename id (Equiv.swap "f" "h") nestedName
    (Set.injOn_id _) (Equiv.swap "f" "h").injective.injOn
  exact ⟨labels, procedures, by decide, ⟨_, rfl, rfl, accepted _ rfl⟩, apart, rfl, refused _ rfl⟩

end Assembly

end StackAsm
