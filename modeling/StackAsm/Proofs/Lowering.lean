import StackAsm.Assembly
import StackAsm.Proofs.Declarations

/-!
# One instruction for each statement

A program is generated exactly when every statement has an instruction, and it
then consists of these instructions in order.  What the emitter held before
does not matter.  An assembled source is taken apart into its passes.
-/

set_option autoImplicit false

namespace StackAsm

def Statement.target? : Statement → Option String
  | .jump _ name => some name
  | _ => none

def Statement.callee? : Statement → Option String
  | .call name => some name
  | _ => none

def targetNames (statements : List Numbered) : List String :=
  statements.filterMap fun source => source.statement.target?

def calleeNames (statements : List Numbered) : List String :=
  statements.filterMap fun source => source.statement.callee?

/-- A statement has an instruction exactly when the names on it stand for
something. -/
theorem lower_isOk_iff (symbols : Symbols) (source : Numbered) :
    (∃ instruction, lower symbols source = .ok instruction) ↔
      (∀ name ∈ source.statement.target?, (symbols.label? name).isSome) ∧
        (∀ name ∈ source.statement.callee?, (symbols.procedure? name).isSome) ∧
          ∀ name ∈ source.statement.procedure?, (symbols.procedure? name).isSome := by
  unfold lower
  cases source.statement with
  | jump kind name =>
    cases known : symbols.label? name <;>
      simp [known, Statement.target?, Statement.callee?, Statement.procedure?]
  | call name | proc name =>
    cases known : symbols.procedure? name <;>
      simp [known, Statement.target?, Statement.callee?, Statement.procedure?]
  | plain _ | label _ | procEnd =>
    simp [Statement.target?, Statement.callee?, Statement.procedure?]

theorem lowered_iff_declared {statements : List Numbered} {symbols : Symbols}
    (resolved : Symbols.resolve statements = .ok symbols) :
    (∀ source ∈ statements, ∃ instruction, lower symbols source = .ok instruction) ↔
      (∀ name ∈ targetNames statements, name ∈ labelNames statements) ∧
        ∀ name ∈ calleeNames statements, name ∈ procedureNames statements := by
  simp only [lower_isOk_iff, Symbols.label?_isSome_iff resolved,
    Symbols.procedure?_isSome_iff resolved]
  constructor
  · intro known
    constructor
    · intro name refers
      obtain ⟨source, member, same⟩ := List.mem_filterMap.mp refers
      exact (known source member).1 name same
    · intro name refers
      obtain ⟨source, member, same⟩ := List.mem_filterMap.mp refers
      exact (known source member).2.1 name same
  · rintro ⟨targets, callees⟩ source member
    refine ⟨fun name same => targets name ?_, fun name same => callees name ?_,
      fun name same => ?_⟩
    all_goals exact List.mem_filterMap.mpr ⟨source, member, same⟩

namespace Emitter

theorem fill_append (symbols : Symbols) (emitter : Emitter) {statements : List Numbered}
    {instructions : List Instruction}
    (lowered : statements.map (lower symbols) = instructions.map .ok) (rest : List Numbered) :
    emitter.fill symbols (statements ++ rest) =
      fill symbols ⟨emitter.buffer ++ instructions.toArray⟩ rest := by
  induction statements generalizing emitter instructions with
  | nil =>
    obtain rfl : instructions = [] := by simpa using lowered.symm
    simp
  | cons source later ih =>
    cases instructions with
    | nil => simp at lowered
    | cons instruction others =>
      simp only [List.map_cons, List.cons.injEq] at lowered
      obtain ⟨head, tail⟩ := lowered
      rw [List.cons_append, fill, head]
      simp only
      rw [ih ⟨emitter.buffer.push instruction⟩ tail]
      simp

theorem fill_of_lowered (symbols : Symbols) (emitter : Emitter) (statements : List Numbered)
    (instructions : List Instruction)
    (lowered : statements.map (lower symbols) = instructions.map .ok) :
    emitter.fill symbols statements = (none, ⟨emitter.buffer ++ instructions.toArray⟩) := by
  have whole := fill_append symbols emitter lowered []
  rwa [List.append_nil] at whole

theorem lowered_of_fill (symbols : Symbols) (emitter filled : Emitter)
    (statements : List Numbered)
    (success : emitter.fill symbols statements = (none, filled)) :
    ∃ instructions : List Instruction,
      statements.map (lower symbols) = instructions.map .ok := by
  induction statements generalizing emitter with
  | nil => exact ⟨[], rfl⟩
  | cons source rest ih =>
    rw [fill] at success
    cases head : lower symbols source with
    | error error => simp [head] at success
    | ok instruction =>
      simp only [head] at success
      obtain ⟨later, tail⟩ := ih _ success
      exact ⟨instruction :: later, by simp [head, tail]⟩

theorem generate_eq_ok_iff (emitter : Emitter) (symbols : Symbols)
    (statements : List Numbered) (program : Program) :
    (emitter.generate symbols statements).1 = .ok program ↔
      statements.map (lower symbols) = program.toList.map .ok := by
  have emptied : emitter.buffer.shrink 0 = #[] := by simp
  constructor
  · intro generated
    simp only [generate, emptied] at generated
    cases call : Emitter.fill symbols ⟨#[]⟩ statements with
    | mk failure filled =>
      cases failure with
      | some error => simp [call] at generated
      | none =>
        obtain ⟨instructions, lowered⟩ := lowered_of_fill symbols _ filled statements call
        rw [fill_of_lowered symbols _ statements instructions lowered] at generated
        obtain rfl : instructions.toArray = program := by simpa using generated
        exact lowered
  · intro lowered
    simp only [generate, emptied]
    rw [fill_of_lowered symbols _ statements program.toList lowered]
    simp

theorem generate_isOk_iff (emitter : Emitter) (symbols : Symbols)
    (statements : List Numbered) :
    (∃ program, (emitter.generate symbols statements).1 = .ok program) ↔
      ∀ source ∈ statements, ∃ instruction, lower symbols source = .ok instruction := by
  simp only [generate_eq_ok_iff]
  constructor
  · rintro ⟨program, lowered⟩ source member
    have image : lower symbols source ∈ program.toList.map .ok :=
      lowered ▸ List.mem_map_of_mem member
    obtain ⟨instruction, _, same⟩ := List.mem_map.mp image
    exact ⟨instruction, same.symm⟩
  · intro each
    induction statements with
    | nil => exact ⟨#[], rfl⟩
    | cons source rest ih =>
      obtain ⟨instruction, head⟩ := each source List.mem_cons_self
      obtain ⟨later, tail⟩ := ih fun source member => each source (List.mem_cons_of_mem _ member)
      exact ⟨⟨instruction :: later.toList⟩, by simp [head, tail]⟩

section Changed

variable {symbols other : Symbols} {change : Numbered → Numbered}
  {cause : SourceError → SourceError} (emitter : Emitter) {statements : List Numbered}
  (each : ∀ source ∈ statements,
    lower other (change source) = (lower symbols source).mapError cause)

include each

theorem fill_map :
    emitter.fill other (statements.map change) =
      ((emitter.fill symbols statements).1.map cause, (emitter.fill symbols statements).2) := by
  induction statements generalizing emitter with
  | nil => rfl
  | cons source rest ih =>
    obtain ⟨head, tail⟩ := List.forall_mem_cons.mp each
    rw [List.map_cons, fill, fill, head]
    cases lower symbols source with
    | error error => rfl
    | ok instruction => exact ih ⟨emitter.buffer.push instruction⟩ tail

/-- Statements that are changed, but keep their instructions, keep their program;
without a program they keep the cause, changed alike. -/
theorem generate_map :
    (emitter.generate other (statements.map change)).1 =
      (emitter.generate symbols statements).1.mapError cause := by
  rw [generate, generate, fill_map _ each]
  cases fill symbols { emitter with buffer := emitter.buffer.shrink 0 } statements with
  | mk failure filled => cases failure <;> rfl

end Changed

end Emitter

namespace Assembly

/-- The passes behind an assembled source. -/
theorem ofLines_eq_ok_iff {source : List Source.Line} {assembly : Assembly} :
    ofLines source = .ok assembly ↔
      ∃ statements,
        Source.statements source = .ok statements ∧
          Symbols.resolve statements = .ok assembly.symbols ∧
            statements.map (lower assembly.symbols) = assembly.program.toList.map .ok ∧
              assembly.lines = source.map Source.Line.number := by
  unfold ofLines
  cases Source.statements source with
  | error error => simp
  | ok statements =>
    simp only [Except.ok.injEq, exists_eq_left']
    cases Symbols.resolve statements with
    | error error => simp
    | ok symbols =>
      simp only [Except.ok.injEq]
      constructor
      · intro assembled
        cases generated : (({} : Emitter).generate symbols statements).1 with
        | error error => simp [generated] at assembled
        | ok program =>
          simp only [generated, Except.ok.injEq] at assembled
          subst assembled
          exact ⟨rfl, (Emitter.generate_eq_ok_iff _ _ _ _).mp generated, rfl⟩
      · obtain ⟨program, symbols', lines⟩ := assembly
        rintro ⟨rfl, lowered, rfl⟩
        simp only [(Emitter.generate_eq_ok_iff {} _ _ _).mpr lowered]

/-- Lines are assembled exactly when they are parsed, the names declared on
them can be told apart and each statement has an instruction. -/
theorem ofLines_isOk_iff (source : List Source.Line) :
    (∃ assembly, ofLines source = .ok assembly) ↔
      ∃ statements, Source.statements source = .ok statements ∧
        ∃ symbols, Symbols.resolve statements = .ok symbols ∧
          ∀ statement ∈ statements, ∃ instruction, lower symbols statement = .ok instruction := by
  constructor
  · rintro ⟨assembly, assembled⟩
    obtain ⟨statements, parsed, resolved, lowered, _⟩ := ofLines_eq_ok_iff.mp assembled
    have generated := (Emitter.generate_eq_ok_iff {} _ _ _).mpr lowered
    exact ⟨statements, parsed, _, resolved,
      (Emitter.generate_isOk_iff {} _ _).mp ⟨_, generated⟩⟩
  · rintro ⟨statements, parsed, symbols, resolved, each⟩
    obtain ⟨program, generated⟩ := (Emitter.generate_isOk_iff {} symbols statements).mpr each
    have lowered := (Emitter.generate_eq_ok_iff {} _ _ _).mp generated
    exact ⟨⟨program, symbols, source.map Source.Line.number⟩,
      ofLines_eq_ok_iff.mpr ⟨statements, parsed, resolved, lowered, rfl⟩⟩

theorem exists_of_evaluated {β : Type} {result : Except SourceError Assembly} {f : Assembly → β}
    {value : β} (evaluated : result.toOption.map f = some value) :
    ∃ assembly, result = .ok assembly ∧ f assembly = value := by
  cases result with
  | error error => cases evaluated
  | ok assembly => exact ⟨assembly, rfl, Option.some.inj evaluated⟩

theorem lower_of_getElem? {statements : List Numbered} {symbols : Symbols} {program : Program}
    (lowered : statements.map (lower symbols) = program.toList.map .ok) (index : Nat) :
    statements[index]?.map (lower symbols) = program[index]?.map .ok := by
  have same := congrArg (fun results => results[index]?) lowered
  simpa using same

end Assembly

end StackAsm
