import StackAsm.Proofs.Emission

/-!
# Assembling statements

After parsing, a source is a list of statements, and the rest of the assembler
works on these alone.  Statements are assembled exactly when they are
consistent: their names are declared once, procedures do not overlap, and every
name referred to is declared.
-/

set_option autoImplicit false

namespace StackAsm

namespace Assembly

def ofStatements (statements : List Numbered) : Except SourceError Assembly :=
  match Symbols.resolve statements with
  | .error error => .error error
  | .ok symbols =>
    match (({} : Emitter).generate symbols statements).1 with
    | .error error => .error error
    | .ok program => .ok ⟨program, symbols, statements.map Numbered.line⟩

theorem numbers_of_statements {source : List Source.Line} {statements : List Numbered}
    (parsed : Source.statements source = .ok statements) :
    source.map Source.Line.number = statements.map Numbered.line := by
  have reads := Source.statements_eq_ok_iff.mp parsed
  clear parsed
  induction reads with
  | nil => rfl
  | cons head _ ih =>
    rw [List.map_cons, List.map_cons, ih, (Source.Line.numbered_eq_ok_iff.mp head).1]

/-- Lines are parsed first, and their statements are then assembled. -/
theorem ofLines_eq_ofStatements (source : List Source.Line) :
    ofLines source =
      match Source.statements source with
      | .error error => .error error
      | .ok statements => ofStatements statements := by
  unfold ofLines
  cases parsed : Source.statements source with
  | error error => rfl
  | ok statements =>
    simp only [numbers_of_statements parsed]
    rfl

theorem ofStatements_eq_ok_iff {statements : List Numbered} {assembly : Assembly} :
    ofStatements statements = .ok assembly ↔
      Symbols.resolve statements = .ok assembly.symbols ∧
        statements.map (lower assembly.symbols) = assembly.program.toList.map .ok ∧
          assembly.lines = statements.map Numbered.line := by
  unfold ofStatements
  cases Symbols.resolve statements with
  | error error => simp
  | ok symbols =>
    simp only [Except.ok.injEq]
    constructor
    · intro assembled
      cases generated : (({} : Emitter).generate symbols statements).1 with
      | error error => simp [generated] at assembled
      | ok program =>
        simp only [generated, Except.ok.injEq] at assembled
        subst assembled
        exact ⟨rfl, (Emitter.generate_eq_ok_iff _ _ _ _).mp generated, rfl⟩
    · intro parts
      obtain ⟨program, symbols', lines⟩ := assembly
      obtain ⟨rfl, lowered, rfl⟩ := parts
      simp only [(Emitter.generate_eq_ok_iff {} _ _ _).mpr lowered]

end Assembly

structure Consistent (statements : List Numbered) : Prop where
  labelsOnce : (labelNames statements).Nodup
  paired : Paired (brackets statements)
  proceduresOnce : (procedureNames statements).Nodup
  jumpsDeclared : ∀ name ∈ targetNames statements, name ∈ labelNames statements
  callsDeclared : ∀ name ∈ calleeNames statements, name ∈ procedureNames statements

theorem Assembly.ofStatements_isOk_iff (statements : List Numbered) :
    (∃ assembly, ofStatements statements = .ok assembly) ↔ Consistent statements := by
  constructor
  · intro assembled
    obtain ⟨assembly, accepted⟩ := assembled
    obtain ⟨resolved, lowered, _⟩ := ofStatements_eq_ok_iff.mp accepted
    have generated := (Emitter.generate_eq_ok_iff {} _ _ _).mpr lowered
    have each := (Emitter.generate_isOk_iff {} _ _).mp ⟨_, generated⟩
    obtain ⟨labels, paired, procedures⟩ :=
      (Symbols.resolve_isOk_iff statements).mp ⟨_, resolved⟩
    obtain ⟨jumps, calls⟩ := (lowered_iff_declared resolved).mp each
    exact ⟨labels, paired, procedures, jumps, calls⟩
  · intro consistent
    obtain ⟨symbols, resolved⟩ := (Symbols.resolve_isOk_iff statements).mpr
      ⟨consistent.labelsOnce, consistent.paired, consistent.proceduresOnce⟩
    have each := (lowered_iff_declared resolved).mpr
      ⟨consistent.jumpsDeclared, consistent.callsDeclared⟩
    obtain ⟨program, generated⟩ := (Emitter.generate_isOk_iff {} symbols statements).mpr each
    have lowered := (Emitter.generate_eq_ok_iff {} _ _ _).mp generated
    exact ⟨⟨program, symbols, _⟩, ofStatements_eq_ok_iff.mpr ⟨resolved, lowered, rfl⟩⟩

end StackAsm
