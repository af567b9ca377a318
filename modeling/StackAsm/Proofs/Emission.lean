import StackAsm.Proofs.Lowering
import StackAsm.Proofs.Parsing

/-!
# The instruction on a line

In an assembled program the instruction at a position depends on the statement
at that position and on where other statements stand.  `Emitted` says how,
without symbols: a jump leads to the declaration of its label, an opening line
past its closing one, and a call to the line after the opening one.
-/

set_option autoImplicit false

namespace StackAsm

def Instruction.target? : Instruction → Option Nat
  | .jump target => some target
  | .jumpIfZero target => some target
  | .jumpIfNonZero target => some target
  | .call target => some target
  | _ => none

@[simp]
theorem JumpKind.target?_instruction (kind : JumpKind) (target : Nat) :
    (kind.instruction target).target? = some target := by
  cases kind <;> rfl

theorem Source.Line.target?_of_statement {line : Source.Line} {instruction : Instruction}
    (parsed : line.statement = .ok (.plain instruction)) : instruction.target? = none := by
  unfold Line.statement at parsed
  split at parsed
  case h_1 | h_9 | h_10 | h_11 | h_12 =>
    obtain ⟨_, _, _, _, same⟩ := literal_eq_ok_iff.mp parsed
    cases same
    rfl
  case h_13 | h_14 | h_15 | h_16 | h_17 | h_18 =>
    obtain ⟨_, _, same⟩ := named_eq_ok_iff.mp parsed
    cases same
  case h_19 =>
    obtain ⟨_, same⟩ := bare_eq_ok_iff.mp parsed
    cases same
  case h_20 => cases parsed
  all_goals
    obtain ⟨_, same⟩ := bare_eq_ok_iff.mp parsed
    cases same
    rfl

/-! ## Positions of the declarations -/

namespace Symbols

theorem standing_of_findIdx? {statements : List Numbered} {statement : Statement} {position : Nat}
    (found : (statements.findIdx? fun source => source.statement = statement) = some position) :
    (∃ line, statements[position]? = some ⟨line, statement⟩) ∧
      ∀ earlier < position, ∀ line, statements[earlier]? ≠ some ⟨line, statement⟩ := by
  obtain ⟨inside, holds, first⟩ := List.findIdx?_eq_some_iff_getElem.mp found
  have same : statements[position].statement = statement := by simpa using holds
  constructor
  · refine ⟨statements[position].line, ?_⟩
    rw [List.getElem?_eq_getElem inside, ← same]
  · intro earlier before line stands
    obtain ⟨_, here⟩ := List.getElem?_eq_some_iff.mp stands
    have different := first earlier before
    rw [here] at different
    simp at different

theorem standing_of_endBelow? {statements : List Numbered} {entry closing : Nat}
    (found : endBelow? statements entry = some closing) :
    entry < closing ∧ (∃ line, statements[closing]? = some ⟨line, .procEnd⟩) ∧
      ∀ between, entry < between → between < closing →
        ∀ line, statements[between]? ≠ some ⟨line, .procEnd⟩ := by
  obtain ⟨offset, searched, rfl⟩ := Option.map_eq_some_iff.mp found
  obtain ⟨stands, first⟩ := standing_of_findIdx? searched
  simp only [List.getElem?_drop] at stands first
  refine ⟨by omega, stands, ?_⟩
  intro between after before line
  have shifted : entry + 1 + (between - (entry + 1)) = between := by omega
  have absent := first (between - (entry + 1)) (by omega) line
  rwa [shifted] at absent

end Symbols

/-! ## Emitted instructions -/

open Symbols (labelLine? procedureLine? endBelow? standing_of_findIdx? standing_of_endBelow?)

/-- The instruction emitted for a statement at a position. -/
inductive Emitted (statements : List Numbered) (position : Nat) :
    Statement → Instruction → Prop where
  | plain {instruction : Instruction} (untargeted : instruction.target? = none) :
      Emitted statements position (.plain instruction) instruction
  | label (name : String) : Emitted statements position (.label name) .noop
  | procEnd : Emitted statements position .procEnd .noop
  | jump (kind : JumpKind) {name : String} {target line : Nat}
      (declared : statements[target]? = some ⟨line, .label name⟩) :
      Emitted statements position (.jump kind name) (kind.instruction target)
  | proc (name : String) {closing : Nat} (closes : endBelow? statements position = some closing) :
      Emitted statements position (.proc name) (.jump (closing + 1))
  | call {name : String} {entry closing line : Nat}
      (opens : statements[entry]? = some ⟨line, .proc name⟩)
      (closes : endBelow? statements entry = some closing) :
      Emitted statements position (.call name) (.call (entry + 1))

structure Assembled (statements : List Numbered) (program : Program) : Prop where
  emitted : ∀ {position line : Nat} {statement : Statement},
    statements[position]? = some ⟨line, statement⟩ →
      ∃ instruction, program[position]? = some instruction ∧
        Emitted statements position statement instruction
  size : program.size = statements.length

theorem emitted_of_lower {statements : List Numbered} {symbols : Symbols} {position line : Nat}
    {statement : Statement} {instruction : Instruction}
    (resolved : Symbols.resolve statements = .ok symbols)
    (stands : statements[position]? = some ⟨line, statement⟩)
    (untargeted : ∀ written, statement = .plain written → written.target? = none)
    (lowered : lower symbols ⟨line, statement⟩ = .ok instruction) :
    Emitted statements position statement instruction := by
  cases statement with
  | plain written =>
    cases lowered
    exact .plain (untargeted _ rfl)
  | label name =>
    cases lowered
    exact .label name
  | procEnd =>
    cases lowered
    exact .procEnd
  | jump kind name =>
    have looked := Symbols.label?_eq_labelLine? resolved name
    cases found : labelLine? statements name with
    | none => simp [lower, looked, found] at lowered
    | some target =>
      obtain rfl : kind.instruction target = instruction := by
        simpa [lower, looked, found] using lowered
      obtain ⟨⟨declaring, declared⟩, _⟩ := standing_of_findIdx? found
      exact .jump kind declared
  | proc name =>
    have unique := ((Symbols.resolve_isOk_iff statements).mp ⟨symbols, resolved⟩).2.2
    have extent := Symbols.procedure?_eq_extent resolved name
    rw [Symbols.procedureLine?_of_nodup unique stands, Option.bind_some] at extent
    cases closes : endBelow? statements position with
    | none => simp [lower, extent, closes] at lowered
    | some closing =>
      obtain rfl : Instruction.jump (closing + 1) = instruction := by
        simpa [lower, extent, closes] using lowered
      exact .proc name closes
  | call name =>
    have extent := Symbols.procedure?_eq_extent resolved name
    cases found : procedureLine? statements name with
    | none => simp [lower, extent, found] at lowered
    | some entry =>
      cases closes : endBelow? statements entry with
      | none => simp [lower, extent, found, closes] at lowered
      | some closing =>
        obtain rfl : Instruction.call (entry + 1) = instruction := by
          simpa [lower, extent, found, closes, Procedure.callTarget] using lowered
        obtain ⟨⟨opening, opens⟩, _⟩ := standing_of_findIdx? found
        exact .call opens closes

theorem untargeted_of_statements {lines : List Source.Line} {statements : List Numbered}
    (parsed : Source.statements lines = .ok statements) :
    ∀ source ∈ statements, ∀ written, source.statement = .plain written →
      written.target? = none := by
  have reads := Source.statements_eq_ok_iff.mp parsed
  clear parsed
  induction reads with
  | nil => simp
  | @cons line source rest later head _ ih =>
    refine List.forall_mem_cons.mpr ⟨?_, ih⟩
    intro written same
    have read := (Source.Line.numbered_eq_ok_iff.mp head).2
    rw [same] at read
    exact Source.Line.target?_of_statement read

theorem Assembled.of_lowered {statements : List Numbered} {symbols : Symbols} {program : Program}
    (resolved : Symbols.resolve statements = .ok symbols)
    (untargeted : ∀ source ∈ statements, ∀ written, source.statement = .plain written →
      written.target? = none)
    (lowered : statements.map (lower symbols) = program.toList.map .ok) :
    Assembled statements program := by
  constructor
  · intro position line statement stands
    have aligned := Assembly.lower_of_getElem? lowered position
    rw [stands, Option.map_some] at aligned
    obtain ⟨instruction, found, same⟩ := Option.map_eq_some_iff.mp aligned.symm
    have written := untargeted _ (List.mem_of_getElem? stands)
    exact ⟨instruction, found, emitted_of_lower resolved stands written same.symm⟩
  · have counted := congrArg List.length lowered
    simpa using counted.symm

theorem Assembly.assembled_of_ofLines {lines : List Source.Line} {assembly : Assembly}
    (accepted : Assembly.ofLines lines = .ok assembly) :
    ∃ statements, Source.statements lines = .ok statements ∧
      Symbols.resolve statements = .ok assembly.symbols ∧
      Assembled statements assembly.program := by
  obtain ⟨statements, parsed, resolved, lowered, _⟩ := ofLines_eq_ok_iff.mp accepted
  have untargeted := untargeted_of_statements parsed
  exact ⟨statements, parsed, resolved, .of_lowered resolved untargeted lowered⟩

theorem Assembly.exists_of_program {result : Except SourceError Assembly} {program : Program}
    (evaluated : result.toOption.map Assembly.program = some program) :
    ∃ assembly, result = .ok assembly ∧ assembly.program = program :=
  exists_of_evaluated evaluated

/-- Each instruction of a program was emitted for some statement. -/
theorem Assembled.statement {statements : List Numbered} {program : Program}
    (assembled : Assembled statements program) {position : Nat} {instruction : Instruction}
    (found : program[position]? = some instruction) :
    ∃ line statement, statements[position]? = some ⟨line, statement⟩ ∧
      Emitted statements position statement instruction := by
  have inside : position < statements.length := by
    rw [← assembled.size]
    exact (Array.getElem?_eq_some_iff.mp found).1
  have stands := List.getElem?_eq_getElem inside
  obtain ⟨other, same, emitted⟩ := assembled.emitted stands
  rw [found] at same
  cases same
  exact ⟨_, _, stands, emitted⟩

end StackAsm
