import StackAsm.Proofs.Effect
import StackAsm.Proofs.Emission

/-!
# Assembled programs stay within themselves

Every target that the assembler resolves lies in the program or directly after
it.  A program with such targets only is never left but at its end: no run
moves the program counter, or remembers a place to return to, any further.
-/

set_option autoImplicit false

namespace StackAsm

open Machine
open Symbols (endBelow? standing_of_endBelow?)

/-! ## Targets -/

/-- Where the jumps and calls of an assembled program lead. -/
structure TargetsInside (statements : List Numbered) (program : Program) : Prop where
  jumps : ∀ (position line : Nat) (kind : JumpKind) (name : String),
    statements[position]? = some ⟨line, .jump kind name⟩ →
      ∃ target < program.size, program[position]? = some (kind.instruction target) ∧
        program[target]? = some .noop
  procedures : ∀ (position line : Nat) (name : String),
    statements[position]? = some ⟨line, .proc name⟩ →
      ∃ target, program[position]? = some (.jump target) ∧ position + 1 < target ∧
        target ≤ program.size
  calls : ∀ position target : Nat, program[position]? = some (.call target) →
    1 ≤ target ∧ target < program.size ∧
      ∃ line name exit, statements[target - 1]? = some ⟨line, .proc name⟩ ∧
        program[target - 1]? = some (.jump exit) ∧ target < exit ∧ exit ≤ program.size

section Targets

variable {statements : List Numbered} {program : Program}
  (assembled : Assembled statements program)

include assembled

theorem Assembled.inside_of_standing {position line : Nat} {statement : Statement}
    (stands : statements[position]? = some ⟨line, statement⟩) : position < program.size := by
  rw [assembled.size]
  exact (List.getElem?_eq_some_iff.mp stands).1

theorem Assembled.closing_bounds {entry closing : Nat}
    (closes : endBelow? statements entry = some closing) :
    entry + 1 < closing + 1 ∧ closing + 1 ≤ program.size := by
  obtain ⟨below, ⟨line, stands⟩, _⟩ := standing_of_endBelow? closes
  have inside := assembled.inside_of_standing stands
  omega

theorem Assembled.opening {position line : Nat} {name : String}
    (stands : statements[position]? = some ⟨line, .proc name⟩) :
    ∃ target, program[position]? = some (.jump target) ∧ position + 1 < target ∧
      target ≤ program.size := by
  obtain ⟨instruction, found, emitted⟩ := assembled.emitted stands
  cases emitted with
  | @proc _ closing closes => exact ⟨closing + 1, found, assembled.closing_bounds closes⟩

theorem Assembled.targetsInside : TargetsInside statements program where
  jumps := by
    intro position line kind name stands
    obtain ⟨instruction, found, emitted⟩ := assembled.emitted stands
    cases emitted with
    | @jump _ _ target line declared =>
      obtain ⟨other, there, label⟩ := assembled.emitted declared
      cases label
      exact ⟨target, assembled.inside_of_standing declared, found, there⟩
  procedures position line name stands := assembled.opening stands
  calls := by
    intro position target found
    obtain ⟨_, _, _, emitted⟩ := assembled.statement found
    generalize calls : Instruction.call target = instruction at emitted
    cases emitted with
    | plain untargeted =>
      subst calls
      cases untargeted
    | label _ | procEnd | proc _ _ => cases calls
    | jump kind _ => cases kind <;> cases calls
    | @call name entry closing line opens closes =>
      cases calls
      obtain ⟨exit, there, after, within⟩ := assembled.opening opens
      refine ⟨by omega, by omega, line, name, exit, opens, there, after, within⟩

end Targets

/-! ## Runs -/

/-- The program counter stands at an instruction or directly after the last one,
and every pending call returns to such a place after an instruction. -/
structure Within (program : Program) (machine : Machine) : Prop where
  pc : machine.pc ≤ program.size
  returns : ∀ frame ∈ machine.frames,
    1 ≤ frame.returnPointer ∧ frame.returnPointer ≤ program.size

def Sealed (program : Program) : Prop :=
  ∀ (position target : Nat) (instruction : Instruction),
    program[position]? = some instruction → instruction.target? = some target →
      target ≤ program.size

theorem Machine.target?_of_taken {machine : Machine} {instruction : Instruction} {target : Nat}
    (taken : machine.takenTarget? instruction = some target) :
    instruction.target? = some target := by
  cases instruction with
  | jump _ => exact taken
  | jumpIfZero _ | jumpIfNonZero _ =>
    simp only [takenTarget?] at taken
    split at taken
    · exact taken
    · cases taken
  | _ => cases taken

theorem Assembled.sealed {statements : List Numbered} {program : Program}
    (assembled : Assembled statements program) : Sealed program := by
  intro position target instruction found leads
  obtain ⟨_, _, _, emitted⟩ := assembled.statement found
  cases emitted with
  | plain untargeted =>
    rw [untargeted] at leads
    cases leads
  | label _ | procEnd => cases leads
  | jump kind declared =>
    rw [JumpKind.target?_instruction] at leads
    cases leads
    exact Nat.le_of_lt (assembled.inside_of_standing declared)
  | proc _ closes =>
    cases leads
    exact (assembled.closing_bounds closes).2
  | call opens closes =>
    cases leads
    have bounds := assembled.closing_bounds closes
    omega

section Runs

variable {options : Options} {program : Program}

theorem Within.step (sealing : Sealed program) {machine : Machine} {instruction : Instruction}
    (stands : program[machine.pc]? = some instruction) (within : Within program machine) :
    Within program (finalMachine ((perform options instruction).run machine)) := by
  have inside : machine.pc < program.size := (Array.getElem?_eq_some_iff.mp stands).1
  cases transfer_perform options instruction machine with
  | next _ pc frames =>
    refine ⟨by omega, ?_⟩
    rw [frames]
    exact within.returns
  | jump taken frames =>
    refine ⟨sealing _ _ _ stands (target?_of_taken taken), ?_⟩
    rw [frames]
    exact within.returns
  | call calls frames =>
    have leads := congrArg Instruction.target? calls
    refine ⟨sealing _ _ _ stands leads, ?_⟩
    rw [frames]
    refine List.forall_mem_cons.mpr ⟨?_, within.returns⟩
    dsimp only
    omega
  | ret _ frame frames pc =>
    have returns := within.returns
    rw [frames] at returns
    obtain ⟨here, rest⟩ := List.forall_mem_cons.mp returns
    exact ⟨by omega, rest⟩

/-- Where the runs of a program can be. -/
structure StaysInside (program : Program) : Prop where
  within : ∀ options count, Within program (run options program count (initial options program)).2
  halts : ∀ options count machine,
    run options program count (initial options program) = (.halted, machine) →
      machine.pc = program.size

theorem Sealed.staysInside (sealing : Sealed program) : StaysInside program := by
  have within : ∀ options count,
      Within program (run options program count (initial options program)).2 := by
    intro options count
    apply run_keeps
    · intro machine instruction stands kept
      exact kept.step sealing stands
    · exact ⟨Nat.zero_le _, by simp [initial]⟩
  refine ⟨within, ?_⟩
  intro options count machine ran
  have bounded := (within options count).pc
  have outside := Array.getElem?_eq_none_iff.mp (outside_of_halted ran)
  rw [ran] at bounded
  exact Nat.le_antisymm bounded outside

end Runs

/-- The targets of an assembled program lie within it, and so do all its runs
until they halt at its end. -/
theorem Assembly.ofText_staysInside (marker : Source.Marker) (text : String)
    (assembly : Assembly) (accepted : ofText marker text = .ok assembly) :
    ∃ statements, Source.statements (Source.scan marker text) = .ok statements ∧
      TargetsInside statements assembly.program ∧ StaysInside assembly.program := by
  obtain ⟨statements, parsed, _, assembled⟩ := assembled_of_ofLines accepted
  exact ⟨statements, parsed, assembled.targetsInside, assembled.sealed.staysInside⟩

def lastCall : String :=
  "Jump main\nProc show\nPush 1\nPrint\nRet\nEnd\nlabel main\nCall show"

theorem Assembly.ofText_staysInside_lastCall :
    ∃ assembly, ofText .semicolon lastCall = .ok assembly ∧
      assembly.program = #[.jump 6, .jump 6, .push 1, .print, .ret, .noop, .noop, .call 2] ∧
      ∃ statements, Source.statements (Source.scan .semicolon lastCall) = .ok statements ∧
        TargetsInside statements assembly.program ∧ StaysInside assembly.program := by
  have evaluated : (ofText .semicolon lastCall).toOption.map Assembly.program =
      some #[.jump 6, .jump 6, .push 1, .print, .ret, .noop, .noop, .call 2] := by
    decide +kernel
  obtain ⟨assembly, accepted, program⟩ := exists_of_program evaluated
  exact ⟨assembly, accepted, program, ofText_staysInside _ _ assembly accepted⟩

end StackAsm
