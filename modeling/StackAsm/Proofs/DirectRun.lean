import StackAsm.Proofs.Lowering
import StackAsm.Proofs.Observation

/-!
# Running a source without symbols

Statements can be run as they stand: names are looked up among the lines
themselves, and the position in the run is the position of a line.  The machine
running the assembled program keeps step with such a direct run for ever: after
any number of steps both stand at the same position with the same stack,
frames, output and step count, and one halts or faults exactly when the other
does.
-/

set_option autoImplicit false

namespace StackAsm.Direct

open Symbols (labelLine? procedureLine? endBelow? label?_eq_labelLine? procedure?_eq_extent
  procedureLine?_of_nodup resolve_isOk_iff)

structure State where
  position : Nat := 0
  steps : Nat := 0
  stack : Array Value := #[]
  frames : List Frame := []
  output : Array Value := #[]
deriving DecidableEq, Repr

inductive Outcome where
  | next (state : State)
  | fault (error : Machine.Error) (state : State)
  | lost
deriving DecidableEq, Repr

namespace State

def goTo (state : State) : Option Nat → Outcome
  | none => .lost
  | some position => .next { state with position := position }

def machine (state : State) : Machine :=
  { pc := state.position
    steps := state.steps
    stack := state.stack
    frames := state.frames
    output := state.output }

def ofMachine (machine : Machine) : State :=
  ⟨machine.pc, machine.steps, machine.stack, machine.frames, machine.output⟩

end State

def Outcome.ofResult : EStateM.Result Machine.Error Machine Unit → Outcome
  | .ok _ machine => .next (.ofMachine machine)
  | .error error machine => .fault error (.ofMachine machine)

namespace State

def plain (state : State) (instruction : Instruction) : Outcome :=
  .ofResult ((Machine.step {} instruction).run state.machine)

def branch (state : State) (test : Value → Bool) (target : Option Nat) : Outcome :=
  match state.stack.back? with
  | none => .fault .stackUnderflow state
  | some value =>
    if test value then { state with stack := state.stack.pop }.goTo target else .next state

end State

/-- The effect of the statement on the line at `position`.  The state has
already moved to the next line. -/
def effect (statements : List Numbered) (position : Nat) (state : State) : Statement → Outcome
  | .plain instruction => state.plain instruction
  | .label _ => .next state
  | .procEnd => .next state
  | .proc _ => state.goTo ((endBelow? statements position).map (· + 1))
  | .call name =>
    { state with frames := ⟨position + 1, state.stack.size⟩ :: state.frames }.goTo
      ((procedureLine? statements name).map (· + 1))
  | .jump .always label => state.goTo (labelLine? statements label)
  | .jump .ifZero label => state.branch (fun value => value == 0) (labelLine? statements label)
  | .jump .ifNonZero label => state.branch (fun value => value != 0) (labelLine? statements label)

/-- Runs statements for at most `fuel` steps.  There is no result when a
statement leads to a missing line. -/
def run (statements : List Numbered) : Nat → State → Option (Machine.Status × State)
  | 0, state => some (.running, state)
  | fuel + 1, state =>
    match statements[state.position]? with
    | none => some (.halted, state)
    | some source =>
      let moved := { state with position := state.position + 1, steps := state.steps + 1 }
      match effect statements state.position moved source.statement with
      | .next reached => run statements fuel reached
      | .fault error reached => some (.faulted ⟨error, state.position⟩, reached)
      | .lost => none

/-! ## One step -/

theorem State.ofMachine_fetched (options : Machine.Options) (instruction : Instruction)
    (machine : Machine) :
    ofMachine (machine.fetched options instruction) =
      { ofMachine machine with position := machine.pc + 1, steps := machine.steps + 1 } :=
  congrArg ofMachine (Machine.unobserved_fetched options instruction machine)

theorem Outcome.ofResult_eraseResult (result : EStateM.Result Machine.Error Machine Unit) :
    ofResult (Machine.eraseResult result) = ofResult result := by
  cases result <;> rfl

theorem plain_ofMachine (options : Machine.Options) (instruction : Instruction)
    (machine : Machine) :
    (State.ofMachine machine).plain instruction =
      .ofResult ((Machine.step options instruction).run machine) := by
  have same := Machine.erases_step options instruction machine
  show Outcome.ofResult ((Machine.step {} instruction).run machine.unobserved) = _
  rw [same, Outcome.ofResult_eraseResult]

theorem branch_ofMachine (test : Value → Bool) (target : Nat) (machine : Machine) :
    (State.ofMachine machine).branch test (some target) =
      .ofResult ((Machine.branch test target).run machine) := by
  rw [Machine.run_branch]
  simp only [State.branch, State.ofMachine]
  cases machine.stack.back? with
  | none => rfl
  | some value =>
    dsimp only
    split
    · simp [State.goTo, Outcome.ofResult, State.ofMachine]
    · rfl

/-- The statement at the program counter does directly what its instruction
does on the machine. -/
theorem effect_eq_perform {statements : List Numbered} {symbols : Symbols}
    (resolved : Symbols.resolve statements = .ok symbols) {source : Numbered}
    {instruction : Instruction} (lowered : lower symbols source = .ok instruction)
    (options : Machine.Options) (machine : Machine)
    (stands : statements[machine.pc]? = some source) :
    effect statements machine.pc
        { State.ofMachine machine with position := machine.pc + 1, steps := machine.steps + 1 }
        source.statement =
      .ofResult ((Machine.perform options instruction).run machine) := by
  rw [Machine.run_perform, ← State.ofMachine_fetched options instruction]
  have returns : (machine.fetched options instruction).pc = machine.pc + 1 := by
    rw [Machine.fetched]
    split <;> rfl
  generalize machine.fetched options instruction = reached at returns ⊢
  obtain ⟨line, statement⟩ := source
  cases statement with
  | plain plainInstruction =>
    obtain rfl : plainInstruction = instruction := by simpa [lower] using lowered
    exact plain_ofMachine options plainInstruction reached
  | label name =>
    obtain rfl : Instruction.noop = instruction := by simpa [lower] using lowered
    rfl
  | procEnd =>
    obtain rfl : Instruction.noop = instruction := by simpa [lower] using lowered
    rfl
  | proc name =>
    have unique := ((resolve_isOk_iff statements).mp ⟨symbols, resolved⟩).2.2
    have extent := procedure?_eq_extent resolved name
    rw [procedureLine?_of_nodup unique stands, Option.bind_some] at extent
    cases closing : endBelow? statements machine.pc with
    | none => simp [lower, extent, closing] at lowered
    | some last =>
      obtain rfl : Instruction.jump (last + 1) = instruction := by
        simpa [lower, extent, closing] using lowered
      simp [effect, closing, State.goTo, Machine.step, Machine.run_setPc, Outcome.ofResult,
        State.ofMachine]
  | call name =>
    have extent := procedure?_eq_extent resolved name
    cases entry : procedureLine? statements name with
    | none => simp [lower, extent, entry] at lowered
    | some first =>
      cases closing : endBelow? statements first with
      | none => simp [lower, extent, entry, closing] at lowered
      | some last =>
        obtain rfl : Instruction.call (first + 1) = instruction := by
          simpa [lower, extent, entry, closing, Procedure.callTarget] using lowered
        simp [effect, entry, State.goTo, Machine.run_call, Outcome.ofResult, State.ofMachine,
          returns, Machine.depth]
  | jump kind label =>
    have looked := label?_eq_labelLine? resolved label
    cases target : labelLine? statements label with
    | none => simp [lower, looked, target] at lowered
    | some position =>
      obtain rfl : kind.instruction position = instruction := by
        simpa [lower, looked, target] using lowered
      cases kind with
      | always => simp [effect, target, State.goTo, JumpKind.instruction, Machine.step,
          Machine.run_setPc, Outcome.ofResult, State.ofMachine]
      | ifZero =>
        rw [effect, target]
        exact branch_ofMachine _ position reached
      | ifNonZero =>
        rw [effect, target]
        exact branch_ofMachine _ position reached

/-! ## Runs of any length -/

/-- A direct run keeps step with the machine, from any machine and for any
number of steps. -/
theorem run_ofMachine {statements : List Numbered} {symbols : Symbols} {program : Program}
    (resolved : Symbols.resolve statements = .ok symbols)
    (lowered : statements.map (lower symbols) = program.toList.map .ok)
    (trace echo : Bool) (fuel : Nat) (machine : Machine) :
    run statements fuel (.ofMachine machine) =
      some ((Machine.run ⟨trace, echo, none⟩ program fuel machine).1,
        .ofMachine (Machine.run ⟨trace, echo, none⟩ program fuel machine).2) := by
  induction fuel generalizing machine with
  | zero => rfl
  | succ fuel ih =>
    have aligned := Assembly.lower_of_getElem? lowered machine.pc
    have position : (State.ofMachine machine).position = machine.pc := rfl
    rw [run, Machine.run]
    cases stands : statements[machine.pc]? with
    | none =>
      have ended : program[machine.pc]? = none := by
        rw [stands] at aligned
        exact Option.map_eq_none_iff.mp aligned.symm
      simp only [position, stands, ended]
    | some source =>
      obtain ⟨instruction, found, lowers⟩ :
          ∃ instruction, program[machine.pc]? = some instruction ∧
            lower symbols source = .ok instruction := by
        rw [stands, Option.map_some] at aligned
        obtain ⟨instruction, found, same⟩ := Option.map_eq_some_iff.mp aligned.symm
        exact ⟨instruction, found, same.symm⟩
      have stepped := effect_eq_perform resolved lowers ⟨trace, echo, none⟩ machine stands
      have steps : (State.ofMachine machine).steps = machine.steps := rfl
      simp only [position, steps, stands, found, Machine.limitReached?, stepped]
      cases (Machine.perform ⟨trace, echo, none⟩ instruction).run machine with
      | ok value reached => exact ih reached
      | error error reached => rfl

/-- After any number of steps, whatever observes the machine, the machine
running a program and the direct run of statements have the same status (so that
they halt together, or fault together with the same error at the same position)
and agree in position, step count, stack, frames and output. -/
def Lockstep (program : Program) (statements : List Numbered) : Prop :=
  ∀ (trace echo : Bool) (count : Nat),
    let options : Machine.Options := ⟨trace, echo, none⟩
    let reached := Machine.run options program count (Machine.initial options program)
    ∃ state : State, run statements count {} = some (reached.1, state) ∧
      reached.2.pc = state.position ∧ reached.2.steps = state.steps ∧
      reached.2.stack = state.stack ∧ reached.2.frames = state.frames ∧
      reached.2.output = state.output

/-- An assembled source does what its statements say. -/
theorem assembled_lockstep (marker : Source.Marker) (text : String) (assembly : Assembly)
    (accepted : Assembly.ofText marker text = .ok assembly) :
    ∃ statements, Source.statements (Source.scan marker text) = .ok statements ∧
      Lockstep assembly.program statements := by
  obtain ⟨statements, parsed, resolved, lowered, _⟩ := Assembly.ofLines_eq_ok_iff.mp accepted
  refine ⟨statements, parsed, fun trace echo count => ?_⟩
  have lockstep := run_ofMachine resolved lowered trace echo count
    (Machine.initial ⟨trace, echo, none⟩ assembly.program)
  exact ⟨_, lockstep, rfl, rfl, rfl, rfl, rfl⟩

def countdown : String :=
  "Push 2\nlabel top\nCall show\nPush 1\nSub\nGet 0\nJNE top\nProc show\nPrint\nRet\nEnd"

theorem assembled_lockstep_countdown :
    ∃ assembly, Assembly.ofText .semicolon countdown = .ok assembly ∧
      assembly.program = #[.push 2, .noop, .call 8, .push 1, .sub, .get 0, .jumpIfNonZero 1,
        .jump 11, .print, .ret, .noop] ∧
      ∃ statements, Source.statements (Source.scan .semicolon countdown) = .ok statements ∧
        Lockstep assembly.program statements := by
  have evaluated : (Assembly.ofText .semicolon countdown).toOption.map Assembly.program =
      some #[.push 2, .noop, .call 8, .push 1, .sub, .get 0, .jumpIfNonZero 1, .jump 11, .print,
        .ret, .noop] := by
    decide +kernel
  cases accepted : Assembly.ofText .semicolon countdown with
  | error error => simp [accepted, Except.toOption] at evaluated
  | ok assembly =>
    rw [accepted] at evaluated
    exact ⟨assembly, rfl, Option.some.inj evaluated, assembled_lockstep _ _ assembly accepted⟩

end StackAsm.Direct
