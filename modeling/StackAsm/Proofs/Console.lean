import StackAsm.Proofs.Effect
import StackAsm.Session

/-!
# What a run shows

Whether a run is traced, echoed or reported changes nothing of its result: two
runs under the same limit go through the same states, apart from what an
observer sees.  What the console shows is what was printed.  Each `print` that
finds a value adds that value to the output and, if the run is echoed, one line
to the console, so that the console of a run is its output up to where it stands,
also after a fault.
-/

set_option autoImplicit false

namespace StackAsm

namespace Machine

/-! ## Runs under other observation -/

theorem step_quiet (limit : Option Nat) (instruction : Instruction) :
    step ⟨false, false, limit⟩ instruction = step {} instruction := by
  cases instruction <;> rfl

theorem perform_quiet (options : Options) (instruction : Instruction) (machine : Machine) :
    (perform ⟨false, false, options.limit⟩ instruction).run machine.unobserved =
      eraseResult ((perform options instruction).run machine) := by
  have same : fetched ⟨false, false, options.limit⟩ instruction machine.unobserved =
      (fetched options instruction machine).unobserved := by
    rw [unobserved_fetched]
    rfl
  rw [run_perform, run_perform, step_quiet, same]
  exact erases_step options instruction _

theorem run_quiet (options : Options) (program : Program) (fuel : Nat) (machine : Machine) :
    run ⟨false, false, options.limit⟩ program fuel machine.unobserved =
      ((run options program fuel machine).1, (run options program fuel machine).2.unobserved) := by
  induction fuel generalizing machine with
  | zero => rfl
  | succ fuel ih =>
    cases stands : program[machine.pc]? with
    | none =>
      have outside : program[machine.unobserved.pc]? = none := stands
      rw [run_succ_of_outside stands, run_succ_of_outside outside]
    | some instruction =>
      have there : program[machine.unobserved.pc]? = some instruction := stands
      cases allowed : limitReached? options machine with
      | some limit =>
        have used : limitReached? ⟨false, false, options.limit⟩ machine.unobserved = some limit :=
          allowed
        rw [run_succ_of_limited stands allowed, run_succ_of_limited there used]
        rfl
      | none =>
        have free : limitReached? ⟨false, false, options.limit⟩ machine.unobserved = none :=
          allowed
        rw [run_succ_of_allowed stands allowed, run_succ_of_allowed there free, perform_quiet]
        cases (perform options instruction).run machine with
        | error error reached => rfl
        | ok value next => exact ih next

/-- Of two runs under the same limit, no observer can tell by the result which
one was observed. -/
theorem run_observed {options other : Options} (limits : other.limit = options.limit)
    (program : Program) (fuel : Nat) {machine twin : Machine}
    (same : twin.unobserved = machine.unobserved) :
    (run other program fuel twin).1 = (run options program fuel machine).1 ∧
      (run other program fuel twin).2.unobserved =
        (run options program fuel machine).2.unobserved := by
  have quiet := run_quiet other program fuel twin
  rw [same, limits, run_quiet options program fuel machine] at quiet
  exact ⟨(congrArg Prod.fst quiet).symm, (congrArg Prod.snd quiet).symm⟩

/-! ## Printing -/

def echoed (options : Options) (values : List Value) : List String :=
  if options.echo then values.map fun value => value.render ++ "\n" else []

/-- Between two machines of a run these values were printed. -/
structure Shows (options : Options) (values : List Value) (before after : Machine) : Prop where
  output : after.output.toList = before.output.toList ++ values
  console : after.console.toList = before.console.toList ++ echoed options values

theorem echoed_append (options : Options) (first second : List Value) :
    echoed options (first ++ second) = echoed options first ++ echoed options second := by
  unfold echoed
  split
  · exact List.map_append
  · rfl

section Shows

variable {options : Options} {before middle after : Machine}

theorem shows_nil (output : after.output = before.output) (console : after.console = before.console) :
    Shows options [] before after := by
  have nothing : echoed options [] = [] := by
    unfold echoed
    split <;> rfl
  exact ⟨by rw [output, List.append_nil], by rw [console, nothing, List.append_nil]⟩

theorem Shows.trans {first second : List Value} (earlier : Shows options first before middle)
    (later : Shows options second middle after) :
    Shows options (first ++ second) before after := by
  constructor
  · rw [later.output, earlier.output, List.append_assoc]
  · rw [later.console, earlier.console, List.append_assoc, echoed_append]

end Shows

theorem shows_calm (options : Options) : Calm (Shows options []) where
  refl _ := shows_nil rfl rfl
  trans _ _ _ earlier later := earlier.trans later
  push value machine := by
    rw [run_push]
    exact shows_nil (traced_output _ machine) (traced_console _ machine)
  pop machine := by
    rw [run_pop]
    cases machine.stack.back? with
    | none => exact shows_nil rfl rfl
    | some value => exact shows_nil (traced_output _ machine) (traced_console _ machine)
  store index value machine := by
    rw [run_store]
    cases machine.stack[index]? with
    | none => exact shows_nil rfl rfl
    | some old => exact shows_nil (traced_output _ machine) (traced_console _ machine)
  setPc _ _ := shows_nil rfl rfl

def printed? (machine : Machine) : Instruction → Option Value
  | .print => machine.stack.back?
  | _ => none

theorem shows_print (options : Options) (machine : Machine) :
    Shows options machine.stack.back?.toList machine
      (finalMachine ((step options .print).run machine)) := by
  rw [step, EStateM.run_bind, run_peek]
  cases machine.stack.back? with
  | none => exact shows_nil rfl rfl
  | some value =>
    dsimp only
    rw [EStateM.run_bind, run_emit]
    cases echoes : options.echo with
    | false => exact ⟨Array.toList_push, by simp [echoes, echoed, finalMachine]⟩
    | true =>
      refine ⟨Array.toList_push, ?_⟩
      simp [echoes, echoed, finalMachine, run_echo]

theorem printed?_of_other {machine : Machine} {instruction : Instruction}
    (other : instruction ≠ .print) : machine.printed? instruction = none := by
  cases instruction with
  | print => exact absurd rfl other
  | _ => rfl

theorem shows_step (options : Options) (instruction : Instruction) (machine : Machine) :
    Shows options (machine.printed? instruction).toList machine
      (finalMachine ((step options instruction).run machine)) := by
  by_cases prints : instruction = .print
  · subst prints
    exact shows_print options machine
  · rw [printed?_of_other prints]
    apply (shows_calm options).step
    · exact fun same => absurd same prints
    · intro opens caller
      cases instruction with
      | call target =>
        rw [run_call]
        exact shows_nil (traced_output _ caller) (traced_console _ caller)
      | _ => cases opens
    · intro closes callee
      cases instruction with
      | ret =>
        rw [run_ret]
        cases callee.frames <;> exact shows_nil rfl rfl
      | _ => cases closes

theorem shows_perform (options : Options) (instruction : Instruction) (machine : Machine) :
    Shows options (machine.printed? instruction).toList machine
      (finalMachine ((perform options instruction).run machine)) := by
  have moved : Shows options [] machine (fetched options instruction machine) := by
    unfold fetched
    split <;> exact shows_nil rfl rfl
  have same : (fetched options instruction machine).printed? instruction =
      machine.printed? instruction := by
    cases instruction with
    | print => exact congrArg Array.back? (fetched_stack options .print machine)
    | _ => rfl
  rw [run_perform, ← same]
  exact moved.trans (shows_step options instruction _)

/-! ## What a run prints -/

/-- The value that a run prints with the instruction after the first `done`. -/
def printedAt (options : Options) (program : Program) (machine : Machine) (done : Nat) :
    Option Value :=
  (next? options program (run options program done machine)).bind
    (run options program done machine).2.printed?

def printedBy (options : Options) (program : Program) (machine : Machine) (count : Nat) :
    List Value :=
  (List.range count).filterMap (printedAt options program machine)

theorem shows_run (options : Options) (program : Program) (machine : Machine) (count : Nat) :
    Shows options (printedBy options program machine count) machine
      (run options program count machine).2 := by
  induction count with
  | zero => exact shows_nil rfl rfl
  | succ count ih =>
    have grown : printedBy options program machine (count + 1) =
        printedBy options program machine count ++
          (printedAt options program machine count).toList := by
      rw [printedBy, List.range_succ, List.filterMap_append]
      cases printed : printedAt options program machine count <;>
        simp [printedBy, printed]
    rw [grown, run_succ_next]
    refine ih.trans ?_
    unfold printedAt
    cases next? options program (run options program count machine) with
    | none => exact shows_nil rfl rfl
    | some instruction => exact shows_perform options instruction _

end Machine

/-! ## Sessions -/

namespace Session

open Machine

def resultOf : Status × Machine → Except Failure Execution
  | (.halted, machine) => .ok machine.execution
  | (.faulted fault, _) => .error (.fault fault)
  | (.running, _) => .error .interrupted

section Execute

variable (config : Config) (fuel : Nat) (program : Program)

def programRun : Status × Machine :=
  run config.options program fuel (initial config.options program)

theorem result_execute :
    (execute config fuel program).result = resultOf (programRun config fuel program) := by
  rw [execute, runProgram]
  change _ = resultOf (run config.options program fuel (initial config.options program))
  rcases run config.options program fuel (initial config.options program) with ⟨status, machine⟩
  cases status <;> rfl

theorem console_execute :
    (execute config fuel program).console = (programRun config fuel program).2.consoleText := by
  rw [execute, runProgram, programRun]
  rcases run config.options program fuel (initial config.options program) with ⟨status, machine⟩
  cases status <;> rfl

def printedValues : List Value :=
  printedBy config.options program (initial config.options program) fuel

theorem shows_programRun :
    Shows config.options (printedValues config fuel program)
      (initial config.options program) (programRun config fuel program).2 :=
  shows_run config.options program (initial config.options program) fuel

theorem console_eq_echoed :
    (execute config fuel program).console =
      String.join (echoed config.options (printedValues config fuel program)) := by
  rw [console_execute, consoleText, (shows_programRun config fuel program).console]
  rfl

/-- Executing a program under a configuration shows what the program prints, and
showing it leaves the result alone. -/
structure Transparent : Prop where
  result : ∀ other : Config, other.limit = config.limit →
    (execute other fuel program).result = (execute config fuel program).result
  echoes : config.echo = true →
    (execute config fuel program).console =
      String.join ((printedValues config fuel program).map fun value => value.render ++ "\n")
  silent : config.echo = false → (execute config fuel program).console = ""
  output : ∀ execution, (execute config fuel program).result = .ok execution →
    execution.output.toList = printedValues config fuel program

end Execute

theorem resultOf_eq_ok_iff {ended : Status × Machine} {execution : Execution} :
    resultOf ended = .ok execution ↔ ended.1 = .halted ∧ ended.2.execution = execution := by
  rcases ended with ⟨status, machine⟩
  cases status <;> simp [resultOf]

theorem resultOf_of_unobserved {first second : Status × Machine} (status : first.1 = second.1)
    (machine : first.2.unobserved = second.2.unobserved) : resultOf first = resultOf second := by
  rcases first with ⟨stands, left⟩
  rcases second with ⟨other, right⟩
  obtain rfl : stands = other := status
  have same : left.execution = right.execution := by
    change left.unobserved.execution = right.unobserved.execution
    rw [show left.unobserved = right.unobserved from machine]
  cases stands with
  | halted => rw [resultOf, resultOf, same]
  | faulted fault => rfl
  | running => rfl

/-- However a program is observed, its result is the same, and the console shows
what it printed. -/
theorem execute_transparent (config : Config) (fuel : Nat) (program : Program) :
    Transparent config fuel program where
  result other limits := by
    rw [result_execute, result_execute]
    have same : (initial other.options program).unobserved =
        (initial config.options program).unobserved := rfl
    obtain ⟨status, machine⟩ :=
      run_observed (show other.options.limit = config.options.limit from limits) program fuel same
    exact resultOf_of_unobserved status machine
  echoes echo := by
    have shown : config.options.echo = true := echo
    rw [console_eq_echoed, echoed, if_pos shown]
  silent quiet := by
    have hidden : ¬ config.options.echo = true := by simp [Config.options, quiet]
    rw [console_eq_echoed, echoed, if_neg hidden]
    rfl
  output execution halted := by
    rw [result_execute] at halted
    obtain ⟨_, rfl⟩ := resultOf_eq_ok_iff.mp halted
    exact (shows_programRun config fuel program).output

example : (execute { echo := true } 4 #[.push 5, .print, .div]).result =
      .error (.fault ⟨.stackUnderflow, 2⟩) ∧
    (execute { echo := true } 4 #[.push 5, .print, .div]).console = "5\n" :=
  ⟨rfl, by cbv⟩

end Session

end StackAsm
