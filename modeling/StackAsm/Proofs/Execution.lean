import StackAsm.Proofs.Observation

/-!
# Runs instruction by instruction

A run that is not yet over has performed a list of instructions, each at some
index and with some stack depth.  Runs can be cut at any point and continued
from there.  Of all instructions only calls and returns touch the frames of the
pending calls, and each instruction adds one to the step count, whether it
succeeds or fails.
-/

set_option autoImplicit false

namespace StackAsm

def Instruction.isCall : Instruction → Bool
  | .call _ => true
  | _ => false

def Instruction.isReturn : Instruction → Bool
  | .ret => true
  | _ => false

namespace Machine

/-! ## What an action leaves -/

def finalMachine {α : Type} : EStateM.Result Error Machine α → Machine
  | .ok _ machine => machine
  | .error _ machine => machine

/-- The machine an action leaves, failing or not, stands in a relation to the
one it met. -/
def Keeps (relation : Machine → Machine → Prop) {α : Type} (action : Action α) : Prop :=
  ∀ machine, relation machine (finalMachine (action.run machine))

structure Calm (relation : Machine → Machine → Prop) : Prop where
  refl : ∀ machine, relation machine machine
  trans : ∀ first second third, relation first second → relation second third →
    relation first third
  push : ∀ value, Keeps relation (push value)
  pop : Keeps relation pop
  store : ∀ index value, Keeps relation (store index value)
  setPc : ∀ pc, Keeps relation (setPc pc)

structure Steady (relation : Machine → Machine → Prop) : Prop extends Calm relation where
  emit : ∀ value, Keeps relation (emit value)
  echo : ∀ value, Keeps relation (echo value)

namespace Calm

variable {relation : Machine → Machine → Prop} (calm : Calm relation) {α β : Type}

include calm

theorem pure (value : α) : Keeps relation (Pure.pure value : Action α) :=
  calm.refl

theorem throw (error : Error) : Keeps relation (MonadExcept.throw error : Action α) :=
  calm.refl

theorem bind {action : Action α} {next : α → Action β} (first : Keeps relation action)
    (later : ∀ value, Keeps relation (next value)) : Keeps relation (action >>= next) := by
  intro machine
  have kept := first machine
  rw [EStateM.run_bind]
  cases ran : action.run machine with
  | error error reached => simpa [ran, finalMachine] using kept
  | ok value reached =>
    have reaches : relation machine reached := by simpa [ran, finalMachine] using kept
    exact calm.trans machine reached _ reaches (later value reached)

theorem peek : Keeps relation peek := by
  intro machine
  rw [run_peek]
  cases machine.stack.back? <;> exact calm.refl machine

theorem load (index : Nat) : Keeps relation (load index) := by
  intro machine
  rw [run_load]
  cases machine.stack[index]? <;> exact calm.refl machine

theorem checkIndex (index : Nat) : Keeps relation (checkIndex index) := by
  intro machine
  rw [run_checkIndex]
  split <;> exact calm.refl machine

theorem localIndex (index : Nat) : Keeps relation (localIndex index) := by
  intro machine
  rw [run_localIndex]
  split
  · exact calm.checkIndex _ machine
  · exact calm.refl machine

theorem argumentIndex (index : Nat) : Keeps relation (argumentIndex index) := by
  intro machine
  rw [run_argumentIndex]
  cases machine.frames with
  | nil => exact calm.refl machine
  | cons frame rest =>
    dsimp only
    split
    · exact calm.checkIndex _ machine
    · exact calm.refl machine

theorem pushExact (result : Int) : Keeps relation (pushExact result) := by
  unfold Machine.pushExact
  split
  · exact calm.throw _
  · exact calm.push _

theorem arithmetic (operation : Int → Int → Int) : Keeps relation (arithmetic operation) := by
  apply calm.bind calm.pop
  intro right
  apply calm.bind calm.pop
  intro left
  exact calm.pushExact _

theorem divide : Keeps relation divide := by
  apply calm.bind calm.pop
  intro right
  apply calm.bind calm.pop
  intro left
  split
  · exact calm.throw _
  · exact calm.pushExact _

theorem branch (test : Value → Bool) (target : Nat) : Keeps relation (branch test target) := by
  apply calm.bind calm.peek
  intro value
  split
  · exact calm.bind calm.pop fun _ => calm.setPc target
  · exact calm.pure _

theorem loadFrom {slot : Action Nat} (addressed : Keeps relation slot) :
    Keeps relation (loadFrom slot) := by
  apply calm.bind addressed
  intro index
  exact calm.bind (calm.load index) fun value => calm.push value

theorem storeTo {slot : Action Nat} (addressed : Keeps relation slot) :
    Keeps relation (storeTo slot) := by
  apply calm.bind addressed
  intro index
  exact calm.bind calm.peek fun value => calm.store index value

/-- Only printing, calling and returning do more than a calm relation covers. -/
theorem step (options : Options) (instruction : Instruction)
    (prints : instruction = .print → Keeps relation (step options instruction))
    (calls : instruction.isCall = true → Keeps relation (step options instruction))
    (returns : instruction.isReturn = true → Keeps relation (step options instruction)) :
    Keeps relation (step options instruction) := by
  cases instruction with
  | noop => exact calm.pure ()
  | push value => exact calm.push value
  | pop => exact calm.bind calm.pop fun _ => calm.pure ()
  | add => exact calm.arithmetic _
  | sub => exact calm.arithmetic _
  | mul => exact calm.arithmetic _
  | div => exact calm.divide
  | print => exact prints rfl
  | jump target => exact calm.setPc target
  | jumpIfZero target => exact calm.branch _ target
  | jumpIfNonZero target => exact calm.branch _ target
  | get index => exact calm.loadFrom (calm.localIndex index)
  | set index => exact calm.storeTo (calm.localIndex index)
  | getArg index => exact calm.loadFrom (calm.argumentIndex index)
  | setArg index => exact calm.storeTo (calm.argumentIndex index)
  | call target => exact calls rfl
  | ret => exact returns rfl

end Calm

namespace Steady

variable {relation : Machine → Machine → Prop} (steady : Steady relation)

include steady

theorem print (options : Options) : Keeps relation (Machine.step options .print) := by
  apply steady.bind steady.peek
  intro value
  apply steady.bind (steady.emit value)
  intro _
  cases options.echo with
  | false => exact steady.pure ()
  | true => exact steady.echo value

theorem step (options : Options) (instruction : Instruction)
    (noCall : instruction.isCall = false) (noReturn : instruction.isReturn = false) :
    Keeps relation (step options instruction) := by
  apply steady.toCalm.step
  · intro prints
    rw [prints]
    exact steady.print options
  · simp [noCall]
  · simp [noReturn]

end Steady

/-! ## Frames and steps -/

def SameBooks (before after : Machine) : Prop :=
  after.frames = before.frames ∧ after.steps = before.steps

theorem sameBooks_steady : Steady SameBooks where
  refl _ := ⟨rfl, rfl⟩
  trans _ _ _ first second := ⟨second.1.trans first.1, second.2.trans first.2⟩
  push value machine := by
    rw [run_push]
    exact ⟨traced_frames _ machine, traced_steps _ machine⟩
  pop machine := by
    rw [run_pop]
    cases machine.stack.back? with
    | none => exact ⟨rfl, rfl⟩
    | some value => exact ⟨traced_frames _ machine, traced_steps _ machine⟩
  store index value machine := by
    rw [run_store]
    cases machine.stack[index]? with
    | none => exact ⟨rfl, rfl⟩
    | some old => exact ⟨traced_frames _ machine, traced_steps _ machine⟩
  setPc _ _ := ⟨rfl, rfl⟩
  emit _ _ := ⟨rfl, rfl⟩
  echo _ _ := ⟨rfl, rfl⟩

theorem run_ret (options : Options) (machine : Machine) :
    (step options .ret).run machine =
      match machine.frames with
      | [] => .error .callStackUnderflow machine
      | frame :: rest => .ok () { machine with frames := rest, pc := frame.returnPointer } := by
  simp only [step, EStateM.run_bind, run_popFrame]
  cases machine.frames <;> rfl

section Fetched

variable (options : Options) (instruction : Instruction) (machine : Machine)

@[simp]
theorem fetched_pc : (fetched options instruction machine).pc = machine.pc + 1 := by
  unfold fetched; split <;> rfl

@[simp]
theorem fetched_steps : (fetched options instruction machine).steps = machine.steps + 1 := by
  unfold fetched; split <;> rfl

@[simp]
theorem fetched_frames : (fetched options instruction machine).frames = machine.frames := by
  unfold fetched; split <;> rfl

@[simp]
theorem fetched_stack : (fetched options instruction machine).stack = machine.stack := by
  unfold fetched; split <;> rfl

@[simp]
theorem fetched_depth : (fetched options instruction machine).depth = machine.depth := by
  unfold fetched; split <;> rfl

end Fetched

/-- Every instruction is counted once, also one that fails. -/
theorem steps_perform (options : Options) (instruction : Instruction) (machine : Machine) :
    (finalMachine ((perform options instruction).run machine)).steps = machine.steps + 1 := by
  rw [run_perform, ← fetched_steps options instruction machine]
  cases calls : instruction.isCall with
  | true =>
    cases instruction with
    | call target =>
      rw [run_call]
      exact traced_steps _ _
    | _ => cases calls
  | false =>
    cases returns : instruction.isReturn with
    | true =>
      cases instruction with
      | ret =>
        rw [run_ret]
        cases (fetched options .ret machine).frames <;> rfl
      | _ => cases returns
    | false => exact (sameBooks_steady.step options instruction calls returns _).2

section Performed

variable {options : Options} {instruction : Instruction} {machine next : Machine}

theorem frames_of_call (opens : instruction.isCall = true)
    (performed : (perform options instruction).run machine = .ok () next) :
    next.frames = ⟨machine.pc + 1, machine.depth⟩ :: machine.frames := by
  cases instruction with
  | call target =>
    rw [run_perform, run_call] at performed
    cases performed
    simp
  | _ => cases opens

theorem frames_of_return (returns : instruction.isReturn = true)
    (performed : (perform options instruction).run machine = .ok () next) :
    ∃ frame, machine.frames = frame :: next.frames ∧ next.pc = frame.returnPointer := by
  cases instruction with
  | ret =>
    rw [run_perform, run_ret, fetched_frames] at performed
    cases pending : machine.frames with
    | nil => simp [pending] at performed
    | cons frame rest =>
      simp only [pending, EStateM.Result.ok.injEq, true_and] at performed
      subst performed
      exact ⟨frame, rfl, rfl⟩
  | _ => cases returns

theorem frames_of_other (noCall : instruction.isCall = false)
    (noReturn : instruction.isReturn = false)
    (performed : (perform options instruction).run machine = .ok () next) :
    next.frames = machine.frames := by
  have kept := (sameBooks_steady.step options instruction noCall noReturn
    (fetched options instruction machine)).1
  rw [← run_perform, performed, fetched_frames] at kept
  exact kept

end Performed

/-! ## One iteration of a run -/

section Iteration

variable {options : Options} {program : Program} {machine : Machine} {instruction : Instruction}

theorem run_succ_of_outside (outside : program[machine.pc]? = none) (fuel : Nat) :
    run options program (fuel + 1) machine = (.halted, machine) := by
  simp only [run, outside]

theorem run_succ_of_limited {limit : Nat} (stands : program[machine.pc]? = some instruction)
    (used : limitReached? options machine = some limit) (fuel : Nat) :
    run options program (fuel + 1) machine =
      (.faulted ⟨.instructionLimitExceeded limit, machine.pc⟩, machine) := by
  simp only [run, stands, used]

theorem run_succ_of_allowed (stands : program[machine.pc]? = some instruction)
    (allowed : limitReached? options machine = none) (fuel : Nat) :
    run options program (fuel + 1) machine =
      match (perform options instruction).run machine with
      | .error error reached => (.faulted ⟨error, machine.pc⟩, reached)
      | .ok _ next => run options program fuel next := by
  cases performed : (perform options instruction).run machine with
  | error error reached => simp only [run, stands, allowed, performed]
  | ok value next => simp only [run, stands, allowed, performed]

end Iteration

theorem run_add (options : Options) (program : Program) (first second : Nat) (machine : Machine) :
    run options program (first + second) machine =
      match run options program first machine with
      | (.running, reached) => run options program second reached
      | stopped => stopped := by
  induction first generalizing machine with
  | zero => simp [run]
  | succ first ih =>
    rw [show first + 1 + second = first + second + 1 by omega]
    cases stands : program[machine.pc]? with
    | none => simp only [run_succ_of_outside stands]
    | some instruction =>
      cases allowed : limitReached? options machine with
      | some limit => simp only [run_succ_of_limited stands allowed]
      | none =>
        rw [run_succ_of_allowed stands allowed, run_succ_of_allowed stands allowed]
        cases (perform options instruction).run machine with
        | error error reached => rfl
        | ok value next => exact ih next

theorem run_of_stopped {options : Options} {program : Program} {machine : Machine}
    {count more : Nat} (stopped : (run options program count machine).1 ≠ .running)
    (longer : count ≤ more) :
    run options program more machine = run options program count machine := by
  obtain ⟨extra, rfl⟩ := Nat.exists_eq_add_of_le longer
  rw [run_add]
  rcases ran : run options program count machine with ⟨status, reached⟩
  cases status with
  | running => exact absurd (congrArg Prod.fst ran) stopped
  | halted => rfl
  | faulted fault => rfl

/-! ## Traces -/

/-- An instruction that was performed: its index, and the depth of the stack it
met. -/
structure Executed where
  index : Nat
  instruction : Instruction
  depth : Nat
deriving DecidableEq, Repr

/-- The machine performs the instructions of a trace one after the other and
ends up as another. -/
inductive Executes (options : Options) (program : Program) :
    Machine → List Executed → Machine → Prop where
  | nil (machine : Machine) : Executes options program machine [] machine
  | cons {machine next reached : Machine} {instruction : Instruction} {trace : List Executed}
      (stands : program[machine.pc]? = some instruction)
      (allowed : limitReached? options machine = none)
      (performed : (perform options instruction).run machine = .ok () next)
      (later : Executes options program next trace reached) :
      Executes options program machine
        (⟨machine.pc, instruction, machine.depth⟩ :: trace) reached

section Traces

variable {options : Options} {program : Program} {machine middle reached : Machine}
  {trace first second : List Executed}

theorem Executes.split (executed : Executes options program machine (first ++ second) reached) :
    ∃ middle, Executes options program machine first middle ∧
      Executes options program middle second reached := by
  induction first generalizing machine with
  | nil => exact ⟨machine, .nil machine, executed⟩
  | cons entry rest ih =>
    cases executed with
    | cons stands allowed performed later =>
      obtain ⟨middle, before, after⟩ := ih later
      exact ⟨middle, .cons stands allowed performed before, after⟩

theorem Executes.run (executed : Executes options program machine trace reached) :
    Machine.run options program trace.length machine = (.running, reached) := by
  induction executed with
  | nil => rfl
  | cons stands allowed performed _ ih =>
    rw [List.length_cons, run_succ_of_allowed stands allowed, performed]
    exact ih

theorem Executes.steps (executed : Executes options program machine trace reached) :
    reached.steps = machine.steps + trace.length := by
  induction executed with
  | nil => rfl
  | @cons machine next reached instruction trace stands allowed performed later ih =>
    have counted := steps_perform options instruction machine
    rw [performed] at counted
    have next_steps : next.steps = machine.steps + 1 := counted
    rw [List.length_cons]
    omega

/-- A run that did not end in a fault has performed some trace. -/
theorem executes_of_run {count : Nat} {status : Status}
    (ran : Machine.run options program count machine = (status, reached))
    (sound : ∀ fault, status ≠ .faulted fault) :
    ∃ trace, Executes options program machine trace reached ∧
      (status = .running → trace.length = count) := by
  induction count generalizing machine with
  | zero =>
    cases ran
    exact ⟨[], .nil _, fun _ => rfl⟩
  | succ count ih =>
    cases stands : program[machine.pc]? with
    | none =>
      rw [run_succ_of_outside stands] at ran
      cases ran
      exact ⟨[], .nil _, fun stopped => by cases stopped⟩
    | some instruction =>
      cases allowed : limitReached? options machine with
      | some limit =>
        rw [run_succ_of_limited stands allowed] at ran
        cases ran
        exact absurd rfl (sound _)
      | none =>
        rw [run_succ_of_allowed stands allowed] at ran
        cases performed : (perform options instruction).run machine with
        | error error failed =>
          rw [performed] at ran
          cases ran
          exact absurd rfl (sound _)
        | ok value next =>
          rw [performed] at ran
          obtain ⟨trace, executed, counted⟩ := ih ran
          refine ⟨_, .cons stands allowed performed executed, ?_⟩
          intro running
          rw [List.length_cons, counted running]

theorem steps_of_running {count : Nat}
    (ran : Machine.run options program count machine = (.running, reached)) :
    reached.steps = machine.steps + count := by
  obtain ⟨performed, executed, counted⟩ := executes_of_run ran (by simp)
  rw [executed.steps, counted rfl]

end Traces

end Machine

end StackAsm
