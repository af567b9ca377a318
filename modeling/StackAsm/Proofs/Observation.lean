import StackAsm.Machine.Lemmas
import StackAsm.Machine.Run

/-!
# Observing a run does not disturb it

The journal, the console and the switch for journalling are what an observer
sees of a machine.  An action that ignores them takes two machines with the
same computing part to results with the same computing part, and the effect of
every instruction is such an action, whatever the options of the run.
-/

set_option autoImplicit false

namespace StackAsm.Machine

/-- The machine without what an observer sees of it. -/
def unobserved (machine : Machine) : Machine :=
  { pc := machine.pc
    steps := machine.steps
    stack := machine.stack
    frames := machine.frames
    output := machine.output }

theorem traced_unobserved (event : Event) (machine : Machine) :
    machine.unobserved.traced event = machine.unobserved :=
  rfl

@[simp]
theorem unobserved_stack (machine : Machine) : machine.unobserved.stack = machine.stack :=
  rfl

@[simp]
theorem unobserved_frames (machine : Machine) : machine.unobserved.frames = machine.frames :=
  rfl

@[simp]
theorem unobserved_depth (machine : Machine) : machine.unobserved.depth = machine.depth :=
  rfl

@[simp]
theorem unobserved_currentOffset (machine : Machine) :
    machine.unobserved.currentOffset = machine.currentOffset :=
  rfl

theorem unobserved_recordEnd (status : Status) (machine : Machine) :
    (recordEnd status machine).unobserved = machine.unobserved := by
  cases status <;> rfl

def eraseResult {α : Type} : EStateM.Result Error Machine α → EStateM.Result Error Machine α
  | .ok value machine => .ok value machine.unobserved
  | .error error machine => .error error machine.unobserved

def Erases {α : Type} (action quiet : Action α) : Prop :=
  ∀ machine : Machine, quiet.run machine.unobserved = eraseResult (action.run machine)

section

variable {α β : Type}

theorem erases_pure (value : α) : Erases (pure value : Action α) (pure value) :=
  fun _ => rfl

theorem Erases.bind {action quiet : Action α} {next quietNext : α → Action β}
    (first : Erases action quiet) (later : ∀ value, Erases (next value) (quietNext value)) :
    Erases (action >>= next) (quiet >>= quietNext) := by
  intro machine
  rw [EStateM.run_bind, EStateM.run_bind, first machine]
  cases action.run machine with
  | ok value reached => exact later value reached
  | error error reached => rfl

theorem erases_throw (error : Error) : Erases (throw error : Action α) (throw error) :=
  fun _ => rfl

end

/-! ## The elementary operations -/

theorem erases_setPc (pc : Nat) : Erases (setPc pc) (setPc pc) :=
  fun _ => rfl

theorem erases_emit (value : Value) : Erases (emit value) (emit value) :=
  fun _ => rfl

theorem erases_echo (value : Value) : Erases (echo value) (pure ()) :=
  fun _ => rfl

theorem erases_push (value : Value) : Erases (push value) (push value) := by
  intro machine
  rw [run_push, run_push, traced_unobserved]
  simp [eraseResult, unobserved]

theorem erases_peek : Erases peek peek := by
  intro machine
  rw [run_peek, run_peek, unobserved_stack]
  cases machine.stack.back? <;> rfl

theorem erases_pop : Erases pop pop := by
  intro machine
  rw [run_pop, run_pop, unobserved_stack]
  cases machine.stack.back? with
  | none => rfl
  | some value =>
    simp only [traced_unobserved]
    simp [eraseResult, unobserved]

theorem erases_load (index : Nat) : Erases (load index) (load index) := by
  intro machine
  rw [run_load, run_load, unobserved_stack]
  cases machine.stack[index]? <;> rfl

theorem erases_store (index : Nat) (value : Value) :
    Erases (store index value) (store index value) := by
  intro machine
  rw [run_store, run_store, unobserved_stack]
  cases machine.stack[index]? with
  | none => rfl
  | some old =>
    simp only [traced_unobserved]
    simp [eraseResult, unobserved]

theorem erases_checkIndex (index : Nat) : Erases (checkIndex index) (checkIndex index) := by
  intro machine
  rw [run_checkIndex, run_checkIndex, unobserved_depth]
  split <;> rfl

theorem erases_localIndex (index : Nat) : Erases (localIndex index) (localIndex index) := by
  intro machine
  rw [run_localIndex, run_localIndex, unobserved_currentOffset]
  split
  · exact erases_checkIndex _ machine
  · rfl

theorem erases_argumentIndex (index : Nat) :
    Erases (argumentIndex index) (argumentIndex index) := by
  intro machine
  rw [run_argumentIndex, run_argumentIndex, unobserved_frames]
  cases machine.frames with
  | nil => rfl
  | cons frame rest =>
    dsimp only
    split
    · exact erases_checkIndex _ machine
    · rfl

theorem erases_pushFrame (returnPointer : Nat) :
    Erases (pushFrame returnPointer) (pushFrame returnPointer) := by
  intro machine
  rw [run_pushFrame, run_pushFrame, traced_unobserved, unobserved_depth]
  simp [eraseResult, unobserved]

theorem erases_popFrame : Erases popFrame popFrame := by
  intro machine
  rw [run_popFrame, run_popFrame, unobserved_frames]
  cases machine.frames <;> rfl

/-! ## The effect of an instruction -/

theorem erases_pushExact (result : Int) : Erases (pushExact result) (pushExact result) := by
  unfold pushExact
  split
  · exact erases_throw _
  · exact erases_push _

theorem erases_arithmetic (operation : Int → Int → Int) :
    Erases (arithmetic operation) (arithmetic operation) :=
  erases_pop.bind fun _ => erases_pop.bind fun _ => erases_pushExact _

theorem erases_divide : Erases divide divide := by
  refine erases_pop.bind fun right => erases_pop.bind fun left => ?_
  split
  · exact erases_throw _
  · exact erases_pushExact _

theorem erases_branch (test : Value → Bool) (target : Nat) :
    Erases (branch test target) (branch test target) := by
  refine erases_peek.bind fun value => ?_
  split
  · exact erases_pop.bind fun _ => erases_setPc target
  · exact erases_pure _

theorem erases_loadFrom {slot : Action Nat} (same : Erases slot slot) :
    Erases (loadFrom slot) (loadFrom slot) :=
  same.bind fun index => (erases_load index).bind fun value => erases_push value

theorem erases_storeTo {slot : Action Nat} (same : Erases slot slot) :
    Erases (storeTo slot) (storeTo slot) :=
  same.bind fun index => erases_peek.bind fun value => erases_store index value

theorem erases_call (target : Nat) :
    Erases (do pushFrame (← get).pc; setPc target) (do pushFrame (← get).pc; setPc target) := by
  intro machine
  exact ((erases_pushFrame machine.pc).bind fun _ => erases_setPc target) machine

/-- The effect of an instruction on the computing part of a machine is the same
under all options. -/
theorem erases_step (options : Options) (instruction : Instruction) :
    Erases (step options instruction) (step {} instruction) := by
  cases instruction with
  | noop => exact erases_pure ()
  | push value => exact erases_push value
  | pop => exact erases_pop.bind fun _ => erases_pure ()
  | add => exact erases_arithmetic _
  | sub => exact erases_arithmetic _
  | mul => exact erases_arithmetic _
  | div => exact erases_divide
  | print =>
    refine erases_peek.bind fun value => (erases_emit value).bind fun _ => ?_
    cases options.echo with
    | false => exact erases_pure ()
    | true => exact erases_echo value
  | jump target => exact erases_setPc target
  | jumpIfZero target => exact erases_branch _ target
  | jumpIfNonZero target => exact erases_branch _ target
  | get index => exact erases_loadFrom (erases_localIndex index)
  | set index => exact erases_storeTo (erases_localIndex index)
  | getArg index => exact erases_loadFrom (erases_argumentIndex index)
  | setArg index => exact erases_storeTo (erases_argumentIndex index)
  | call target => exact erases_call target
  | ret => exact erases_popFrame.bind fun frame => erases_setPc frame.returnPointer

/-! ## Moving past an instruction -/

/-- The machine that has moved past the instruction at its program counter and
has journalled it if every instruction is. -/
def fetched (options : Options) (instruction : Instruction) (machine : Machine) : Machine :=
  let moved := { machine with pc := machine.pc + 1, steps := machine.steps + 1 }
  if options.trace then
    { moved with
      journal := moved.journal ++ [Event.executing machine.pc instruction] ++ moved.stackEvents }
  else moved

/-- An instruction takes effect on the machine that has moved past it. -/
theorem run_perform (options : Options) (instruction : Instruction) (machine : Machine) :
    (perform options instruction).run machine =
      (step options instruction).run (fetched options instruction machine) := by
  simp only [perform, EStateM.run_bind, EStateM.run_get, run_advance, recordExecuting, fetched]
  cases options.trace <;> rfl

theorem unobserved_fetched (options : Options) (instruction : Instruction) (machine : Machine) :
    (fetched options instruction machine).unobserved =
      { machine.unobserved with pc := machine.pc + 1, steps := machine.steps + 1 } := by
  simp only [fetched]
  split <;> rfl

end StackAsm.Machine
