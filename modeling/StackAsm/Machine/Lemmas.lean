import StackAsm.Machine.Step

/-!
# Equations of the elementary operations

Each operation's result on a machine, in closed form.  Journalling an event of
a traced machine touches the journal alone.
-/

set_option autoImplicit false

namespace StackAsm.Machine

/-! ## Journalling -/

@[simp]
theorem traced_pc (event : Event) (machine : Machine) :
    (machine.traced event).pc = machine.pc := by
  unfold traced; split <;> rfl

@[simp]
theorem traced_steps (event : Event) (machine : Machine) :
    (machine.traced event).steps = machine.steps := by
  unfold traced; split <;> rfl

@[simp]
theorem traced_stack (event : Event) (machine : Machine) :
    (machine.traced event).stack = machine.stack := by
  unfold traced; split <;> rfl

@[simp]
theorem traced_frames (event : Event) (machine : Machine) :
    (machine.traced event).frames = machine.frames := by
  unfold traced; split <;> rfl

@[simp]
theorem traced_output (event : Event) (machine : Machine) :
    (machine.traced event).output = machine.output := by
  unfold traced; split <;> rfl

@[simp]
theorem traced_tracing (event : Event) (machine : Machine) :
    (machine.traced event).tracing = machine.tracing := by
  unfold traced; split <;> rfl

@[simp]
theorem traced_console (event : Event) (machine : Machine) :
    (machine.traced event).console = machine.console := by
  unfold traced; split <;> rfl

theorem run_recordTraced (event : Event) (machine : Machine) :
    (recordTraced event).run machine = .ok () (machine.traced event) :=
  rfl

/-! ## Control -/

theorem run_setPc (pc : Nat) (machine : Machine) :
    (setPc pc).run machine = .ok () { machine with pc := pc } :=
  rfl

theorem run_advance (machine : Machine) :
    advance.run machine =
      .ok () { machine with pc := machine.pc + 1, steps := machine.steps + 1 } :=
  rfl

theorem run_fetch (program : Program) (machine : Machine) :
    (fetch program).run machine =
      match program[machine.pc]? with
      | none => .ok none machine
      | some instruction =>
        .ok (some instruction)
          { machine with pc := machine.pc + 1, steps := machine.steps + 1 } := by
  simp only [fetch, EStateM.run_bind, EStateM.run_get]
  cases program[machine.pc]? <;> rfl

theorem run_pushFrame (returnPointer : Nat) (machine : Machine) :
    (pushFrame returnPointer).run machine =
      .ok () { machine.traced (.called ⟨returnPointer, machine.depth⟩) with
        frames := ⟨returnPointer, machine.depth⟩ :: machine.frames } := by
  simp only [pushFrame, EStateM.run_bind, EStateM.run_get, run_recordTraced, EStateM.run_modify,
    traced_frames]

theorem run_popFrame (machine : Machine) :
    popFrame.run machine =
      match machine.frames with
      | [] => .error .callStackUnderflow machine
      | frame :: rest => .ok frame { machine with frames := rest } := by
  simp only [popFrame, EStateM.run_bind, EStateM.run_get]
  cases machine.frames <;> rfl

/-! ## Values -/

theorem run_push (value : Value) (machine : Machine) :
    (push value).run machine =
      .ok () { machine.traced (.pushed value) with stack := machine.stack.push value } := by
  simp only [push, EStateM.run_bind, run_recordTraced, EStateM.run_modify, traced_stack]

theorem run_peek (machine : Machine) :
    peek.run machine =
      match machine.stack.back? with
      | none => .error .stackUnderflow machine
      | some value => .ok value machine := by
  simp only [peek, EStateM.run_bind, EStateM.run_get]
  cases machine.stack.back? <;> rfl

theorem run_pop (machine : Machine) :
    pop.run machine =
      match machine.stack.back? with
      | none => .error .stackUnderflow machine
      | some value =>
        .ok value { machine.traced (.popped value) with stack := machine.stack.pop } := by
  simp only [pop, EStateM.run_bind, EStateM.run_get]
  cases machine.stack.back? with
  | none => rfl
  | some value =>
    simp only [EStateM.run_bind, run_recordTraced, EStateM.run_modify, EStateM.run_pure,
      traced_stack]

theorem run_load (index : Nat) (machine : Machine) :
    (load index).run machine =
      match machine.stack[index]? with
      | none => .error (.indexOutOfBounds index machine.depth) machine
      | some value => .ok value machine := by
  simp only [load, EStateM.run_bind, EStateM.run_get]
  cases machine.stack[index]? <;> rfl

theorem run_store (index : Nat) (value : Value) (machine : Machine) :
    (store index value).run machine =
      match machine.stack[index]? with
      | none => .error (.indexOutOfBounds index machine.depth) machine
      | some old =>
        .ok () { machine.traced (.stored index old value) with
          stack := machine.stack.setIfInBounds index value } := by
  simp only [store, EStateM.run_bind, EStateM.run_get]
  cases machine.stack[index]? with
  | none => rfl
  | some old =>
    simp only [EStateM.run_bind, run_recordTraced, EStateM.run_modify, traced_stack]

theorem run_emit (value : Value) (machine : Machine) :
    (emit value).run machine = .ok () { machine with output := machine.output.push value } :=
  rfl

theorem run_echo (value : Value) (machine : Machine) :
    (echo value).run machine =
      .ok () { machine with console := machine.console.push (value.render ++ "\n") } :=
  rfl

/-! ## Addresses -/

theorem run_checkIndex (index : Nat) (machine : Machine) :
    (checkIndex index).run machine =
      if index < machine.depth then .ok index machine
      else .error (.indexOutOfBounds index machine.depth) machine := by
  simp only [checkIndex, EStateM.run_bind, EStateM.run_get]
  split <;> rfl

theorem run_localIndex (index : Nat) (machine : Machine) :
    (localIndex index).run machine =
      if index + machine.currentOffset < pointerLimit then
        (checkIndex (index + machine.currentOffset)).run machine
      else .error (.indexOutOfBounds index machine.depth) machine := by
  simp only [localIndex, EStateM.run_bind, EStateM.run_get]
  split <;> rfl

theorem run_argumentIndex (index : Nat) (machine : Machine) :
    (argumentIndex index).run machine =
      match machine.frames with
      | [] => .error .noActiveFrame machine
      | frame :: _ =>
        if index < frame.stackOffset then
          (checkIndex (frame.stackOffset - 1 - index)).run machine
        else .error (.argumentOutOfBounds index frame.stackOffset) machine := by
  simp only [argumentIndex, EStateM.run_bind, EStateM.run_get]
  cases machine.frames with
  | nil => rfl
  | cons frame rest =>
    dsimp only
    split <;> rfl

/-! ## Exact results -/

theorem run_pushExact (result : Int) (machine : Machine) :
    (pushExact result).run machine =
      match Value.ofInt? result with
      | none => .error .arithmeticOverflow machine
      | some value => (push value).run machine := by
  unfold pushExact
  cases Value.ofInt? result <;> rfl

/-! ## Control with values -/

theorem run_branch (test : Value → Bool) (target : Nat) (machine : Machine) :
    (branch test target).run machine =
      match machine.stack.back? with
      | none => .error .stackUnderflow machine
      | some value =>
        if test value then
          .ok () { machine.traced (.popped value) with
            stack := machine.stack.pop, pc := target }
        else .ok () machine := by
  simp only [branch, EStateM.run_bind, run_peek]
  cases top : machine.stack.back? with
  | none => rfl
  | some value =>
    dsimp only
    cases test value with
    | false => rfl
    | true => simp only [if_true, EStateM.run_bind, run_pop, top, run_setPc]

theorem run_call (options : Options) (target : Nat) (machine : Machine) :
    (step options (.call target)).run machine =
      .ok () { machine.traced (.called ⟨machine.pc, machine.depth⟩) with
        frames := ⟨machine.pc, machine.depth⟩ :: machine.frames, pc := target } := by
  simp only [step, EStateM.run_bind, EStateM.run_get, run_pushFrame, run_setPc]

end StackAsm.Machine
