import StackAsm.Proofs.Effect
import StackAsm.Proofs.Emission

/-!
# Moving code to other places

Places are instruction indices.  They occur in the program counter, in the
frames of the pending calls and as targets of jumps and calls; all other
operands are indices into the stack.  When every place is replaced alike in an
instruction and in a machine, the instruction does the same as before.  Whole
runs carry over to a program that hosts the moved code.
-/

set_option autoImplicit false

namespace StackAsm

def Instruction.relocate (place : Nat → Nat) : Instruction → Instruction
  | .jump target => .jump (place target)
  | .jumpIfZero target => .jumpIfZero (place target)
  | .jumpIfNonZero target => .jumpIfNonZero (place target)
  | .call target => .call (place target)
  | instruction => instruction

def Frame.relocate (place : Nat → Nat) (frame : Frame) : Frame :=
  { frame with returnPointer := place frame.returnPointer }

namespace Instruction

variable (place : Nat → Nat) (instruction : Instruction)

@[simp]
theorem operation?_relocate : (instruction.relocate place).operation? = instruction.operation? := by
  cases instruction <;> rfl

@[simp]
theorem loads?_relocate : (instruction.relocate place).loads? = instruction.loads? := by
  cases instruction <;> rfl

@[simp]
theorem stores?_relocate : (instruction.relocate place).stores? = instruction.stores? := by
  cases instruction <;> rfl

@[simp]
theorem needsTop_relocate : (instruction.relocate place).needsTop = instruction.needsTop := by
  cases instruction <;> rfl

theorem branch?_relocate :
    (instruction.relocate place).branch? =
      instruction.branch?.map fun branch => (branch.1, place branch.2) := by
  cases instruction <;> rfl

@[simp]
theorem relocate_eq_div_iff : instruction.relocate place = .div ↔ instruction = .div := by
  cases instruction <;> simp [relocate]

@[simp]
theorem relocate_id : instruction.relocate (fun position => position) = instruction := by
  cases instruction <;> rfl

theorem relocate_of_untargeted {instruction : Instruction}
    (untargeted : instruction.target? = none) :
    instruction.relocate place = instruction := by
  cases instruction with
  | jump _ | jumpIfZero _ | jumpIfNonZero _ | call _ => cases untargeted
  | _ => rfl

end Instruction

@[simp]
theorem JumpKind.relocate_instruction (place : Nat → Nat) (kind : JumpKind) (target : Nat) :
    (kind.instruction target).relocate place = kind.instruction (place target) := by
  cases kind <;> rfl

/-- A statement whose names stand for moved places has the moved instruction. -/
theorem lower_relocate {symbols other : Symbols} {place : Nat → Nat} {source : Numbered}
    {instruction : Instruction}
    (labels : ∀ name ∈ source.statement.target?, ∀ target, symbols.label? name = some target →
      other.label? name = some (place target))
    (procedures : ∀ name procedure, symbols.procedure? name = some procedure →
      ∃ moved, other.procedure? name = some moved ∧
        moved.callTarget = place procedure.callTarget ∧ moved.exit = place procedure.exit)
    (plain : ∀ written, source.statement = .plain written → written.relocate place = written)
    (lowered : lower symbols source = .ok instruction) :
    lower other source = .ok (instruction.relocate place) := by
  obtain ⟨line, statement⟩ := source
  cases statement with
  | plain written =>
    cases lowered
    rw [plain _ rfl]
    rfl
  | label _ | procEnd =>
    cases lowered
    rfl
  | jump kind name =>
    cases known : symbols.label? name with
    | none => simp [lower, known] at lowered
    | some target =>
      obtain rfl : kind.instruction target = instruction := by simpa [lower, known] using lowered
      simp [lower, labels name rfl target known]
  | proc name =>
    cases known : symbols.procedure? name with
    | none => simp [lower, known] at lowered
    | some procedure =>
      obtain rfl : .jump procedure.exit = instruction := by simpa [lower, known] using lowered
      obtain ⟨moved, found, _, exit⟩ := procedures name procedure known
      simp [lower, found, exit, Instruction.relocate]
  | call name =>
    cases known : symbols.procedure? name with
    | none => simp [lower, known] at lowered
    | some procedure =>
      obtain rfl : .call procedure.callTarget = instruction := by
        simpa [lower, known] using lowered
      obtain ⟨moved, found, entry, _⟩ := procedures name procedure known
      simp [lower, found, entry, Instruction.relocate]

theorem lowered_relocate {statements : List Numbered} {symbols other : Symbols}
    {place : Nat → Nat} {instructions : List Instruction}
    (each : ∀ source ∈ statements, ∀ instruction, lower symbols source = .ok instruction →
      lower other source = .ok (instruction.relocate place))
    (lowered : statements.map (lower symbols) = instructions.map .ok) :
    statements.map (lower other) = (instructions.map (Instruction.relocate place)).map .ok := by
  induction statements generalizing instructions with
  | nil =>
    obtain rfl : instructions = [] := by simpa using lowered.symm
    rfl
  | cons source rest ih =>
    cases instructions with
    | nil => simp at lowered
    | cons instruction later =>
      simp only [List.map_cons, List.cons.injEq] at lowered
      obtain ⟨here, there⟩ := lowered
      obtain ⟨moved, others⟩ := List.forall_mem_cons.mp each
      rw [List.map_cons, moved _ here, ih others there]
      rfl

namespace Machine

theorem unobserved_eq_iff {machine other : Machine} :
    machine.unobserved = other.unobserved ↔
      machine.pc = other.pc ∧ machine.steps = other.steps ∧ machine.stack = other.stack ∧
        machine.frames = other.frames ∧ machine.output = other.output := by
  simp [unobserved]

/-! ## An effect determines the result -/

def resultOf : Option Error → Machine → EStateM.Result Error Machine Unit
  | none, machine => .ok () machine
  | some error, machine => .error error machine

theorem resultOf_raised? (result : EStateM.Result Error Machine Unit) :
    resultOf (raised? result) (finalMachine result) = result := by
  cases result <;> rfl

theorem resultOf_inj {failure other : Option Error} {machine reached : Machine}
    (same : resultOf failure machine = resultOf other reached) :
    failure = other ∧ machine = reached := by
  cases failure with
  | none =>
    cases other with
    | none => exact ⟨rfl, (EStateM.Result.ok.inj same).2⟩
    | some _ => cases same
  | some error =>
    cases other with
    | none => cases same
    | some found =>
      obtain ⟨sameError, sameMachine⟩ := EStateM.Result.error.inj same
      exact ⟨congrArg some sameError, sameMachine⟩

section Quiet

variable {machine : Machine} (quiet : machine.tracing = false) {instruction : Instruction}

include quiet in
theorem run_step_of_operands {operation : Int → Int → Int} {left right : Value}
    {below : Array Value} (operates : instruction.operation? = some operation)
    (shape : machine.stack = (below.push left).push right)
    (divisible : instruction = .div → right ≠ 0) :
    (step {} instruction).run machine =
      (pushExact (operation left.toInt right.toInt)).run { machine with stack := below } := by
  have still : ({ machine with stack := below.push left } : Machine).tracing = false := quiet
  cases instruction with
  | add | sub | mul =>
    cases operates
    simp only [step, arithmetic, EStateM.run_bind, run_pop_of_quiet quiet shape,
      run_pop_of_quiet still rfl]
  | div =>
    cases operates
    simp only [step, divide, EStateM.run_bind, run_pop_of_quiet quiet shape,
      run_pop_of_quiet still rfl, if_neg (divisible rfl)]
  | _ => cases operates

include quiet in
theorem run_step_of_oneOperand {operation : Int → Int → Int} {right : Value}
    (operates : instruction.operation? = some operation) (shape : machine.stack = #[right]) :
    (step {} instruction).run machine =
      .error .stackUnderflow { machine with stack := #[] } := by
  have top : machine.stack = (#[] : Array Value).push right := shape
  have gone : ({ machine with stack := #[] } : Machine).stack = #[] := rfl
  cases instruction with
  | add | sub | mul =>
    simp only [step, arithmetic, EStateM.run_bind, run_pop_of_quiet quiet top,
      run_pop_of_empty gone]
  | div =>
    simp only [step, divide, EStateM.run_bind, run_pop_of_quiet quiet top,
      run_pop_of_empty gone]
  | _ => cases operates

theorem run_step_of_empty (needs : instruction.needsTop = true) (empty : machine.stack = #[]) :
    (step {} instruction).run machine = .error .stackUnderflow machine := by
  have peeks : peek.run machine = .error .stackUnderflow machine := by
    rw [run_peek, empty]
    rfl
  cases instruction with
  | pop => simp only [step, EStateM.run_bind, run_pop_of_empty empty]
  | add | sub | mul => simp only [step, arithmetic, EStateM.run_bind, run_pop_of_empty empty]
  | div => simp only [step, divide, EStateM.run_bind, run_pop_of_empty empty]
  | print => simp only [step, EStateM.run_bind, peeks]
  | jumpIfZero _ | jumpIfNonZero _ => simp only [step, branch, EStateM.run_bind, peeks]
  | _ => cases needs

theorem step_of_branch {test : Value → Bool} {target : Nat}
    (branches : instruction.branch? = some (test, target)) :
    step {} instruction = branch test target := by
  cases instruction with
  | jumpIfZero _ | jumpIfNonZero _ =>
    cases branches
    rfl
  | _ => cases branches

theorem step_of_loads {address : Action Nat} (loads : instruction.loads? = some address) :
    step {} instruction = loadFrom address := by
  cases instruction with
  | get _ | getArg _ =>
    cases loads
    rfl
  | _ => cases loads

theorem step_of_stores {address : Action Nat} (stores : instruction.stores? = some address) :
    step {} instruction = storeTo address := by
  cases instruction with
  | set _ | setArg _ =>
    cases stores
    rfl
  | _ => cases stores

include quiet in
theorem Effect.run_step {failure : Option Error} {reached : Machine}
    (effect : Effect machine instruction failure reached) :
    (step {} instruction).run machine = resultOf failure reached := by
  cases effect with
  | idle => rfl
  | pushed value => exact run_push_of_quiet quiet value
  | starved needs empty => exact run_step_of_empty needs empty
  | popped shape =>
    simp only [step, EStateM.run_bind, run_pop_of_quiet quiet shape]
    rfl
  | oneOperand operates shape => exact run_step_of_oneOperand quiet operates shape
  | @dividedByZero left below shape =>
    have still : ({ machine with stack := below.push left } : Machine).tracing = false := quiet
    simp only [step, divide, EStateM.run_bind, run_pop_of_quiet quiet shape,
      run_pop_of_quiet still rfl]
    rfl
  | overflowed operates shape divisible wide =>
    rw [run_step_of_operands quiet operates shape divisible, run_pushExact, wide]
    rfl
  | @computed _ _ _ _ _ below operates shape divisible exact =>
    have still : ({ machine with stack := below } : Machine).tracing = false := quiet
    rw [run_step_of_operands quiet operates shape divisible, run_pushExact, exact]
    exact run_push_of_quiet still _
  | printed shape =>
    simp only [step, EStateM.run_bind, run_peek, shape, Array.back?_push, run_emit]
    rfl
  | jumped target => rfl
  | branched branches shape passed =>
    rw [step_of_branch branches, run_branch]
    simp only [shape, Array.back?_push, passed, if_true, traced_of_quiet quiet, Array.pop_push]
    rfl
  | stayed branches shape failed =>
    rw [step_of_branch branches, run_branch]
    simp only [shape, Array.back?_push, failed, Bool.false_eq_true, if_false]
    rfl
  | misaddressed addresses fails =>
    rcases addresses with loads | stores
    · rw [step_of_loads loads, loadFrom, EStateM.run_bind, fails]
      rfl
    · rw [step_of_stores stores, storeTo, EStateM.run_bind, fails]
      rfl
  | loaded loads found holds =>
    rw [step_of_loads loads, loadFrom]
    simp only [EStateM.run_bind, found, run_load, holds]
    exact run_push_of_quiet quiet _
  | @stored _ _ slot _ stores found top =>
    have held : ∃ old, machine.stack[slot]? = some old := by
      rcases addresses_of_instruction (.inr stores) machine with ⟨other, inside, same⟩ | ⟨_, fails⟩
      · rw [found] at same
        cases same
        exact ⟨_, Array.getElem?_eq_getElem inside⟩
      · rw [found] at fails
        cases fails
    obtain ⟨old, holds⟩ := held
    rw [step_of_stores stores, storeTo]
    simp only [EStateM.run_bind, found, run_peek, top, run_store, holds, traced_of_quiet quiet]
    rfl
  | called target =>
    rw [run_call, traced_of_quiet quiet]
    rfl
  | unmatched none =>
    rw [run_ret, none]
    rfl
  | returned pending =>
    rw [run_ret, pending]
    rfl

end Quiet

/-! ## Instructions at other places -/

/-- How a machine changes when its program is moved: its places are replaced,
and it may have a past of its own, with steps counted and values printed. -/
structure Relocation where
  place : Nat → Nat
  steps : Nat → Nat
  printed : Array Value

def relocate (relocation : Relocation) (machine : Machine) : Machine :=
  { machine with
    pc := relocation.place machine.pc
    steps := relocation.steps machine.steps
    frames := machine.frames.map (Frame.relocate relocation.place)
    output := relocation.printed ++ machine.output }

section Relocate

variable (relocation : Relocation) {machine reached : Machine} {instruction : Instruction}

def Unmoved (address : Action Nat) : Prop :=
  ∀ machine : Machine, address.run (machine.relocate relocation) =
    match address.run machine with
    | .ok slot reached => .ok slot (reached.relocate relocation)
    | .error error reached => .error error (reached.relocate relocation)

theorem unmoved_checkIndex (index : Nat) : Unmoved relocation (checkIndex index) := by
  intro machine
  have same : (machine.relocate relocation).depth = machine.depth := rfl
  rw [run_checkIndex, run_checkIndex, same]
  by_cases inside : index < machine.depth
  · rw [if_pos inside, if_pos inside]
  · rw [if_neg inside, if_neg inside]

theorem currentOffset_relocate (machine : Machine) :
    (machine.relocate relocation).currentOffset = machine.currentOffset := by
  unfold currentOffset relocate
  cases machine.frames <;> rfl

theorem unmoved_localIndex (index : Nat) : Unmoved relocation (localIndex index) := by
  intro machine
  rw [run_localIndex, run_localIndex, currentOffset_relocate]
  by_cases fits : index + machine.currentOffset < pointerLimit
  · rw [if_pos fits, if_pos fits]
    exact unmoved_checkIndex relocation _ machine
  · rw [if_neg fits, if_neg fits]
    rfl

theorem unmoved_argumentIndex (index : Nat) : Unmoved relocation (argumentIndex index) := by
  intro machine
  have moved : (machine.relocate relocation).frames =
      machine.frames.map (Frame.relocate relocation.place) := rfl
  rw [run_argumentIndex, run_argumentIndex, moved]
  cases machine.frames with
  | nil => rfl
  | cons frame rest =>
    by_cases below : index < frame.stackOffset
    · simp only [List.map_cons, Frame.relocate, if_pos below]
      exact unmoved_checkIndex relocation _ machine
    · simp only [List.map_cons, Frame.relocate, if_neg below]

theorem unmoved_of_addresses {address : Action Nat}
    (addresses : instruction.loads? = some address ∨ instruction.stores? = some address) :
    Unmoved relocation address := by
  rcases address_cases addresses with ⟨index, rfl, _⟩ | ⟨index, rfl, _⟩
  · exact unmoved_localIndex relocation index
  · exact unmoved_argumentIndex relocation index

/-- A moved instruction does to a moved machine what it did before. -/
theorem Effect.relocate {failure : Option Error}
    (effect : Effect machine instruction failure reached) :
    Effect (machine.relocate relocation) (instruction.relocate relocation.place) failure
      (reached.relocate relocation) := by
  cases effect with
  | idle => exact .idle
  | pushed value => exact .pushed value
  | starved needs empty => exact .starved (by simpa using needs) empty
  | popped shape => exact .popped shape
  | oneOperand operates shape => exact .oneOperand (by simpa using operates) shape
  | dividedByZero shape => exact .dividedByZero shape
  | overflowed operates shape divisible wide =>
    exact .overflowed (by simpa using operates) shape (by simpa using divisible) wide
  | computed operates shape divisible exact =>
    exact .computed (by simpa using operates) shape (by simpa using divisible) exact
  | @printed value below shape =>
    have appended : relocation.printed ++ machine.output.push value =
        (relocation.printed ++ machine.output).push value := Array.append_push
    unfold Machine.relocate
    dsimp only
    rw [appended]
    exact .printed shape
  | jumped target => exact .jumped _
  | branched branches shape passed =>
    have moved := Instruction.branch?_relocate relocation.place instruction
    rw [branches] at moved
    exact .branched moved shape passed
  | stayed branches shape failed =>
    have moved := Instruction.branch?_relocate relocation.place instruction
    rw [branches] at moved
    exact .stayed moved shape failed
  | misaddressed addresses fails =>
    have moved := unmoved_of_addresses relocation addresses machine
    rw [fails] at moved
    exact .misaddressed (by simpa using addresses) moved
  | loaded loads found holds =>
    have moved := unmoved_of_addresses relocation (.inl loads) machine
    rw [found] at moved
    exact .loaded (by simpa using loads) moved holds
  | stored stores found top =>
    have moved := unmoved_of_addresses relocation (.inr stores) machine
    rw [found] at moved
    exact .stored (by simpa using stores) moved top
  | called target => exact .called _
  | unmatched none =>
    have pending : (machine.relocate relocation).frames = [] := by simp [Machine.relocate, none]
    exact .unmatched pending
  | @returned frame rest pending =>
    have moved : (machine.relocate relocation).frames =
        frame.relocate relocation.place :: rest.map (Frame.relocate relocation.place) := by
      simp [Machine.relocate, pending]
    exact .returned moved

theorem perform_relocate (options : Options) (instruction : Instruction) {image : Machine}
    (stands : image.moved = machine.moved.relocate relocation) :
    ∃ there,
      (perform options (instruction.relocate relocation.place)).run image =
          resultOf (raised? ((perform options instruction).run machine)) there ∧
        there.unobserved =
          (finalMachine ((perform options instruction).run machine)).unobserved.relocate
            relocation := by
  have carried := (effect_perform options instruction machine).relocate relocation
  have own := effect_perform options (instruction.relocate relocation.place) image
  rw [← stands] at carried
  have same := (own.run_step rfl).symm.trans (carried.run_step rfl)
  obtain ⟨sameError, sameMachine⟩ := resultOf_inj same
  refine ⟨_, ?_, sameMachine⟩
  rw [← sameError, resultOf_raised?]

end Relocate

/-! ## Runs of moved code -/

def Status.relocate (place : Nat → Nat) : Status → Status
  | .halted => .halted
  | .faulted fault => .faulted { fault with pc := place fault.pc }
  | .running => .running

theorem Status.relocate_eq_running_iff (place : Nat → Nat) (status : Status) :
    status.relocate place = .running ↔ status = .running := by
  cases status <;> simp [relocate]

def Hosts (place : Nat → Nat) (program host : Program) : Prop :=
  ∀ position instruction, program[position]? = some instruction →
    host[place position]? = some (instruction.relocate place)

/-- Code that keeps its order runs at its new places as it ran before.  Where a
run leaves the code, it has to leave the host as well. -/
theorem run_relocate (relocation : Relocation) {program host : Program} (trace echo : Bool)
    (next : ∀ position, relocation.place (position + 1) = relocation.place position + 1)
    (counted : ∀ steps, relocation.steps (steps + 1) = relocation.steps steps + 1)
    (hosts : Hosts relocation.place program host) (count : Nat) {machine image : Machine}
    (ends : (run ⟨trace, echo, none⟩ program count machine).1 = .halted →
      ∀ position, program[position]? = none → host[relocation.place position]? = none)
    (stands : image.unobserved = machine.unobserved.relocate relocation) :
    (run ⟨trace, echo, none⟩ host count image).1 =
        (run ⟨trace, echo, none⟩ program count machine).1.relocate relocation.place ∧
      (run ⟨trace, echo, none⟩ host count image).2.unobserved =
        (run ⟨trace, echo, none⟩ program count machine).2.unobserved.relocate relocation := by
  induction count generalizing machine image with
  | zero => exact ⟨rfl, stands⟩
  | succ count ih =>
    have here : image.pc = relocation.place machine.pc := congrArg Machine.pc stands
    cases found : program[machine.pc]? with
    | none =>
      rw [run_succ_of_outside found] at ends ⊢
      have outside := ends rfl machine.pc found
      rw [← here] at outside
      rw [run_succ_of_outside outside]
      exact ⟨rfl, stands⟩
    | some instruction =>
      have moved : image.moved = machine.moved.relocate relocation := by
        have steps : image.steps = relocation.steps machine.steps :=
          congrArg Machine.steps stands
        unfold Machine.moved
        rw [stands, here, steps, ← next, ← counted]
        rfl
      have there := hosts _ _ found
      rw [← here] at there
      obtain ⟨after, ran, same⟩ := perform_relocate relocation ⟨trace, echo, none⟩ instruction moved
      rw [run_succ_of_allowed found rfl] at ends ⊢
      rw [run_succ_of_allowed there rfl, ran]
      cases performed : (perform ⟨trace, echo, none⟩ instruction).run machine with
      | error error reached =>
        rw [performed] at same
        refine ⟨?_, same⟩
        rw [here]
        rfl
      | ok value reached =>
        rw [performed] at same ends
        exact ih ends same

end Machine

end StackAsm
