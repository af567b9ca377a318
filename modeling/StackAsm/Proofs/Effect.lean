import StackAsm.Proofs.Execution

/-!
# The effect of one instruction, case by case

`Effect` lists what an instruction can do to a machine without observer: each
way to succeed and each way to fail, with the machine it leaves.  Every
instruction that is performed has one of these effects, so that a fact about all
instructions is a case analysis of `Effect`.  What a run keeps follows from what
each instruction keeps.
-/

set_option autoImplicit false

namespace StackAsm

namespace Instruction

def operation? : Instruction → Option (Int → Int → Int)
  | .add => some (· + ·)
  | .sub => some (· - ·)
  | .mul => some (· * ·)
  | .div => some Int.tdiv
  | _ => none

def branch? : Instruction → Option ((Value → Bool) × Nat)
  | .jumpIfZero target => some (fun value => value == 0, target)
  | .jumpIfNonZero target => some (fun value => value != 0, target)
  | _ => none

/-- The address of the slot that an instruction reads. -/
def loads? : Instruction → Option (Machine.Action Nat)
  | .get index => some (Machine.localIndex index)
  | .getArg index => some (Machine.argumentIndex index)
  | _ => none

def stores? : Instruction → Option (Machine.Action Nat)
  | .set index => some (Machine.localIndex index)
  | .setArg index => some (Machine.argumentIndex index)
  | _ => none

def needsTop : Instruction → Bool
  | .pop | .print | .add | .sub | .mul | .div | .jumpIfZero _ | .jumpIfNonZero _ => true
  | _ => false

end Instruction

namespace Machine

/-- What an instruction does to a machine that has moved past it: the error, if
it fails, and the machine it leaves. -/
inductive Effect (machine : Machine) : Instruction → Option Error → Machine → Prop where
  | idle : Effect machine .noop none machine
  | pushed (value : Value) :
      Effect machine (.push value) none { machine with stack := machine.stack.push value }
  | starved {instruction : Instruction} (needs : instruction.needsTop = true)
      (empty : machine.stack = #[]) :
      Effect machine instruction (some .stackUnderflow) machine
  | popped {value : Value} {below : Array Value} (shape : machine.stack = below.push value) :
      Effect machine .pop none { machine with stack := below }
  | oneOperand {instruction : Instruction} {operation : Int → Int → Int} {right : Value}
      (operates : instruction.operation? = some operation) (shape : machine.stack = #[right]) :
      Effect machine instruction (some .stackUnderflow) { machine with stack := #[] }
  | dividedByZero {left : Value} {below : Array Value}
      (shape : machine.stack = (below.push left).push 0) :
      Effect machine .div (some .divisionByZero) { machine with stack := below }
  | overflowed {instruction : Instruction} {operation : Int → Int → Int} {left right : Value}
      {below : Array Value} (operates : instruction.operation? = some operation)
      (shape : machine.stack = (below.push left).push right)
      (divisible : instruction = .div → right ≠ 0)
      (wide : Value.ofInt? (operation left.toInt right.toInt) = none) :
      Effect machine instruction (some .arithmeticOverflow) { machine with stack := below }
  | computed {instruction : Instruction} {operation : Int → Int → Int}
      {left right result : Value} {below : Array Value}
      (operates : instruction.operation? = some operation)
      (shape : machine.stack = (below.push left).push right)
      (divisible : instruction = .div → right ≠ 0)
      (exact : Value.ofInt? (operation left.toInt right.toInt) = some result) :
      Effect machine instruction none { machine with stack := below.push result }
  | printed {value : Value} {below : Array Value} (shape : machine.stack = below.push value) :
      Effect machine .print none { machine with output := machine.output.push value }
  | jumped (target : Nat) : Effect machine (.jump target) none { machine with pc := target }
  | branched {instruction : Instruction} {test : Value → Bool} {target : Nat} {value : Value}
      {below : Array Value} (branches : instruction.branch? = some (test, target))
      (shape : machine.stack = below.push value) (passed : test value = true) :
      Effect machine instruction none { machine with stack := below, pc := target }
  | stayed {instruction : Instruction} {test : Value → Bool} {target : Nat} {value : Value}
      {below : Array Value} (branches : instruction.branch? = some (test, target))
      (shape : machine.stack = below.push value) (failed : test value = false) :
      Effect machine instruction none machine
  | misaddressed {instruction : Instruction} {address : Action Nat} {error : Error}
      (addresses : instruction.loads? = some address ∨ instruction.stores? = some address)
      (fails : address.run machine = .error error machine) :
      Effect machine instruction (some error) machine
  | loaded {instruction : Instruction} {address : Action Nat} {slot : Nat} {value : Value}
      (loads : instruction.loads? = some address) (found : address.run machine = .ok slot machine)
      (holds : machine.stack[slot]? = some value) :
      Effect machine instruction none { machine with stack := machine.stack.push value }
  | stored {instruction : Instruction} {address : Action Nat} {slot : Nat} {value : Value}
      (stores : instruction.stores? = some address)
      (found : address.run machine = .ok slot machine)
      (top : machine.stack.back? = some value) :
      Effect machine instruction none
        { machine with stack := machine.stack.setIfInBounds slot value }
  | called (target : Nat) :
      Effect machine (.call target) none
        { machine with
          frames := ⟨machine.pc, machine.depth⟩ :: machine.frames
          pc := target }
  | unmatched (none : machine.frames = []) :
      Effect machine .ret (some .callStackUnderflow) machine
  | returned {frame : Frame} {rest : List Frame} (pending : machine.frames = frame :: rest) :
      Effect machine .ret .none { machine with frames := rest, pc := frame.returnPointer }

/-! ## Every instruction has one of the effects -/

def raised? {α : Type} : EStateM.Result Error Machine α → Option Error
  | .ok _ _ => none
  | .error error _ => some error

def HasEffect (instruction : Instruction) (machine : Machine)
    (result : EStateM.Result Error Machine Unit) : Prop :=
  Effect machine instruction (raised? result) (finalMachine result)

theorem traced_of_quiet {machine : Machine} (quiet : machine.tracing = false) (event : Event) :
    machine.traced event = machine := by
  simp [traced, quiet]

theorem run_pop_of_empty {machine : Machine} (empty : machine.stack = #[]) :
    pop.run machine = .error .stackUnderflow machine := by
  rw [run_pop, empty]
  rfl

theorem stack_cases (stack : Array Value) :
    stack = #[] ∨ ∃ (below : Array Value) (value : Value), stack = below.push value := by
  by_cases empty : stack.size = 0
  · exact .inl (Array.eq_empty_of_size_eq_zero empty)
  · exact .inr (Array.eq_push_of_size_ne_zero empty)

def Addresses (address : Action Nat) : Prop :=
  ∀ machine : Machine,
    (∃ slot < machine.depth, address.run machine = .ok slot machine) ∨
      ∃ error, address.run machine = .error error machine

theorem addresses_checkIndex (index : Nat) : Addresses (checkIndex index) := by
  intro machine
  rw [run_checkIndex]
  split
  · rename_i inside
    exact .inl ⟨index, inside, rfl⟩
  · exact .inr ⟨_, rfl⟩

theorem addresses_localIndex (index : Nat) : Addresses (localIndex index) := by
  intro machine
  rw [run_localIndex]
  split
  · exact addresses_checkIndex _ machine
  · exact .inr ⟨_, rfl⟩

theorem addresses_argumentIndex (index : Nat) : Addresses (argumentIndex index) := by
  intro machine
  rw [run_argumentIndex]
  cases machine.frames with
  | nil => exact .inr ⟨_, rfl⟩
  | cons frame rest =>
    dsimp only
    split
    · exact addresses_checkIndex _ machine
    · exact .inr ⟨_, rfl⟩

theorem address_cases {instruction : Instruction} {address : Action Nat}
    (addresses : instruction.loads? = some address ∨ instruction.stores? = some address) :
    (∃ index, address = localIndex index ∧ (instruction = .get index ∨ instruction = .set index)) ∨
      ∃ index, address = argumentIndex index ∧
        (instruction = .getArg index ∨ instruction = .setArg index) := by
  cases instruction with
  | get index | set index =>
    simp only [Instruction.loads?, Instruction.stores?, Option.some.injEq, reduceCtorEq,
      or_false, false_or] at addresses
    exact .inl ⟨index, addresses.symm, by simp⟩
  | getArg index | setArg index =>
    simp only [Instruction.loads?, Instruction.stores?, Option.some.injEq, reduceCtorEq,
      or_false, false_or] at addresses
    exact .inr ⟨index, addresses.symm, by simp⟩
  | _ => simp [Instruction.loads?, Instruction.stores?] at addresses

theorem addresses_of_instruction {instruction : Instruction} {address : Action Nat}
    (addresses : instruction.loads? = some address ∨ instruction.stores? = some address) :
    Addresses address := by
  rcases address_cases addresses with ⟨index, rfl, _⟩ | ⟨index, rfl, _⟩
  · exact addresses_localIndex index
  · exact addresses_argumentIndex index

section Quiet

variable {machine : Machine} (quiet : machine.tracing = false)

include quiet

theorem run_push_of_quiet (value : Value) :
    (push value).run machine = .ok () { machine with stack := machine.stack.push value } := by
  rw [run_push, traced_of_quiet quiet]

theorem run_pop_of_quiet {below : Array Value} {value : Value}
    (shape : machine.stack = below.push value) :
    pop.run machine = .ok value { machine with stack := below } := by
  rw [run_pop]
  simp only [traced_of_quiet quiet, shape, Array.back?_push, Array.pop_push]

/-- Operands are popped one after the other, the right one first. -/
theorem hasEffect_operands {instruction : Instruction} {operation : Int → Int → Int}
    {next : Value → Value → Action Unit} (needs : instruction.needsTop = true)
    (operates : instruction.operation? = some operation)
    (computes : ∀ left right below, machine.stack = (below.push left).push right →
      HasEffect instruction machine ((next left right).run { machine with stack := below })) :
    HasEffect instruction machine
      ((do let right ← pop; let left ← pop; next left right).run machine) := by
  rcases stack_cases machine.stack with empty | ⟨upper, right, shape⟩
  · rw [EStateM.run_bind, run_pop_of_empty empty]
    exact .starved needs empty
  · rw [EStateM.run_bind, run_pop_of_quiet quiet shape]
    dsimp only
    rcases stack_cases upper with rfl | ⟨below, left, rfl⟩
    · rw [EStateM.run_bind, run_pop_of_empty rfl]
      exact .oneOperand operates shape
    · have still : ({ machine with stack := below.push left } : Machine).tracing = false := quiet
      rw [EStateM.run_bind, run_pop_of_quiet still rfl]
      exact computes left right below shape

theorem hasEffect_pushExact {instruction : Instruction} {operation : Int → Int → Int}
    {left right : Value} {below : Array Value}
    (operates : instruction.operation? = some operation)
    (shape : machine.stack = (below.push left).push right)
    (divisible : instruction = .div → right ≠ 0) :
    HasEffect instruction machine
      ((pushExact (operation left.toInt right.toInt)).run { machine with stack := below }) := by
  rw [run_pushExact]
  cases narrow : Value.ofInt? (operation left.toInt right.toInt) with
  | none => exact .overflowed operates shape divisible narrow
  | some result =>
    have still : ({ machine with stack := below } : Machine).tracing = false := quiet
    dsimp only
    rw [run_push_of_quiet still]
    exact .computed operates shape divisible narrow

theorem hasEffect_arithmetic {instruction : Instruction} {operation : Int → Int → Int}
    (needs : instruction.needsTop = true) (operates : instruction.operation? = some operation)
    (divides : instruction ≠ .div) :
    HasEffect instruction machine ((arithmetic operation).run machine) := by
  apply hasEffect_operands quiet needs operates
  intro left right below shape
  exact hasEffect_pushExact quiet operates shape fun same => absurd same divides

theorem hasEffect_divide : HasEffect .div machine (divide.run machine) := by
  apply hasEffect_operands quiet rfl rfl
  intro left right below shape
  by_cases zero : right = 0
  · subst zero
    exact .dividedByZero shape
  · rw [if_neg zero]
    exact hasEffect_pushExact quiet rfl shape fun _ => zero

theorem hasEffect_branch {instruction : Instruction} {test : Value → Bool} {target : Nat}
    (needs : instruction.needsTop = true)
    (branches : instruction.branch? = some (test, target)) :
    HasEffect instruction machine ((branch test target).run machine) := by
  rw [run_branch]
  simp only [traced_of_quiet quiet]
  rcases stack_cases machine.stack with empty | ⟨below, value, shape⟩
  · rw [empty]
    exact .starved needs empty
  · simp only [shape, Array.back?_push, Array.pop_push]
    cases passed : test value with
    | true => exact .branched branches shape passed
    | false => exact .stayed branches shape passed

theorem hasEffect_loadFrom {instruction : Instruction} {address : Action Nat}
    (loads : instruction.loads? = some address) (addresses : Addresses address) :
    HasEffect instruction machine ((loadFrom address).run machine) := by
  rw [loadFrom, EStateM.run_bind]
  rcases addresses machine with ⟨slot, inside, found⟩ | ⟨error, fails⟩
  · have holds : machine.stack[slot]? = some machine.stack[slot] :=
      Array.getElem?_eq_getElem inside
    rw [found]
    dsimp only
    rw [EStateM.run_bind, run_load, holds]
    dsimp only
    rw [run_push_of_quiet quiet]
    exact .loaded loads found holds
  · rw [fails]
    exact .misaddressed (.inl loads) fails

theorem hasEffect_storeTo {instruction : Instruction} {address : Action Nat}
    (stores : instruction.stores? = some address) (addresses : Addresses address) :
    HasEffect instruction machine ((storeTo address).run machine) := by
  rw [storeTo, EStateM.run_bind]
  rcases addresses machine with ⟨slot, inside, found⟩ | ⟨error, fails⟩
  · have holds : machine.stack[slot]? = some machine.stack[slot] :=
      Array.getElem?_eq_getElem inside
    rw [found]
    dsimp only
    rw [EStateM.run_bind, run_peek]
    rcases stack_cases machine.stack with empty | ⟨below, value, shape⟩
    · simp [empty] at holds
    · have top : machine.stack.back? = some value := by rw [shape, Array.back?_push]
      rw [top]
      dsimp only
      rw [run_store, holds]
      simp only [traced_of_quiet quiet]
      exact .stored stores found top
  · rw [fails]
    exact .misaddressed (.inr stores) fails

theorem hasEffect_step (instruction : Instruction) :
    HasEffect instruction machine ((step {} instruction).run machine) := by
  cases instruction with
  | noop => exact .idle
  | push value =>
    rw [step, run_push_of_quiet quiet]
    exact .pushed value
  | pop =>
    rw [step, EStateM.run_bind]
    rcases stack_cases machine.stack with empty | ⟨below, value, shape⟩
    · rw [run_pop_of_empty empty]
      exact .starved rfl empty
    · rw [run_pop_of_quiet quiet shape]
      exact .popped shape
  | add | sub | mul => exact hasEffect_arithmetic quiet rfl rfl (by simp)
  | div => exact hasEffect_divide quiet
  | print =>
    rw [step, EStateM.run_bind, run_peek]
    rcases stack_cases machine.stack with empty | ⟨below, value, shape⟩
    · rw [empty]
      exact .starved rfl empty
    · rw [shape, Array.back?_push]
      exact .printed shape
  | jump target => exact .jumped target
  | jumpIfZero target | jumpIfNonZero target => exact hasEffect_branch quiet rfl rfl
  | get index => exact hasEffect_loadFrom quiet rfl (addresses_localIndex index)
  | getArg index => exact hasEffect_loadFrom quiet rfl (addresses_argumentIndex index)
  | set index => exact hasEffect_storeTo quiet rfl (addresses_localIndex index)
  | setArg index => exact hasEffect_storeTo quiet rfl (addresses_argumentIndex index)
  | call target =>
    rw [run_call, traced_of_quiet quiet]
    exact .called target
  | ret =>
    rw [run_ret]
    cases pending : machine.frames with
    | nil => exact .unmatched pending
    | cons frame rest => exact .returned pending

end Quiet

/-! ## Performed instructions -/

def moved (machine : Machine) : Machine :=
  { machine.unobserved with pc := machine.pc + 1, steps := machine.steps + 1 }

section Erased

variable {α : Type} (result : EStateM.Result Error Machine α)

theorem raised?_eraseResult : raised? (eraseResult result) = raised? result := by
  cases result <;> rfl

theorem finalMachine_eraseResult :
    finalMachine (eraseResult result) = (finalMachine result).unobserved := by
  cases result <;> rfl

end Erased

theorem effect_step (options : Options) (instruction : Instruction) (machine : Machine) :
    Effect machine.unobserved instruction (raised? ((step options instruction).run machine))
      (finalMachine ((step options instruction).run machine)).unobserved := by
  have acts : HasEffect instruction machine.unobserved
      ((step {} instruction).run machine.unobserved) := hasEffect_step rfl instruction
  rw [erases_step options instruction machine] at acts
  unfold HasEffect at acts
  rwa [raised?_eraseResult, finalMachine_eraseResult] at acts

theorem effect_perform (options : Options) (instruction : Instruction) (machine : Machine) :
    Effect machine.moved instruction
      (raised? ((perform options instruction).run machine))
      (finalMachine ((perform options instruction).run machine)).unobserved := by
  have acts := effect_step options instruction (fetched options instruction machine)
  rwa [unobserved_fetched, ← run_perform] at acts

def takenTarget? (machine : Machine) : Instruction → Option Nat
  | .jump target => some target
  | .jumpIfZero target => if machine.stack.back?.any (· == 0) then some target else none
  | .jumpIfNonZero target => if machine.stack.back?.any (· != 0) then some target else none
  | _ => none

theorem takenTarget?_of_branch (machine : Machine) {instruction : Instruction}
    {test : Value → Bool} {target : Nat} (branches : instruction.branch? = some (test, target)) :
    machine.takenTarget? instruction =
      if machine.stack.back?.any test then some target else none := by
  cases instruction with
  | jumpIfZero _ | jumpIfNonZero _ =>
    simp only [Instruction.branch?, Option.some.injEq, Prod.mk.injEq] at branches
    obtain ⟨rfl, rfl⟩ := branches
    rfl
  | _ => cases branches

theorem takenTarget?_of_straight (machine : Machine) {instruction : Instruction}
    (straight : instruction.operation?.isSome ∨ instruction.loads?.isSome ∨
      instruction.stores?.isSome) : machine.takenTarget? instruction = none := by
  cases instruction with
  | jump _ | jumpIfZero _ | jumpIfNonZero _ =>
    simp [Instruction.operation?, Instruction.loads?, Instruction.stores?] at straight
  | _ => rfl

theorem takenTarget?_of_empty {machine : Machine} {instruction : Instruction}
    (needs : instruction.needsTop = true) (empty : machine.stack = #[]) :
    machine.takenTarget? instruction = none := by
  cases instruction with
  | jump _ => cases needs
  | jumpIfZero _ | jumpIfNonZero _ => simp [takenTarget?, empty]
  | _ => rfl

/-- After an instruction the machine stands behind it, unless a jump was taken,
a procedure called or a call returned from; only the last two change the
frames. -/
theorem Effect.control {machine reached : Machine} {instruction : Instruction}
    {failure : Option Error} (effect : Effect machine instruction failure reached) :
    (machine.takenTarget? instruction = none ∧ reached.pc = machine.pc ∧
        reached.frames = machine.frames) ∨
      (machine.takenTarget? instruction = some reached.pc ∧ reached.frames = machine.frames) ∨
      (instruction = .call reached.pc ∧
        reached.frames = ⟨machine.pc, machine.depth⟩ :: machine.frames) ∨
      instruction = .ret ∧
        ∃ frame, machine.frames = frame :: reached.frames ∧ reached.pc = frame.returnPointer := by
  cases effect with
  | jumped target => exact .inr (.inl ⟨rfl, rfl⟩)
  | branched branches shape passed =>
    refine .inr (.inl ⟨?_, rfl⟩)
    rw [takenTarget?_of_branch machine branches, shape, Array.back?_push]
    simp [passed]
  | stayed branches shape failed =>
    refine .inl ⟨?_, rfl, rfl⟩
    rw [takenTarget?_of_branch machine branches, shape, Array.back?_push]
    simp [failed]
  | called target => exact .inr (.inr (.inl ⟨rfl, rfl⟩))
  | returned pending => exact .inr (.inr (.inr ⟨rfl, _, pending, rfl⟩))
  | starved needs empty => exact .inl ⟨takenTarget?_of_empty needs empty, rfl, rfl⟩
  | oneOperand operates | overflowed operates | computed operates =>
    have straight := takenTarget?_of_straight machine (.inl (Option.isSome_of_eq_some operates))
    exact .inl ⟨straight, rfl, rfl⟩
  | misaddressed addresses =>
    have straight := takenTarget?_of_straight machine
      (.inr (addresses.imp Option.isSome_of_eq_some Option.isSome_of_eq_some))
    exact .inl ⟨straight, rfl, rfl⟩
  | loaded loads =>
    have straight := takenTarget?_of_straight machine
      (.inr (.inl (Option.isSome_of_eq_some loads)))
    exact .inl ⟨straight, rfl, rfl⟩
  | stored stores =>
    have straight := takenTarget?_of_straight machine
      (.inr (.inr (Option.isSome_of_eq_some stores)))
    exact .inl ⟨straight, rfl, rfl⟩
  | _ => exact .inl ⟨rfl, rfl, rfl⟩

/-- How an instruction moves a machine on, and which calls it leaves pending. -/
inductive Transfer (machine : Machine) (instruction : Instruction) (reached : Machine) :
    Prop where
  | next (straight : machine.takenTarget? instruction = none) (pc : reached.pc = machine.pc + 1)
      (frames : reached.frames = machine.frames)
  | jump (taken : machine.takenTarget? instruction = some reached.pc)
      (frames : reached.frames = machine.frames)
  | call (calls : instruction = .call reached.pc)
      (frames : reached.frames = ⟨machine.pc + 1, machine.depth⟩ :: machine.frames)
  | ret (returns : instruction = .ret) (frame : Frame)
      (frames : machine.frames = frame :: reached.frames) (pc : reached.pc = frame.returnPointer)

theorem transfer_perform (options : Options) (instruction : Instruction) (machine : Machine) :
    Transfer machine instruction (finalMachine ((perform options instruction).run machine)) := by
  rcases (effect_perform options instruction machine).control with
    ⟨straight, pc, frames⟩ | ⟨taken, frames⟩ | ⟨calls, frames⟩ | ⟨returns, frame, frames, pc⟩
  · exact .next straight pc frames
  · exact .jump taken frames
  · exact .call calls frames
  · exact .ret returns frame frames pc

def Error.wantsCall : Error → Bool
  | .callStackUnderflow | .noActiveFrame => true
  | _ => false

section Pending

variable {machine reached : Machine} {error : Error}

theorem misaddress_cases {instruction : Instruction} {address : Action Nat}
    (addresses : instruction.loads? = some address ∨ instruction.stores? = some address)
    (fails : address.run machine = .error error reached) :
    (∃ index depth, error = .indexOutOfBounds index depth) ∨
      (∃ index passed, error = .argumentOutOfBounds index passed) ∨
      error = .noActiveFrame ∧ machine.frames = [] := by
  rcases address_cases addresses with ⟨index, rfl, _⟩ | ⟨index, rfl, _⟩
  · rw [run_localIndex, run_checkIndex] at fails
    split at fails
    · split at fails <;> cases fails
      exact .inl ⟨_, _, rfl⟩
    · cases fails
      exact .inl ⟨_, _, rfl⟩
  · rw [run_argumentIndex] at fails
    split at fails
    · rename_i none
      cases fails
      exact .inr (.inr ⟨rfl, none⟩)
    · rw [run_checkIndex] at fails
      split at fails
      · split at fails <;> cases fails
        exact .inl ⟨_, _, rfl⟩
      · cases fails
        exact .inr (.inl ⟨_, _, rfl⟩)

theorem Effect.pending {instruction : Instruction}
    (effect : Effect machine instruction (some error) reached) (pending : machine.frames ≠ []) :
    error.wantsCall = false := by
  cases effect with
  | unmatched none => exact absurd none pending
  | misaddressed addresses fails =>
    rcases misaddress_cases addresses fails with ⟨_, _, rfl⟩ | ⟨_, _, rfl⟩ | ⟨_, none⟩
    · rfl
    · rfl
    · exact absurd none pending
  | _ => rfl

end Pending

/-! ## Invariants of runs -/

section Runs

variable {options : Options} {program : Program} {machine reached : Machine}

def next? (options : Options) (program : Program) : Status × Machine → Option Instruction
  | (.running, machine) =>
    match limitReached? options machine with
    | none => program[machine.pc]?
    | some _ => none
  | _ => none

theorem next?_eq_some {ended : Status × Machine} {instruction : Instruction}
    (performs : next? options program ended = some instruction) :
    ∃ before, ended = (.running, before) ∧ program[before.pc]? = some instruction ∧
      limitReached? options before = none := by
  rcases ended with ⟨status, before⟩
  cases status with
  | halted => cases performs
  | faulted fault => cases performs
  | running =>
    dsimp only [next?] at performs
    cases allowed : limitReached? options before with
    | some limit =>
      rw [allowed] at performs
      cases performs
    | none =>
      rw [allowed] at performs
      exact ⟨before, rfl, performs, allowed⟩

theorem run_succ_next (options : Options) (program : Program) (count : Nat) (machine : Machine) :
    (run options program (count + 1) machine).2 =
      match next? options program (run options program count machine) with
      | none => (run options program count machine).2
      | some instruction =>
        finalMachine ((perform options instruction).run (run options program count machine).2) := by
  rw [run_add]
  rcases run options program count machine with ⟨status, before⟩
  cases status with
  | halted => rfl
  | faulted fault => rfl
  | running =>
    dsimp only [next?]
    cases stands : program[before.pc]? with
    | none =>
      rw [run_succ_of_outside stands]
      cases limitReached? options before <;> rfl
    | some instruction =>
      cases allowed : limitReached? options before with
      | some limit =>
        rw [run_succ_of_limited stands allowed]
      | none =>
        rw [run_succ_of_allowed stands allowed]
        dsimp only
        cases (perform options instruction).run before <;> rfl

/-- One more step of a run changes nothing, or performs one instruction. -/
theorem run_succ_cases (options : Options) (program : Program) (count : Nat) (machine : Machine) :
    (run options program (count + 1) machine).2 = (run options program count machine).2 ∨
      ∃ before instruction, run options program count machine = (.running, before) ∧
        program[before.pc]? = some instruction ∧ limitReached? options before = none ∧
        (run options program (count + 1) machine).2 =
          finalMachine ((perform options instruction).run before) := by
  rw [run_succ_next]
  cases performs : next? options program (run options program count machine) with
  | none => exact .inl rfl
  | some instruction =>
    obtain ⟨before, ran, stands, allowed⟩ := next?_eq_some performs
    refine .inr ⟨before, instruction, ran, stands, allowed, ?_⟩
    rw [ran]

/-- What every instruction keeps, failing or not, a run keeps. -/
theorem run_keeps {invariant : Machine → Prop}
    (step : ∀ machine instruction, program[machine.pc]? = some instruction → invariant machine →
      invariant (finalMachine ((perform options instruction).run machine)))
    (start : invariant machine) (count : Nat) :
    invariant (run options program count machine).2 := by
  induction count with
  | zero => exact start
  | succ count ih =>
    rcases run_succ_cases options program count machine with
      same | ⟨before, instruction, ran, stands, _, performed⟩
    · rw [same]
      exact ih
    · rw [performed]
      rw [ran] at ih
      exact step before instruction stands ih

theorem outside_of_halted {count : Nat}
    (ran : run options program count machine = (.halted, reached)) :
    program[reached.pc]? = none := by
  induction count generalizing machine with
  | zero => cases ran
  | succ count ih =>
    cases stands : program[machine.pc]? with
    | none =>
      rw [run_succ_of_outside stands] at ran
      cases ran
      exact stands
    | some instruction =>
      cases allowed : limitReached? options machine with
      | some limit =>
        rw [run_succ_of_limited stands allowed] at ran
        cases ran
      | none =>
        rw [run_succ_of_allowed stands allowed] at ran
        cases performed : (perform options instruction).run machine with
        | error error failed =>
          rw [performed] at ran
          cases ran
        | ok value next =>
          rw [performed] at ran
          exact ih ran

theorem limit_of_limitReached? {limit : Nat} (used : limitReached? options machine = some limit) :
    options.limit = some limit := by
  unfold limitReached? at used
  split at used
  · cases used
  · rename_i allowed
    split at used
    · rw [allowed, used]
    · cases used

/-- A run that ends in a fault was stopped by its limit, or at an instruction
that failed. -/
theorem failed_of_faulted {count : Nat} {fault : Fault}
    (ran : run options program count machine = (.faulted fault, reached)) :
    (∃ limit, fault.error = .instructionLimitExceeded limit ∧ options.limit = some limit) ∨
      ∃ earlier before instruction, run options program earlier machine = (.running, before) ∧
        program[before.pc]? = some instruction ∧ before.pc = fault.pc ∧
        (perform options instruction).run before = .error fault.error reached := by
  induction count generalizing machine with
  | zero => cases ran
  | succ count ih =>
    cases stands : program[machine.pc]? with
    | none =>
      rw [run_succ_of_outside stands] at ran
      cases ran
    | some instruction =>
      cases allowed : limitReached? options machine with
      | some limit =>
        rw [run_succ_of_limited stands allowed] at ran
        cases ran
        exact .inl ⟨limit, rfl, limit_of_limitReached? allowed⟩
      | none =>
        rw [run_succ_of_allowed stands allowed] at ran
        cases performed : (perform options instruction).run machine with
        | error error failed =>
          rw [performed] at ran
          cases ran
          exact .inr ⟨0, machine, instruction, rfl, stands, rfl, performed⟩
        | ok value next =>
          rw [performed] at ran
          rcases ih ran with limited | ⟨earlier, before, last, reaches, rest⟩
          · exact .inl limited
          · refine .inr ⟨earlier + 1, before, last, ?_, rest⟩
            rw [run_succ_of_allowed stands allowed, performed]
            exact reaches

end Runs

end Machine

end StackAsm
