import StackAsm.Proofs.BareAccess
import StackAsm.Proofs.Effect

/-!
# Runs with accesses that may fail

The same for a machine.  Loading and storing test no index here, moving past an
instruction demands that there is one, and the step count is a number of 64 bits.
An action that breaks one of these demands has no result at all.  Every
instruction keeps them on every machine, and every run does that is too short to
exhaust the step count.
-/

set_option autoImplicit false

namespace StackAsm.Bare

open Machine (Action Addresses Error Options Status finalMachine limitReached? localIndex
  argumentIndex peek push recordExecuting)

/-- An action that fails with an error, or has no result. -/
abbrev Act (α : Type) := ExceptT Error (StateT Machine Option) α

section Acts

variable {α β : Type}

def Act.result (act : Act α) (machine : Machine) : Option (Except Error α × Machine) :=
  act.run.run machine

def ofResult : EStateM.Result Error Machine α → Except Error α × Machine
  | .ok value reached => (.ok value, reached)
  | .error error reached => (.error error, reached)

def act (action : Action α) : Act α :=
  ExceptT.mk fun machine => some (ofResult (action.run machine))

def demand (condition : Machine → Prop) [DecidablePred condition] : Act Unit :=
  ExceptT.mk fun machine => if condition machine then some (.ok (), machine) else none

theorem result_act (action : Action α) (machine : Machine) :
    (act action).result machine = some (ofResult (action.run machine)) :=
  rfl

theorem result_bind (first : Act α) (next : α → Act β) (machine : Machine) :
    (first >>= next).result machine =
      match first.result machine with
      | none => none
      | some (.ok value, reached) => (next value).result reached
      | some (.error error, reached) => some (.error error, reached) := by
  change Option.bind (first.result machine) _ = _
  rcases first.result machine with _ | ⟨_ | _, _⟩ <;> rfl

theorem result_act_bind (action : Action α) (next : α → Act β) (machine : Machine) :
    (act action >>= next).result machine =
      match action.run machine with
      | .ok value reached => (next value).result reached
      | .error error reached => some (.error error, reached) := by
  rw [result_bind, result_act]
  cases action.run machine <;> rfl

theorem result_demand_bind {condition : Machine → Prop} [DecidablePred condition]
    (next : Unit → Act β) {machine : Machine} (holds : condition machine) :
    (demand condition >>= next).result machine = (next ()).result machine := by
  have meets : (demand condition).result machine = some (.ok (), machine) := if_pos holds
  rw [result_bind, meets]

end Acts

/-! ## Slots -/

def load (index : Nat) : Act Value := do
  demand fun machine => index < machine.depth
  act (Machine.load index)

def store (index : Nat) (value : Value) : Act Unit := do
  demand fun machine => index < machine.depth
  act (Machine.store index value)

def loadFrom (slot : Action Nat) : Act Unit := do
  let value ← load (← act slot)
  act (push value)

def storeTo (slot : Action Nat) : Act Unit := do
  let index ← act slot
  let value ← act peek
  store index value

/-- The effect of an instruction.  Four instructions look at a slot of the stack
by its index. -/
def step (options : Options) : Instruction → Act Unit
  | .get index => loadFrom (localIndex index)
  | .set index => storeTo (localIndex index)
  | .getArg index => loadFrom (argumentIndex index)
  | .setArg index => storeTo (argumentIndex index)
  | instruction => act (Machine.step options instruction)

section Slots

variable {address : Action Nat} (addresses : Addresses address) (machine : Machine)

include addresses

theorem result_loadFrom :
    (loadFrom address).result machine =
      some (ofResult ((Machine.loadFrom address).run machine)) := by
  rw [loadFrom, Machine.loadFrom, EStateM.run_bind, result_act_bind]
  rcases addresses machine with ⟨slot, inside, found⟩ | ⟨error, fails⟩
  · rw [found]
    dsimp only
    rw [result_bind, load, result_demand_bind _ inside, result_act, EStateM.run_bind]
    cases (Machine.load slot).run machine <;> rfl
  · rw [fails]
    rfl

theorem result_storeTo :
    (storeTo address).result machine =
      some (ofResult ((Machine.storeTo address).run machine)) := by
  rw [storeTo, Machine.storeTo, EStateM.run_bind, result_act_bind]
  rcases addresses machine with ⟨slot, inside, found⟩ | ⟨error, fails⟩
  · rw [found]
    dsimp only
    rw [result_act_bind, EStateM.run_bind, Machine.run_peek]
    cases machine.stack.back? with
    | none => rfl
    | some value =>
      dsimp only
      rw [store, result_demand_bind _ inside, result_act]
  · rw [fails]
    rfl

end Slots

/-- Every slot that an instruction loads or stores lies in the stack. -/
theorem result_step (options : Options) (instruction : Instruction) (machine : Machine) :
    (step options instruction).result machine =
      some (ofResult ((Machine.step options instruction).run machine)) := by
  cases instruction with
  | get index => exact result_loadFrom (Machine.addresses_localIndex index) machine
  | set index => exact result_storeTo (Machine.addresses_localIndex index) machine
  | getArg index => exact result_loadFrom (Machine.addresses_argumentIndex index) machine
  | setArg index => exact result_storeTo (Machine.addresses_argumentIndex index) machine
  | _ => rfl

/-! ## Runs -/

/-- Moves past an instruction.  Neither number may leave its range. -/
def advance (program : Program) : Act Unit := do
  demand fun machine => machine.pc < program.size ∧ machine.steps + 1 < pointerLimit
  act Machine.advance

def fetch (program : Program) : Act (Option Instruction) := do
  match program[(← get).pc]? with
  | none => return none
  | some instruction =>
    advance program
    return some instruction

def perform (options : Options) (program : Program) : Act Bool := do
  let pc := (← get).pc
  match ← fetch program with
  | none => return false
  | some instruction =>
    act (recordExecuting options pc instruction)
    step options instruction
    return true

def run (options : Options) (program : Program) : Nat → Machine → Option (Status × Machine)
  | 0, machine => some (.running, machine)
  | fuel + 1, machine =>
    if machine.hasNext program then
      match limitReached? options machine with
      | some limit => some (.faulted ⟨.instructionLimitExceeded limit, machine.pc⟩, machine)
      | none =>
        match (perform options program).result machine with
        | none => none
        | some (.error error, reached) => some (.faulted ⟨error, machine.pc⟩, reached)
        | some (.ok false, reached) => some (.halted, reached)
        | some (.ok true, reached) => run options program fuel reached
    else some (.halted, machine)

theorem result_get_bind {α : Type} (next : Machine → Act α) (machine : Machine) :
    (get >>= next).result machine = (next machine).result machine :=
  rfl

section Runs

variable {program : Program} {machine : Machine} {instruction : Instruction}
  (stands : program[machine.pc]? = some instruction)
  (counts : machine.steps + 1 < pointerLimit)

include stands counts

theorem result_fetch :
    (fetch program).result machine =
      some (.ok (some instruction),
        { machine with pc := machine.pc + 1, steps := machine.steps + 1 }) := by
  have inside : machine.pc < program.size := (Array.getElem?_eq_some_iff.mp stands).1
  have moves : (advance program).result machine =
      some (.ok (), { machine with pc := machine.pc + 1, steps := machine.steps + 1 }) := by
    rw [advance, result_demand_bind _ ⟨inside, counts⟩, result_act, Machine.run_advance]
    rfl
  rw [fetch, result_get_bind, stands]
  dsimp only
  rw [result_bind, moves]
  rfl

theorem result_perform (options : Options) :
    (perform options program).result machine =
      some (match (Machine.perform options instruction).run machine with
        | .ok _ reached => (.ok true, reached)
        | .error error reached => (.error error, reached)) := by
  rw [perform, result_get_bind, result_bind, result_fetch stands counts]
  simp only [Machine.perform, EStateM.run_bind, EStateM.run_get, Machine.run_advance,
    result_act_bind]
  cases (recordExecuting options machine.pc instruction).run
      { machine with pc := machine.pc + 1, steps := machine.steps + 1 } with
  | error error reached => rfl
  | ok value reached =>
    dsimp only
    rw [result_bind, result_step]
    cases (Machine.step options instruction).run reached <;> rfl

end Runs

/-- A run that does not exhaust the step count has a result. -/
theorem run_eq (options : Options) (program : Program) (fuel : Nat) (machine : Machine)
    (counts : machine.steps + fuel < pointerLimit) :
    run options program fuel machine = some (Machine.run options program fuel machine) := by
  induction fuel generalizing machine with
  | zero => rfl
  | succ fuel ih =>
    rw [run, Machine.hasNext]
    cases stands : program[machine.pc]? with
    | none =>
      have outside : ¬ machine.pc < program.size :=
        Nat.not_lt.mpr (Array.getElem?_eq_none_iff.mp stands)
      rw [Machine.run_succ_of_outside stands]
      simp [outside]
    | some instruction =>
      have inside : machine.pc < program.size := (Array.getElem?_eq_some_iff.mp stands).1
      simp only [inside, decide_true, if_true]
      cases allowed : limitReached? options machine with
      | some limit => rw [Machine.run_succ_of_limited stands allowed]
      | none =>
        have steps := Machine.steps_perform options instruction machine
        rw [Machine.run_succ_of_allowed stands allowed,
          result_perform stands (by omega) options]
        cases performed : (Machine.perform options instruction).run machine with
        | error error reached => rfl
        | ok value reached =>
          rw [performed] at steps
          have counted : reached.steps = machine.steps + 1 := steps
          exact ih reached (by omega)

theorem fetch_pc_cases (program : Program) (machine : Machine) :
    (finalMachine ((Machine.fetch program).run machine)).pc = machine.pc ∨
      machine.pc < program.size ∧
        (finalMachine ((Machine.fetch program).run machine)).pc = machine.pc + 1 := by
  rw [Machine.run_fetch]
  cases stands : program[machine.pc]? with
  | none => exact .inl rfl
  | some instruction =>
    have inside : machine.pc < program.size := (Array.getElem?_eq_some_iff.mp stands).1
    exact .inr ⟨inside, rfl⟩

/-- No access of assembling or of running goes out of range. -/
structure Safe : Prop where
  /-- With every marker, every text is assembled or rejected, and no access
  fails before that. -/
  assembles : ∀ (marker : Source.Marker) (text : String),
    (ofText marker text).run = some (Assembly.ofText marker text)
  /-- The program counter only moves past an instruction of the program. -/
  fetches : ∀ (program : Program) (machine : Machine),
    (finalMachine ((Machine.fetch program).run machine)).pc = machine.pc ∨
      machine.pc < program.size ∧
        (finalMachine ((Machine.fetch program).run machine)).pc = machine.pc + 1
  /-- On every machine, every instruction finds the slots it loads and stores. -/
  steps : ∀ (options : Options) (instruction : Instruction) (machine : Machine),
    (step options instruction).result machine =
      some (ofResult ((Machine.step options instruction).run machine))
  /-- A run has a result as long as the step count has 64 bits. -/
  runs : ∀ (options : Options) (program : Program) (fuel : Nat) (machine : Machine),
    machine.steps + fuel < pointerLimit →
      run options program fuel machine = some (Machine.run options program fuel machine)

theorem accesses_safe : Safe where
  assembles marker text := by
    rw [ofText_eq]
    rfl
  fetches := fetch_pc_cases
  steps := result_step
  runs := run_eq

theorem accesses_safe_secondProcedure :
    (ofText .semicolon "Proc f\nEnd\n\nProc f").run =
        some (.error (.duplicateProcedure "f" 4 1)) ∧
      (collectProcedures [] 0 (some ("f", 0)) .empty []).run = none ∧
      (load 1).result { stack := #[7] } = none := by
  refine ⟨?_, rfl, rfl⟩
  rw [accesses_safe.assembles]
  rfl

end StackAsm.Bare
