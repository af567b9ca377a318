import StackAsm.Proofs.Effect

/-!
# Exact failures

Whether an instruction fails, and with which error, is decided by the machine
that meets it: by the depth of its stack, its two topmost values and its
innermost frame.  `failure?` says how, in exact numbers and without performing
anything.  An instruction fails exactly as said there, and arithmetic that does
not fail pushes the exact result.
-/

set_option autoImplicit false

namespace StackAsm

namespace Value

def InRange (n : Int) : Prop :=
  -0x8000000000000000 ≤ n ∧ n ≤ 0x7fffffffffffffff

instance (n : Int) : Decidable (InRange n) :=
  inferInstanceAs (Decidable (_ ∧ _))

theorem inRange_toInt (value : Value) : InRange value.toInt := by
  have lower := value.le_toInt
  have upper := value.toInt_lt
  constructor <;> omega

theorem ofInt?_eq_none_iff {n : Int} : ofInt? n = none ↔ ¬ InRange n := by
  unfold ofInt? InRange
  split
  · rename_i fits
    simp only [reduceCtorEq, false_iff, Decidable.not_not]
    omega
  · rename_i wide
    simp only [true_iff]
    omega

theorem ofInt?_eq_some_iff {n : Int} {value : Value} : ofInt? n = some value ↔ value.toInt = n := by
  constructor
  · intro exact
    unfold ofInt? at exact
    split at exact
    · rename_i fits
      cases exact
      exact Int64.toInt_ofInt_of_le (by omega) (by omega)
    · cases exact
  · intro same
    subst same
    have fits := value.inRange_toInt
    unfold InRange at fits
    have inside : -0x8000000000000000 ≤ value.toInt ∧ value.toInt < 0x8000000000000000 := by omega
    rw [ofInt?, if_pos inside, Int64.ofInt_toInt]

end Value

namespace Machine

/-! ## The errors of instructions -/

def rangeFailure? (result : Int) : Option Error :=
  if Value.InRange result then none else some .arithmeticOverflow

def operandFailure? (machine : Machine) (operation : Value → Value → Option Error) :
    Option Error :=
  match machine.stack.toList.reverse with
  | right :: left :: _ => operation left right
  | _ => some .stackUnderflow

/-- The error of an access to a local slot.  An index so large that its sum with
the frame's offset is no pointer is reported as it stands. -/
def localFailure? (machine : Machine) (index : Nat) : Option Error :=
  let absolute := index + machine.currentOffset
  if absolute < machine.depth then none
  else if absolute < pointerLimit then some (.indexOutOfBounds absolute machine.depth)
  else some (.indexOutOfBounds index machine.depth)

/-- The error of an access to an argument.  The callee may have popped it. -/
def argumentFailure? (machine : Machine) (index : Nat) : Option Error :=
  match machine.frames with
  | [] => some .noActiveFrame
  | frame :: _ =>
    if frame.stackOffset ≤ index then some (.argumentOutOfBounds index frame.stackOffset)
    else if machine.depth ≤ frame.stackOffset - 1 - index then
      some (.indexOutOfBounds (frame.stackOffset - 1 - index) machine.depth)
    else none

/-- The error with which an instruction fails, if it does. -/
def failure? (machine : Machine) : Instruction → Option Error
  | .pop | .print | .jumpIfZero _ | .jumpIfNonZero _ =>
    if machine.depth = 0 then some .stackUnderflow else none
  | .add => machine.operandFailure? fun left right => rangeFailure? (left.toInt + right.toInt)
  | .sub => machine.operandFailure? fun left right => rangeFailure? (left.toInt - right.toInt)
  | .mul => machine.operandFailure? fun left right => rangeFailure? (left.toInt * right.toInt)
  | .div => machine.operandFailure? fun left right =>
    if right = 0 then some .divisionByZero else rangeFailure? (left.toInt.tdiv right.toInt)
  | .get index | .set index => machine.localFailure? index
  | .getArg index | .setArg index => machine.argumentFailure? index
  | .ret => if machine.frames = [] then some .callStackUnderflow else none
  | .push _ | .jump _ | .call _ | .noop => none

theorem rangeFailure?_of_none {result : Int} (wide : Value.ofInt? result = none) :
    rangeFailure? result = some .arithmeticOverflow :=
  if_neg (Value.ofInt?_eq_none_iff.mp wide)

theorem rangeFailure?_of_some {result : Int} {value : Value}
    (exact : Value.ofInt? result = some value) : rangeFailure? result = none := by
  have same := Value.ofInt?_eq_some_iff.mp exact
  exact if_pos (same ▸ value.inRange_toInt)

section Operands

variable {machine : Machine} {operation : Value → Value → Option Error}

theorem operandFailure?_of_operands {below : Array Value} {left right : Value}
    (shape : machine.stack = (below.push left).push right) :
    machine.operandFailure? operation = operation left right := by
  simp [operandFailure?, shape]

theorem operandFailure?_of_shallow (shallow : machine.depth < 2) :
    machine.operandFailure? operation = some .stackUnderflow := by
  rcases stack_cases machine.stack with empty | ⟨upper, right, shape⟩
  · simp [operandFailure?, empty]
  · rcases stack_cases upper with rfl | ⟨below, left, rfl⟩
    · simp [operandFailure?, shape]
    · rw [depth, shape, Array.size_push, Array.size_push] at shallow
      omega

end Operands

/-! ## Addresses -/

theorem raised?_localIndex {machine : Machine} (addressable : machine.depth ≤ pointerLimit)
    (index : Nat) :
    raised? ((localIndex index).run machine) = machine.localFailure? index := by
  rw [run_localIndex, run_checkIndex, localFailure?]
  by_cases inside : index + machine.currentOffset < machine.depth
  · have pointer : index + machine.currentOffset < pointerLimit := by omega
    simp [inside, pointer, raised?]
  · by_cases pointer : index + machine.currentOffset < pointerLimit
    · simp [inside, pointer, raised?]
    · simp [inside, pointer, raised?]

theorem raised?_argumentIndex (machine : Machine) (index : Nat) :
    raised? ((argumentIndex index).run machine) = machine.argumentFailure? index := by
  rw [run_argumentIndex, argumentFailure?]
  cases machine.frames with
  | nil => rfl
  | cons frame rest =>
    dsimp only
    rw [run_checkIndex]
    by_cases named : index < frame.stackOffset
    · have inFrame : ¬ frame.stackOffset ≤ index := by omega
      by_cases inside : frame.stackOffset - 1 - index < machine.depth
      · have reached : ¬ machine.depth ≤ frame.stackOffset - 1 - index := by omega
        simp [named, inFrame, inside, reached, raised?]
      · have beyond : machine.depth ≤ frame.stackOffset - 1 - index := by omega
        simp [named, inFrame, inside, beyond, raised?]
    · have unnamed : frame.stackOffset ≤ index := by omega
      simp [named, unnamed, raised?]

theorem raised?_address {machine : Machine} (addressable : machine.depth ≤ pointerLimit)
    {instruction : Instruction} {address : Action Nat}
    (addresses : instruction.loads? = some address ∨ instruction.stores? = some address) :
    raised? (address.run machine) = machine.failure? instruction := by
  rcases address_cases addresses with ⟨index, rfl, rfl | rfl⟩ | ⟨index, rfl, rfl | rfl⟩
  · exact raised?_localIndex addressable index
  · exact raised?_localIndex addressable index
  · exact raised?_argumentIndex machine index
  · exact raised?_argumentIndex machine index

section Found

variable {machine found : Machine} {instruction : Instruction} {address : Action Nat} {slot : Nat}

theorem inside_of_address
    (addresses : instruction.loads? = some address ∨ instruction.stores? = some address)
    (finds : address.run machine = .ok slot found) : slot < found.depth := by
  rcases addresses_of_instruction addresses machine with ⟨other, inside, same⟩ | ⟨error, fails⟩
  · rw [finds] at same
    cases same
    exact inside
  · rw [finds] at fails
    cases fails

theorem load_of_inside (inside : slot < found.depth) :
    ∃ value, (load slot).run found = .ok value found := by
  rw [run_load, Array.getElem?_eq_getElem inside]
  exact ⟨_, rfl⟩

theorem store_of_inside (inside : slot < found.depth) :
    ∃ value next, peek.run found = .ok value found ∧ (store slot value).run found = .ok () next := by
  rcases stack_cases found.stack with empty | ⟨below, value, shape⟩
  · rw [depth, empty] at inside
    cases inside
  · have top : peek.run found = .ok value found := by rw [run_peek, shape, Array.back?_push]
    have written := run_store slot value found
    rw [Array.getElem?_eq_getElem inside] at written
    exact ⟨value, _, top, written⟩

end Found

/-! ## Every effect is the one foretold -/

section Foretold

variable {machine reached : Machine} {instruction : Instruction} {failure : Option Error}

theorem failure?_of_operands {operation : Int → Int → Int} {below : Array Value}
    {left right : Value} (operates : instruction.operation? = some operation)
    (shape : machine.stack = (below.push left).push right)
    (divisible : instruction = .div → right ≠ 0) :
    machine.failure? instruction = rangeFailure? (operation left.toInt right.toInt) := by
  cases instruction with
  | add | sub | mul =>
    cases operates
    exact operandFailure?_of_operands shape
  | div =>
    cases operates
    rw [failure?, operandFailure?_of_operands shape, if_neg (divisible rfl)]
  | _ => cases operates

theorem failure?_of_shallow {operation : Int → Int → Int}
    (operates : instruction.operation? = some operation) (shallow : machine.depth < 2) :
    machine.failure? instruction = some .stackUnderflow := by
  cases instruction with
  | add | sub | mul | div => exact operandFailure?_of_shallow shallow
  | _ => cases operates

theorem failure?_of_branch {test : Value → Bool} {target : Nat} {value : Value}
    {below : Array Value} (branches : instruction.branch? = some (test, target))
    (shape : machine.stack = below.push value) : machine.failure? instruction = none := by
  cases instruction with
  | jumpIfZero _ | jumpIfNonZero _ => simp [failure?, depth, shape]
  | _ => cases branches

theorem failure?_of_empty (needs : instruction.needsTop = true) (empty : machine.stack = #[]) :
    machine.failure? instruction = some .stackUnderflow := by
  have shallow : machine.depth = 0 := by rw [depth, empty, List.size_toArray, List.length_nil]
  cases instruction with
  | pop | print | jumpIfZero _ | jumpIfNonZero _ => exact if_pos shallow
  | add | sub | mul | div => exact operandFailure?_of_shallow (by omega)
  | _ => cases needs

theorem Effect.failure_eq (effect : Effect machine instruction failure reached)
    (addressable : machine.depth ≤ pointerLimit) : failure = machine.failure? instruction := by
  cases effect with
  | idle | pushed | jumped | called => rfl
  | starved needs empty => exact (failure?_of_empty needs empty).symm
  | popped shape | printed shape => simp [failure?, depth, shape]
  | oneOperand operates shape =>
    have shallow : machine.depth < 2 := by simp [depth, shape]
    exact (failure?_of_shallow operates shallow).symm
  | dividedByZero shape => rw [failure?, operandFailure?_of_operands shape, if_pos rfl]
  | overflowed operates shape divisible wide =>
    rw [failure?_of_operands operates shape divisible, rangeFailure?_of_none wide]
  | computed operates shape divisible exact =>
    rw [failure?_of_operands operates shape divisible, rangeFailure?_of_some exact]
  | branched branches shape | stayed branches shape => exact (failure?_of_branch branches shape).symm
  | misaddressed addresses fails =>
    rw [← raised?_address addressable addresses, fails]
    rfl
  | loaded loads found =>
    rw [← raised?_address addressable (.inl loads), found]
    rfl
  | stored stores found =>
    rw [← raised?_address addressable (.inr stores), found]
    rfl
  | unmatched none => simp [failure?, none]
  | returned pending => simp [failure?, pending]

/-- Arithmetic that succeeds replaces its operands by the exact result. -/
theorem Effect.exact {operation : Int → Int → Int} {below : Array Value} {left right : Value}
    (effect : Effect machine instruction none reached)
    (operates : instruction.operation? = some operation)
    (shape : machine.stack = (below.push left).push right) :
    ∃ result, reached.stack = below.push result ∧
      result.toInt = operation left.toInt right.toInt := by
  cases effect with
  | computed performs found _ computes =>
    obtain rfl := Option.some.inj (performs.symm.trans operates)
    obtain ⟨rfl, same⟩ := Array.push_eq_push.mp (found.symm.trans shape)
    obtain ⟨rfl, rfl⟩ := Array.push_eq_push.mp same
    exact ⟨_, rfl, Value.ofInt?_eq_some_iff.mp computes⟩
  | branched other | stayed other | loaded other | stored other =>
    cases instruction with
    | add | sub | mul | div => cases other
    | _ => cases operates
  | _ => cases operates

end Foretold

/-! ## What instructions do -/

section Results

variable {α : Type} {result : EStateM.Result Error Machine α}

theorem raised?_eq_some_iff {error : Error} :
    raised? result = some error ↔ ∃ reached, result = .error error reached := by
  cases result with
  | ok value reached => simp [raised?]
  | error other reached => simp [raised?]

theorem raised?_eq_none_iff : raised? result = none ↔ ∃ value reached, result = .ok value reached := by
  cases result with
  | ok value reached => simp [raised?]
  | error error reached => simp [raised?]

end Results

/-- An instruction does to a machine what the exact numbers say. -/
structure ExactStep (options : Options) (instruction : Instruction) (machine : Machine) :
    Prop where
  fails : ∀ error,
    (∃ reached, (step options instruction).run machine = .error error reached) ↔
      machine.failure? instruction = some error
  succeeds : (∃ next, (step options instruction).run machine = .ok () next) ↔
    machine.failure? instruction = none
  computes : ∀ operation, instruction.operation? = some operation →
    ∀ (below : Array Value) (left right : Value),
      machine.stack = (below.push left).push right → machine.failure? instruction = none →
        ∃ (result : Value) (next : Machine),
          (step options instruction).run machine = .ok () next ∧
            next.stack = below.push result ∧ result.toInt = operation left.toInt right.toInt
  loads : ∀ address, instruction.loads? = some address →
    ∀ slot found, address.run machine = .ok slot found →
      ∃ value, (load slot).run found = .ok value found
  stores : ∀ address, instruction.stores? = some address →
    ∀ slot found, address.run machine = .ok slot found →
      ∃ value next, peek.run found = .ok value found ∧ (store slot value).run found = .ok () next

/-- Every instruction fails exactly as foretold and computes exactly, on every
machine whose stack can be addressed by pointers. -/
theorem step_exact (options : Options) (instruction : Instruction) (machine : Machine)
    (addressable : machine.depth ≤ pointerLimit) : ExactStep options instruction machine := by
  have effect := effect_step options instruction machine
  have raises : raised? ((step options instruction).run machine) = machine.failure? instruction :=
    effect.failure_eq addressable
  have done : (∃ next, (step options instruction).run machine = .ok () next) ↔
      machine.failure? instruction = none := by
    rw [← raises, raised?_eq_none_iff]
    exact ⟨fun ⟨next, ran⟩ => ⟨(), next, ran⟩, fun ⟨_, next, ran⟩ => ⟨next, ran⟩⟩
  constructor
  · intro error
    rw [← raises, raised?_eq_some_iff]
  · exact done
  · intro operation operates below left right shape sound
    obtain ⟨next, ran⟩ := done.mpr sound
    rw [ran] at effect
    obtain ⟨result, stack, exact⟩ := effect.exact operates shape
    exact ⟨result, next, ran, stack, exact⟩
  · intro address loads slot found finds
    exact load_of_inside (inside_of_address (.inl loads) finds)
  · intro address stores slot found finds
    exact store_of_inside (inside_of_address (.inr stores) finds)

theorem step_exact_largestIndex :
    ExactStep {} (.get 0xffffffffffffffff) { stack := #[4, 9], frames := [⟨0, 1⟩] } ∧
      ({ stack := #[4, 9], frames := [⟨0, 1⟩] } : Machine).failure? (.get 0xffffffffffffffff) =
        some (.indexOutOfBounds 0xffffffffffffffff 2) :=
  ⟨step_exact {} _ _ (by decide), by decide⟩

end Machine

end StackAsm
