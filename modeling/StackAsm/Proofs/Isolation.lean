import StackAsm.Proofs.Effect

/-!
# Callees and their arguments

A call marks a boundary: the values below it are the caller's, and the topmost
of them are the arguments.  The boundary is a number that the frame remembers;
popping and writing arguments can reach below it.  As long as neither happens,
the values below stay as they were at the call, whatever is called from there,
and the arguments are found where the caller put them.
-/

set_option autoImplicit false

namespace StackAsm

def Instruction.setsArgument : Instruction → Bool
  | .setArg _ => true
  | _ => false

namespace Machine

/-! ## What an instruction pops and writes -/

/-- The number of values that an instruction pops.  A conditional jump consumes
the value it tests only when it is taken. -/
def popCount (machine : Machine) : Instruction → Nat
  | .pop => 1
  | .add | .sub | .mul | .div => 2
  | .jumpIfZero target => if (machine.takenTarget? (.jumpIfZero target)).isSome then 1 else 0
  | .jumpIfNonZero target =>
    if (machine.takenTarget? (.jumpIfNonZero target)).isSome then 1 else 0
  | _ => 0

def Pops (machine : Machine) (instruction : Instruction) (slot : Nat) : Prop :=
  slot < machine.depth ∧ machine.depth ≤ slot + machine.popCount instruction

instance (machine : Machine) (instruction : Instruction) (slot : Nat) :
    Decidable (machine.Pops instruction slot) :=
  inferInstanceAs (Decidable (_ ∧ _))

def slot? (address : Action Nat) (machine : Machine) : Option Nat :=
  match address.run machine with
  | .ok slot _ => some slot
  | .error _ _ => none

def writtenSlot? (machine : Machine) (instruction : Instruction) : Option Nat :=
  instruction.stores?.bind fun address => slot? address machine

theorem popCount_of_operation (machine : Machine) {instruction : Instruction}
    {operation : Int → Int → Int} (operates : instruction.operation? = some operation) :
    machine.popCount instruction = 2 := by
  cases instruction with
  | add | sub | mul | div => rfl
  | _ => cases operates

theorem popCount_of_taken {machine : Machine} {instruction : Instruction}
    {test : Value → Bool} {target : Nat} (branches : instruction.branch? = some (test, target))
    (taken : machine.stack.back?.any test = true) : machine.popCount instruction = 1 := by
  have leads := takenTarget?_of_branch machine branches
  rw [if_pos taken] at leads
  cases instruction with
  | jumpIfZero _ | jumpIfNonZero _ => simp [popCount, leads]
  | _ => cases branches

theorem getElem?_push_of_lt {below : Array Value} {slot : Nat} (under : slot < below.size)
    (value : Value) : (below.push value)[slot]? = below[slot]? := by
  have different : slot ≠ below.size := by omega
  rw [Array.getElem?_push, if_neg different]

theorem getElem?_of_operands {machine : Machine} {instruction : Instruction}
    {operation : Int → Int → Int} {left right : Value} {below : Array Value} {slot : Nat}
    (operates : instruction.operation? = some operation)
    (shape : machine.stack = (below.push left).push right) (inside : slot < machine.depth)
    (unpopped : ¬ machine.Pops instruction slot) :
    slot < below.size ∧ machine.stack[slot]? = below[slot]? := by
  have under : slot < below.size := by
    unfold Pops at unpopped
    rw [popCount_of_operation machine operates] at unpopped
    rw [depth, shape, Array.size_push, Array.size_push] at inside unpopped
    omega
  have covered : slot < (below.push left).size := by
    rw [Array.size_push]
    omega
  rw [shape, getElem?_push_of_lt covered, getElem?_push_of_lt under]
  exact ⟨under, rfl⟩

theorem getElem?_of_top {machine : Machine} {instruction : Instruction} {value : Value}
    {below : Array Value} {slot : Nat} (single : machine.popCount instruction = 1)
    (shape : machine.stack = below.push value) (inside : slot < machine.depth)
    (unpopped : ¬ machine.Pops instruction slot) : below[slot]? = machine.stack[slot]? := by
  have under : slot < below.size := by
    rw [Pops, single] at unpopped
    rw [depth, shape, Array.size_push] at inside unpopped
    omega
  rw [shape, getElem?_push_of_lt under]

/-- A slot keeps its value unless the instruction pops or writes it. -/
theorem Effect.slot_kept {machine reached : Machine} {instruction : Instruction}
    {failure : Option Error} {slot : Nat} (effect : Effect machine instruction failure reached)
    (inside : slot < machine.depth) (unpopped : ¬ machine.Pops instruction slot)
    (unwritten : machine.writtenSlot? instruction ≠ some slot) :
    reached.stack[slot]? = machine.stack[slot]? := by
  cases effect with
  | pushed value => exact getElem?_push_of_lt inside value
  | loaded _ _ _ => exact getElem?_push_of_lt inside _
  | popped shape => exact getElem?_of_top rfl shape inside unpopped
  | @branched _ test _ _ _ branches shape passed =>
    have taken : machine.stack.back?.any test = true := by
      rw [shape, Array.back?_push]
      exact passed
    exact getElem?_of_top (popCount_of_taken branches taken) shape inside unpopped
  | oneOperand operates shape =>
    rw [Pops, popCount_of_operation machine operates] at unpopped
    rw [depth, shape] at inside unpopped
    simp only [List.size_toArray, List.length_singleton] at inside unpopped
    omega
  | dividedByZero shape =>
    exact (getElem?_of_operands rfl shape inside unpopped).2.symm
  | overflowed operates shape =>
    exact (getElem?_of_operands operates shape inside unpopped).2.symm
  | @computed _ _ _ _ result below operates shape =>
    obtain ⟨under, kept⟩ := getElem?_of_operands operates shape inside unpopped
    rw [kept]
    exact getElem?_push_of_lt under result
  | @stored _ address written value stores found top =>
    have writes : machine.writtenSlot? instruction = some written := by
      simp [writtenSlot?, slot?, stores, found]
    have different : written ≠ slot := by
      intro same
      exact unwritten (same ▸ writes)
    exact Array.getElem?_setIfInBounds_ne different
  | _ => rfl

/-! ## Slots of local variables and of arguments -/

theorem slot?_localIndex (index : Nat) (machine : Machine) :
    slot? (localIndex index) machine =
      if index + machine.currentOffset < pointerLimit ∧
          index + machine.currentOffset < machine.depth then
        some (index + machine.currentOffset)
      else none := by
  rw [slot?, run_localIndex, run_checkIndex]
  by_cases pointer : index + machine.currentOffset < pointerLimit
  · by_cases inside : index + machine.currentOffset < machine.depth
    · simp [pointer, inside]
    · simp [pointer, inside]
  · simp [pointer]

theorem slot?_argumentIndex (index : Nat) (machine : Machine) :
    slot? (argumentIndex index) machine =
      match machine.frames with
      | [] => none
      | frame :: _ =>
        if index < frame.stackOffset ∧ frame.stackOffset - 1 - index < machine.depth then
          some (frame.stackOffset - 1 - index)
        else none := by
  rw [slot?, run_argumentIndex]
  cases machine.frames with
  | nil => rfl
  | cons frame rest =>
    dsimp only
    rw [run_checkIndex]
    by_cases named : index < frame.stackOffset
    · by_cases inside : frame.stackOffset - 1 - index < machine.depth
      · simp [named, inside]
      · simp [named, inside]
    · simp [named]

theorem writtenSlot?_moved (machine : Machine) (instruction : Instruction) :
    machine.moved.writtenSlot? instruction = machine.writtenSlot? instruction := by
  cases instruction with
  | set index =>
    simp only [writtenSlot?, Instruction.stores?, Option.bind_some, slot?_localIndex]
    rfl
  | setArg index =>
    simp only [writtenSlot?, Instruction.stores?, Option.bind_some, slot?_argumentIndex]
    rfl
  | _ => rfl

theorem pops_moved (machine : Machine) (instruction : Instruction) (slot : Nat) :
    machine.moved.Pops instruction slot ↔ machine.Pops instruction slot := by
  cases instruction <;> exact Iff.rfl

/-! ## One instruction above a boundary -/

def callFrame (calling : Machine) : Frame :=
  ⟨calling.pc + 1, calling.depth⟩

/-- An instruction pops no slot below a boundary and sets no argument there. -/
structure Spares (boundary : Nat) (machine : Machine) (instruction : Instruction) : Prop where
  pops : ∀ slot < boundary, ¬ machine.Pops instruction slot
  arguments : instruction.setsArgument = true →
    ∀ slot < boundary, machine.writtenSlot? instruction ≠ some slot

instance (boundary : Nat) (machine : Machine) (instruction : Instruction) :
    Decidable (Spares boundary machine instruction) :=
  decidable_of_iff
    ((∀ slot < boundary, ¬ machine.Pops instruction slot) ∧
      (instruction.setsArgument = true →
        ∀ slot < boundary, machine.writtenSlot? instruction ≠ some slot))
    ⟨fun both => ⟨both.1, both.2⟩, fun spares => ⟨spares.pops, spares.arguments⟩⟩

structure Guarded (calling machine : Machine) : Prop where
  below : ∀ slot < calling.depth, machine.stack[slot]? = calling.stack[slot]?
  entered : ∃ since, machine.frames = since ++ calling.callFrame :: calling.frames ∧
    ∀ frame ∈ since, calling.depth ≤ frame.stackOffset

section Guarded

variable {calling machine : Machine} (guarded : Guarded calling machine)

include guarded

theorem Guarded.depth_le : calling.depth ≤ machine.depth := by
  apply Nat.le_of_not_lt
  intro shallow
  have kept := guarded.below machine.depth shallow
  have beyond : machine.stack[machine.depth]? = none := Array.getElem?_eq_none (Nat.le_refl _)
  rw [beyond] at kept
  have reaches : calling.depth ≤ machine.depth := Array.getElem?_eq_none_iff.mp kept.symm
  omega

theorem Guarded.offset_le : calling.depth ≤ machine.currentOffset := by
  obtain ⟨since, frames, above⟩ := guarded.entered
  unfold currentOffset
  cases since with
  | nil =>
    rw [frames]
    exact Nat.le_refl _
  | cons frame rest =>
    rw [frames]
    exact above frame List.mem_cons_self

/-- A local variable lies above the boundary, whichever call it belongs to. -/
theorem Guarded.local_le {index slot : Nat}
    (writes : machine.writtenSlot? (.set index) = some slot) : calling.depth ≤ slot := by
  have offset := guarded.offset_le
  simp only [writtenSlot?, Instruction.stores?, Option.bind_some, slot?_localIndex] at writes
  split at writes
  · cases writes
    omega
  · cases writes

theorem Guarded.unwritten {instruction : Instruction} {slot : Nat}
    (spares : Spares calling.depth machine instruction) (under : slot < calling.depth) :
    machine.writtenSlot? instruction ≠ some slot := by
  intro writes
  cases instruction with
  | set index =>
    have above := guarded.local_le writes
    omega
  | setArg index => exact spares.arguments rfl slot under writes
  | _ => cases writes

/-- An instruction that spares the values below the boundary keeps them, failing
or not. -/
theorem Guarded.step {options : Options} {instruction : Instruction}
    (spares : Spares calling.depth machine instruction)
    (held : calling.callFrame :: calling.frames <:+
      (finalMachine ((perform options instruction).run machine)).frames) :
    Guarded calling (finalMachine ((perform options instruction).run machine)) := by
  have effect := effect_perform options instruction machine
  have transfer := transfer_perform options instruction machine
  have deep := guarded.depth_le
  obtain ⟨since, frames, above⟩ := guarded.entered
  generalize finalMachine ((perform options instruction).run machine) = reached
    at effect transfer held ⊢
  constructor
  · intro slot under
    have inside : slot < machine.moved.depth := Nat.lt_of_lt_of_le under deep
    have unpopped : ¬ machine.moved.Pops instruction slot := by
      rw [pops_moved]
      exact spares.pops slot under
    have unwritten : machine.moved.writtenSlot? instruction ≠ some slot := by
      rw [writtenSlot?_moved]
      exact guarded.unwritten spares under
    exact (effect.slot_kept inside unpopped unwritten).trans (guarded.below slot under)
  · cases transfer with
    | next _ _ same | jump _ same => exact ⟨since, same.trans frames, above⟩
    | call _ pushed =>
      refine ⟨⟨machine.pc + 1, machine.depth⟩ :: since, ?_, ?_⟩
      · rw [pushed, frames, List.cons_append]
      · exact List.forall_mem_cons.mpr ⟨deep, above⟩
    | ret _ frame popped =>
      cases since with
      | nil =>
        rw [frames, List.nil_append] at popped
        have rest : calling.frames = reached.frames := (List.cons.inj popped).2
        have shorter := held.length_le
        rw [← rest, List.length_cons] at shorter
        omega
      | cons latest earlier =>
        rw [frames, List.cons_append] at popped
        refine ⟨earlier, (List.cons.inj popped).2.symm, ?_⟩
        exact fun frame member => above frame (List.mem_cons_of_mem _ member)

end Guarded

/-! ## Arguments -/

section Arguments

variable {options : Options} {program : Program} {machine : Machine} {frame : Frame}
  {rest : List Frame} {index : Nat}

theorem run_getArg (stands : program[machine.pc]? = some (.getArg index))
    (allowed : limitReached? options machine = none) (pending : machine.frames = frame :: rest)
    (named : index < frame.stackOffset) {value : Value}
    (holds : machine.stack[frame.stackOffset - 1 - index]? = some value) :
    ∃ next, run options program 1 machine = (.running, next) ∧
      next.stack = machine.stack.push value := by
  have inside : frame.stackOffset - 1 - index < machine.depth :=
    (Array.getElem?_eq_some_iff.mp holds).1
  rw [run_succ_of_allowed stands allowed, run_perform, step, loadFrom]
  simp only [EStateM.run_bind, run_argumentIndex, fetched_frames, pending, named, if_true,
    run_checkIndex, fetched_depth, inside, run_load, fetched_stack, holds, run_push]
  exact ⟨_, rfl, rfl⟩

theorem run_getArg_fails (stands : program[machine.pc]? = some (.getArg index))
    (allowed : limitReached? options machine = none) (pending : machine.frames = frame :: rest)
    (unnamed : frame.stackOffset ≤ index) :
    (run options program 1 machine).1 =
      .faulted ⟨.argumentOutOfBounds index frame.stackOffset, machine.pc⟩ := by
  have beyond : ¬ index < frame.stackOffset := by omega
  rw [run_succ_of_allowed stands allowed, run_perform, step, loadFrom]
  simp only [EStateM.run_bind, run_argumentIndex, fetched_frames, pending, beyond, if_false]

end Arguments

/-! ## Segments of a run -/

/-- The first `count` steps after a call: its frame stays on the call stack, and
every instruction performed spares the values below. -/
structure Segment (options : Options) (program : Program) (calling entered : Machine)
    (count : Nat) : Prop where
  held : ∀ done ≤ count, calling.callFrame :: calling.frames <:+
    (run options program done entered).2.frames
  spared : ∀ done < count,
    ∀ instruction ∈ next? options program (run options program done entered),
      Spares calling.depth (run options program done entered).2 instruction

instance (options : Options) (program : Program) (calling entered : Machine) (count : Nat) :
    Decidable (Segment options program calling entered count) :=
  decidable_of_iff
    ((∀ done ≤ count, calling.callFrame :: calling.frames <:+
        (run options program done entered).2.frames) ∧
      ∀ done < count, ∀ instruction ∈ next? options program (run options program done entered),
        Spares calling.depth (run options program done entered).2 instruction)
    ⟨fun both => ⟨both.1, both.2⟩, fun segment => ⟨segment.held, segment.spared⟩⟩

/-- What a callee leaves to its caller, and what it finds. -/
structure Isolated (options : Options) (program : Program) (calling machine : Machine) :
    Prop where
  below : machine.stack.take calling.depth = calling.stack
  entered : ∃ since, machine.frames = since ++ calling.callFrame :: calling.frames ∧
    ∀ frame ∈ since, calling.depth ≤ frame.stackOffset
  locals : ∀ index slot, machine.writtenSlot? (.set index) = some slot → calling.depth ≤ slot
  argument : machine.frames = calling.callFrame :: calling.frames →
    ∀ index < calling.depth, program[machine.pc]? = some (.getArg index) →
      limitReached? options machine = none →
        ∃ value next, calling.stack[calling.depth - 1 - index]? = some value ∧
          run options program 1 machine = (.running, next) ∧
            next.stack = machine.stack.push value
  noArgument : machine.frames = calling.callFrame :: calling.frames →
    ∀ index ≥ calling.depth, program[machine.pc]? = some (.getArg index) →
      limitReached? options machine = none →
        (run options program 1 machine).1 =
          .faulted ⟨.argumentOutOfBounds index calling.depth, machine.pc⟩

theorem Guarded.isolated {calling machine : Machine} (guarded : Guarded calling machine)
    (options : Options) (program : Program) : Isolated options program calling machine where
  below := by
    have deep : calling.depth ≤ machine.stack.size := guarded.depth_le
    apply Array.ext_getElem?
    intro slot
    rw [Array.take_eq_extract, Array.getElem?_extract, Nat.zero_add, Nat.sub_zero,
      Nat.min_eq_left deep]
    by_cases under : slot < calling.depth
    · rw [if_pos under]
      exact guarded.below slot under
    · rw [if_neg under]
      have beyond : calling.stack.size ≤ slot := Nat.le_of_not_lt under
      exact (Array.getElem?_eq_none beyond).symm
  entered := guarded.entered
  locals _ _ writes := guarded.local_le writes
  argument := by
    intro innermost index named stands allowed
    have inside : calling.depth - 1 - index < calling.depth := by omega
    have passed : calling.stack[calling.depth - 1 - index]? =
        some calling.stack[calling.depth - 1 - index] := Array.getElem?_eq_getElem inside
    have holds := (guarded.below _ inside).trans passed
    obtain ⟨next, ran, pushed⟩ := run_getArg stands allowed innermost named holds
    exact ⟨_, next, passed, ran, pushed⟩
  noArgument innermost _ unnamed stands allowed :=
    run_getArg_fails stands allowed innermost unnamed

section Segments

variable {options : Options} {program : Program} {calling entered : Machine}

theorem guarded_of_call {target : Nat} (stands : program[calling.pc]? = some (.call target))
    (called : run options program 1 calling = (.running, entered)) :
    Guarded calling entered := by
  cases allowed : limitReached? options calling with
  | some limit =>
    rw [run_succ_of_limited stands allowed] at called
    cases called
  | none =>
    rw [run_succ_of_allowed stands allowed, run_perform, run_call] at called
    cases called
    constructor
    · intro slot _
      simp
    · exact ⟨[], by simp [callFrame], by simp⟩

theorem guarded_of_segment {count : Nat} (start : Guarded calling entered)
    (segment : Segment options program calling entered count) (done : Nat) (within : done ≤ count) :
    Guarded calling (run options program done entered).2 := by
  induction done with
  | zero => exact start
  | succ done ih =>
    have before := ih (by omega)
    rcases run_succ_cases options program done entered with
      same | ⟨machine, instruction, ran, stands, allowed, performed⟩
    · rw [same]
      exact before
    · have performs : instruction ∈ next? options program (run options program done entered) := by
        rw [ran, next?, allowed]
        exact stands
      have spares := segment.spared done (by omega) instruction performs
      have held := segment.held (done + 1) within
      rw [performed] at held ⊢
      rw [ran] at before spares
      exact before.step spares held

end Segments

/-- As long as the frame of a call is pending and no instruction pops, or sets as
an argument, a value below that call, the callee and all it calls are isolated
from the caller. -/
theorem callee_isolated (options : Options) (program : Program) (calling entered : Machine)
    (target count : Nat) (stands : program[calling.pc]? = some (.call target))
    (called : run options program 1 calling = (.running, entered))
    (segment : Segment options program calling entered count) :
    ∀ done ≤ count, Isolated options program calling (run options program done entered).2 := by
  intro done within
  have start := guarded_of_call stands called
  exact (guarded_of_segment start segment done within).isolated options program

def localCopies : Program :=
  #[.push 10, .push 20, .call 4, .jump 12, .push 7, .getArg 0, .set 0, .call 9, .ret,
    .push 1, .set 0, .ret]

theorem callee_isolated_localCopies :
    ∃ calling entered, run {} localCopies 2 (initial {} localCopies) = (.running, calling) ∧
      calling.stack = #[10, 20] ∧ run {} localCopies 1 calling = (.running, entered) ∧
      Segment {} localCopies calling entered 7 ∧
      ∀ done ≤ 7, Isolated {} localCopies calling (run {} localCopies done entered).2 := by
  have segment : Segment {} localCopies
      (run {} localCopies 2 (initial {} localCopies)).2
      (run {} localCopies 3 (initial {} localCopies)).2 7 := by
    decide
  exact ⟨_, _, rfl, rfl, rfl, segment, callee_isolated {} localCopies _ _ 4 7 rfl rfl segment⟩

end Machine

end StackAsm
