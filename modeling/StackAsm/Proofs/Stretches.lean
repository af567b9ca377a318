import StackAsm.Proofs.Relocation

/-!
# Stretches of a run

How a run without a limit goes on depends on where the machine stands: on its
program counter, its stack, its frames and its output, but neither on its step
count nor on an observer.  A stretch of a run leads from one stand to another.
Stretches are put together end to end, and a single instruction makes a stretch
by its effect.
-/

set_option autoImplicit false

namespace StackAsm.Machine

/-- What decides how a run goes on. -/
structure Stand where
  pc : Nat
  stack : Array Value
  frames : List Frame
  output : Array Value

def stand (machine : Machine) : Stand :=
  ⟨machine.pc, machine.stack, machine.frames, machine.output⟩

def Stand.after (stand : Stand) (steps : Nat) : Machine :=
  { pc := stand.pc
    steps := steps
    stack := stand.stack
    frames := stand.frames
    output := stand.output }

def Stand.next (stand : Stand) : Stand :=
  { stand with pc := stand.pc + 1 }

/-- Every machine that stands at `first` comes to stand at `last`, where its run
has the given status. -/
def Reaches (program : Program) (status : Status) (first last : Stand) : Prop :=
  ∀ (options : Options) (machine : Machine), options.limit = none → machine.stand = first →
    ∃ count reached, run options program count machine = (status, reached) ∧
      reached.stand = last

section Stretches

variable {program : Program} {status : Status} {first middle last : Stand}

theorem Reaches.trans (here : Reaches program .running first middle)
    (there : Reaches program status middle last) : Reaches program status first last := by
  intro options machine unlimited stands
  obtain ⟨count, met, ran, standsThere⟩ := here options machine unlimited stands
  obtain ⟨more, reached, ranOn, standsLast⟩ := there options met unlimited standsThere
  refine ⟨count + more, reached, ?_, standsLast⟩
  rw [run_add, ran]
  exact ranOn

instance : Trans (Reaches program .running) (Reaches program status)
    (Reaches program status) where
  trans := Reaches.trans

theorem halts_of_outside (outside : program[first.pc]? = none) :
    Reaches program .halted first first := by
  intro options machine _ stands
  subst stands
  exact ⟨1, machine, run_succ_of_outside outside 0, rfl⟩

def statusOf (pc : Nat) : Option Error → Status
  | none => .running
  | some error => .faulted ⟨error, pc⟩

theorem stand_of_unobserved {machine : Machine} {steps : Nat}
    (same : machine.unobserved = last.after steps) : machine.stand = last :=
  congrArg stand same

/-- The effect of the instruction at the program counter is a stretch. -/
theorem reaches_of_effect {instruction : Instruction} {failure : Option Error}
    (stands : program[first.pc]? = some instruction)
    (effect : ∀ steps, Effect (first.next.after steps) instruction failure (last.after steps)) :
    Reaches program (statusOf first.pc failure) first last := by
  intro options machine unlimited standsFirst
  subst standsFirst
  have allowed : limitReached? options machine = none := by
    rw [limitReached?, unlimited]
  have acts := (effect_perform options instruction machine).run_step rfl
  have given : (step {} instruction).run machine.moved =
      resultOf failure (last.after (machine.steps + 1)) := (effect _).run_step rfl
  obtain ⟨raises, leaves⟩ := resultOf_inj (acts.symm.trans given)
  refine ⟨1, finalMachine ((perform options instruction).run machine), ?_,
    stand_of_unobserved leaves⟩
  rw [run_succ_of_allowed stands allowed, ← raises]
  cases (perform options instruction).run machine <;> rfl

/-- A stretch that ends a run from the first instruction says how the program
ends, given enough time. -/
theorem Reaches.runProgram_stand (reaches : Reaches program status ⟨0, #[], [], #[]⟩ last)
    (stops : status ≠ .running) (options : Options) (unlimited : options.limit = none) :
    ∃ count, ∀ fuel ≥ count, (runProgram options fuel program).1 = status ∧
      (runProgram options fuel program).2.stand = last := by
  obtain ⟨count, reached, ran, standsLast⟩ :=
    reaches options (initial options program) unlimited rfl
  have stopped : (run options program count (initial options program)).1 ≠ .running := by
    rw [ran]
    exact stops
  have recorded : (recordEnd status reached).stand = last := by
    rw [← standsLast]
    cases status <;> rfl
  refine ⟨count, fun fuel enough => ?_⟩
  rw [runProgram, run_of_stopped stopped enough, ran]
  exact ⟨rfl, recorded⟩

end Stretches

/-! ## Single instructions -/

section Instructions

variable {program : Program} {first last : Stand} {instruction : Instruction}

theorem reaches_next (stands : program[first.pc]? = some instruction)
    (effect : ∀ steps, Effect (first.next.after steps) instruction none (last.after steps)) :
    Reaches program .running first last :=
  reaches_of_effect stands effect

theorem reaches_fault {error : Error} (stands : program[first.pc]? = some instruction)
    (effect : ∀ steps,
      Effect (first.next.after steps) instruction (some error) (last.after steps)) :
    Reaches program (.faulted ⟨error, first.pc⟩) first last :=
  reaches_of_effect stands effect

variable {pc index : Nat} {stack : Array Value} {frame : Frame} {rest : List Frame}
  {output : Array Value} {value : Value}

theorem reaches_getArg (stands : program[pc]? = some (.getArg index))
    (argument : index < frame.stackOffset)
    (holds : stack[frame.stackOffset - 1 - index]? = some value) :
    Reaches program .running ⟨pc, stack, frame :: rest, output⟩
      ⟨pc + 1, stack.push value, frame :: rest, output⟩ := by
  refine reaches_next stands fun steps => .loaded rfl ?_ holds
  have inside := (Array.getElem?_eq_some_iff.mp holds).1
  refine (run_argumentIndex _ _).trans ((if_pos argument).trans ?_)
  rw [run_checkIndex]
  exact if_pos inside

theorem reaches_set (stands : program[pc]? = some (.set index))
    (pointer : index + frame.stackOffset < pointerLimit)
    (inside : index + frame.stackOffset < stack.size) (top : stack.back? = some value) :
    Reaches program .running ⟨pc, stack, frame :: rest, output⟩
      ⟨pc + 1, stack.setIfInBounds (index + frame.stackOffset) value, frame :: rest, output⟩ := by
  refine reaches_next stands fun steps => .stored rfl ?_ top
  refine (run_localIndex _ _).trans ((if_pos pointer).trans ?_)
  rw [run_checkIndex]
  exact if_pos inside

theorem reaches_ret (stands : program[pc]? = some .ret) :
    Reaches program .running ⟨pc, stack, frame :: rest, output⟩
      ⟨frame.returnPointer, stack, rest, output⟩ :=
  reaches_next stands fun _ => .returned rfl

end Instructions

end StackAsm.Machine
