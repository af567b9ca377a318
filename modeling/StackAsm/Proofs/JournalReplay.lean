import Mathlib.Data.List.TakeWhile
import StackAsm.Proofs.Effect

/-!
# Replaying the journal

The journal of a traced run says what was pushed, popped and stored, and shows
the stack now and then.  Replaying these events over an empty stack checks each
of them: a value that is popped or overwritten has to be there, and a stack that
is shown has to be the one replayed.  No journal of a run fails the check, and
the replay ends with the stack that the run left, also where an instruction
failed after it had popped its operands.
-/

set_option autoImplicit false

namespace StackAsm

namespace Event

def showsSlot : Event → Bool
  | .slotShown _ _ => true
  | _ => false

def slotsOf (stack : Array Value) : List Event :=
  (stack.toList.mapIdx fun index value => Event.slotShown index value).reverse

/-- What an event of a journal makes of a stack, if it can have happened there.
The values of a stack that is shown are found in the events after it. -/
def replay (stack : Array Value) (later : List Event) : Event → Option (Array Value)
  | .pushed value => some (stack.push value)
  | .popped value => if stack.back? = some value then some stack.pop else none
  | .stored index old new =>
    if stack[index]? = some old then some (stack.setIfInBounds index new) else none
  | .stackShown depth _ =>
    if depth = stack.size ∧ later.takeWhile showsSlot = slotsOf stack then some stack else none
  | _ => some stack

end Event

def replay : List Event → Array Value → Option (Array Value)
  | [], stack => some stack
  | event :: later, stack => (event.replay stack later).bind (replay later)

/-! ## Journals in parts -/

theorem showsSlot_of_mem_slotsOf {stack : Array Value} {event : Event}
    (member : event ∈ Event.slotsOf stack) : event.showsSlot = true := by
  simp only [Event.slotsOf, List.mem_reverse, List.mem_mapIdx] at member
  obtain ⟨index, inside, rfl⟩ := member
  rfl

theorem takeWhile_of_plain {events : List Event}
    (plain : ∀ event ∈ events, event.showsSlot = false) : events.takeWhile Event.showsSlot = [] := by
  cases events with
  | nil => rfl
  | cons event later => simp [plain event List.mem_cons_self]

theorem takeWhile_append_of_apart {first second : List Event}
    (apart : second.takeWhile Event.showsSlot = []) :
    (first ++ second).takeWhile Event.showsSlot = first.takeWhile Event.showsSlot := by
  rw [List.takeWhile_append]
  split
  · rename_i whole
    rw [apart, List.append_nil]
    exact ((List.takeWhile_prefix _).eq_of_length whole).symm
  · rfl

theorem replay_append {first second : List Event}
    (apart : second.takeWhile Event.showsSlot = []) (stack : Array Value) :
    replay (first ++ second) stack = (replay first stack).bind (replay second) := by
  induction first generalizing stack with
  | nil => rfl
  | cons event later ih =>
    have same : event.replay stack (later ++ second) = event.replay stack later := by
      cases event with
      | stackShown depth frames => simp only [Event.replay, takeWhile_append_of_apart apart]
      | _ => rfl
    rw [List.cons_append, replay, replay, same]
    cases event.replay stack later with
    | none => rfl
    | some next => exact ih next

theorem replay_of_slots {events : List Event}
    (slots : ∀ event ∈ events, event.showsSlot = true) (stack : Array Value) :
    replay events stack = some stack := by
  induction events with
  | nil => rfl
  | cons event later ih =>
    obtain ⟨shows, rest⟩ := List.forall_mem_cons.mp slots
    cases event with
    | slotShown index value => exact ih rest
    | _ => cases shows

namespace Machine

theorem stackEvents_eq (machine : Machine) :
    machine.stackEvents =
      .stackShown machine.depth machine.frames.length :: Event.slotsOf machine.stack :=
  rfl

theorem replay_stackEvents (machine : Machine) :
    replay machine.stackEvents machine.stack = some machine.stack := by
  have shown : (Event.slotsOf machine.stack).takeWhile Event.showsSlot =
      Event.slotsOf machine.stack :=
    List.takeWhile_eq_self_iff.mpr fun event member => showsSlot_of_mem_slotsOf member
  rw [stackEvents_eq, replay, Event.replay, if_pos ⟨rfl, shown⟩]
  exact replay_of_slots (fun event member => showsSlot_of_mem_slotsOf member) machine.stack

/-! ## What an instruction journals -/

def Journals (before after : Machine) : Prop :=
  before.tracing = true → after.tracing = true ∧
    ∃ events, after.journal.toList = before.journal.toList ++ events ∧
      (∀ event ∈ events, event.showsSlot = false) ∧
      replay events before.stack = some after.stack

theorem journals_silent {before after : Machine} (tracing : after.tracing = before.tracing)
    (journal : after.journal = before.journal) (stack : after.stack = before.stack) :
    Journals before after := by
  intro traced
  refine ⟨tracing.trans traced, [], ?_, by simp, ?_⟩
  · rw [journal, List.append_nil]
  · rw [stack]
    rfl

theorem journals_event (event : Event) {before after : Machine}
    (tracing : after.tracing = before.tracing)
    (journal : after.journal = (before.traced event).journal) (plain : event.showsSlot = false)
    (replays : event.replay before.stack [] = some after.stack) : Journals before after := by
  intro traced
  refine ⟨tracing.trans traced, [event], ?_, by simpa using plain, ?_⟩
  · rw [journal, Machine.traced, if_pos traced, Array.toList_push]
  · rw [replay, replays]
    rfl

theorem journals_trans (first second third : Machine) (earlier : Journals first second)
    (later : Journals second third) : Journals first third := by
  intro traced
  obtain ⟨still, events, journal, plain, replays⟩ := earlier traced
  obtain ⟨ends, more, longer, alsoPlain, alsoReplays⟩ := later still
  refine ⟨ends, events ++ more, ?_, ?_, ?_⟩
  · rw [longer, journal, List.append_assoc]
  · intro event member
    rcases List.mem_append.mp member with before | after
    · exact plain event before
    · exact alsoPlain event after
  · rw [replay_append (takeWhile_of_plain alsoPlain), replays]
    exact alsoReplays

theorem journals_steady : Steady Journals where
  refl _ := journals_silent rfl rfl rfl
  trans := journals_trans
  push value machine := by
    rw [run_push]
    exact journals_event (.pushed value) (traced_tracing _ _) rfl rfl rfl
  pop machine := by
    rw [run_pop]
    cases top : machine.stack.back? with
    | none => exact journals_silent rfl rfl rfl
    | some value =>
      exact journals_event (.popped value) (traced_tracing _ _) rfl rfl (if_pos top)
  store index value machine := by
    rw [run_store]
    cases holds : machine.stack[index]? with
    | none => exact journals_silent rfl rfl rfl
    | some old =>
      exact journals_event (.stored index old value) (traced_tracing _ _) rfl rfl (if_pos holds)
  setPc _ _ := journals_silent rfl rfl rfl
  emit _ _ := journals_silent rfl rfl rfl
  echo _ _ := journals_silent rfl rfl rfl

theorem journals_step (options : Options) (instruction : Instruction) :
    Keeps Journals (step options instruction) := by
  apply journals_steady.toCalm.step
  · intro prints
    rw [prints]
    exact journals_steady.print options
  · intro opens machine
    cases instruction with
    | call target =>
      rw [run_call]
      exact journals_event (.called ⟨machine.pc, machine.depth⟩) (traced_tracing _ _) rfl rfl
        (congrArg some (traced_stack _ machine).symm)
    | _ => cases opens
  · intro closes machine
    cases instruction with
    | ret =>
      rw [run_ret]
      cases machine.frames <;> exact journals_silent rfl rfl rfl
    | _ => cases closes

/-! ## Runs -/

/-- The journal of a traced machine replays its stack. -/
structure Replayed (machine : Machine) : Prop where
  tracing : machine.tracing = true
  stack : replay machine.journal.toList #[] = some machine.stack

section Replayed

variable {machine : Machine} (replayed : Replayed machine)

include replayed

theorem Replayed.extend {next : Machine} (events : List Event) (tracing : next.tracing = true)
    (journal : next.journal.toList = machine.journal.toList ++ events)
    (apart : events.takeWhile Event.showsSlot = [])
    (replays : replay events machine.stack = some next.stack) : Replayed next := by
  refine ⟨tracing, ?_⟩
  rw [journal, replay_append apart, replayed.stack]
  exact replays

theorem Replayed.fetch (options : Options) (instruction : Instruction) :
    Replayed (fetched options instruction machine) := by
  unfold fetched
  split
  · refine replayed.extend (.executing machine.pc instruction :: machine.stackEvents)
      replayed.tracing ?_ rfl (replay_stackEvents machine)
    rw [Array.toList_appendList, Array.toList_appendList, List.append_assoc]
    rfl
  · exact ⟨replayed.tracing, replayed.stack⟩

/-- An instruction journals what it does to the stack, also if it fails. -/
theorem Replayed.perform (options : Options) (instruction : Instruction) :
    Replayed (finalMachine ((perform options instruction).run machine)) := by
  have before := replayed.fetch options instruction
  rw [run_perform]
  obtain ⟨tracing, events, journal, plain, replays⟩ := journals_step options instruction
    (fetched options instruction machine) before.tracing
  exact before.extend events tracing journal (takeWhile_of_plain plain) replays

theorem Replayed.recordEnd (status : Status) : Replayed (recordEnd status machine) := by
  cases status with
  | running => exact replayed
  | halted | faulted fault =>
    exact replayed.extend _ replayed.tracing Array.toList_push rfl rfl

end Replayed

theorem replayed_initial (echo : Bool) (limit : Option Nat) (program : Program) :
    Replayed (initial ⟨true, echo, limit⟩ program) :=
  ⟨rfl, rfl⟩

/-- The journal of a traced run, however the run stands, replays to the stack of
its machine. -/
theorem runProgram_replays (echo : Bool) (limit : Option Nat) (program : Program) (fuel : Nat) :
    replay (runProgram ⟨true, echo, limit⟩ fuel program).2.journal.toList #[] =
      some (runProgram ⟨true, echo, limit⟩ fuel program).2.stack := by
  have reached : Replayed (run ⟨true, echo, limit⟩ program fuel
      (initial ⟨true, echo, limit⟩ program)).2 := by
    apply run_keeps
    · intro machine instruction _ replayed
      exact replayed.perform _ instruction
    · exact replayed_initial echo limit program
  exact (reached.recordEnd _).stack

example :
    (runProgram ⟨true, false, none⟩ 9 #[.push 7, .push 0, .div]).1 = .faulted ⟨.divisionByZero, 2⟩ ∧
      replay (runProgram ⟨true, false, none⟩ 9 #[.push 7, .push 0, .div]).2.journal.toList #[] =
        some #[] := by
  decide

example : replay [.pushed 3, .stackShown 1 0, .slotShown 0 4] #[] = none := by decide

end Machine

end StackAsm
