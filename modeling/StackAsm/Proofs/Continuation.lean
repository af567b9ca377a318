import StackAsm.Proofs.Bounds
import StackAsm.Proofs.Concatenation
import StackAsm.Proofs.InstructionLimit

/-!
# Running statements after other statements

When the first of two programs halts, it stands at its end, which is where the
second one begins.  With no call pending, the second then runs as it runs alone
from the stack it finds; only places, steps and output show that something ran
before it.
-/

set_option autoImplicit false

namespace StackAsm

namespace Machine

/-! ## The first part -/

def Relocation.stay : Relocation :=
  ⟨fun position => position, fun steps => steps, #[]⟩

theorem relocate_stay (machine : Machine) : machine.relocate .stay = machine := by
  have frames : machine.frames.map (Frame.relocate fun position => position) = machine.frames :=
    List.map_id' _
  unfold relocate Relocation.stay
  simp only [frames, Array.empty_append]

section First

variable {trace echo : Bool} {first whole : Program} {count : Nat} {machine : Machine}

/-- While a program runs, it does not matter what follows it. -/
theorem freeRun_of_hosts (hosts : Hosts (fun position => position) first whole)
    (ran : freeRun trace echo first count = (.running, machine)) :
    ∃ image, freeRun trace echo whole count = (.running, image) ∧
      image.unobserved = machine.unobserved := by
  have start : (initial ⟨trace, echo, none⟩ whole).unobserved =
      (initial ⟨trace, echo, none⟩ first).unobserved.relocate .stay := by
    rw [relocate_stay]
    rfl
  unfold freeRun at ran ⊢
  have carried := run_relocate .stay trace echo (fun _ => rfl) (fun _ => rfl) hosts count
    (by simp [ran]) start
  rw [ran, relocate_stay] at carried
  exact ⟨_, Prod.ext carried.1 rfl, carried.2⟩

end First

/-! ## The second part -/

/-- A run of the whole goes on, from the end of its first part, as the second
part runs alone from the stack that the first one left. -/
structure Continues (trace echo : Bool) (offset count : Nat) (before : Machine)
    (second whole : Program) : Prop where
  state : ∀ more,
    let alone := run ⟨trace, echo, none⟩ second more { stack := before.stack }
    let joined := runProgram ⟨trace, echo, none⟩ (count + more) whole
    joined.1 = alone.1.relocate (· + offset) ∧
      joined.2.pc = alone.2.pc + offset ∧ joined.2.steps = count + alone.2.steps ∧
      joined.2.stack = alone.2.stack ∧
      joined.2.frames = alone.2.frames.map (Frame.relocate (· + offset)) ∧
      joined.2.output = before.output ++ alone.2.output
  halts : (∃ total, (runProgram ⟨trace, echo, none⟩ total whole).1 = .halted) ↔
    ∃ more, (run ⟨trace, echo, none⟩ second more { stack := before.stack }).1 = .halted
  faults : ∀ fault, (∃ total, (runProgram ⟨trace, echo, none⟩ total whole).1 = .faulted fault) ↔
    ∃ more pc,
      (run ⟨trace, echo, none⟩ second more { stack := before.stack }).1 =
          .faulted ⟨fault.error, pc⟩ ∧ fault.pc = pc + offset

theorem Status.relocate_eq_halted_iff (place : Nat → Nat) (status : Status) :
    status.relocate place = .halted ↔ status = .halted := by
  cases status <;> simp [relocate]

theorem Status.relocate_eq_faulted_iff (place : Nat → Nat) (status : Status) (fault : Fault) :
    status.relocate place = .faulted fault ↔
      ∃ pc, status = .faulted ⟨fault.error, pc⟩ ∧ fault.pc = place pc := by
  obtain ⟨error, position⟩ := fault
  cases status with
  | halted | running => simp [relocate]
  | faulted other =>
    obtain ⟨otherError, pc⟩ := other
    constructor
    · intro same
      cases same
      exact ⟨pc, rfl, rfl⟩
    · intro same
      obtain ⟨_, same, rfl⟩ := same
      cases same
      rfl

section Second

variable {trace echo : Bool} {offset count : Nat} {second whole : Program} {machine : Machine}

theorem run_second (hosts : Hosts (· + offset) second whole)
    (ends : ∀ position, second[position]? = none → whole[position + offset]? = none)
    (ran : freeRun trace echo whole count = (.running, machine)) (pc : machine.pc = offset)
    (frames : machine.frames = []) (more : Nat) :
    (freeRun trace echo whole (count + more)).1 =
        (run ⟨trace, echo, none⟩ second more { stack := machine.stack }).1.relocate (· + offset) ∧
      (freeRun trace echo whole (count + more)).2.unobserved =
        (run ⟨trace, echo, none⟩ second more
          { stack := machine.stack }).2.unobserved.relocate
            ⟨(· + offset), (count + ·), machine.output⟩ := by
  have start : machine.unobserved =
      ({ stack := machine.stack } : Machine).unobserved.relocate
        ⟨(· + offset), (count + ·), machine.output⟩ := by
    have steps := steps_of_freeRun trace echo whole ran
    simp [unobserved, relocate, pc, frames, steps]
  have carried := run_relocate ⟨(· + offset), (count + ·), machine.output⟩ trace echo
    (fun _ => by dsimp only; omega) (fun _ => rfl) hosts more (fun _ => ends) start
  have joined : freeRun trace echo whole (count + more) =
      run ⟨trace, echo, none⟩ whole more machine := by
    unfold freeRun at ran ⊢
    rw [run_add, ran]
  rw [joined]
  exact carried

theorem continues_of_hosts {before : Machine} (hosts : Hosts (· + offset) second whole)
    (ends : ∀ position, second[position]? = none → whole[position + offset]? = none)
    (ran : freeRun trace echo whole count = (.running, machine)) (pc : machine.pc = offset)
    (frames : machine.frames = []) (stack : machine.stack = before.stack)
    (output : machine.output = before.output) :
    Continues trace echo offset count before second whole := by
  have each := run_second hosts ends ran pc frames
  rw [stack, output] at each
  have statusAt : ∀ total, (runProgram ⟨trace, echo, none⟩ total whole).1 =
      (freeRun trace echo whole total).1 := fun _ => rfl
  have later : ∀ total status, (freeRun trace echo whole total).1 = status → status ≠ .running →
      (freeRun trace echo whole (count + total)).1 = status := by
    intro total status stopped done
    rw [freeRun_of_stopped trace echo whole (by rw [stopped]; exact done) (by omega), stopped]
  constructor
  · intro more
    obtain ⟨status, state⟩ := each more
    have ended : (runProgram ⟨trace, echo, none⟩ (count + more) whole).2.unobserved =
        (freeRun trace echo whole (count + more)).2.unobserved := unobserved_recordEnd _ _
    rw [state] at ended
    have sameStack := congrArg Machine.stack ended
    exact ⟨status, congrArg Machine.pc ended, congrArg Machine.steps ended, sameStack,
      congrArg Machine.frames ended, congrArg Machine.output ended⟩
  · constructor
    · intro halted
      obtain ⟨total, halted⟩ := halted
      have still := later total _ halted (by simp)
      rw [(each total).1, Status.relocate_eq_halted_iff] at still
      exact ⟨total, still⟩
    · intro halted
      obtain ⟨more, halted⟩ := halted
      refine ⟨count + more, ?_⟩
      rw [statusAt, (each more).1, halted]
      rfl
  · intro fault
    constructor
    · intro faulted
      obtain ⟨total, faulted⟩ := faulted
      have still := later total _ faulted (by simp)
      rw [(each total).1, Status.relocate_eq_faulted_iff] at still
      exact ⟨total, still⟩
    · intro faulted
      obtain ⟨more, faulted⟩ := faulted
      refine ⟨count + more, ?_⟩
      rw [statusAt, (each more).1, Status.relocate_eq_faulted_iff]
      exact faulted

end Second

end Machine

namespace Assembly

open Machine

theorem hosts_left (left right : Program) :
    Hosts (fun position => position) left (left ++ right) := by
  intro position instruction found
  have inside := (Array.getElem?_eq_some_iff.mp found).1
  rw [Instruction.relocate_id, Array.getElem?_append_left inside, found]

theorem getElem?_shift (left right : Program) (position : Nat) :
    (left ++ right.shift left.size)[position + left.size]? =
      right[position]?.map (Instruction.relocate (· + left.size)) := by
  rw [Array.getElem?_append_right (by omega), Nat.add_sub_cancel]
  simp [Program.shift]

theorem freeRun_append_of_halted {statements : List Numbered} {program following : Program}
    {trace echo : Bool} {count : Nat} {before : Machine}
    (assembled : Assembled statements program)
    (running : (runProgram ⟨trace, echo, none⟩ count program).1 = .running)
    (halted : runProgram ⟨trace, echo, none⟩ (count + 1) program = (.halted, before)) :
    ∃ image, freeRun trace echo (program ++ following) count = (.running, image) ∧
      image.pc = program.size ∧ image.unobserved = before.unobserved := by
  have stops : StopsAfter trace echo program count .halted :=
    ⟨running, congrArg Prod.fst halted⟩
  obtain ⟨machine, ran, outside⟩ := (stopsAfter_halted_iff trace echo program).mp stops
  have last : machine.pc = program.size := by
    have within := (assembled.sealed.staysInside.within ⟨trace, echo, none⟩ count).pc
    have reached : (run ⟨trace, echo, none⟩ program count
        (initial ⟨trace, echo, none⟩ program)).2 = machine := congrArg Prod.snd ran
    rw [reached] at within
    have past := Array.getElem?_eq_none_iff.mp outside
    omega
  have left : before.unobserved = machine.unobserved := by
    have ended := freeRun_succ trace echo program ran
    rw [run_succ_of_outside outside] at ended
    have recorded : (runProgram ⟨trace, echo, none⟩ (count + 1) program).2 =
        recordEnd (freeRun trace echo program (count + 1)).1
          (freeRun trace echo program (count + 1)).2 := rfl
    rw [halted, ended] at recorded
    rw [show before = recordEnd .halted machine from recorded, unobserved_recordEnd]
  obtain ⟨image, there, same⟩ := freeRun_of_hosts (hosts_left program following) ran
  refine ⟨image, there, ?_, same.trans left.symm⟩
  rw [← last]
  exact (unobserved_eq_iff.mp same).1

/-- Where a halting program has an empty call stack, the statements after it go
on as they would alone. -/
theorem ofStatements_append_continues (first second : List Numbered) (left right : Assembly)
    (firstLines secondLines : List Source.Line)
    (parsedFirst : Source.statements firstLines = .ok first)
    (parsedSecond : Source.statements secondLines = .ok second)
    (acceptedFirst : ofStatements first = .ok left)
    (acceptedSecond : ofStatements second = .ok right)
    (labels : ∀ name ∈ labelNames first, name ∉ labelNames second)
    (procedures : ∀ name ∈ procedureNames first, name ∉ procedureNames second) :
    ∃ whole, ofStatements (first ++ second) = .ok whole ∧
      ∀ (trace echo : Bool) (count : Nat) (before : Machine),
        (runProgram ⟨trace, echo, none⟩ count left.program).1 = .running →
          runProgram ⟨trace, echo, none⟩ (count + 1) left.program = (.halted, before) →
            before.frames = [] →
              Continues trace echo first.length count before right.program whole.program := by
  obtain ⟨resolvedFirst, loweredFirst, _⟩ := ofStatements_eq_ok_iff.mp acceptedFirst
  have resolvedSecond := (ofStatements_eq_ok_iff.mp acceptedSecond).1
  have consistent := consistent_append acceptedFirst acceptedSecond labels procedures
  have resolved := Symbols.resolve_append resolvedFirst resolvedSecond consistent
  have lowered := lowered_append acceptedFirst acceptedSecond labels procedures
    (untargeted_of_statements parsedSecond)
  have assembled : Assembled first left.program :=
    .of_lowered resolvedFirst (untargeted_of_statements parsedFirst) loweredFirst
  refine ⟨⟨_, _, _⟩, ofStatements_eq_ok_iff.mpr ⟨resolved, lowered, rfl⟩, ?_⟩
  intro trace echo count before running halted frames
  obtain ⟨image, ran, pc, same⟩ := freeRun_append_of_halted assembled running halted
  obtain ⟨_, _, sameStack, sameFrames, sameOutput⟩ := unobserved_eq_iff.mp same
  have moved := getElem?_shift left.program right.program
  rw [← assembled.size] at *
  refine continues_of_hosts ?_ ?_ ran pc (sameFrames.trans frames) sameStack sameOutput
  · intro position instruction found
    rw [moved, found, Option.map_some]
  · intro position outside
    rw [moved, outside, Option.map_none]

def printer : List Source.Line :=
  [⟨1, "Push", ["7"]⟩, ⟨2, "Call", ["f"]⟩, ⟨3, "Proc", ["f"]⟩, ⟨4, "Print", []⟩, ⟨5, "Ret", []⟩,
    ⟨6, "End", []⟩]

def popper : List Source.Line :=
  [⟨1, "Call", ["g"]⟩, ⟨2, "Pop", []⟩, ⟨3, "Pop", []⟩, ⟨4, "Proc", ["g"]⟩, ⟨5, "Print", []⟩,
    ⟨6, "Ret", []⟩, ⟨7, "End", []⟩]

theorem ofStatements_append_continues_popper :
    ∃ first second left right whole before, Source.statements printer = .ok first ∧
      Source.statements popper = .ok second ∧ ofStatements first = .ok left ∧
      ofStatements second = .ok right ∧ (∀ name ∈ labelNames first, name ∉ labelNames second) ∧
      (∀ name ∈ procedureNames first, name ∉ procedureNames second) ∧
      ofStatements (first ++ second) = .ok whole ∧
      (runProgram {} 5 left.program).1 = .running ∧
      runProgram {} 6 left.program = (.halted, before) ∧ before.frames = [] ∧
      before.stack = #[7] ∧ Continues false false 6 5 before right.program whole.program ∧
      (runProgram {} 10 whole.program).1 = .faulted ⟨.stackUnderflow, 8⟩ := by
  obtain ⟨whole, accepted, continues⟩ := ofStatements_append_continues _ _ _ _ printer popper
    rfl rfl rfl rfl (by decide) (by decide)
  have goesOn := continues false false 5 _ rfl rfl rfl
  exact ⟨_, _, _, _, whole, _, rfl, rfl, rfl, rfl, by decide, by decide, accepted, rfl, rfl, rfl,
    rfl, goesOn, (goesOn.state 5).1⟩

end Assembly

end StackAsm
