import StackAsm.Proofs.Bounds

/-!
# Programs that only lead forward

A program whose jumps and calls all lead forward ends on every machine.  A
return still leads back, and a stretch of code may be performed again after each
one, so the program counter alone does not bound a run.  The program counter
together with the places that pending calls return to does: an instruction that
is performed uses up more than it adds.
-/

set_option autoImplicit false

namespace StackAsm

/-- Every jump and every call leads to a place behind itself.  A return may stand
anywhere. -/
def LeadsForward (program : Program) : Prop :=
  ∀ (position : Fin program.size), ∀ target ∈ program[position].target?, position.val < target

instance (program : Program) : Decidable (LeadsForward program) :=
  inferInstanceAs (Decidable (∀ _ : Fin program.size, ∀ target ∈ _, _))

theorem LeadsForward.lt {program : Program} (forward : LeadsForward program)
    {position target : Nat} {instruction : Instruction}
    (stands : program[position]? = some instruction) (leads : instruction.target? = some target) :
    position < target := by
  obtain ⟨inside, rfl⟩ := Array.getElem?_eq_some_iff.mp stands
  exact forward ⟨position, inside⟩ target leads

/-! ## Instructions ahead -/

/-- The most instructions that can be performed between a place and the end of
the program.  The first of them may be a call; then what it calls and what
follows it both lie ahead. -/
def mostAhead : Nat → Nat
  | 0 => 0
  | ahead + 1 => mostAhead ahead + mostAhead ahead + 1

theorem mostAhead_mono {fewer more : Nat} (within : fewer ≤ more) :
    mostAhead fewer ≤ mostAhead more := by
  induction within with
  | refl => exact Nat.le_refl _
  | step _ ih =>
    rw [mostAhead]
    omega

def mostFrom (program : Program) (place : Nat) : Nat :=
  mostAhead (program.size - place)

section Places

variable {program : Program} {place : Nat} (inside : place < program.size)

include inside

/-- What lies ahead of an instruction covers the instruction, what it leads
forward to, and what follows it. -/
theorem mostFrom_of_target {target : Nat} (forward : place < target) :
    mostFrom program target + mostFrom program (place + 1) < mostFrom program place := by
  have here : program.size - place = program.size - (place + 1) + 1 := by omega
  have behind : program.size - target ≤ program.size - (place + 1) := by omega
  have covered := mostAhead_mono behind
  unfold mostFrom
  rw [here, mostAhead]
  omega

theorem mostFrom_pos : 0 < mostFrom program place := by
  have covered := mostFrom_of_target inside (Nat.lt_succ_self place)
  omega

end Places

namespace Machine

/-- The most instructions that a machine can still perform: from its program
counter on, and from every place that a pending call returns to. -/
def outlook (program : Program) (machine : Machine) : Nat :=
  mostFrom program machine.pc +
    machine.frames.foldr (fun frame later => mostFrom program frame.returnPointer + later) 0

def Affords (program : Program) (total : Nat) (machine : Machine) : Prop :=
  machine.steps + outlook program machine ≤ total

/-! ## Runs -/

section Runs

variable (options : Options) {program : Program} (forward : LeadsForward program)

include forward

/-- An instruction uses up more than it adds, whether it succeeds or fails. -/
theorem outlook_perform {machine : Machine} {instruction : Instruction}
    (stands : program[machine.pc]? = some instruction) :
    outlook program (finalMachine ((perform options instruction).run machine)) <
      outlook program machine := by
  have inside : machine.pc < program.size := (Array.getElem?_eq_some_iff.mp stands).1
  unfold outlook
  cases transfer_perform options instruction machine with
  | next _ pc frames =>
    have covered := mostFrom_of_target inside (Nat.lt_succ_self machine.pc)
    rw [pc, frames]
    omega
  | jump taken frames =>
    have covered := mostFrom_of_target inside (forward.lt stands (target?_of_taken taken))
    rw [frames]
    omega
  | call calls frames =>
    have leads := congrArg Instruction.target? calls
    have covered := mostFrom_of_target inside (forward.lt stands leads)
    rw [frames, List.foldr_cons]
    dsimp only
    omega
  | ret _ frame frames pc =>
    have used := mostFrom_pos inside
    rw [frames, pc, List.foldr_cons]
    omega

theorem Affords.step {total : Nat} {machine : Machine} {instruction : Instruction}
    (stands : program[machine.pc]? = some instruction) (affords : Affords program total machine) :
    Affords program total (finalMachine ((perform options instruction).run machine)) := by
  have used := outlook_perform options forward stands
  have counted := steps_perform options instruction machine
  unfold Affords at affords ⊢
  omega

theorem affords_run (machine : Machine) (count : Nat) :
    Affords program (machine.steps + outlook program machine)
      (run options program count machine).2 := by
  apply run_keeps
  · intro before instruction stands kept
    exact kept.step options forward stands
  · exact Nat.le_refl _

/-- A run that is still going on has performed an instruction in every iteration,
and there are not that many. -/
theorem stopped_of_outlook (machine : Machine) :
    (run options program (outlook program machine + 1) machine).1 ≠ .running := by
  have bounded := affords_run options forward machine (outlook program machine + 1)
  rcases ran : run options program (outlook program machine + 1) machine with ⟨status, reached⟩
  rw [ran] at bounded
  intro going
  obtain rfl : status = .running := going
  have counted := steps_of_running ran
  dsimp only [Affords] at bounded
  omega

end Runs

/-- The run of a machine without a limit comes to an end, and it has a bound on
the instructions it performs. -/
structure Ends (trace echo : Bool) (program : Program) (machine : Machine) (bound : Nat) :
    Prop where
  ends : ∃ reached,
    (∀ fuel > bound, run ⟨trace, echo, none⟩ program fuel machine = (.halted, reached)) ∨
      ∃ fault, ∀ fuel > bound,
        run ⟨trace, echo, none⟩ program fuel machine = (.faulted fault, reached)
  performs : ∀ fuel,
    (run ⟨trace, echo, none⟩ program fuel machine).2.steps ≤ machine.steps + bound

/-- A program that only leads forward ends from every machine, wherever it
stands, whatever its stack holds and wherever its pending calls return to. -/
theorem run_ends_of_leadsForward (trace echo : Bool) (program : Program)
    (forward : LeadsForward program) (machine : Machine) :
    Ends trace echo program machine (outlook program machine) where
  ends := by
    have stopped := stopped_of_outlook ⟨trace, echo, none⟩ forward machine
    rcases ran : run ⟨trace, echo, none⟩ program (outlook program machine + 1) machine with
      ⟨status, reached⟩
    have settled : ∀ fuel > outlook program machine,
        run ⟨trace, echo, none⟩ program fuel machine = (status, reached) := by
      intro fuel enough
      rw [run_of_stopped stopped enough, ran]
    rw [ran] at stopped
    cases status with
    | running => exact absurd rfl stopped
    | halted => exact ⟨reached, .inl settled⟩
    | faulted fault => exact ⟨reached, .inr ⟨fault, settled⟩⟩
  performs fuel := by
    have bounded := affords_run ⟨trace, echo, none⟩ forward machine fuel
    unfold Affords at bounded
    omega

theorem run_ends_of_leadsForward_repeatedCalls :
    LeadsForward #[.call 1, .call 2, .ret] ∧
      Ends false false #[.call 1, .call 2, .ret] { frames := [⟨0, 0⟩] } 14 ∧
      run {} #[.call 1, .call 2, .ret] 14 { frames := [⟨0, 0⟩] } =
        (.faulted ⟨.callStackUnderflow, 2⟩, { pc := 3, steps := 14 }) :=
  ⟨by decide, run_ends_of_leadsForward false false _ (by decide) { frames := [⟨0, 0⟩] },
    by decide⟩

end Machine

end StackAsm
