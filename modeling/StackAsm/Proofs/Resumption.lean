import StackAsm.Proofs.Effect
import StackAsm.Proofs.InstructionLimit

/-!
# Resuming a limited run

A machine that its limit has stopped stands untouched in front of its next
instruction.  It can go on under a higher limit, and both runs together are the
one run under the higher limit, whatever the machine had counted before.  Under
a limit that is raised by one each time, a machine goes on instruction by
instruction.
-/

set_option autoImplicit false

namespace StackAsm.Machine

/-! ## Errors of limits -/

def Error.isLimit : Error → Bool
  | .instructionLimitExceeded _ => true
  | _ => false

section Errors

variable {options : Options} {program : Program} {machine reached : Machine}

theorem Effect.isLimit_eq_false {instruction : Instruction} {error : Error}
    (effect : Effect machine instruction (some error) reached) : error.isLimit = false := by
  cases effect with
  | misaddressed addresses fails =>
    rcases misaddress_cases addresses fails with ⟨_, _, rfl⟩ | ⟨_, _, rfl⟩ | ⟨rfl, _⟩ <;> rfl
  | _ => rfl

theorem isLimit_of_unlimited {count : Nat} {fault : Fault} (unlimited : options.limit = none)
    (ran : run options program count machine = (.faulted fault, reached)) :
    fault.error.isLimit = false := by
  rcases failed_of_faulted ran with ⟨limit, _, limited⟩ | ⟨_, before, instruction, _, _, _, failed⟩
  · rw [unlimited] at limited
    cases limited
  · have effect := effect_perform options instruction before
    rw [failed] at effect
    exact effect.isLimit_eq_false

end Errors

section CutOff

variable (program : Program) (limit : Nat) (ended : Status × Machine)

theorem cutOff_snd : (cutOff program limit ended).2 = ended.2 := by
  rcases ended with ⟨status, machine⟩
  cases status with
  | halted => rfl
  | faulted fault => rfl
  | running =>
    rw [cutOff, atLimit]
    cases program[machine.pc]? <;> rfl

theorem cutOff_ne_running : (cutOff program limit ended).1 ≠ .running := by
  rcases ended with ⟨status, machine⟩
  cases status with
  | halted => simp [cutOff]
  | faulted fault => simp [cutOff]
  | running =>
    rw [cutOff, atLimit]
    cases program[machine.pc]? <;> simp

end CutOff

section Resumption

variable (trace echo : Bool) (program : Program)

/-! ## Limited runs of any machine -/

/-- The run of a machine under a limit.  It is given an iteration for every
instruction that the limit leaves, and one to stop. -/
def limitedRun (limit : Nat) (machine : Machine) : Status × Machine :=
  run ⟨trace, echo, some limit⟩ program (limit - machine.steps + 1) machine

/-- Like `run_limited`, also where the limit was exceeded before. -/
theorem run_eq_cutOff {limit fuel : Nat} {machine : Machine} (enough : limit - machine.steps < fuel) :
    run ⟨trace, echo, some limit⟩ program fuel machine =
      cutOff program limit
        (run ⟨trace, echo, none⟩ program (limit - machine.steps) machine) := by
  by_cases within : machine.steps ≤ limit
  · exact run_limited trace echo program (by omega) enough
  · rw [run_of_used trace echo program (by omega) (by omega),
      show limit - machine.steps = 0 by omega]
    rfl

theorem limitedRun_eq_cutOff (limit : Nat) (machine : Machine) :
    limitedRun trace echo program limit machine =
      cutOff program limit (run ⟨trace, echo, none⟩ program (limit - machine.steps) machine) :=
  run_eq_cutOff trace echo program (Nat.lt_succ_self _)

theorem limitedRun_of_outside {machine : Machine} (outside : program[machine.pc]? = none)
    (limit : Nat) : limitedRun trace echo program limit machine = (.halted, machine) :=
  run_succ_of_outside outside _

/-- The limit stops exactly the machines that would have gone on, and leaves them
as they stand. -/
theorem limitedRun_exceeded_iff {limit other pc : Nat} {machine : Machine} :
    (limitedRun trace echo program limit machine).1 =
        .faulted ⟨.instructionLimitExceeded other, pc⟩ ↔
      other = limit ∧ pc < program.size ∧
        (limitedRun trace echo program limit machine).2.pc = pc ∧
        run ⟨trace, echo, none⟩ program (limit - machine.steps) machine =
          (.running, (limitedRun trace echo program limit machine).2) := by
  rw [limitedRun_eq_cutOff, cutOff_snd]
  rcases ran : run ⟨trace, echo, none⟩ program (limit - machine.steps) machine with
    ⟨status, reached⟩
  cases status with
  | halted => simp [cutOff]
  | faulted fault =>
    have instructed := isLimit_of_unlimited rfl ran
    simp only [cutOff, Status.faulted.injEq, Prod.mk.injEq, reduceCtorEq, false_and, and_false,
      iff_false]
    intro exceeded
    rw [exceeded] at instructed
    cases instructed
  | running =>
    rw [cutOff, atLimit]
    cases stands : program[reached.pc]? with
    | none =>
      have outside := Array.getElem?_eq_none_iff.mp stands
      simp only [reduceCtorEq, false_iff, not_and]
      intro _ inside here
      omega
    | some instruction =>
      obtain ⟨inside, _⟩ := Array.getElem?_eq_some_iff.mp stands
      simp only [Status.faulted.injEq, Fault.mk.injEq, Error.instructionLimitExceeded.injEq,
        and_true]
      constructor
      · rintro ⟨rfl, rfl⟩
        exact ⟨rfl, inside, rfl⟩
      · rintro ⟨rfl, _, rfl⟩
        exact ⟨rfl, rfl⟩

/-! ## Going on under a higher limit -/

section Raised

variable {lower upper : Nat} {machine : Machine} (raised : lower ≤ upper)

include raised

theorem limitedRun_of_running {reached : Machine}
    (ran : run ⟨trace, echo, none⟩ program (lower - machine.steps) machine = (.running, reached)) :
    limitedRun trace echo program upper reached = limitedRun trace echo program upper machine := by
  have steps := steps_of_running ran
  have left : upper - machine.steps =
      (lower - machine.steps) + (upper - reached.steps) := by omega
  rw [limitedRun_eq_cutOff, limitedRun_eq_cutOff trace echo program upper machine, left, run_add,
    ran]

/-- A run that ended without using up its limit ends in the same way under a
higher one. -/
theorem limitedRun_of_finished
    (finished : ∀ pc, (limitedRun trace echo program lower machine).1 ≠
      .faulted ⟨.instructionLimitExceeded lower, pc⟩) :
    limitedRun trace echo program upper machine = limitedRun trace echo program lower machine := by
  rcases ran : run ⟨trace, echo, none⟩ program (lower - machine.steps) machine with
    ⟨status, reached⟩
  have ended := limitedRun_eq_cutOff trace echo program lower machine
  rw [ran] at ended
  by_cases going : status = .running
  · subst going
    cases stands : program[reached.pc]? with
    | none =>
      rw [← limitedRun_of_running trace echo program raised ran,
        limitedRun_of_outside trace echo program stands, ended, cutOff, atLimit, stands]
    | some instruction =>
      rw [ended, cutOff, atLimit, stands] at finished
      exact absurd rfl (finished reached.pc)
  · have stopped :
        (run ⟨trace, echo, none⟩ program (lower - machine.steps) machine).1 ≠ .running := by
      rwa [ran]
    rw [limitedRun_eq_cutOff, run_of_stopped stopped (by omega), ran, ended]
    cases status with
    | running => exact absurd rfl going
    | halted => rfl
    | faulted fault => rfl

theorem limitedRun_resume
    (sound : (limitedRun trace echo program lower machine).1 = .halted ∨
      ∃ pc, (limitedRun trace echo program lower machine).1 =
        .faulted ⟨.instructionLimitExceeded lower, pc⟩) :
    limitedRun trace echo program upper (limitedRun trace echo program lower machine).2 =
      limitedRun trace echo program upper machine := by
  rcases sound with halted | ⟨pc, exceeded⟩
  · have finished : ∀ pc, (limitedRun trace echo program lower machine).1 ≠
        .faulted ⟨.instructionLimitExceeded lower, pc⟩ := by simp [halted]
    have outside : program[(limitedRun trace echo program lower machine).2.pc]? = none :=
      outside_of_halted (Prod.ext halted rfl)
    rw [limitedRun_of_outside trace echo program outside,
      limitedRun_of_finished trace echo program raised finished, ← halted]
  · obtain ⟨_, _, _, ran⟩ := (limitedRun_exceeded_iff trace echo program).mp exceeded
    exact limitedRun_of_running trace echo program raised ran

end Raised

/-! ## Limits raised by one -/

def Status.resumable : Status → Bool
  | .running => true
  | .faulted fault => fault.error.isLimit
  | .halted => false

/-- A machine run under the limits 1, 2, 3 and so on up to a last one, until it
halts or an instruction fails. -/
def climb (machine : Machine) : Nat → Status × Machine
  | 0 => (.running, machine)
  | limit + 1 =>
    let before := climb machine limit
    if before.1.resumable then limitedRun trace echo program (limit + 1) before.2 else before

theorem exceeded_of_resumable {limit : Nat} {machine : Machine}
    (resumable : (limitedRun trace echo program limit machine).1.resumable = true) :
    ∃ pc, (limitedRun trace echo program limit machine).1 =
      .faulted ⟨.instructionLimitExceeded limit, pc⟩ := by
  cases stands : (limitedRun trace echo program limit machine).1 with
  | halted =>
    rw [stands] at resumable
    cases resumable
  | running =>
    rw [limitedRun_eq_cutOff] at stands
    exact absurd stands (cutOff_ne_running _ _ _)
  | faulted fault =>
    rw [stands] at resumable
    rcases fault with ⟨error, pc⟩
    cases error with
    | instructionLimitExceeded other =>
      obtain ⟨rfl, _⟩ := (limitedRun_exceeded_iff trace echo program).mp stands
      exact ⟨pc, rfl⟩
    | _ => cases resumable

/-- Climbing to a limit is running under it at once. -/
theorem climb_succ (machine : Machine) (limit : Nat) :
    climb trace echo program machine (limit + 1) =
      limitedRun trace echo program (limit + 1) machine := by
  induction limit with
  | zero => rfl
  | succ limit ih =>
    rw [climb, ih]
    by_cases resumable : (limitedRun trace echo program (limit + 1) machine).1.resumable = true
    · have exceeded := exceeded_of_resumable trace echo program resumable
      rw [if_pos resumable]
      exact limitedRun_resume trace echo program (Nat.le_succ _) (.inr exceeded)
    · rw [if_neg resumable]
      refine (limitedRun_of_finished trace echo program (Nat.le_succ _) ?_).symm
      intro pc exceeded
      rw [exceeded] at resumable
      exact resumable rfl

/-- What a machine can do under one limit after the other. -/
structure Resumable (machine : Machine) : Prop where
  /-- Given enough time, a limited run ends, and it ends in one way. -/
  ends : ∀ limit fuel, limit - machine.steps < fuel →
    run ⟨trace, echo, some limit⟩ program fuel machine =
        limitedRun trace echo program limit machine ∧
      (limitedRun trace echo program limit machine).1 ≠ .running
  /-- Halting or stopping at a limit on the way changes nothing of the run under
  a higher limit. -/
  resumes : ∀ lower upper, lower ≤ upper →
    ((limitedRun trace echo program lower machine).1 = .halted ∨
      ∃ pc, (limitedRun trace echo program lower machine).1 =
        .faulted ⟨.instructionLimitExceeded lower, pc⟩) →
    limitedRun trace echo program upper (limitedRun trace echo program lower machine).2 =
      limitedRun trace echo program upper machine
  /-- A machine that a limit stops is left as it is without a limit after the
  instructions that were left to it. -/
  untouched : ∀ limit other pc,
    (limitedRun trace echo program limit machine).1 =
        .faulted ⟨.instructionLimitExceeded other, pc⟩ ↔
      other = limit ∧ pc < program.size ∧
        (limitedRun trace echo program limit machine).2.pc = pc ∧
        run ⟨trace, echo, none⟩ program (limit - machine.steps) machine =
          (.running, (limitedRun trace echo program limit machine).2)
  /-- A climb ends as the run under its last limit. -/
  climbs : ∀ limit,
    climb trace echo program machine (limit + 1) =
      limitedRun trace echo program (limit + 1) machine
  /-- On its way it visits what the run without a limit visits: where no steps
  were counted before, each limit leaves the machine after as many
  instructions. -/
  visits : ∀ limit,
    (climb trace echo program machine limit).2 =
      (run ⟨trace, echo, none⟩ program (limit - machine.steps) machine).2

/-- Limited runs can be resumed, wherever the machine stands and whatever it has
counted. -/
theorem limitedRun_resumable (machine : Machine) : Resumable trace echo program machine where
  ends limit fuel enough := by
    rw [run_eq_cutOff trace echo program enough, limitedRun_eq_cutOff]
    exact ⟨rfl, cutOff_ne_running _ _ _⟩
  resumes lower upper raised := limitedRun_resume trace echo program raised
  untouched limit other pc := limitedRun_exceeded_iff trace echo program
  climbs := climb_succ trace echo program machine
  visits limit := by
    cases limit with
    | zero => rw [Nat.zero_sub, climb, run]
    | succ limit => rw [climb_succ, limitedRun_eq_cutOff, cutOff_snd]

example : (limitedRun false false #[.noop] 2 { pc := 1, steps := 9 }).1 = .halted := by decide

end Resumption

end StackAsm.Machine
