import StackAsm.Proofs.Execution

/-!
# Runs under an instruction limit

A limit cuts a run off and changes nothing before that.  After as many
instructions as the limit allows, a machine outside its program halts as it
would have done without a limit; any other machine is stopped in front of its
next instruction.
-/

set_option autoImplicit false

namespace StackAsm.Machine

def atLimit (program : Program) (limit : Nat) (machine : Machine) : Status × Machine :=
  match program[machine.pc]? with
  | none => (.halted, machine)
  | some _ => (.faulted ⟨.instructionLimitExceeded limit, machine.pc⟩, machine)

def cutOff (program : Program) (limit : Nat) : Status × Machine → Status × Machine
  | (.running, machine) => atLimit program limit machine
  | stopped => stopped

section Limited

variable (trace echo : Bool) (program : Program)

theorem perform_limit (limit : Option Nat) (instruction : Instruction) :
    perform ⟨trace, echo, limit⟩ instruction = perform ⟨trace, echo, none⟩ instruction := by
  cases instruction <;> rfl

theorem limitReached?_of_le {limit : Nat} {machine : Machine} (used : limit ≤ machine.steps) :
    limitReached? ⟨trace, echo, some limit⟩ machine = some limit := by
  simp [limitReached?, used]

theorem limitReached?_of_lt {limit : Nat} {machine : Machine} (left : machine.steps < limit) :
    limitReached? ⟨trace, echo, some limit⟩ machine = none := by
  have below : ¬ limit ≤ machine.steps := by omega
  simp [limitReached?, below]

/-! ## A limited run is a run cut off -/

theorem run_of_used {limit fuel : Nat} {machine : Machine} (used : limit ≤ machine.steps)
    (enough : 0 < fuel) :
    run ⟨trace, echo, some limit⟩ program fuel machine = atLimit program limit machine := by
  obtain ⟨fuel, rfl⟩ : ∃ later, fuel = later + 1 := ⟨fuel - 1, by omega⟩
  rw [atLimit]
  cases stands : program[machine.pc]? with
  | none => rw [run_succ_of_outside stands]
  | some instruction => rw [run_succ_of_limited stands (limitReached?_of_le trace echo used)]

/-- A limited run is the run without a limit for the instructions that are left,
cut off after them. -/
theorem run_limited {limit left fuel : Nat} {machine : Machine}
    (budget : machine.steps + left = limit) (enough : left < fuel) :
    run ⟨trace, echo, some limit⟩ program fuel machine =
      cutOff program limit (run ⟨trace, echo, none⟩ program left machine) := by
  induction left generalizing fuel machine with
  | zero =>
    exact run_of_used trace echo program (by omega) enough
  | succ left ih =>
    obtain ⟨fuel, rfl⟩ : ∃ later, fuel = later + 1 := ⟨fuel - 1, by omega⟩
    have allowed := limitReached?_of_lt trace echo (show machine.steps < limit by omega)
    cases stands : program[machine.pc]? with
    | none =>
      rw [run_succ_of_outside stands, run_succ_of_outside stands]
      rfl
    | some instruction =>
      rw [run_succ_of_allowed stands allowed, run_succ_of_allowed stands rfl, perform_limit]
      have counted := steps_perform ⟨trace, echo, none⟩ instruction machine
      cases performed : (perform ⟨trace, echo, none⟩ instruction).run machine with
      | error error reached => rfl
      | ok value next =>
        rw [performed] at counted
        have steps : next.steps = machine.steps + 1 := counted
        exact ih (by omega) (by omega)

theorem steps_le_limit (limit fuel : Nat) {machine : Machine} (below : machine.steps ≤ limit) :
    (run ⟨trace, echo, some limit⟩ program fuel machine).2.steps ≤ limit := by
  induction fuel generalizing machine with
  | zero => exact below
  | succ fuel ih =>
    cases stands : program[machine.pc]? with
    | none =>
      rw [run_succ_of_outside stands]
      exact below
    | some instruction =>
      by_cases left : machine.steps < limit
      · have allowed := limitReached?_of_lt trace echo left
        have counted := steps_perform ⟨trace, echo, some limit⟩ instruction machine
        rw [run_succ_of_allowed stands allowed]
        cases performed : (perform ⟨trace, echo, some limit⟩ instruction).run machine with
        | error error reached =>
          rw [performed] at counted
          have steps : reached.steps = machine.steps + 1 := counted
          show reached.steps ≤ limit
          omega
        | ok value next =>
          rw [performed] at counted
          have steps : next.steps = machine.steps + 1 := counted
          exact ih (by omega)
      · have used := limitReached?_of_le trace echo (show limit ≤ machine.steps by omega)
        rw [run_succ_of_limited stands used]
        exact below

theorem steps_recordEnd (status : Status) (machine : Machine) :
    (recordEnd status machine).steps = machine.steps := by
  cases status <;> rfl

/-! ## Where the run without a limit stands -/

def freeRun (count : Nat) : Status × Machine :=
  run ⟨trace, echo, none⟩ program count (initial ⟨trace, echo, none⟩ program)

theorem freeRun_of_stopped {count more : Nat}
    (stopped : (freeRun trace echo program count).1 ≠ .running) (longer : count ≤ more) :
    freeRun trace echo program more = freeRun trace echo program count :=
  run_of_stopped stopped longer

theorem freeRun_succ {count : Nat} {machine : Machine}
    (ran : freeRun trace echo program count = (.running, machine)) :
    freeRun trace echo program (count + 1) = run ⟨trace, echo, none⟩ program 1 machine := by
  unfold freeRun at ran ⊢
  rw [run_add, ran]

theorem freeRun_succ_eq_running {count : Nat} {machine : Machine}
    (ran : freeRun trace echo program (count + 1) = (.running, machine)) :
    ∃ before, freeRun trace echo program count = (.running, before) ∧
      run ⟨trace, echo, none⟩ program 1 before = (.running, machine) := by
  cases earlier : freeRun trace echo program count with
  | mk status before =>
    by_cases going : status = .running
    · rw [going] at earlier ⊢
      rw [freeRun_succ trace echo program earlier] at ran
      exact ⟨before, rfl, ran⟩
    · have stopped : (freeRun trace echo program count).1 ≠ .running := by rwa [earlier]
      rw [freeRun_of_stopped trace echo program stopped (Nat.le_succ count), earlier] at ran
      exact absurd (congrArg Prod.fst ran) going

theorem steps_of_freeRun {count : Nat} {machine : Machine}
    (ran : freeRun trace echo program count = (.running, machine)) : machine.steps = count := by
  rw [steps_of_running ran]
  exact Nat.zero_add count

/-- The run without a limit performs `count` instructions and then stops. -/
def StopsAfter (count : Nat) (status : Status) : Prop :=
  (runProgram ⟨trace, echo, none⟩ count program).1 = .running ∧
    (runProgram ⟨trace, echo, none⟩ (count + 1) program).1 = status

theorem exists_stopsAfter {limit : Nat} {status : Status}
    (stopped : (freeRun trace echo program limit).1 = status) (done : status ≠ .running) :
    ∃ count < limit, StopsAfter trace echo program count status := by
  induction limit with
  | zero => exact absurd stopped.symm done
  | succ limit ih =>
    by_cases before : (freeRun trace echo program limit).1 = .running
    · exact ⟨limit, by omega, before, stopped⟩
    · have same := freeRun_of_stopped trace echo program before (Nat.le_succ limit)
      rw [same] at stopped
      obtain ⟨count, below, stops⟩ := ih stopped
      exact ⟨count, by omega, stops⟩

/-- The program halts after some instructions exactly when it then stands
outside the program. -/
theorem stopsAfter_halted_iff {count : Nat} :
    StopsAfter trace echo program count .halted ↔
      ∃ machine, freeRun trace echo program count = (.running, machine) ∧
        program[machine.pc]? = none := by
  constructor
  · intro halts
    have running : (freeRun trace echo program count).1 = .running := halts.1
    have halted : (freeRun trace echo program (count + 1)).1 = .halted := halts.2
    cases ran : freeRun trace echo program count with
    | mk status machine =>
      rw [ran] at running
      obtain rfl : status = .running := running
      rw [freeRun_succ trace echo program ran] at halted
      refine ⟨machine, rfl, ?_⟩
      cases stands : program[machine.pc]? with
      | none => rfl
      | some instruction =>
        rw [run_succ_of_allowed stands rfl] at halted
        cases performed : (perform ⟨trace, echo, none⟩ instruction).run machine with
        | error error failed => simp [performed] at halted
        | ok value next => simp [performed, run] at halted
  · intro standing
    obtain ⟨machine, ran, outside⟩ := standing
    have halted := freeRun_succ trace echo program ran
    rw [run_succ_of_outside outside] at halted
    exact ⟨congrArg Prod.fst ran, congrArg Prod.fst halted⟩

/-! ## Cutting off -/

theorem cutOff_of_stopped {limit count : Nat}
    (stopped : (freeRun trace echo program count).1 ≠ .running) (within : count ≤ limit) :
    cutOff program limit (freeRun trace echo program limit) = freeRun trace echo program count := by
  rw [freeRun_of_stopped trace echo program stopped within]
  cases ran : freeRun trace echo program count with
  | mk status machine =>
    cases status with
    | running => simp [ran] at stopped
    | halted => rfl
    | faulted fault => rfl

/-- A program that halts needs no instruction for it, so it may halt when the
limit is just used up. -/
theorem cutOff_of_halted {limit count : Nat}
    (halts : StopsAfter trace echo program count .halted) (within : count ≤ limit) :
    cutOff program limit (freeRun trace echo program limit) =
      freeRun trace echo program (count + 1) := by
  by_cases last : count = limit
  · obtain ⟨machine, ran, outside⟩ := (stopsAfter_halted_iff trace echo program).mp halts
    rw [freeRun_succ trace echo program ran, run_succ_of_outside outside, ← last, ran, cutOff,
      atLimit, outside]
  · have stopped : (freeRun trace echo program (count + 1)).1 ≠ .running := by
      rw [show (freeRun trace echo program (count + 1)).1 = .halted from halts.2]
      simp
    exact cutOff_of_stopped trace echo program stopped (by omega)

/-- The three ways in which a run cut off can have ended. -/
theorem cutOff_cases (limit : Nat) :
    (∃ count ≤ limit, StopsAfter trace echo program count .halted) ∨
      (∃ count < limit, ∃ fault, StopsAfter trace echo program count (.faulted fault)) ∨
      ∃ machine, freeRun trace echo program limit = (.running, machine) ∧
        cutOff program limit (freeRun trace echo program limit) =
          (.faulted ⟨.instructionLimitExceeded limit, machine.pc⟩, machine) := by
  cases ran : freeRun trace echo program limit with
  | mk status machine =>
    have stands : (freeRun trace echo program limit).1 = status := congrArg Prod.fst ran
    cases status with
    | halted =>
      obtain ⟨count, below, halts⟩ := exists_stopsAfter trace echo program stands (by simp)
      exact .inl ⟨count, by omega, halts⟩
    | faulted fault =>
      obtain ⟨count, below, faults⟩ := exists_stopsAfter trace echo program stands (by simp)
      exact .inr (.inl ⟨count, below, fault, faults⟩)
    | running =>
      cases found : program[machine.pc]? with
      | none =>
        have halts := (stopsAfter_halted_iff trace echo program).mpr ⟨machine, ran, found⟩
        exact .inl ⟨limit, Nat.le_refl limit, halts⟩
      | some instruction =>
        refine .inr (.inr ⟨machine, rfl, ?_⟩)
        rw [cutOff, atLimit, found]

/-- A limited run of a whole program, through the run without a limit. -/
theorem runProgram_eq_cutOff {limit fuel : Nat} (enough : limit < fuel) :
    runProgram ⟨trace, echo, some limit⟩ fuel program =
      let ended := cutOff program limit (freeRun trace echo program limit)
      (ended.1, recordEnd ended.1 ended.2) := by
  have budget : (initial ⟨trace, echo, none⟩ program).steps + limit = limit := Nat.zero_add limit
  rw [freeRun, ← run_limited trace echo program budget enough]
  rfl

theorem runProgram_of_halted {limit fuel count : Nat} (enough : limit < fuel)
    (halts : StopsAfter trace echo program count .halted) (within : count ≤ limit) :
    runProgram ⟨trace, echo, some limit⟩ fuel program =
      runProgram ⟨trace, echo, none⟩ (count + 1) program := by
  rw [runProgram_eq_cutOff trace echo program enough,
    cutOff_of_halted trace echo program halts within]
  rfl

theorem runProgram_of_faulted {limit fuel count : Nat} {fault : Fault} (enough : limit < fuel)
    (faults : StopsAfter trace echo program count (.faulted fault)) (within : count < limit) :
    runProgram ⟨trace, echo, some limit⟩ fuel program =
      runProgram ⟨trace, echo, none⟩ (count + 1) program := by
  have stopped : (freeRun trace echo program (count + 1)).1 ≠ .running := by
    rw [show (freeRun trace echo program (count + 1)).1 = .faulted fault from faults.2]
    simp
  rw [runProgram_eq_cutOff trace echo program enough,
    cutOff_of_stopped trace echo program stopped within]
  rfl

/-- What a limit does to the run of a program that is given enough time. -/
structure LimitedRun (limit : UInt64) (fuel : Nat) : Prop where
  /-- A program that halts within the limit halts as it does without. -/
  halts : ∀ count ≤ limit.toNat, StopsAfter trace echo program count .halted →
    runProgram ⟨trace, echo, some limit.toNat⟩ fuel program =
      runProgram ⟨trace, echo, none⟩ (count + 1) program
  /-- An instruction within the limit that fails ends the run as it does
  without. -/
  faults : ∀ count < limit.toNat, ∀ fault, StopsAfter trace echo program count (.faulted fault) →
    runProgram ⟨trace, echo, some limit.toNat⟩ fuel program =
      runProgram ⟨trace, echo, none⟩ (count + 1) program
  /-- In all other cases the run is stopped where it stands without a limit after
  the allowed number of instructions. -/
  exceeds : (∀ count ≤ limit.toNat, ¬ StopsAfter trace echo program count .halted) →
    (∀ count < limit.toNat, ∀ fault, ¬ StopsAfter trace echo program count (.faulted fault)) →
      ∃ machine, runProgram ⟨trace, echo, none⟩ limit.toNat program = (.running, machine) ∧
        (runProgram ⟨trace, echo, some limit.toNat⟩ fuel program).1 =
          .faulted ⟨.instructionLimitExceeded limit.toNat, machine.pc⟩
  ends : (runProgram ⟨trace, echo, some limit.toNat⟩ fuel program).1 ≠ .running
  /-- At no time are more instructions counted than allowed, so the count stays a
  64-bit number. -/
  bounded : ∀ count,
    (runProgram ⟨trace, echo, some limit.toNat⟩ count program).2.steps ≤ limit.toNat ∧
      (runProgram ⟨trace, echo, some limit.toNat⟩ count program).2.steps < UInt64.size
  /-- A run that its limit did not stop is the same under every higher limit. -/
  raised : ∀ higher : UInt64, limit ≤ higher → ∀ more, higher.toNat < more →
    (∀ pc, (runProgram ⟨trace, echo, some limit.toNat⟩ fuel program).1 ≠
      .faulted ⟨.instructionLimitExceeded limit.toNat, pc⟩) →
    runProgram ⟨trace, echo, some higher.toNat⟩ more program =
      runProgram ⟨trace, echo, some limit.toNat⟩ fuel program

/-- A limit cuts a run off and does nothing else. -/
theorem runProgram_limited (limit : UInt64) (fuel : Nat) (enough : limit.toNat < fuel) :
    LimitedRun trace echo program limit fuel where
  halts count within halts := runProgram_of_halted trace echo program enough halts within
  faults count within fault faults := runProgram_of_faulted trace echo program enough faults within
  exceeds := by
    intro noHalt noFault
    rcases cutOff_cases trace echo program limit.toNat with
      ⟨count, within, halts⟩ | ⟨count, within, fault, faults⟩ | ⟨machine, ran, cut⟩
    · exact absurd halts (noHalt count within)
    · exact absurd faults (noFault count within fault)
    · refine ⟨machine, ?_, ?_⟩
      · have recorded : runProgram ⟨trace, echo, none⟩ limit.toNat program =
            ((freeRun trace echo program limit.toNat).1,
              recordEnd (freeRun trace echo program limit.toNat).1
                (freeRun trace echo program limit.toNat).2) := rfl
        rw [recorded, ran]
        rfl
      · rw [runProgram_eq_cutOff trace echo program enough, cut]
  ends := by
    rcases cutOff_cases trace echo program limit.toNat with
      ⟨count, within, halts⟩ | ⟨count, within, fault, faults⟩ | ⟨machine, ran, cut⟩
    · rw [runProgram_of_halted trace echo program enough halts within, halts.2]
      simp
    · rw [runProgram_of_faulted trace echo program enough faults within, faults.2]
      simp
    · rw [runProgram_eq_cutOff trace echo program enough, cut]
      simp
  bounded count := by
    have below : (runProgram ⟨trace, echo, some limit.toNat⟩ count program).2.steps ≤
        limit.toNat := by
      rw [runProgram, steps_recordEnd]
      exact steps_le_limit trace echo program limit.toNat count (Nat.zero_le _)
    have small := limit.toNat_lt_size
    exact ⟨below, by omega⟩
  raised := by
    intro higher above more plenty kept
    have further : limit.toNat ≤ higher.toNat := UInt64.le_iff_toNat_le.mp above
    rcases cutOff_cases trace echo program limit.toNat with
      ⟨count, within, halts⟩ | ⟨count, within, fault, faults⟩ | ⟨machine, ran, cut⟩
    · rw [runProgram_of_halted trace echo program enough halts within,
        runProgram_of_halted trace echo program plenty halts (by omega)]
    · rw [runProgram_of_faulted trace echo program enough faults within,
        runProgram_of_faulted trace echo program plenty faults (by omega)]
    · have stopped : (runProgram ⟨trace, echo, some limit.toNat⟩ fuel program).1 =
          .faulted ⟨.instructionLimitExceeded limit.toNat, machine.pc⟩ := by
        rw [runProgram_eq_cutOff trace echo program enough, cut]
      exact absurd stopped (kept machine.pc)

end Limited

theorem runProgram_limited_exact :
    StopsAfter false true #[.push 5, .print] 2 .halted ∧
      LimitedRun false true #[.push 5, .print] 2 3 :=
  ⟨⟨rfl, rfl⟩, runProgram_limited false true #[.push 5, .print] 2 3 (by decide)⟩

end StackAsm.Machine
