import Mathlib.Data.List.Perm.Basic
import StackAsm.Proofs.Consistency
import StackAsm.Proofs.InstructionLimit
import StackAsm.Proofs.Relocation

/-!
# A label that nothing refers to

Declaring one more label puts an instruction without effect between the others
and moves those below it.  A run of the longer program stands still, seen from
the shorter one, whenever it passes that instruction, and otherwise the two keep
step.  It ends when the shorter one ends, and in the same way.
-/

set_option autoImplicit false

namespace StackAsm

/-! ## Places beside a gap -/

def openGap (gap position : Nat) : Nat :=
  if position < gap then position else position + 1

/-- Where a run of the longer program stands in the shorter one: in front of the
added instruction it stands in front of the one that follows. -/
def closeGap (gap position : Nat) : Nat :=
  if position ≤ gap then position else position - 1

section Gap

variable (gap position : Nat)

@[simp]
theorem openGap_zero : openGap 0 position = position + 1 :=
  rfl

@[simp]
theorem openGap_succ_zero : openGap (gap + 1) 0 = 0 :=
  rfl

@[simp]
theorem openGap_succ_succ : openGap (gap + 1) (position + 1) = openGap gap position + 1 := by
  unfold openGap
  split <;> split <;> omega

@[simp]
theorem closeGap_openGap : closeGap gap (openGap gap position) = position := by
  unfold closeGap openGap
  split <;> split <;> omega

theorem closeGap_openGap_succ : closeGap gap (openGap gap position + 1) = position + 1 := by
  unfold closeGap openGap
  split <;> split <;> omega

theorem closeGap_self : closeGap gap gap = gap :=
  if_pos (Nat.le_refl gap)

theorem closeGap_self_succ : closeGap gap (gap + 1) = gap := by
  unfold closeGap
  split <;> omega

variable {gap position}

theorem closeGap_succ (other : position ≠ gap) :
    closeGap gap (position + 1) = closeGap gap position + 1 := by
  unfold closeGap
  split <;> split <;> omega

theorem openGap_closeGap (other : position ≠ gap) :
    openGap gap (closeGap gap position) = position := by
  unfold closeGap openGap
  split <;> split <;> omega

end Gap

namespace Machine

/-! ## Programs with an added instruction -/

structure Padded (gap : Nat) (program padded : Program) : Prop where
  added : padded[gap]? = some .noop
  others : ∀ position, position ≠ gap →
    program[closeGap gap position]? =
      padded[position]?.map (Instruction.relocate (closeGap gap))

structure Follows (gap extra : Nat) (machine image : Machine) : Prop where
  pc : machine.pc = closeGap gap image.pc
  steps : image.steps = machine.steps + extra
  stack : machine.stack = image.stack
  frames : machine.frames = image.frames.map (Frame.relocate (closeGap gap))
  output : machine.output = image.output

def closing (gap steps : Nat) : Relocation :=
  ⟨closeGap gap, fun _ => steps, #[]⟩

theorem follows_of_unobserved {gap extra steps : Nat} {machine image : Machine}
    (seen : machine.unobserved = image.unobserved.relocate (closing gap steps))
    (counted : image.steps = steps + extra) : Follows gap extra machine image := by
  simp only [unobserved, relocate, closing, Array.empty_append, mk.injEq, and_true] at seen
  obtain ⟨pc, same, stack, frames, output⟩ := seen
  exact ⟨pc, by omega, stack, frames, output⟩

theorem Follows.execution {gap extra : Nat} {machine image : Machine}
    (follows : Follows gap extra machine image) :
    image.execution = { machine.execution with steps := machine.execution.steps + extra } := by
  simp [Machine.execution, follows.stack, follows.output, follows.steps]

section Padded

variable {gap extra : Nat} {program padded : Program} {machine image : Machine}
  (pads : Padded gap program padded) (trace echo : Bool)

include pads

/-- Passing the added instruction is not seen from the shorter program. -/
theorem Padded.run_added (follows : Follows gap extra machine image) (stands : image.pc = gap) :
    ∃ next, run ⟨trace, echo, none⟩ padded 1 image = (.running, next) ∧ next.pc = gap + 1 ∧
      Follows gap (extra + 1) machine next := by
  have found : padded[image.pc]? = some .noop := by rw [stands, pads.added]
  have effect := effect_perform ⟨trace, echo, none⟩ .noop image
  have idle : resultOf none image.moved =
      resultOf (raised? ((perform ⟨trace, echo, none⟩ .noop).run image))
        (finalMachine ((perform ⟨trace, echo, none⟩ .noop).run image)).unobserved :=
    effect.run_step rfl
  obtain ⟨passes, same⟩ := resultOf_inj idle
  rw [run_succ_of_allowed found rfl]
  cases performed : (perform ⟨trace, echo, none⟩ .noop).run image with
  | error error reached =>
    rw [performed] at passes
    cases passes
  | ok value next =>
    rw [performed] at same
    have after : next.unobserved = image.moved := same.symm
    simp only [unobserved, moved, mk.injEq, and_true] at after
    obtain ⟨pc, steps, stack, frames, output⟩ := after
    refine ⟨next, rfl, by rw [pc, stands], ?_⟩
    constructor
    · rw [pc, stands, closeGap_self_succ, follows.pc, stands, closeGap_self]
    · have counted := follows.steps
      omega
    · rw [stack, follows.stack]
    · rw [frames, follows.frames]
    · rw [output, follows.output]

theorem Padded.run_other (follows : Follows gap extra machine image) (other : image.pc ≠ gap) :
    (run ⟨trace, echo, none⟩ padded 1 image).1 =
        (run ⟨trace, echo, none⟩ program 1 machine).1.relocate (openGap gap) ∧
      Follows gap extra (run ⟨trace, echo, none⟩ program 1 machine).2
        (run ⟨trace, echo, none⟩ padded 1 image).2 := by
  have here := pads.others image.pc other
  rw [← follows.pc] at here
  cases found : padded[image.pc]? with
  | none =>
    rw [found, Option.map_none] at here
    rw [run_succ_of_outside here, run_succ_of_outside found]
    exact ⟨rfl, follows⟩
  | some instruction =>
    rw [found, Option.map_some] at here
    have seen : machine.moved = image.moved.relocate (closing gap (machine.steps + 1)) := by
      simp [moved, unobserved, relocate, closing, closeGap_succ other, follows.pc, follows.stack,
        follows.frames, follows.output]
    obtain ⟨after, ran, same⟩ :=
      perform_relocate (closing gap (machine.steps + 1)) ⟨trace, echo, none⟩ instruction seen
    have moved : (closing gap (machine.steps + 1)).place = closeGap gap := rfl
    have counted : (finalMachine ((perform ⟨trace, echo, none⟩ instruction).run image)).steps =
        machine.steps + 1 + extra := by
      rw [steps_perform, follows.steps]
      omega
    rw [moved] at ran
    rw [run_succ_of_allowed here rfl, run_succ_of_allowed found rfl, ran]
    cases performed : (perform ⟨trace, echo, none⟩ instruction).run image with
    | error error reached =>
      rw [performed] at same counted
      have position : openGap gap machine.pc = image.pc := by
        rw [follows.pc, openGap_closeGap other]
      refine ⟨?_, follows_of_unobserved same counted⟩
      show Status.faulted ⟨error, image.pc⟩ = .faulted ⟨error, openGap gap machine.pc⟩
      rw [position]
    | ok value reached =>
      rw [performed] at same counted
      exact ⟨rfl, follows_of_unobserved same counted⟩

end Padded

/-! ## Whole runs -/

/-- How often a run without a limit stood at a place in its first `count`
iterations. -/
def visits (trace echo : Bool) (program : Program) (place count : Nat) : Nat :=
  (List.range count).countP fun earlier => (freeRun trace echo program earlier).2.pc = place

theorem visits_succ (trace echo : Bool) (program : Program) (place count : Nat) :
    visits trace echo program place (count + 1) =
      visits trace echo program place count +
        if (freeRun trace echo program count).2.pc = place then 1 else 0 := by
  rw [visits, visits, List.range_succ, List.countP_append, List.countP_singleton]
  simp only [decide_eq_true_eq]

theorem execution_runProgram (trace echo : Bool) (program : Program) (count : Nat) :
    (runProgram ⟨trace, echo, none⟩ count program).2.execution =
      (freeRun trace echo program count).2.execution := by
  have same := congrArg execution (unobserved_recordEnd (freeRun trace echo program count).1
    (freeRun trace echo program count).2)
  exact same

/-- Adding an instruction at `gap` changed nothing but the number of steps, which
grows by the times that instruction is executed. -/
structure Inert (trace echo : Bool) (gap : Nat) (program padded : Program) : Prop where
  ends : (∃ count, (runProgram ⟨trace, echo, none⟩ count padded).1 ≠ .running) ↔
    ∃ count, (runProgram ⟨trace, echo, none⟩ count program).1 ≠ .running
  stops : ∀ count status, StopsAfter trace echo program count status →
    ∃ total, total = count + visits trace echo padded gap total ∧
      StopsAfter trace echo padded total (status.relocate (openGap gap)) ∧
      let before := (runProgram ⟨trace, echo, none⟩ (count + 1) program).2.execution
      (runProgram ⟨trace, echo, none⟩ (total + 1) padded).2.execution =
        { before with steps := before.steps + visits trace echo padded gap total }

theorem Follows.total {trace echo : Bool} {gap extra count total : Nat}
    {program padded : Program} {machine image : Machine}
    (follows : Follows gap extra machine image)
    (ran : freeRun trace echo program count = (.running, machine))
    (reached : freeRun trace echo padded total = (.running, image)) : total = count + extra := by
  have shorter := steps_of_freeRun trace echo program ran
  have longer := steps_of_freeRun trace echo padded reached
  have counted := follows.steps
  omega

section Runs

variable {gap : Nat} {program padded : Program} {machine : Machine}
  (pads : Padded gap program padded) (trace echo : Bool)

include pads

theorem Padded.settles {total : Nat} {image : Machine}
    (ran : freeRun trace echo padded total = (.running, image))
    (follows : Follows gap (visits trace echo padded gap total) machine image) :
    ∃ later next, freeRun trace echo padded later = (.running, next) ∧ next.pc ≠ gap ∧
      Follows gap (visits trace echo padded gap later) machine next := by
  by_cases stands : image.pc = gap
  · obtain ⟨next, moves, pc, still⟩ := pads.run_added trace echo follows stands
    have counted := visits_succ trace echo padded gap total
    rw [ran, if_pos stands] at counted
    refine ⟨total + 1, next, ?_, by omega, ?_⟩
    · rw [freeRun_succ trace echo padded ran, moves]
    · rw [counted]
      exact still
  · exact ⟨total, image, ran, stands, follows⟩

/-- While the shorter program runs, the longer one keeps step with it. -/
theorem Padded.keepsStep {count : Nat}
    (ran : freeRun trace echo program count = (.running, machine)) :
    ∃ total image, freeRun trace echo padded total = (.running, image) ∧ image.pc ≠ gap ∧
      Follows gap (visits trace echo padded gap total) machine image := by
  induction count generalizing machine with
  | zero =>
    cases ran
    have start : freeRun trace echo padded 0 =
        (.running, initial ⟨trace, echo, none⟩ padded) := rfl
    have place : 0 = closeGap gap 0 := (if_pos (Nat.zero_le gap)).symm
    exact pads.settles trace echo start ⟨place, rfl, rfl, rfl, rfl⟩
  | succ count ih =>
    obtain ⟨before, earlier, moves⟩ := freeRun_succ_eq_running trace echo program ran
    obtain ⟨total, image, reached, other, follows⟩ := ih earlier
    obtain ⟨status, still⟩ := pads.run_other trace echo follows other
    have counted := visits_succ trace echo padded gap total
    rw [reached, if_neg other] at counted
    rw [moves] at status still
    have next : freeRun trace echo padded (total + 1) =
        (.running, (run ⟨trace, echo, none⟩ padded 1 image).2) := by
      rw [freeRun_succ trace echo padded reached]
      exact Prod.ext status rfl
    rw [← Nat.add_zero (visits trace echo padded gap total), ← counted] at still
    exact pads.settles trace echo next still

theorem Padded.stops {count : Nat} {status : Status}
    (stops : StopsAfter trace echo program count status) :
    ∃ total, total = count + visits trace echo padded gap total ∧
      StopsAfter trace echo padded total (status.relocate (openGap gap)) ∧
      let before := (runProgram ⟨trace, echo, none⟩ (count + 1) program).2.execution
      (runProgram ⟨trace, echo, none⟩ (total + 1) padded).2.execution =
        { before with steps := before.steps + visits trace echo padded gap total } := by
  have ran : freeRun trace echo program count =
      (.running, (freeRun trace echo program count).2) := Prod.ext stops.1 rfl
  obtain ⟨total, image, reached, other, follows⟩ := pads.keepsStep trace echo ran
  obtain ⟨ended, still⟩ := pads.run_other trace echo follows other
  rw [← freeRun_succ trace echo program ran, ← freeRun_succ trace echo padded reached]
    at ended still
  refine ⟨total, follows.total ran reached, ⟨congrArg Prod.fst reached, ?_⟩, ?_⟩
  · have status : (freeRun trace echo program (count + 1)).1 = status := stops.2
    rw [status] at ended
    exact ended
  · dsimp only
    rw [execution_runProgram, execution_runProgram, still.execution]

theorem Padded.inert : Inert trace echo gap program padded where
  ends := by
    constructor
    · intro stopped
      obtain ⟨count, stopped⟩ := stopped
      by_contra never
      have runs : (freeRun trace echo program count).1 = .running := by
        by_contra ended
        exact never ⟨count, ended⟩
      have ran : freeRun trace echo program count =
          (.running, (freeRun trace echo program count).2) := Prod.ext runs rfl
      obtain ⟨total, image, reached, _, follows⟩ := pads.keepsStep trace echo ran
      have counted := follows.total ran reached
      have same := freeRun_of_stopped trace echo padded stopped
        (show count ≤ total by omega)
      rw [reached] at same
      exact stopped (congrArg Prod.fst same).symm
    · intro stopped
      obtain ⟨count, stopped⟩ := stopped
      obtain ⟨last, _, stops⟩ := exists_stopsAfter trace echo program rfl stopped
      obtain ⟨total, _, ended, _⟩ := pads.stops trace echo stops
      refine ⟨total + 1, ?_⟩
      rw [ended.2, Ne, Status.relocate_eq_running_iff]
      exact stopped
  stops count status stops := pads.stops trace echo stops

end Runs

end Machine

/-! ## Statements with an added label -/

theorem filterMap_insertIdx {α : Type} {f : Numbered → Option α} {added : Numbered}
    (skipped : f added = none) (gap : Nat) (statements : List Numbered) :
    (statements.insertIdx gap added).filterMap f = statements.filterMap f := by
  induction gap generalizing statements with
  | zero => rw [List.insertIdx_zero, List.filterMap_cons_none skipped]
  | succ gap ih =>
    cases statements with
    | nil => rfl
    | cons source rest =>
      rw [List.insertIdx_succ_cons, List.filterMap_cons, List.filterMap_cons, ih]

theorem findIdx?_insertIdx {test : Numbered → Bool} {added : Numbered}
    (skipped : test added = false) (gap : Nat) (statements : List Numbered) :
    (statements.insertIdx gap added).findIdx? test =
      (statements.findIdx? test).map (openGap gap) := by
  induction gap generalizing statements with
  | zero =>
    rw [List.insertIdx_zero, List.findIdx?_cons, skipped]
    rfl
  | succ gap ih =>
    cases statements with
    | nil => rfl
    | cons source rest =>
      rw [List.insertIdx_succ_cons, List.findIdx?_cons, List.findIdx?_cons, ih]
      cases test source with
      | true => rfl
      | false => simp [Function.comp_def]

theorem getElem?_insertIdx_closeGap {gap position : Nat} (other : position ≠ gap)
    (added : Numbered) (statements : List Numbered) :
    (statements.insertIdx gap added)[position]? = statements[closeGap gap position]? := by
  unfold closeGap
  by_cases below : position < gap
  · rw [List.getElem?_insertIdx_of_lt below, if_pos (by omega)]
  · rw [List.getElem?_insertIdx_of_gt (by omega), if_neg (by omega)]

section Label

variable {statements : List Numbered} (gap : Nat) {line : Nat} {label : String}

theorem Symbols.endBelow?_insertIdx (statements : List Numbered) (position : Nat) :
    endBelow? (statements.insertIdx gap ⟨line, .label label⟩) (openGap gap position) =
      (endBelow? statements position).map (openGap gap) := by
  induction gap generalizing statements position with
  | zero =>
    rw [List.insertIdx_zero, openGap_zero, endBelow?_cons]
    rfl
  | succ gap ih =>
    cases statements with
    | nil => simp [endBelow?, firstEnd?]
    | cons source rest =>
      rw [List.insertIdx_succ_cons]
      cases position with
      | zero =>
        have searched : firstEnd? (rest.insertIdx gap ⟨line, .label label⟩) =
            (firstEnd? rest).map (openGap gap) := findIdx?_insertIdx rfl gap rest
        simp [endBelow?, searched, Function.comp_def, Nat.add_comm 1]
      | succ position =>
        rw [openGap_succ_succ, endBelow?_cons, endBelow?_cons, ih]
        simp [Function.comp_def]

theorem Consistent.insertLabel (consistent : Consistent statements)
    (inside : gap ≤ statements.length) (fresh : label ∉ labelNames statements) :
    Consistent (statements.insertIdx gap ⟨line, .label label⟩) := by
  have names : (labelNames (statements.insertIdx gap ⟨line, .label label⟩)).Perm
      (label :: labelNames statements) :=
    (List.perm_insertIdx _ _ inside).filterMap _
  constructor
  · rw [names.nodup_iff]
    exact List.nodup_cons.mpr ⟨fresh, consistent.labelsOnce⟩
  · rw [brackets, filterMap_insertIdx rfl]
    exact consistent.paired
  · rw [procedureNames, filterMap_insertIdx rfl]
    exact consistent.proceduresOnce
  · intro name member
    rw [targetNames, filterMap_insertIdx rfl] at member
    rw [names.mem_iff]
    exact List.mem_cons_of_mem _ (consistent.jumpsDeclared name member)
  · intro name member
    rw [calleeNames, filterMap_insertIdx rfl] at member
    rw [procedureNames, filterMap_insertIdx rfl]
    exact consistent.callsDeclared name member

variable {gap} {symbols longer : Symbols} (resolved : Symbols.resolve statements = .ok symbols)
  (resolvedLonger :
    Symbols.resolve (statements.insertIdx gap ⟨line, .label label⟩) = .ok longer)

include resolved resolvedLonger

theorem Symbols.label?_insertLabel {name : String} (other : name ≠ label) :
    longer.label? name = (symbols.label? name).map (openGap gap) := by
  rw [label?_eq_labelLine? resolved, label?_eq_labelLine? resolvedLonger]
  exact findIdx?_insertIdx (by simpa using Ne.symm other) gap statements

theorem Symbols.procedure?_insertLabel (name : String) :
    longer.procedure? name = (symbols.procedure? name).map fun procedure =>
      ⟨openGap gap procedure.entry, openGap gap (procedure.exit - 1) + 1⟩ := by
  have opens : procedureLine? (statements.insertIdx gap ⟨line, .label label⟩) name =
      (procedureLine? statements name).map (openGap gap) :=
    findIdx?_insertIdx (by simp) gap statements
  rw [procedure?_eq_extent resolved, procedure?_eq_extent resolvedLonger, opens]
  cases procedureLine? statements name with
  | none => rfl
  | some entry =>
    rw [Option.map_some, Option.bind_some, Option.bind_some, endBelow?_insertIdx]
    cases endBelow? statements entry <;> rfl

theorem lower_insertLabel {source : Numbered} {instruction : Instruction}
    (fresh : ∀ name ∈ source.statement.target?, name ≠ label)
    (untargeted : ∀ written, source.statement = .plain written → written.target? = none)
    (lowered : lower longer source = .ok instruction) :
    lower symbols source = .ok (instruction.relocate (closeGap gap)) := by
  refine lower_relocate ?_ ?_ ?_ lowered
  · intro name refers target known
    rw [Symbols.label?_insertLabel resolved resolvedLonger (fresh name refers)] at known
    obtain ⟨position, found, rfl⟩ := Option.map_eq_some_iff.mp known
    rw [found, closeGap_openGap]
  · intro name procedure known
    rw [Symbols.procedure?_insertLabel resolved resolvedLonger] at known
    obtain ⟨extent, found, rfl⟩ := Option.map_eq_some_iff.mp known
    have exit : extent.exit - 1 + 1 = extent.exit := by
      have bounds := Symbols.procedure?_bounds resolved found
      omega
    refine ⟨extent, found, ?_, ?_⟩
    · exact (closeGap_openGap_succ gap extent.entry).symm
    · rw [closeGap_openGap_succ, exit]
  · intro written same
    exact Instruction.relocate_of_untargeted _ (untargeted written same)

end Label

namespace Assembly

open Machine

theorem padded_insertLabel {statements : List Numbered} {gap line : Nat} {label : String}
    {shorter longer : Assembly}
    (untargeted : ∀ source ∈ statements, ∀ written, source.statement = .plain written →
      written.target? = none)
    (inside : gap ≤ statements.length) (fresh : label ∉ labelNames statements)
    (accepted : ofStatements statements = .ok shorter)
    (acceptedLonger :
      ofStatements (statements.insertIdx gap ⟨line, .label label⟩) = .ok longer) :
    Padded gap shorter.program longer.program := by
  obtain ⟨resolved, lowered, _⟩ := ofStatements_eq_ok_iff.mp accepted
  obtain ⟨resolvedLonger, loweredLonger, _⟩ := ofStatements_eq_ok_iff.mp acceptedLonger
  have declared := ((ofStatements_isOk_iff statements).mp ⟨shorter, accepted⟩).jumpsDeclared
  constructor
  · have here := lower_of_getElem? loweredLonger gap
    rw [List.getElem?_insertIdx_self, if_pos inside, Option.map_some] at here
    obtain ⟨instruction, found, same⟩ := Option.map_eq_some_iff.mp here.symm
    cases same
    exact found
  · intro position other
    have here := lower_of_getElem? lowered (closeGap gap position)
    have there := lower_of_getElem? loweredLonger position
    rw [getElem?_insertIdx_closeGap other] at there
    cases stands : statements[closeGap gap position]? with
    | none =>
      rw [stands, Option.map_none] at here there
      rw [Option.map_eq_none_iff.mp here.symm, Option.map_eq_none_iff.mp there.symm]
      rfl
    | some source =>
      have member := List.mem_of_getElem? stands
      rw [stands, Option.map_some] at here there
      obtain ⟨instruction, found, same⟩ := Option.map_eq_some_iff.mp there.symm
      have known : ∀ name ∈ source.statement.target?, name ≠ label := by
        intro name refers equal
        have listed := declared name (List.mem_filterMap.mpr ⟨source, member, refers⟩)
        rw [equal] at listed
        exact fresh listed
      rw [lower_insertLabel resolved resolvedLonger known (untargeted source member) same.symm]
        at here
      obtain ⟨moved, stood, equal⟩ := Option.map_eq_some_iff.mp here.symm
      cases equal
      rw [stood, found]
      rfl

/-- A label that was not declared can be declared anywhere, and the program then
runs as before. -/
theorem ofStatements_insertLabel (lines : List Source.Line) (statements : List Numbered)
    (assembly : Assembly) (gap line : Nat) (label : String)
    (parsed : Source.statements lines = .ok statements)
    (accepted : ofStatements statements = .ok assembly)
    (inside : gap ≤ statements.length) (fresh : label ∉ labelNames statements) :
    ∃ longer, ofStatements (statements.insertIdx gap ⟨line, .label label⟩) = .ok longer ∧
      ∀ trace echo, Inert trace echo gap assembly.program longer.program := by
  have consistent := (ofStatements_isOk_iff statements).mp ⟨assembly, accepted⟩
  obtain ⟨longer, acceptedLonger⟩ :=
    (ofStatements_isOk_iff _).mpr (consistent.insertLabel gap inside fresh)
  refine ⟨longer, acceptedLonger, ?_⟩
  intro trace echo
  have untargeted := untargeted_of_statements parsed
  exact (padded_insertLabel untargeted inside fresh accepted acceptedLonger).inert trace echo

def popsTwice : List Source.Line :=
  [⟨1, "Push", ["7"]⟩, ⟨2, "Call", ["f"]⟩, ⟨3, "Call", ["f"]⟩, ⟨4, "Proc", ["f"]⟩,
    ⟨5, "Pop", []⟩, ⟨6, "Ret", []⟩, ⟨7, "End", []⟩]

theorem ofStatements_insertLabel_popsTwice :
    ∃ statements assembly longer, Source.statements popsTwice = .ok statements ∧
      ofStatements statements = .ok assembly ∧ 4 ≤ statements.length ∧
      "f" ∉ labelNames statements ∧
      ofStatements (statements.insertIdx 4 ⟨5, .label "f"⟩) = .ok longer ∧
      longer.program = #[.push 7, .call 4, .call 4, .jump 8, .noop, .pop, .ret, .noop] ∧
      Inert false false 4 assembly.program longer.program ∧
      StopsAfter false false assembly.program 5 (.faulted ⟨.stackUnderflow, 4⟩) ∧
      StopsAfter false false longer.program 7 (.faulted ⟨.stackUnderflow, 5⟩) := by
  obtain ⟨longer, accepted, inert⟩ := ofStatements_insertLabel popsTwice _ _ 4 5 "f" rfl rfl
    (by decide) (by decide)
  have same := accepted
  cases same
  exact ⟨_, _, _, rfl, rfl, by decide, by decide, accepted, rfl, inert false false, ⟨rfl, rfl⟩,
    ⟨rfl, rfl⟩⟩

end Assembly

end StackAsm
