import Mathlib.Data.List.Forall2
import StackAsm.Proofs.Lowering

/-!
# One emitter for many units

An emitter keeps the instructions of a unit that failed, up to the statement
that did, and is empty after a unit that did not.  The next unit begins with an
empty buffer either way, so what comes out of an emitter depends on the unit
alone: after any units before it, each unit has the result it has with a new
emitter.
-/

set_option autoImplicit false

namespace StackAsm.Emitter

/-! ## One unit -/

/-- What a unit gives, and what it leaves in the emitter. -/
inductive Generates (symbols : Symbols) (statements : List Numbered) :
    Except SourceError Program × Emitter → Prop where
  | whole {program : Program}
      (lowered : statements.map (lower symbols) = program.toList.map .ok) :
      Generates symbols statements (.ok program, {})
  | stopped {before after : List Numbered} {source : Numbered} {done : Program}
      {error : SourceError} (parts : statements = before ++ source :: after)
      (lowered : before.map (lower symbols) = done.toList.map .ok)
      (fails : lower symbols source = .error error) :
      Generates symbols statements (.error error, ⟨done⟩)

section Units

variable {symbols : Symbols} {statements : List Numbered}

theorem exists_generates (symbols : Symbols) (statements : List Numbered) :
    ∃ outcome, Generates symbols statements outcome := by
  induction statements with
  | nil => exact ⟨(.ok #[], {}), .whole rfl⟩
  | cons source rest ih =>
    cases head : lower symbols source with
    | error error =>
      have nothing : [].map (lower symbols) = (#[] : Program).toList.map .ok := rfl
      exact ⟨(.error error, ⟨#[]⟩), .stopped rfl nothing head⟩
    | ok instruction =>
      obtain ⟨outcome, generates⟩ := ih
      cases generates with
      | @whole program lowered =>
        refine ⟨(.ok ⟨instruction :: program.toList⟩, {}), .whole ?_⟩
        simp [head, lowered]
      | @stopped before after failing done error parts lowered fails =>
        have longer : (source :: before).map (lower symbols) =
            (instruction :: done.toList).map .ok := by
          simp [head, lowered]
        rw [parts, ← List.cons_append]
        exact ⟨(.error error, ⟨⟨instruction :: done.toList⟩⟩), .stopped rfl longer fails⟩

/-- Every emitter does the same with a unit, whatever it holds. -/
theorem Generates.generate_eq {outcome : Except SourceError Program × Emitter}
    (generates : Generates symbols statements outcome) (emitter : Emitter) :
    emitter.generate symbols statements = outcome := by
  have emptied : emitter.buffer.shrink 0 = #[] := by simp
  simp only [generate, emptied]
  cases generates with
  | whole lowered =>
    rw [fill_of_lowered symbols _ statements _ lowered]
    simp
  | stopped parts lowered fails =>
    rw [parts, fill_append symbols _ lowered, fill, fails]
    simp

end Units

/-! ## Units after each other -/

structure Job where
  symbols : Symbols
  statements : List Numbered

def generateAll (emitter : Emitter) : List Job → List (Except SourceError Program) × Emitter
  | [] => ([], emitter)
  | job :: rest =>
    let (result, used) := emitter.generate job.symbols job.statements
    let (later, last) := used.generateAll rest
    (result :: later, last)

def Job.result (job : Job) : Except SourceError Program :=
  (({} : Emitter).generate job.symbols job.statements).1

theorem generate_fst (emitter : Emitter) (job : Job) :
    (emitter.generate job.symbols job.statements).1 = job.result := by
  obtain ⟨outcome, generates⟩ := exists_generates job.symbols job.statements
  rw [Job.result, generates.generate_eq emitter, generates.generate_eq {}]

theorem generateAll_fst (emitter : Emitter) (jobs : List Job) :
    (emitter.generateAll jobs).1 = jobs.map Job.result := by
  induction jobs generalizing emitter with
  | nil => rfl
  | cons job rest ih =>
    rw [generateAll, List.map_cons, ← generate_fst emitter job, ← ih]

/-- A result is the program with the instruction of each statement in its place,
or the error of the first statement that has none. -/
structure Job.Exact (job : Job) (result : Except SourceError Program) : Prop where
  program : ∀ program, result = .ok program ↔
    job.statements.map (lower job.symbols) = program.toList.map .ok
  succeeds : (∃ program, result = .ok program) ↔
    ∀ source ∈ job.statements, ∃ instruction, lower job.symbols source = .ok instruction
  fails : ∀ error, result = .error error ↔
    ∃ before source after, job.statements = before ++ source :: after ∧
      (∀ earlier ∈ before, ∃ instruction, lower job.symbols earlier = .ok instruction) ∧
        lower job.symbols source = .error error

theorem Job.result_eq_error_iff (job : Job) (error : SourceError) :
    job.result = .error error ↔
      ∃ before source after, job.statements = before ++ source :: after ∧
        (∀ earlier ∈ before, ∃ instruction, lower job.symbols earlier = .ok instruction) ∧
          lower job.symbols source = .error error := by
  constructor
  · intro failed
    obtain ⟨outcome, generates⟩ := exists_generates job.symbols job.statements
    rw [Job.result, generates.generate_eq {}] at failed
    cases generates with
    | whole => cases failed
    | @stopped before after source done _ parts lowered fails =>
      cases failed
      have generated := (generate_eq_ok_iff {} job.symbols before done).mpr lowered
      have each := (generate_isOk_iff {} job.symbols before).mp ⟨done, generated⟩
      exact ⟨before, source, after, parts, each, fails⟩
  · intro split
    obtain ⟨before, source, after, parts, each, fails⟩ := split
    obtain ⟨done, generated⟩ := (generate_isOk_iff {} job.symbols before).mpr each
    have lowered := (generate_eq_ok_iff {} job.symbols before done).mp generated
    rw [Job.result, (Generates.stopped parts lowered fails).generate_eq {}]

theorem Job.exact_result (job : Job) : job.Exact job.result where
  program := generate_eq_ok_iff {} job.symbols job.statements
  succeeds := generate_isOk_iff {} job.symbols job.statements
  fails := job.result_eq_error_iff

/-- An emitter that has served any units gives each later one the result it has
with a new emitter, and this result is exact. -/
theorem generateAll_fresh (emitter : Emitter) (jobs : List Job) :
    (emitter.generateAll jobs).1 = jobs.map Job.result ∧
      List.Forall₂ Job.Exact jobs (emitter.generateAll jobs).1 := by
  have fresh := generateAll_fst emitter jobs
  refine ⟨fresh, ?_⟩
  rw [fresh, List.forall₂_map_right_iff, List.forall₂_same]
  intro job _
  exact job.exact_result

example :
    let jobs : List Job :=
      [⟨⟨.empty, .empty⟩, [⟨1, .plain .pop⟩, ⟨2, .call "f"⟩]⟩,
        ⟨⟨.empty, .empty⟩, [⟨1, .plain .print⟩]⟩]
    (({} : Emitter).generateAll (jobs.take 1)).2 = ⟨#[.pop]⟩ ∧
      (({} : Emitter).generateAll jobs).1 = [.error (.undefinedProcedure "f" 2), .ok #[.print]] :=
  ⟨rfl, rfl⟩

end StackAsm.Emitter
