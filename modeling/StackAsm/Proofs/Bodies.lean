import StackAsm.Proofs.Bounds

/-!
# Bodies run under a call

The opening line of a procedure jumps past its closing line, so that the body
between them is entered by calls, returns and jumps to labels only.  Where no
such jump leads in from outside, a call is pending whenever the body runs.

That a call is pending in every body is not an invariant by itself, since a
return may lead into a body.  It is one together with the fact that the
outermost pending call returns to a place outside all bodies.
-/

set_option autoImplicit false

namespace StackAsm

open Machine
open Symbols (endBelow? standing_of_endBelow?)

/-! ## Bodies -/

def bodyEnd? (statements : List Numbered) (entry : Nat) : Option Nat :=
  match statements[entry]? with
  | some ⟨_, .proc _⟩ => endBelow? statements entry
  | _ => none

/-- A body reaches from the line after the opening one to the closing one. -/
def InBody (statements : List Numbered) (entry position : Nat) : Prop :=
  ∃ closing ∈ bodyEnd? statements entry, entry < position ∧ position < closing + 1

instance (statements : List Numbered) (entry position : Nat) :
    Decidable (InBody statements entry position) :=
  inferInstanceAs (Decidable (∃ closing ∈ bodyEnd? statements entry, _))

def InsideBody (statements : List Numbered) (position : Nat) : Prop :=
  ∃ entry < position, InBody statements entry position

instance (statements : List Numbered) (position : Nat) :
    Decidable (InsideBody statements position) :=
  inferInstanceAs (Decidable (∃ entry < position, _))

def JumpsTo (statements : List Numbered) (position target : Nat) : Prop :=
  ∃ name ∈ statements[position]?.bind (fun source => source.statement.target?),
    statements[target]?.bind (fun source => source.statement.label?) = some name

instance (statements : List Numbered) (position target : Nat) :
    Decidable (JumpsTo statements position target) :=
  inferInstanceAs (Decidable (∃ name ∈ statements[position]?.bind _, _))

/-- No line outside all bodies jumps to a label inside one. -/
def NoJumpIn (statements : List Numbered) : Prop :=
  ∀ position < statements.length, ∀ target < statements.length,
    JumpsTo statements position target → ¬ InsideBody statements position →
      ¬ InsideBody statements target

instance (statements : List Numbered) : Decidable (NoJumpIn statements) :=
  inferInstanceAs (Decidable (∀ position < statements.length, ∀ target < statements.length,
    JumpsTo statements position target → ¬ _ → ¬ _))

section Bodies

variable {statements : List Numbered} {entry closing position : Nat}

theorem bodyEnd?_eq_some_iff :
    bodyEnd? statements entry = some closing ↔
      (∃ line name, statements[entry]? = some ⟨line, .proc name⟩) ∧
        endBelow? statements entry = some closing := by
  unfold bodyEnd?
  split
  · rename_i line name stands
    simp [stands]
  · rename_i other
    simp only [reduceCtorEq, false_iff, not_and]
    intro opens
    obtain ⟨line, name, stands⟩ := opens
    exact absurd stands (other line name)

theorem InBody.insideBody (inside : InBody statements entry position) :
    InsideBody statements position := by
  obtain ⟨closing, closes, after, before⟩ := inside
  exact ⟨entry, after, closing, closes, after, before⟩

theorem InBody.above (inside : InBody statements entry (position + 1)) :
    position = entry ∨ InBody statements entry position := by
  obtain ⟨closing, closes, after, before⟩ := inside
  by_cases opening : position = entry
  · exact .inl opening
  · exact .inr ⟨closing, closes, by omega, by omega⟩

theorem outside_of_closing (closes : endBelow? statements entry = some closing) :
    ¬ InsideBody statements (closing + 1) := by
  intro inside
  obtain ⟨other, after, later, ends, _, before⟩ := inside
  obtain ⟨⟨opening, name, opens⟩, closesLater⟩ := bodyEnd?_eq_some_iff.mp ends
  obtain ⟨_, ⟨line, stands⟩, _⟩ := standing_of_endBelow? closes
  obtain ⟨_, _, first⟩ := standing_of_endBelow? closesLater
  have apart : other ≠ closing := by
    intro same
    rw [same, stands] at opens
    cases opens
  exact first closing (by omega) (by omega) line stands

theorem NoJumpIn.outside {target line declaring : Nat} {kind : JumpKind} {name : String}
    (apart : NoJumpIn statements) (stands : statements[position]? = some ⟨line, .jump kind name⟩)
    (declared : statements[target]? = some ⟨declaring, .label name⟩)
    (outside : ¬ InsideBody statements position) : ¬ InsideBody statements target := by
  have jumps : JumpsTo statements position target := by
    refine ⟨name, ?_, ?_⟩
    · rw [stands]
      rfl
    · rw [declared]
      rfl
  exact apart position (List.getElem?_eq_some_iff.mp stands).1 target
    (List.getElem?_eq_some_iff.mp declared).1 jumps outside

end Bodies

/-! ## Ways into a body -/

/-- The ways of an instruction to lead into a body: a call, a return and a jump
to a label that is taken. -/
inductive Enters (statements : List Numbered) (machine : Machine) : Instruction → Nat → Prop where
  | call (target : Nat) : Enters statements machine (.call target) target
  | ret {frame : Frame} {rest : List Frame} (pending : machine.frames = frame :: rest) :
      Enters statements machine .ret frame.returnPointer
  | jump {kind : JumpKind} {name : String} {line declaring target : Nat}
      (stands : statements[machine.pc]? = some ⟨line, .jump kind name⟩)
      (declared : statements[target]? = some ⟨declaring, .label name⟩)
      (taken : machine.takenTarget? (kind.instruction target) = some target) :
      Enters statements machine (kind.instruction target) target

section Steps

variable {statements : List Numbered} {program : Program}
  (assembled : Assembled statements program)

include assembled

theorem Assembled.takenTarget?_of_entry {entry position : Nat} {instruction : Instruction}
    (inside : InBody statements entry position) (found : program[entry]? = some instruction)
    (machine : Machine) : machine.takenTarget? instruction ≠ none := by
  obtain ⟨closing, ends, _⟩ := inside
  obtain ⟨⟨line, name, opens⟩, _⟩ := bodyEnd?_eq_some_iff.mp ends
  obtain ⟨other, same, emitted⟩ := assembled.emitted opens
  rw [found] at same
  cases same
  cases emitted with
  | proc _ closes => exact Option.some_ne_none _

theorem Assembled.inBody_of_next {entry : Nat} {machine : Machine} {instruction : Instruction}
    (found : program[machine.pc]? = some instruction)
    (straight : machine.takenTarget? instruction = none)
    (inside : InBody statements entry (machine.pc + 1)) : InBody statements entry machine.pc := by
  rcases inside.above with opening | above
  · rw [opening] at found
    exact absurd straight (assembled.takenTarget?_of_entry inside found machine)
  · exact above

theorem Assembled.label_of_taken {machine : Machine} {instruction : Instruction} {target : Nat}
    (found : program[machine.pc]? = some instruction)
    (taken : machine.takenTarget? instruction = some target)
    (inside : InsideBody statements target) :
    ∃ line declaring kind name, statements[machine.pc]? = some ⟨line, .jump kind name⟩ ∧
      statements[target]? = some ⟨declaring, .label name⟩ ∧
      instruction = kind.instruction target := by
  have leads := target?_of_taken taken
  obtain ⟨line, _, stands, emitted⟩ := assembled.statement found
  cases emitted with
  | plain untargeted =>
    rw [untargeted] at leads
    cases leads
  | label _ | procEnd | call _ _ => cases taken
  | proc _ closes =>
    cases taken
    exact absurd inside (outside_of_closing closes)
  | @jump kind name _ declaring declared =>
    rw [JumpKind.target?_instruction] at leads
    cases leads
    exact ⟨line, declaring, kind, name, stands, declared, rfl⟩

theorem Assembled.enters (options : Options) {entry : Nat} {machine : Machine}
    {instruction : Instruction} (found : program[machine.pc]? = some instruction)
    (outside : ¬ InBody statements entry machine.pc)
    (inside : InBody statements entry
      (finalMachine ((perform options instruction).run machine)).pc) :
    Enters statements machine instruction
      (finalMachine ((perform options instruction).run machine)).pc := by
  have transfer := transfer_perform options instruction machine
  generalize finalMachine ((perform options instruction).run machine) = reached
    at transfer inside ⊢
  cases transfer with
  | next straight pc =>
    rw [pc] at inside
    exact absurd (assembled.inBody_of_next found straight inside) outside
  | jump taken =>
    obtain ⟨line, declaring, kind, name, stands, declared, rfl⟩ :=
      assembled.label_of_taken found taken inside.insideBody
    exact .jump stands declared taken
  | call calls =>
    rw [calls]
    exact .call _
  | ret returns frame frames pc =>
    rw [returns, pc]
    exact .ret frames

end Steps

/-! ## Pending calls -/

/-- A machine in a body has a pending call, and the outermost one returns to a
place outside all bodies. -/
structure Covered (statements : List Numbered) (machine : Machine) : Prop where
  pending : InsideBody statements machine.pc → machine.frames ≠ []
  outermost : ∀ frame ∈ machine.frames.getLast?, ¬ InsideBody statements frame.returnPointer

section Runs

variable {statements : List Numbered} {program : Program}

theorem Covered.step {options : Options} {machine : Machine} {instruction : Instruction}
    (assembled : Assembled statements program) (apart : NoJumpIn statements)
    (found : program[machine.pc]? = some instruction) (covered : Covered statements machine) :
    Covered statements (finalMachine ((perform options instruction).run machine)) := by
  have goingOn : machine.takenTarget? instruction = none →
      InsideBody statements (machine.pc + 1) → machine.frames ≠ [] := by
    intro straight inside
    obtain ⟨entry, _, inside⟩ := inside
    exact covered.pending (assembled.inBody_of_next found straight inside).insideBody
  cases transfer_perform options instruction machine with
  | next straight pc frames =>
    constructor
    · rw [pc, frames]
      exact goingOn straight
    · rw [frames]
      exact covered.outermost
  | jump taken frames =>
    constructor
    · intro inside
      obtain ⟨_, _, _, _, stands, declared, _⟩ := assembled.label_of_taken found taken inside
      rw [frames]
      apply covered.pending
      by_cases within : InsideBody statements machine.pc
      · exact within
      · exact absurd inside (apart.outside stands declared within)
    · rw [frames]
      exact covered.outermost
  | call calls frames =>
    constructor
    · intro _
      simp [frames]
    · rw [frames]
      cases older : machine.frames with
      | nil =>
        intro frame last inside
        cases last
        exact goingOn (by rw [calls]; rfl) inside older
      | cons outer rest =>
        rw [List.getLast?_cons_cons, ← older]
        exact covered.outermost
  | ret _ frame frames pc =>
    have outermost := covered.outermost
    rw [frames] at outermost
    constructor
    · intro inside alone
      rw [alone] at outermost
      rw [pc] at inside
      exact outermost frame rfl inside
    · intro outer last
      apply outermost
      rw [List.getLast?_cons, Option.mem_def.mp last]
      rfl

/-- How the bodies of a program are run, whatever observes or limits it. -/
structure BodiesCovered (statements : List Numbered) (program : Program) : Prop where
  /-- A call is pending whenever the machine stands in a body. -/
  pending : ∀ options count,
    InsideBody statements (run options program count (initial options program)).2.pc →
      (run options program count (initial options program)).2.frames ≠ []
  /-- No instruction in a body fails for want of a pending call. -/
  sound : ∀ options count fault machine,
    run options program count (initial options program) = (.faulted fault, machine) →
      InsideBody statements fault.pc →
        fault.error ≠ .callStackUnderflow ∧ fault.error ≠ .noActiveFrame
  /-- A step into a body is a call, a return or a jump to a label. -/
  entered : ∀ options count entry,
    let before := (run options program count (initial options program)).2
    let after := (run options program (count + 1) (initial options program)).2
    ¬ InBody statements entry before.pc → InBody statements entry after.pc →
      ∃ instruction, program[before.pc]? = some instruction ∧
        Enters statements before instruction after.pc

theorem Assembled.bodiesCovered (assembled : Assembled statements program)
    (apart : NoJumpIn statements) : BodiesCovered statements program := by
  have covered : ∀ options count,
      Covered statements (run options program count (initial options program)).2 := by
    intro options count
    apply run_keeps
    · intro machine instruction found kept
      exact kept.step assembled apart found
    · refine ⟨?_, by simp [initial]⟩
      intro inside
      obtain ⟨_, impossible, _⟩ := inside
      cases impossible
  refine ⟨fun options count => (covered options count).pending, ?_, ?_⟩
  · intro options count fault machine ran inside
    have lacksNone : fault.error.wantsCall = false := by
      rcases failed_of_faulted ran with ⟨limit, limited, _⟩ |
        ⟨earlier, before, instruction, reaches, found, here, failed⟩
      · rw [limited]
        rfl
      · have pending := (covered options earlier).pending
        rw [reaches] at pending
        have effect := effect_perform options instruction before
        rw [failed] at effect
        exact effect.pending (pending (here ▸ inside))
    constructor
    · intro same
      simp [same, Error.wantsCall] at lacksNone
    · intro same
      simp [same, Error.wantsCall] at lacksNone
  · intro options count entry before after outside inside
    rcases run_succ_cases options program count (initial options program) with
      same | ⟨machine, instruction, ran, found, _, performed⟩
    · have still : after = before := same
      rw [still] at inside
      exact absurd inside outside
    · have here : before = machine := congrArg Prod.snd ran
      have there : after = finalMachine ((perform options instruction).run machine) := performed
      rw [there] at inside ⊢
      rw [here] at outside ⊢
      exact ⟨instruction, found, assembled.enters options found outside inside⟩

end Runs

/-- In an accepted source whose jumps lead into bodies from bodies only, every
body runs under a pending call. -/
theorem Assembly.ofText_bodiesCovered (marker : Source.Marker) (text : String)
    (assembly : Assembly) (statements : List Numbered)
    (accepted : ofText marker text = .ok assembly)
    (parsed : Source.statements (Source.scan marker text) = .ok statements)
    (apart : NoJumpIn statements) : BodiesCovered statements assembly.program := by
  obtain ⟨others, same, _, assembled⟩ := assembled_of_ofLines accepted
  rw [parsed] at same
  cases same
  exact assembled.bodiesCovered apart

def relay : String :=
  "Push 1\nCall f\nJump z\nProc f\nlabel a\nCall g\nJE a\nRet\nEnd\n" ++
    "Proc g\nGetArg 0\nRet\nEnd\nlabel z"

theorem Assembly.ofText_bodiesCovered_relay :
    ∃ assembly statements, ofText .semicolon relay = .ok assembly ∧
      assembly.program = #[.push 1, .call 4, .jump 13, .jump 9, .noop, .call 10, .jumpIfZero 4,
        .ret, .noop, .jump 13, .getArg 0, .ret, .noop, .noop] ∧
      Source.statements (Source.scan .semicolon relay) = .ok statements ∧
      NoJumpIn statements ∧ InBody statements 3 4 ∧ InBody statements 3 6 ∧
      BodiesCovered statements assembly.program := by
  have evaluated : (ofText .semicolon relay).toOption.map Assembly.program =
      some #[.push 1, .call 4, .jump 13, .jump 9, .noop, .call 10, .jumpIfZero 4,
        .ret, .noop, .jump 13, .getArg 0, .ret, .noop, .noop] := by
    decide +kernel
  have checked : (Source.statements (Source.scan .semicolon relay)).toOption.any (fun statements =>
      NoJumpIn statements ∧ InBody statements 3 4 ∧ InBody statements 3 6) = true := by
    decide +kernel
  obtain ⟨assembly, accepted, program⟩ := exists_of_program evaluated
  obtain ⟨statements, parsed, _⟩ := assembled_of_ofLines accepted
  have parsed : Source.statements (Source.scan .semicolon relay) = .ok statements := parsed
  rw [parsed] at checked
  obtain ⟨apart, first, last⟩ := of_decide_eq_true checked
  exact ⟨assembly, statements, accepted, program, parsed, apart, first, last,
    ofText_bodiesCovered _ _ assembly statements accepted parsed apart⟩

end StackAsm
