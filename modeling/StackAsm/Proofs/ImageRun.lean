import StackAsm.Proofs.FileStore
import StackAsm.Proofs.Image.Codec
import StackAsm.Proofs.Lowering
import StackAsm.Proofs.Parsing
import StackAsm.Session

/-!
# Running a program from its image

The targets of jumps and calls are indices of statements, so that in a program
of a size that an image can hold only an address written in the source may be
too wide.  A program that was written to an image file and loaded again is the
same program, and its run is the same run.
-/

set_option autoImplicit false

namespace StackAsm

/-! ## Addresses in the source -/

namespace Source.Line

open Text.Decimal

def addressWords : List String :=
  ["Get", "Set", "GetArg", "SetArg"]

def NarrowAddress (line : Line) : Prop :=
  line.mnemonic ∈ addressWords →
    ∃ operand n, line.operands = [operand] ∧ UnsignedNumeral operand.toList n ∧ n < 0x100000000

end Source.Line

def Statement.address? : Statement → Option Nat
  | .plain instruction => instruction.pointer?
  | _ => none

namespace Source.Line

open Text.Decimal

theorem address?_of_literal {line : Line} {make : Nat → Instruction} {statement : Statement}
    (carries : ∀ n, (make n).pointer? = some n)
    (parsed : line.literal readWord make = .ok statement) :
    ∃ operand n, line.operands = [operand] ∧ readWord operand = .ok n ∧
      statement.address? = some n := by
  obtain ⟨operand, single, n, read, rfl⟩ := literal_eq_ok_iff.mp parsed
  exact ⟨operand, n, single, read, carries n⟩

theorem address?_of_statement {line : Line} {statement : Statement}
    (parsed : line.statement = .ok statement) :
    if line.mnemonic ∈ addressWords then
      ∃ operand n, line.operands = [operand] ∧ readWord operand = .ok n ∧
        statement.address? = some n
    else statement.address? = none := by
  unfold Line.statement at parsed
  split at parsed
  case h_9 known | h_10 known | h_11 known | h_12 known =>
    rw [if_pos (by simp [known, addressWords])]
    exact address?_of_literal (fun _ => rfl) parsed
  case h_1 known =>
    obtain ⟨_, _, _, _, rfl⟩ := literal_eq_ok_iff.mp parsed
    simp [known, addressWords, Statement.address?, Instruction.pointer?]
  case h_13 known | h_14 known | h_15 known | h_16 known | h_17 known | h_18 known =>
    obtain ⟨_, _, rfl⟩ := named_eq_ok_iff.mp parsed
    simp [known, addressWords, Statement.address?]
  case h_20 => cases parsed
  all_goals
    rename_i known
    obtain ⟨_, rfl⟩ := bare_eq_ok_iff.mp parsed
    simp [known, addressWords, Statement.address?, Instruction.pointer?]

theorem narrowAddress_iff {line : Line} {statement : Statement}
    (parsed : line.statement = .ok statement) :
    line.NarrowAddress ↔ ∀ n ∈ statement.address?, n < 0x100000000 := by
  have address := address?_of_statement parsed
  unfold NarrowAddress
  split at address
  · rename_i addressing
    obtain ⟨operand, n, single, read, carried⟩ := address
    constructor
    · intro narrow m member
      obtain ⟨other, value, alone, numeral, fits⟩ := narrow addressing
      obtain rfl : operand = other := by simpa [single] using alone
      have again : readWord operand = .ok value :=
        (readWord_eq_ok_iff operand value).mpr ⟨numeral, by omega⟩
      obtain rfl : n = value := by simpa [read] using again
      obtain rfl : n = m := by simpa [carried] using member
      exact fits
    · intro narrow _
      exact ⟨operand, n, single, ((readWord_eq_ok_iff operand n).mp read).1, narrow n carried⟩
  · rename_i other
    simp [address, other]

end Source.Line

/-! ## Writing an assembled program -/

namespace Image

theorem narrow_of_lower_iff {statements : List Numbered} {symbols : Symbols} {source : Numbered}
    {instruction : Instruction} (resolved : Symbols.resolve statements = .ok symbols)
    (counted : statements.length < 0x100000000)
    (lowered : lower symbols source = .ok instruction) :
    Narrow instruction ↔ ∀ n ∈ source.statement.address?, n < 0x100000000 := by
  obtain ⟨line, statement⟩ := source
  cases statement with
  | plain written =>
    cases lowered
    exact Iff.rfl
  | label _ | procEnd =>
    cases lowered
    simp [Narrow, Instruction.pointer?, Statement.address?]
  | jump kind name =>
    cases known : symbols.label? name with
    | none => simp [lower, known] at lowered
    | some target =>
      obtain rfl : kind.instruction target = instruction := by simpa [lower, known] using lowered
      have below := Symbols.label?_lt resolved known
      have fits : target < 0x100000000 := by omega
      cases kind <;> simp [Narrow, JumpKind.instruction, Instruction.pointer?,
        Statement.address?, fits]
  | proc name =>
    cases known : symbols.procedure? name with
    | none => simp [lower, known] at lowered
    | some procedure =>
      obtain rfl : .jump procedure.exit = instruction := by simpa [lower, known] using lowered
      have bounds := Symbols.procedure?_bounds resolved known
      have fits : procedure.exit < 0x100000000 := by omega
      simp [Narrow, Instruction.pointer?, Statement.address?, fits]
  | call name =>
    cases known : symbols.procedure? name with
    | none => simp [lower, known] at lowered
    | some procedure =>
      obtain rfl : .call procedure.callTarget = instruction := by
        simpa [lower, known] using lowered
      have bounds := Symbols.procedure?_bounds resolved known
      have fits : procedure.callTarget < 0x100000000 := by
        rw [Procedure.callTarget]
        omega
      simp [Narrow, Instruction.pointer?, Statement.address?, fits]

theorem decode_of_encode {program : Program} {bytes : Bytes}
    (encoded : encode program = ⟨bytes, none⟩) : decode bytes = .ok (program, []) := by
  obtain ⟨body, written, rfl⟩ := encode_eq_whole_iff.mp encoded
  exact decode_eq_ok_iff.mpr ⟨0, 0, 0, body, written, by simp [versionHeader]⟩

end Image

namespace Assembly

open Source

theorem narrow_iff_of_reads {all statements : List Numbered} {symbols : Symbols}
    {lines : List Line} {instructions : List Instruction}
    (resolved : Symbols.resolve all = .ok symbols) (counted : all.length < 0x100000000)
    (reads : List.Forall₂ (fun line source => line.numbered = .ok source) lines statements)
    (lowered : statements.map (lower symbols) = instructions.map .ok) :
    (∀ instruction ∈ instructions, Image.Narrow instruction) ↔
      ∀ line ∈ lines, line.NarrowAddress := by
  induction reads generalizing instructions with
  | nil =>
    obtain rfl : instructions = [] := by simpa using lowered.symm
    simp
  | @cons line source rest later head _ ih =>
    cases instructions with
    | nil => simp at lowered
    | cons instruction others =>
      simp only [List.map_cons, List.cons.injEq] at lowered
      obtain ⟨here, tail⟩ := lowered
      have read := (Line.numbered_eq_ok_iff.mp head).2
      rw [List.forall_mem_cons, List.forall_mem_cons, ih tail,
        Image.narrow_of_lower_iff resolved counted here, Line.narrowAddress_iff read]

/-- The instructions of assembled lines are narrow exactly when the addresses on
the lines are. -/
theorem narrow_iff {lines : List Line} {assembly : Assembly}
    (assembled : ofLines lines = .ok assembly) (counted : assembly.program.size < 0x100000000) :
    (∀ instruction ∈ assembly.program.toList, Image.Narrow instruction) ↔
      ∀ line ∈ lines, line.NarrowAddress := by
  obtain ⟨statements, parsed, resolved, lowered, _⟩ := ofLines_eq_ok_iff.mp assembled
  have sameLength : statements.length = assembly.program.size := by
    simpa using congrArg List.length lowered
  exact narrow_iff_of_reads resolved (sameLength ▸ counted) (statements_eq_ok_iff.mp parsed) lowered

end Assembly

/-! ## Loading and running the image -/

namespace Session

theorem writeImage_of_write {store written : FileStore} {path : String} {program : Program}
    {bytes : Bytes} (encoded : Image.encode program = ⟨bytes, none⟩)
    (success : store.write path bytes = .ok written) :
    (writeImage path program : StateM FileStore (Except Failure Unit)).run store =
      (.ok (), written) := by
  simp only [writeImage, encoded, StateT.run_bind, FileStore.run_write, success]
  rfl

theorem executeFile_of_load {store : FileStore} {path : String} {program : Program}
    {config : Config} {events : List Event} {console : String}
    (loaded : (load config path : StateM FileStore (Report Program)).run store =
      (⟨.ok program, events, console⟩, store)) (fuel : Nat) :
    (executeFile config fuel path : StateM FileStore (Report Machine.Execution)).run store =
      (⟨(execute config fuel program).result, events ++ (execute config fuel program).events,
        (execute config fuel program).console⟩, store) := by
  rw [executeFile, StateT.run_bind, loaded]
  rfl

theorem load_of_read {store : FileStore} {path : String} {program : Program} {bytes rest : Bytes}
    (contents : store.read path = .ok bytes)
    (decoded : Image.decode bytes = .ok (program, rest)) (config : Config) :
    ∃ events console, (load config path : StateM FileStore (Report Program)).run store =
      (⟨.ok program, events, console⟩, store) := by
  rw [load, StateT.run_bind, FileStore.run_read, contents]
  show ∃ events console, (loadContents config path (.ok bytes), store) = _
  rw [loadContents, decoded]
  exact ⟨_, _, rfl⟩

/-- Wherever these bytes can be written, a program is written as them, and what
is executed from the file gives the same result and the same console text as the
program itself. -/
def RunsFromFile (program : Program) (bytes : Bytes) : Prop :=
  ∀ (store written : FileStore) (path : String), store.write path bytes = .ok written →
    (writeImage path program : StateM FileStore (Except Failure Unit)).run store =
        (.ok (), written) ∧
      ∀ (config : Config) (fuel : Nat), ∃ report,
        (executeFile config fuel path : StateM FileStore (Report Machine.Execution)).run written =
            (report, written) ∧
          report.result = (execute config fuel program).result ∧
            report.console = (execute config fuel program).console

theorem runsFromFile_of_encode {program : Program} {bytes : Bytes}
    (encoded : Image.encode program = ⟨bytes, none⟩) : RunsFromFile program bytes := by
  intro store written path success
  refine ⟨writeImage_of_write encoded success, ?_⟩
  intro config fuel
  have contents := FileStore.read_of_write success
  have decoded := Image.decode_of_encode encoded
  obtain ⟨events, console, loaded⟩ := load_of_read contents decoded config
  exact ⟨_, executeFile_of_load loaded fuel, rfl, rfl⟩

end Session

namespace Assembly

open Source

/-- The image of an assembled program can be written exactly when the addresses
in the source fit, and then the program runs from its image as it runs directly. -/
theorem image_run (marker : Marker) (text : String) (assembly : Assembly)
    (assembled : ofText marker text = .ok assembly)
    (counted : assembly.program.size < 0x100000000) :
    ((∃ bytes, Image.encode assembly.program = ⟨bytes, none⟩) ↔
        ∀ line ∈ scan marker text, line.NarrowAddress) ∧
      ∀ bytes, Image.encode assembly.program = ⟨bytes, none⟩ →
        Session.RunsFromFile assembly.program bytes := by
  constructor
  · rw [Image.encode_whole_iff counted, narrow_iff assembled counted]
  · intro bytes encoded
    exact Session.runsFromFile_of_encode encoded

def farAddress : String :=
  "label top\nCall far\nJump top\nProc far\nGet 4294967295 ; missing\nRet\nEnd"

theorem image_run_farAddress :
    ∃ assembly, ofText .semicolon farAddress = .ok assembly ∧
      assembly.program = #[.noop, .call 4, .jump 0, .jump 7, .get 0xffffffff, .ret, .noop] ∧
      ((∃ bytes, Image.encode assembly.program = ⟨bytes, none⟩) ↔
        ∀ line ∈ scan .semicolon farAddress, line.NarrowAddress) ∧
      ∃ bytes written, Image.encode assembly.program = ⟨bytes, none⟩ ∧
        ({} : FileStore).write "far.img" bytes = .ok written ∧
          Session.RunsFromFile assembly.program bytes := by
  have evaluated : (ofText .semicolon farAddress).toOption.map Assembly.program =
      some #[.noop, .call 4, .jump 0, .jump 7, .get 0xffffffff, .ret, .noop] := by
    decide +kernel
  cases accepted : ofText .semicolon farAddress with
  | error error => simp [accepted, Except.toOption] at evaluated
  | ok assembly =>
    rw [accepted] at evaluated
    have program := Option.some.inj evaluated
    have counted : assembly.program.size < 0x100000000 := by
      rw [program]
      decide
    obtain ⟨fits, runs⟩ := image_run .semicolon farAddress assembly accepted counted
    have encoded : ∃ bytes, Image.encode assembly.program = ⟨bytes, none⟩ := by
      rw [program]
      exact ⟨_, rfl⟩
    obtain ⟨bytes, encoded⟩ := encoded
    exact ⟨assembly, rfl, program, fits, bytes, _, encoded, rfl, runs bytes encoded⟩

end Assembly

end StackAsm
