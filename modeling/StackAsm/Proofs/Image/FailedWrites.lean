import StackAsm.Proofs.FileStore
import StackAsm.Proofs.Image.Refusals
import StackAsm.Session

/-!
# What a failed write leaves behind

A program is written while it is tested, so that one that does not fit leaves a
file.  The number of its instructions was written before the first instruction
and an opcode before its operand.  Reading the file therefore goes on past its
end: what a failed write leaves is never read as a program.
-/

set_option autoImplicit false

namespace StackAsm

namespace Image

/-! ## The first operand that does not fit -/

theorem Written.andThen_eq_failed_iff {first next : Written} {bytes : Bytes}
    {error : EncodeError} :
    first.andThen next = ⟨bytes, some error⟩ ↔
      first = ⟨bytes, some error⟩ ∨
        ∃ front back, first = ⟨front, none⟩ ∧ next = ⟨back, some error⟩ ∧
          bytes = front ++ back := by
  obtain ⟨front, failure⟩ := first
  obtain ⟨back, nextFailure⟩ := next
  cases failure with
  | some cause => simp [andThen]
  | none =>
    simp only [andThen, mk.injEq, reduceCtorEq, and_false, false_or, and_true]
    constructor
    · intro same
      obtain ⟨rfl, rfl⟩ := same
      exact ⟨front, back, rfl, ⟨rfl, rfl⟩, rfl⟩
    · intro parts
      obtain ⟨_, _, rfl, ⟨rfl, rfl⟩, rfl⟩ := parts
      exact ⟨rfl, rfl⟩

theorem Written.bounded_eq_failed_iff {n bound : Nat} {written bytes : Bytes}
    {cause error : EncodeError} :
    (if n < bound then (⟨written, none⟩ : Written) else ⟨[], some cause⟩) = ⟨bytes, some error⟩ ↔
      bound ≤ n ∧ bytes = [] ∧ error = cause := by
  by_cases fits : n < bound
  · have inside : ¬ bound ≤ n := by omega
    simp [fits, inside]
  · have outside : bound ≤ n := by omega
    simp [fits, outside, eq_comm]

theorem encodePointer_eq_failed_iff {operand : Nat} {bytes : Bytes} {error : EncodeError} :
    encodePointer operand = ⟨bytes, some error⟩ ↔
      0x100000000 ≤ operand ∧ bytes = [] ∧ error = .wideOperand operand :=
  Written.bounded_eq_failed_iff

theorem encodeCount_eq_failed_iff {count : Nat} {bytes : Bytes} {error : EncodeError} :
    encodeCount count = ⟨bytes, some error⟩ ↔
      0x100000000 ≤ count ∧ bytes = [] ∧ error = .tooManyInstructions :=
  Written.bounded_eq_failed_iff

theorem encodeInstruction_eq_failed_iff {instruction : Instruction} {bytes : Bytes}
    {error : EncodeError} :
    encodeInstruction instruction = ⟨bytes, some error⟩ ↔
      ∃ operand, instruction.pointer? = some operand ∧ 0x100000000 ≤ operand ∧
        bytes = [instruction.opcode.toByte] ∧ error = .wideOperand operand := by
  have operands : (∃ back, encodeOperand instruction = ⟨back, some error⟩ ∧
      bytes = [instruction.opcode.toByte] ++ back) ↔
        ∃ operand, instruction.pointer? = some operand ∧ 0x100000000 ≤ operand ∧
          bytes = [instruction.opcode.toByte] ∧ error = .wideOperand operand := by
    cases instruction with
    | push value => simp [encodeOperand, Instruction.pointer?]
    | jump pointer | jumpIfZero pointer | jumpIfNonZero pointer | call pointer | get pointer
    | set pointer | getArg pointer | setArg pointer =>
      simp only [encodeOperand, Instruction.pointer?, encodePointer_eq_failed_iff,
        Option.some.injEq, exists_eq_left']
      constructor
      · intro failed
        obtain ⟨back, ⟨wide, rfl, named⟩, left⟩ := failed
        exact ⟨wide, left, named⟩
      · intro failed
        obtain ⟨wide, left, named⟩ := failed
        exact ⟨[], ⟨wide, rfl, named⟩, left⟩
    | noop | print | pop | add | sub | mul | div | ret =>
      simp [encodeOperand, Instruction.pointer?]
  rw [← operands, encodeInstruction, Written.andThen_eq_failed_iff]
  simp

/-- A list of instructions fails at its first instruction that does not fit, and
leaves the ones before it and its opcode. -/
theorem encodeInstructions_eq_failed_iff {instructions : List Instruction} {bytes : Bytes}
    {error : EncodeError} :
    encodeInstructions instructions = ⟨bytes, some error⟩ ↔
      ∃ before instruction after operand front,
        instructions = before ++ instruction :: after ∧
          encodeInstructions before = ⟨front, none⟩ ∧
            instruction.pointer? = some operand ∧ 0x100000000 ≤ operand ∧
              bytes = front ++ [instruction.opcode.toByte] ∧ error = .wideOperand operand := by
  constructor
  · intro failed
    induction instructions generalizing bytes with
    | nil => simp [encodeInstructions] at failed
    | cons instruction rest ih =>
      rw [encodeInstructions] at failed
      obtain here | ⟨head, back, whole, later, rfl⟩ := Written.andThen_eq_failed_iff.mp failed
      · obtain ⟨operand, carried, wide, rfl, named⟩ := encodeInstruction_eq_failed_iff.mp here
        exact ⟨[], instruction, rest, operand, [], rfl, rfl, carried, wide, rfl, named⟩
      · obtain ⟨before, offending, after, operand, front, rfl, written, carried, wide, rfl,
          named⟩ := ih later
        refine ⟨instruction :: before, offending, after, operand, head ++ front, rfl, ?_, carried,
          wide, by simp, named⟩
        exact Written.andThen_eq_whole_iff.mpr ⟨head, front, whole, written, rfl⟩
  · intro stops
    obtain ⟨before, instruction, after, operand, front, rfl, written, carried, wide, rfl, named⟩ :=
      stops
    have here : encodeInstruction instruction = ⟨[instruction.opcode.toByte], some error⟩ :=
      encodeInstruction_eq_failed_iff.mpr ⟨operand, carried, wide, rfl, named⟩
    rw [encodeInstructions_append, written, encodeInstructions, here]
    rfl

/-! ## Programs that do not fit -/

/-- Why a program does not fit in an image, and the bytes written before that
shows. -/
inductive Overflow (program : Program) : EncodeError → Bytes → Prop where
  | count (many : 0x100000000 ≤ program.size) :
      Overflow program .tooManyInstructions versionHeader
  | operand {before after : List Instruction} {instruction : Instruction} {operand : Nat}
      {front : Bytes} (counted : program.size < 0x100000000)
      (stands : program.toList = before ++ instruction :: after)
      (first : ∀ earlier ∈ before, Narrow earlier)
      (carried : instruction.pointer? = some operand) (wide : 0x100000000 ≤ operand)
      (written : encodeInstructions before = ⟨front, none⟩) :
      Overflow program (.wideOperand operand)
        (versionHeader ++ Bytes.bigEndian 4 program.size ++ front ++ [instruction.opcode.toByte])

theorem encode_eq_failed_iff {program : Program} {bytes : Bytes} {error : EncodeError} :
    encode program = ⟨bytes, some error⟩ ↔ Overflow program error bytes := by
  constructor
  · intro failed
    rw [encode] at failed
    obtain impossible | ⟨_, back, header, body, rfl⟩ := Written.andThen_eq_failed_iff.mp failed
    · cases impossible
    · obtain rfl := congrArg Written.bytes header
      obtain uncounted | ⟨_, _, counted, written, rfl⟩ := Written.andThen_eq_failed_iff.mp body
      · obtain ⟨many, rfl, rfl⟩ := encodeCount_eq_failed_iff.mp uncounted
        rw [List.append_nil]
        exact .count many
      · obtain ⟨fits, rfl⟩ := encodeCount_eq_whole_iff.mp counted
        obtain ⟨before, instruction, after, operand, front, stands, whole, carried, wide, rfl,
          rfl⟩ := encodeInstructions_eq_failed_iff.mp written
        have first := (encodeInstructions_whole_iff before).mp ⟨front, whole⟩
        have leaves := Overflow.operand fits stands first carried wide whole
        simpa only [List.append_assoc] using leaves
  · intro overflow
    cases overflow with
    | count many =>
      have counted := encodeCount_eq_failed_iff.mpr ⟨many, rfl, rfl⟩
      rw [encode, counted]
      rfl
    | operand fits stands first carried wide written =>
      have counted := encodeCount_eq_whole_iff.mpr ⟨fits, rfl⟩
      have stops := encodeInstructions_eq_failed_iff.mpr
        ⟨_, _, _, _, _, stands, written, carried, wide, rfl, rfl⟩
      rw [encode, counted, stops]
      simp [Written.andThen]

theorem not_narrow_iff {instruction : Instruction} :
    ¬ Narrow instruction ↔ ∃ operand ∈ instruction.pointer?, 0x100000000 ≤ operand := by
  simp [Narrow]

/-- Writing fails exactly when there are too many instructions or a pointer is
too wide. -/
theorem encode_failed_iff (program : Program) :
    (∃ bytes error, encode program = ⟨bytes, some error⟩) ↔
      0x100000000 ≤ program.size ∨
        ∃ instruction ∈ program, ∃ operand ∈ instruction.pointer?, 0x100000000 ≤ operand := by
  constructor
  · intro failed
    obtain ⟨bytes, error, failed⟩ := failed
    cases encode_eq_failed_iff.mp failed with
    | count many => exact .inl many
    | operand counted stands first carried wide written =>
      refine .inr ⟨_, Array.mem_toList_iff.mp ?_, _, carried, wide⟩
      rw [stands]
      exact List.mem_append_right _ List.mem_cons_self
  · intro unfit
    by_cases many : 0x100000000 ≤ program.size
    · exact ⟨_, _, encode_eq_failed_iff.mpr (.count many)⟩
    · obtain ⟨instruction, member, wide⟩ := unfit.resolve_left many
      cases result : encode program with
      | mk bytes failure =>
        cases failure with
        | some error => exact ⟨bytes, error, rfl⟩
        | none =>
          have narrow := (encode_whole_iff (by omega)).mp ⟨bytes, result⟩ instruction
            (Array.mem_toList_iff.mpr member)
          exact absurd narrow (not_narrow_iff.mpr wide)

theorem operandWidth_of_pointer? {instruction : Instruction} {operand : Nat}
    (carried : instruction.pointer? = some operand) : instruction.opcode.operandWidth = 4 := by
  cases instruction with
  | jump | jumpIfZero | jumpIfNonZero | call | get | set | getArg | setArg => rfl
  | push | noop | print | pop | add | sub | mul | div | ret => cases carried

/-- What is left of a program that does not fit lacks bytes. -/
theorem Overflow.refused {program : Program} {error : EncodeError} {bytes : Bytes}
    (overflow : Overflow program error bytes) : decode bytes = .error .truncated := by
  apply decode_eq_error_iff.mpr
  cases overflow with
  | count many =>
    have supported : ∀ major ∈ (versionHeader.drop magic.length).head?, major = version := by
      simp [versionHeader]
    exact .header supported (by decide)
  | @operand before after instruction operand front counted stands first carried wide written =>
    have fewer : before.length < program.size := by
      have length := congrArg List.length stands
      rw [Array.length_toList, List.length_append, List.length_cons] at length
      omega
    have absent : NoInstruction before.length [instruction.opcode.toByte] .truncated := by
      apply NoInstruction.cut
      rw [operandWidth_of_pointer? carried]
      decide
    have stops := Refused.instruction 0 0 0 counted fewer written absent
    simpa [header, versionHeader] using stops

end Image

/-! ## The file -/

namespace Session

/-- Writing a program fails: either no file can be made, and nothing changes, or
the bytes are left in a file that no session loads. -/
def LeavesUnloadable (program : Program) (bytes : Bytes) (error : Image.EncodeError) : Prop :=
  ∀ (store : FileStore) (path : String),
    match store.write path bytes with
    | .error cause =>
      (writeImage path program : StateM FileStore (Except Failure Unit)).run store =
        (.error (.file cause), store)
    | .ok left =>
      (writeImage path program : StateM FileStore (Except Failure Unit)).run store =
          (.error (.unwritable error), left) ∧
        ∀ config, ((load config path : StateM FileStore (Report Program)).run left).1.result =
          .error (.image .truncated)

theorem result_load_of_refused {store : FileStore} {path : String} {bytes : Bytes}
    {error : Image.DecodeError} (contents : store.read path = .ok bytes)
    (refused : Image.decode bytes = .error error) (config : Config) :
    ((load config path : StateM FileStore (Report Program)).run store).1.result =
      .error (.image error) := by
  rw [load, StateT.run_bind, FileStore.run_read, contents]
  show (loadContents config path (.ok bytes)).result = _
  rw [loadContents, refused]

theorem leavesUnloadable_of_failed {program : Program} {bytes : Bytes}
    {error : Image.EncodeError} (failed : Image.encode program = ⟨bytes, some error⟩) :
    LeavesUnloadable program bytes error := by
  intro store path
  have refused := (Image.encode_eq_failed_iff.mp failed).refused
  cases created : store.write path bytes with
  | error cause =>
    simp only [writeImage, failed, StateT.run_bind, FileStore.run_write, created]
    rfl
  | ok left =>
    constructor
    · simp only [writeImage, failed, StateT.run_bind, FileStore.run_write, created]
      rfl
    · intro config
      exact result_load_of_refused (FileStore.read_of_write created) refused config

end Session

/-- Writing a program fails exactly when it has too many instructions or a
pointer that is too wide, and names the first such pointer.  What was written by
then lacks bytes, and no session loads it. -/
theorem Image.encode_failure_unloadable (program : Program) :
    ((∃ bytes error, encode program = ⟨bytes, some error⟩) ↔
        0x100000000 ≤ program.size ∨
          ∃ instruction ∈ program, ∃ operand ∈ instruction.pointer?, 0x100000000 ≤ operand) ∧
      ∀ bytes error, encode program = ⟨bytes, some error⟩ →
        Overflow program error bytes ∧ decode bytes = .error .truncated ∧
          Session.LeavesUnloadable program bytes error := by
  refine ⟨encode_failed_iff program, ?_⟩
  intro bytes error failed
  have overflow := encode_eq_failed_iff.mp failed
  exact ⟨overflow, overflow.refused, Session.leavesUnloadable_of_failed failed⟩

example :
    Image.encode #[.pop, .jump 0x100000000, .call 0x100000001] =
      ⟨Image.header 0 0 0 3 ++ [0x11, 0x60], some (.wideOperand 0x100000000)⟩ := by
  decide

end StackAsm
