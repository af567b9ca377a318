import Mathlib.Data.Nat.Factorial.Basic
import StackAsm.Proofs.Emission
import StackAsm.Proofs.Failures
import StackAsm.Proofs.Rendering
import StackAsm.Proofs.Stretches

/-!
# A recursive procedure

A source that computes a factorial by a procedure calling itself, for any
number written into it.  Each call finds its argument right below its own part
of the stack, and leaves it there with the result on top.  The products are
formed on the way back from the innermost call, so that the first one that is no
value ends the run, however deep the calls were nested.
-/

set_option autoImplicit false

namespace StackAsm

/-- The first statement may carry any other instruction that names nothing. -/
theorem Assembly.ofLines_exchange {line other : Source.Line} {rest : List Source.Line}
    {number : Nat} {old new : Instruction} {assembly : Assembly}
    (reads : line.numbered = .ok ⟨number, .plain old⟩)
    (readsOther : other.numbered = .ok ⟨number, .plain new⟩)
    (accepted : ofLines (line :: rest) = .ok assembly) :
    ∃ exchanged, ofLines (other :: rest) = .ok exchanged ∧
      exchanged.program.toList = new :: assembly.program.toList.tail := by
  obtain ⟨statements, parsed, resolved, lowered, _⟩ := ofLines_eq_ok_iff.mp accepted
  rw [Source.statements_eq_ok_iff, List.forall₂_cons_left_iff] at parsed
  obtain ⟨source, later, here, parsedLater, rfl⟩ := parsed
  rw [reads] at here
  cases here
  have loweredLater : later.map (lower assembly.symbols) =
      assembly.program.toList.tail.map .ok := by
    rw [List.map_tail, ← lowered]
    rfl
  refine ⟨⟨(new :: assembly.program.toList.tail).toArray, assembly.symbols,
    (other :: rest).map Source.Line.number⟩, ofLines_eq_ok_iff.mpr ?_, rfl⟩
  refine ⟨⟨number, .plain new⟩ :: later, ?_, resolved, ?_, rfl⟩
  · exact Source.statements_eq_ok_iff.mpr (.cons readsOther parsedLater)
  · rw [List.map_cons, loweredLater]
    rfl

namespace Factorial

open Machine Source Text

def greatest : Nat := 0x7fffffffffffffff

def value (n : Nat) : Value :=
  Int64.ofNat n

theorem toInt_value {n : Nat} (fits : n ≤ greatest) : (value n).toInt = n :=
  Int64.toInt_ofNat_of_lt (Nat.lt_succ_of_le fits)

/-! ## The source and its program -/

def sourceLines (n : Nat) : List String :=
  ["; Recursive factorial: prints 5! = 120",
    "",
    "Push " ++ Decimal.ofNat n,
    "Call fact",
    "Print",
    "",
    "; fact(n) leaves one local: n == 0 ? 1 : n * fact(n - 1)",
    "Proc fact",
    "    Push 1          ; default result",
    "    GetArg 0",
    "    JE base",
    "    Pop             ; n, left by the untaken branch",
    "    Pop             ; default result",
    "    GetArg 0",
    "    Push 1",
    "    Sub",
    "    Call fact       ; [n-1, fact(n-1)]",
    "    GetArg 0",
    "    Mul",
    "    Set 0",
    "    Pop",
    "    label base",
    "    Ret",
    "End"]

def source (n : Nat) : String :=
  joined true ((sourceLines n).map fun line => (line, .newline))

def program (first : Value) : Program :=
  #[.push first, .call 4, .print,
    .jump 20, .push 1, .getArg 0, .jumpIfZero 17, .pop, .pop,
    .getArg 0, .push 1, .sub, .call 4,
    .getArg 0, .mul, .set 0, .pop, .noop, .ret, .noop]

theorem not_mem_pushLine {c : Char} (other : c ∉ "Push ".toList) (noDigit : ¬ Decimal.IsDigit c)
    (n : Nat) : c ∉ ("Push " ++ Decimal.ofNat n).toList := by
  rw [String.toList_append, List.mem_append]
  rintro (member | member)
  · exact other member
  · exact noDigit ((Decimal.magnitude_ofNat n).2.1 c member)

theorem unbroken_sourceLines (n : Nat) :
    ∀ line ∈ sourceLines n, '\n' ∉ line.toList ∧ '\r' ∉ line.toList := by
  have pushes : '\n' ∉ ("Push " ++ Decimal.ofNat n).toList ∧
      '\r' ∉ ("Push " ++ Decimal.ofNat n).toList :=
    ⟨not_mem_pushLine (by decide) (by decide) n, not_mem_pushLine (by decide) (by decide) n⟩
  have others : ∀ line ∈ (sourceLines 0).drop 3, '\n' ∉ line.toList ∧ '\r' ∉ line.toList := by
    decide +kernel
  rw [sourceLines, List.forall_mem_cons, List.forall_mem_cons, List.forall_mem_cons]
  exact ⟨by decide +kernel, by decide, pushes, others⟩

theorem tokens_pushLine {n : Nat} (fits : n ≤ greatest) :
    tokens .semicolon ("Push " ++ Decimal.ofNat n) = ["Push", Decimal.ofNat n] := by
  have number : (value n).render = Decimal.ofNat n := by
    rw [Value.render, toInt_value fits, Decimal.ofInt, if_neg (by omega), Int.natAbs_natCast]
  have spells : (Statement.plain (.push (value n))).render = "Push " ++ Decimal.ofNat n := by
    rw [Statement.render_plain, ← number]
    rfl
  have unmarked : ¬ Marker.semicolon.text <:+: ("Push " ++ Decimal.ofNat n).toList := by
    intro marked
    exact not_mem_pushLine (by decide) (by decide) n (marked.subset (List.mem_singleton_self ';'))
  have writable : (Statement.plain (.push (value n))).Writable := by
    refine ⟨trivial, ?_⟩
    intro name named
    cases named
  rw [← spells] at unmarked ⊢
  rw [tokens_render writable unmarked, ← number]
  rfl

theorem reads_pushLine {n : Nat} (fits : n ≤ greatest) :
    Line.numbered ⟨3, "Push", [Decimal.ofNat n]⟩ = .ok ⟨3, .plain (.push (value n))⟩ := by
  have read : Decimal.readInt64 (Decimal.ofNat n) = .ok (value n) :=
    (Decimal.readInt64_eq_ok_iff _ _).mpr
      (.inl ⟨n, .inl (Decimal.magnitude_ofNat n), toInt_value fits⟩)
  rw [Line.numbered_eq_ok_iff]
  refine ⟨rfl, ?_⟩
  change Line.literal ⟨3, "Push", [Decimal.ofNat n]⟩ Decimal.readInt64 .push = _
  simp only [Line.literal, Line.operand, read]

theorem scan_source {n : Nat} (fits : n ≤ greatest) :
    scan .semicolon (source n) =
      ⟨3, "Push", [Decimal.ofNat n]⟩ :: scanFrom .semicolon 4 ((sourceLines 0).drop 3) := by
  have unbroken := unbroken_sourceLines n
  have single : ∀ line ∈ (sourceLines n).map fun line => (line, LineEnd.newline),
      '\n' ∉ line.1.toList := by
    rw [List.forall_mem_map]
    exact fun line member => (unbroken line member).1
  have loose : ∀ line ∈ (sourceLines n).map fun line => (line, LineEnd.newline),
      ∀ kept, line.1.toList = kept ++ ['\r'] →
        tokens .semicolon (String.ofList kept) = tokens .semicolon line.1 := by
    rw [List.forall_mem_map]
    intro line member kept ends
    have noReturn := (unbroken line member).2
    simp [ends] at noReturn
  have remark : tokens .semicolon "; Recursive factorial: prints 5! = 120" = [] := by
    decide +kernel
  have empty : tokens .semicolon "" = [] := rfl
  rw [scan, scanLines, source, scanFrom_joined .semicolon single loose true, List.map_map]
  change scanFrom .semicolon 1 (sourceLines n) = _
  rw [sourceLines, scanFrom_cons, remark, scanFrom_cons, empty, scanFrom_cons,
    tokens_pushLine fits]
  rfl

theorem ofText_source {n : Nat} (fits : n ≤ greatest) :
    ∃ assembly, Assembly.ofText .semicolon (source n) = .ok assembly ∧
      assembly.program = program (value n) := by
  have evaluated : (Assembly.ofLines (⟨3, "Push", [Decimal.ofNat 0]⟩ ::
      scanFrom .semicolon 4 ((sourceLines 0).drop 3))).toOption.map Assembly.program =
        some (program (value 0)) := by decide +kernel
  obtain ⟨zero, accepted, isProgram⟩ := Assembly.exists_of_program evaluated
  obtain ⟨assembly, acceptedToo, instructions⟩ :=
    Assembly.ofLines_exchange (reads_pushLine (Nat.zero_le _)) (reads_pushLine fits) accepted
  rw [← scan_source fits] at acceptedToo
  refine ⟨assembly, acceptedToo, Array.toList_inj.mp ?_⟩
  rw [instructions, isProgram]
  rfl

/-! ## Numbers that are values -/

theorem value_succ_ne_zero {n : Nat} (fits : n + 1 ≤ greatest) :
    (value (n + 1) == 0) = false := by
  rw [beq_eq_false_iff_ne]
  intro zero
  have number := toInt_value fits
  rw [zero, Int64.toInt_zero] at number
  omega

theorem value_pred {n : Nat} (fits : n + 1 ≤ greatest) :
    Value.ofInt? ((value (n + 1)).toInt - (1 : Value).toInt) = some (value n) := by
  rw [Value.ofInt?_eq_some_iff, toInt_value fits, toInt_value (Nat.le_of_succ_le fits)]
  simp

theorem product_eq (n : Nat) :
    (n.factorial : Int) * ((n + 1 : Nat) : Int) = ((n + 1).factorial : Nat) := by
  rw [Nat.factorial_succ, Nat.mul_comm, Int.natCast_mul]

theorem factorial_le_of_succ {n : Nat} (fits : (n + 1).factorial ≤ greatest) :
    n.factorial ≤ greatest :=
  Nat.le_trans (Nat.factorial_le (Nat.le_succ n)) fits

theorem le_of_factorial_le {n : Nat} (fits : n.factorial ≤ greatest) : n ≤ greatest :=
  Nat.le_trans (Nat.self_le_factorial n) fits

theorem value_product {n : Nat} (fits : (n + 1).factorial ≤ greatest) :
    Value.ofInt? ((value n.factorial).toInt * (value (n + 1)).toInt) =
      some (value (n + 1).factorial) := by
  rw [Value.ofInt?_eq_some_iff, toInt_value fits, toInt_value (factorial_le_of_succ fits),
    toInt_value (le_of_factorial_le fits), product_eq]

theorem value_overflow {n : Nat} (small : n + 1 ≤ greatest) (factor : n.factorial ≤ greatest)
    (wide : greatest < (n + 1).factorial) :
    Value.ofInt? ((value n.factorial).toInt * (value (n + 1)).toInt) = none := by
  rw [Value.ofInt?_eq_none_iff, toInt_value factor, toInt_value small, product_eq]
  rintro ⟨-, fits⟩
  exact Nat.not_lt.mpr (Int.ofNat_le.mp fits) wide

/-! ## One call -/

/-- The surroundings of a call of the procedure. -/
structure Call where
  below : Array Value
  resume : Nat
  callers : List Frame
  printed : Array Value

namespace Call

variable (call : Call)

def within (argument pc : Nat) (locals : List Value) : Stand :=
  ⟨pc, locals.foldl Array.push (call.below.push (value argument)),
    ⟨call.resume, (call.below.push (value argument)).size⟩ :: call.callers, call.printed⟩

def returned (argument result : Nat) : Stand :=
  ⟨call.resume, (call.below.push (value argument)).push (value result), call.callers,
    call.printed⟩

def nested (argument : Nat) : Call :=
  ⟨call.below.push (value argument), 13,
    ⟨call.resume, (call.below.push (value argument)).size⟩ :: call.callers, call.printed⟩

variable (first : Value)

theorem reaches_argument {pc : Nat} (stands : (program first)[pc]? = some (.getArg 0))
    (n : Nat) (locals : List Value) :
    Reaches (program first) .running (call.within n pc locals)
      (call.within n (pc + 1) (locals ++ [value n])) := by
  have holds : (locals.foldl Array.push (call.below.push (value n)))[
      (call.below.push (value n)).size - 1 - 0]? = some (value n) := by
    rw [List.foldl_push_eq_append']
    simp
  rw [within, within, List.foldl_append]
  exact reaches_getArg stands (by simp) holds

theorem reaches_base :
    Reaches (program first) .running (call.within 0 4 []) (call.returned 0 1) :=
  calc
    Reaches (program first) .running (call.within 0 4 []) (call.within 0 5 [value 1]) :=
      reaches_next rfl fun _ => .pushed 1
    Reaches (program first) .running _ (call.within 0 6 [value 1, value 0]) :=
      call.reaches_argument first rfl 0 [value 1]
    Reaches (program first) .running _ (call.within 0 17 [value 1]) :=
      reaches_next rfl fun _ => .branched rfl rfl rfl
    Reaches (program first) .running _ (call.within 0 18 [value 1]) :=
      reaches_next rfl fun _ => .idle
    Reaches (program first) .running _ (call.returned 0 1) :=
      reaches_ret rfl

theorem reaches_nested {n : Nat} (fits : n + 1 ≤ greatest) :
    Reaches (program first) .running (call.within (n + 1) 4 [])
      ((call.nested (n + 1)).within n 4 []) :=
  calc
    Reaches (program first) .running (call.within (n + 1) 4 [])
        (call.within (n + 1) 5 [value 1]) :=
      reaches_next rfl fun _ => .pushed 1
    Reaches (program first) .running _ (call.within (n + 1) 6 [value 1, value (n + 1)]) :=
      call.reaches_argument first rfl (n + 1) [value 1]
    Reaches (program first) .running _ (call.within (n + 1) 7 [value 1, value (n + 1)]) :=
      reaches_next rfl fun _ => .stayed rfl rfl (value_succ_ne_zero fits)
    Reaches (program first) .running _ (call.within (n + 1) 8 [value 1]) :=
      reaches_next rfl fun _ => .popped rfl
    Reaches (program first) .running _ (call.within (n + 1) 9 []) :=
      reaches_next rfl fun _ => .popped rfl
    Reaches (program first) .running _ (call.within (n + 1) 10 [value (n + 1)]) :=
      call.reaches_argument first rfl (n + 1) []
    Reaches (program first) .running _ (call.within (n + 1) 11 [value (n + 1), value 1]) :=
      reaches_next rfl fun _ => .pushed 1
    Reaches (program first) .running _ (call.within (n + 1) 12 [value n]) :=
      reaches_next rfl fun _ => .computed rfl rfl nofun (value_pred fits)
    Reaches (program first) .running _ ((call.nested (n + 1)).within n 4 []) :=
      reaches_next rfl fun _ => .called 4

theorem reaches_stored {argument old new : Nat} (room : call.below.size + 1 < pointerLimit) :
    Reaches (program first) .running (call.within argument 15 [value old, value new])
      (call.within argument 16 [value new, value new]) := by
  have stored : ∀ base : Array Value,
      ((base.push (value old)).push (value new)).setIfInBounds (0 + base.size) (value new) =
        (base.push (value new)).push (value new) := by
    intro base
    apply Array.ext'
    simp
  have sets : Reaches (program first) .running
      (call.within argument 15 [value old, value new])
      ⟨16, (((call.below.push (value argument)).push (value old)).push (value new)).setIfInBounds
          (0 + (call.below.push (value argument)).size) (value new),
        (call.within argument 16 []).frames, call.printed⟩ :=
    reaches_set rfl (by simpa using room) (by simp) (by simp)
  rwa [stored] at sets

theorem reaches_product {n : Nat} (fits : (n + 1).factorial ≤ greatest)
    (room : call.below.size + 1 < pointerLimit) :
    Reaches (program first) .running (call.within (n + 1) 13 [value n, value n.factorial])
      (call.returned (n + 1) (n + 1).factorial) :=
  calc
    Reaches (program first) .running (call.within (n + 1) 13 [value n, value n.factorial])
        (call.within (n + 1) 14 [value n, value n.factorial, value (n + 1)]) :=
      call.reaches_argument first rfl (n + 1) [value n, value n.factorial]
    Reaches (program first) .running _
        (call.within (n + 1) 15 [value n, value (n + 1).factorial]) :=
      reaches_next rfl fun _ => .computed rfl rfl nofun (value_product fits)
    Reaches (program first) .running _
        (call.within (n + 1) 16 [value (n + 1).factorial, value (n + 1).factorial]) :=
      call.reaches_stored first room
    Reaches (program first) .running _ (call.within (n + 1) 17 [value (n + 1).factorial]) :=
      reaches_next rfl fun _ => .popped rfl
    Reaches (program first) .running _ (call.within (n + 1) 18 [value (n + 1).factorial]) :=
      reaches_next rfl fun _ => .idle
    Reaches (program first) .running _ (call.returned (n + 1) (n + 1).factorial) :=
      reaches_ret rfl

theorem reaches_overflow {n : Nat} (small : n + 1 ≤ greatest)
    (factor : n.factorial ≤ greatest) (wide : greatest < (n + 1).factorial) :
    Reaches (program first) (.faulted ⟨.arithmeticOverflow, 14⟩)
      (call.within (n + 1) 13 [value n, value n.factorial])
      (call.within (n + 1) 15 [value n]) :=
  calc
    Reaches (program first) .running (call.within (n + 1) 13 [value n, value n.factorial])
        (call.within (n + 1) 14 [value n, value n.factorial, value (n + 1)]) :=
      call.reaches_argument first rfl (n + 1) [value n, value n.factorial]
    Reaches (program first) (.faulted ⟨.arithmeticOverflow, 14⟩) _
        (call.within (n + 1) 15 [value n]) :=
      reaches_fault rfl fun _ => .overflowed rfl rfl nofun (value_overflow small factor wide)

/-! ## Nested calls -/

theorem room_nested {n : Nat} (room : call.below.size + (n + 1) + 1 < pointerLimit) :
    (call.nested (n + 1)).below.size + n + 1 < pointerLimit := by
  rw [nested, Array.size_push]
  omega

/-- A call returns with the factorial of its argument, if that is a value. -/
theorem reaches_returned {n : Nat} (fits : n.factorial ≤ greatest)
    (room : call.below.size + n + 1 < pointerLimit) :
    Reaches (program first) .running (call.within n 4 []) (call.returned n n.factorial) := by
  induction n generalizing call with
  | zero => exact call.reaches_base first
  | succ n ih =>
    calc
      Reaches (program first) .running (call.within (n + 1) 4 [])
          ((call.nested (n + 1)).within n 4 []) :=
        call.reaches_nested first (le_of_factorial_le fits)
      Reaches (program first) .running _
          (call.within (n + 1) 13 [value n, value n.factorial]) :=
        ih (call.nested (n + 1)) (factorial_le_of_succ fits) (call.room_nested room)
      Reaches (program first) .running _ (call.returned (n + 1) (n + 1).factorial) :=
        call.reaches_product first fits (by omega)

/-- A call whose argument has a greater factorial fails, in itself or in a call
nested in it. -/
theorem reaches_fault_of_wide {n : Nat} (small : n ≤ greatest) (wide : greatest < n.factorial)
    (room : call.below.size + n + 1 < pointerLimit) :
    ∃ last, Reaches (program first) (.faulted ⟨.arithmeticOverflow, 14⟩)
      (call.within n 4 []) last := by
  induction n generalizing call with
  | zero => exact absurd wide (by decide)
  | succ n ih =>
    have enters := call.reaches_nested first small
    have roomNested := call.room_nested room
    rcases Nat.lt_or_ge greatest n.factorial with wideNested | factor
    · obtain ⟨last, fails⟩ := ih (call.nested (n + 1)) (Nat.le_of_succ_le small) wideNested
        roomNested
      exact ⟨last, enters.trans fails⟩
    · have returns : Reaches (program first) .running ((call.nested (n + 1)).within n 4 [])
          (call.within (n + 1) 13 [value n, value n.factorial]) :=
        (call.nested (n + 1)).reaches_returned first factor roomNested
      have fails := call.reaches_overflow first small factor wide
      exact ⟨_, enters.trans (returns.trans fails)⟩

end Call

/-! ## Whole runs -/

def outermost : Call :=
  ⟨#[], 2, [], #[]⟩

theorem reaches_outermost (n : Nat) :
    Reaches (program (value n)) .running ⟨0, #[], [], #[]⟩ (outermost.within n 4 []) :=
  calc
    Reaches (program (value n)) .running ⟨0, #[], [], #[]⟩ ⟨1, #[value n], [], #[]⟩ :=
      reaches_next rfl fun _ => .pushed (value n)
    Reaches (program (value n)) .running _ (outermost.within n 4 []) :=
      reaches_next rfl fun _ => .called 4

theorem reaches_halt (first : Value) (n result : Nat) :
    Reaches (program first) .halted (outermost.returned n result)
      ⟨20, #[value n, value result], [], #[value result]⟩ :=
  calc
    Reaches (program first) .running (outermost.returned n result)
        ⟨3, #[value n, value result], [], #[value result]⟩ :=
      reaches_next rfl fun _ => .printed rfl
    Reaches (program first) .running _ ⟨20, #[value n, value result], [], #[value result]⟩ :=
      reaches_next rfl fun _ => .jumped 20
    Reaches (program first) .halted _ ⟨20, #[value n, value result], [], #[value result]⟩ :=
      halts_of_outside rfl

/-- What the run for a number comes to. -/
structure Computes (n : Nat) (status : Status) (machine : Machine) : Prop where
  halts : n.factorial ≤ greatest →
    status = .halted ∧
      machine.output.toList.map Int64.toInt = [(n.factorial : Int)] ∧
      machine.stack.toList.map Int64.toInt = [(n : Int), (n.factorial : Int)]
  overflows : greatest < n.factorial → status = .faulted ⟨.arithmeticOverflow, 14⟩

/-- The source is assembled for every number that is a value.  Its run halts with
the factorial printed, above the number on the stack, or ends in the
multiplication of the procedure if the factorial is no value. -/
theorem source_computes (n : Nat) (small : n ≤ greatest) :
    ∃ assembly, Assembly.ofText .semicolon (source n) = .ok assembly ∧
      assembly.program[14]? = some .mul ∧
      ∀ trace echo : Bool, ∃ count, ∀ fuel ≥ count,
        Computes n (runProgram ⟨trace, echo, none⟩ fuel assembly.program).1
          (runProgram ⟨trace, echo, none⟩ fuel assembly.program).2 := by
  obtain ⟨assembly, accepted, isProgram⟩ := ofText_source small
  have multiplies : assembly.program[14]? = some .mul := by
    rw [isProgram]
    rfl
  refine ⟨assembly, accepted, multiplies, fun trace echo => ?_⟩
  rw [isProgram]
  have room : outermost.below.size + n + 1 < pointerLimit := by
    unfold greatest at small
    simp only [outermost, List.size_toArray, List.length_nil, pointerLimit]
    omega
  have enters := reaches_outermost n
  rcases Nat.lt_or_ge greatest n.factorial with wide | fits
  · obtain ⟨last, fails⟩ := outermost.reaches_fault_of_wide (value n) small wide room
    obtain ⟨count, ends⟩ := (enters.trans fails).runProgram_stand nofun ⟨trace, echo, none⟩ rfl
    refine ⟨count, fun fuel enough => ⟨fun fits => ?_, fun _ => (ends fuel enough).1⟩⟩
    exact absurd wide (Nat.not_lt.mpr fits)
  · have returns := outermost.reaches_returned (value n) fits room
    have halts := reaches_halt (value n) n n.factorial
    obtain ⟨count, ends⟩ := (enters.trans (returns.trans halts)).runProgram_stand nofun
      ⟨trace, echo, none⟩ rfl
    refine ⟨count, fun fuel enough => ⟨fun _ => ?_, fun wide => ?_⟩⟩
    · obtain ⟨halted, stands⟩ := ends fuel enough
      have stack := congrArg Stand.stack stands
      have output := congrArg Stand.output stands
      dsimp only [stand] at stack output
      rw [halted, stack, output]
      simp [toInt_value small, toInt_value fits]
    · exact absurd wide (Nat.not_lt.mpr fits)

theorem source_computes_atTheLimit :
    (∃ assembly, Assembly.ofText .semicolon (source 20) = .ok assembly ∧
      ∃ count, ∀ fuel ≥ count,
        (runProgram {} fuel assembly.program).1 = .halted ∧
          (runProgram {} fuel assembly.program).2.output.toList.map Int64.toInt =
            [2432902008176640000]) ∧
    ∃ assembly, Assembly.ofText .semicolon (source 21) = .ok assembly ∧
      ∃ count, ∀ fuel ≥ count,
        (runProgram {} fuel assembly.program).1 = .faulted ⟨.arithmeticOverflow, 14⟩ := by
  obtain ⟨assembly, accepted, _, computes⟩ := source_computes 20 (by decide)
  obtain ⟨other, acceptedToo, _, computesToo⟩ := source_computes 21 (by decide)
  obtain ⟨count, ends⟩ := computes false false
  obtain ⟨countToo, endsToo⟩ := computesToo false false
  refine ⟨⟨assembly, accepted, count, fun fuel enough => ?_⟩,
    other, acceptedToo, countToo, fun fuel enough => ?_⟩
  · obtain ⟨halted, output, _⟩ := (ends fuel enough).halts (by decide)
    exact ⟨halted, output⟩
  · exact (endsToo fuel enough).overflows (by decide)

end Factorial

end StackAsm
