import StackAsm.Proofs.Consistency
import StackAsm.Proofs.Relocation
import StackAsm.Proofs.Tables

/-!
# Statements after other statements

Two lists of statements that share no name can be put one after the other.
Everything the second list refers to is moved past the first: its labels, its
procedures and the targets of its jumps and calls.  Nothing else changes.
-/

set_option autoImplicit false

namespace StackAsm

def Procedure.shift (offset : Nat) (procedure : Procedure) : Procedure :=
  ⟨procedure.entry + offset, procedure.exit + offset⟩

namespace Symbols

def shift (offset : Nat) (symbols : Symbols) : Symbols :=
  ⟨symbols.labels.map (· + offset), symbols.procedures.map (Procedure.shift offset)⟩

def union (left right : Symbols) : Symbols :=
  ⟨left.labels.union right.labels, left.procedures.union right.procedures⟩

theorem label?_union_shift (left right : Symbols) (offset : Nat) (name : String) :
    (left.union (right.shift offset)).label? name =
      (left.label? name).or ((right.label? name).map (· + offset)) := by
  rw [label?, union, NameTable.get?_union]
  dsimp only [shift]
  rw [NameTable.get?_map]
  rfl

theorem procedure?_union_shift (left right : Symbols) (offset : Nat) (name : String) :
    (left.union (right.shift offset)).procedure? name =
      (left.procedure? name).or ((right.procedure? name).map (Procedure.shift offset)) := by
  rw [procedure?, union, NameTable.get?_union]
  dsimp only [shift]
  rw [NameTable.get?_map]
  rfl

/-! ## Lines of the declarations -/

variable (first second : List Numbered)

theorem labelLine?_append (name : String) :
    labelLine? (first ++ second) name =
      (labelLine? first name).or ((labelLine? second name).map (· + first.length)) :=
  List.findIdx?_append

theorem procedureLine?_append (name : String) :
    procedureLine? (first ++ second) name =
      (procedureLine? first name).or ((procedureLine? second name).map (· + first.length)) :=
  List.findIdx?_append

theorem endBelow?_append_left {entry closing : Nat}
    (closes : endBelow? first entry = some closing) :
    endBelow? (first ++ second) entry = some closing := by
  obtain ⟨between, found, rfl⟩ := Option.map_eq_some_iff.mp closes
  have appended : (first ++ second).drop (entry + 1) =
      first.drop (entry + 1) ++ second.drop (entry + 1 - first.length) := List.drop_append
  rw [endBelow?, appended, firstEnd?, List.findIdx?_append, ← firstEnd?, found]
  rfl

theorem endBelow?_append_right (entry : Nat) :
    endBelow? (first ++ second) (entry + first.length) =
      (endBelow? second entry).map (· + first.length) := by
  have dropped : (first ++ second).drop (entry + first.length + 1) = second.drop (entry + 1) := by
    have split : entry + first.length + 1 = first.length + (entry + 1) := by omega
    rw [split, List.drop_length_add_append]
  have counted : ∀ between,
      entry + first.length + 1 + between = entry + 1 + between + first.length := by
    intro between
    omega
  rw [endBelow?, endBelow?, dropped, Option.map_map]
  simp only [Function.comp_def, counted]

end Symbols

/-! ## Symbols of both lists -/

theorem Paired.append {first second : List Bool} (left : Paired first) (right : Paired second) :
    Paired (first ++ second) := by
  obtain ⟨count, rfl⟩ := left
  obtain ⟨more, rfl⟩ := right
  refine ⟨count + more, ?_⟩
  rw [List.replicate_add, List.flatten_append]

theorem Consistent.append {first second : List Numbered} (left : Consistent first)
    (right : Consistent second) (labels : ∀ name ∈ labelNames first, name ∉ labelNames second)
    (procedures : ∀ name ∈ procedureNames first, name ∉ procedureNames second) :
    Consistent (first ++ second) := by
  constructor
  · rw [labelNames, List.filterMap_append]
    exact left.labelsOnce.append right.labelsOnce fun name => labels name
  · rw [brackets, List.filterMap_append]
    exact left.paired.append right.paired
  · rw [procedureNames, List.filterMap_append]
    exact left.proceduresOnce.append right.proceduresOnce fun name => procedures name
  · intro name member
    rw [targetNames, List.filterMap_append] at member
    rw [labelNames, List.filterMap_append]
    exact List.mem_append.mpr
      ((List.mem_append.mp member).imp (left.jumpsDeclared name) (right.jumpsDeclared name))
  · intro name member
    rw [calleeNames, List.filterMap_append] at member
    rw [procedureNames, List.filterMap_append]
    exact List.mem_append.mpr
      ((List.mem_append.mp member).imp (left.callsDeclared name) (right.callsDeclared name))

section Append

variable {first second : List Numbered} {left right : Symbols}
  (resolvedFirst : Symbols.resolve first = .ok left)
  (resolvedSecond : Symbols.resolve second = .ok right)

include resolvedFirst resolvedSecond

theorem Symbols.label?_append {whole : Symbols}
    (resolved : Symbols.resolve (first ++ second) = .ok whole) (name : String) :
    whole.label? name = (left.label? name).or ((right.label? name).map (· + first.length)) := by
  rw [label?_eq_labelLine? resolved, label?_eq_labelLine? resolvedFirst,
    label?_eq_labelLine? resolvedSecond, labelLine?_append]

theorem Symbols.procedure?_append {whole : Symbols}
    (resolved : Symbols.resolve (first ++ second) = .ok whole) (name : String) :
    whole.procedure? name =
      (left.procedure? name).or ((right.procedure? name).map (Procedure.shift first.length)) := by
  have extent := procedure?_eq_extent resolved name
  have extentFirst := procedure?_eq_extent resolvedFirst name
  have extentSecond := procedure?_eq_extent resolvedSecond name
  rw [procedureLine?_append] at extent
  cases opens : procedureLine? first name with
  | some entry =>
    have known : (left.procedure? name).isSome := by
      obtain ⟨⟨line, stands⟩, _⟩ := standing_of_findIdx? opens
      rw [procedure?_isSome_iff resolvedFirst]
      exact List.mem_filterMap.mpr ⟨_, List.mem_of_getElem? stands, rfl⟩
    rw [opens, Option.bind_some] at extentFirst
    cases closes : endBelow? first entry with
    | none => simp [extentFirst, closes] at known
    | some closing =>
      rw [closes] at extentFirst
      rw [opens, Option.some_or, Option.bind_some, endBelow?_append_left first second closes]
        at extent
      rw [extent, extentFirst]
      rfl
  | none =>
    rw [opens, Option.bind_none] at extentFirst
    rw [opens, Option.none_or] at extent
    rw [extent, extentFirst, extentSecond, Option.none_or]
    cases procedureLine? second name with
    | none => rfl
    | some entry =>
      simp only [Option.map_some, Option.bind_some, endBelow?_append_right]
      cases endBelow? second entry with
      | none => rfl
      | some closing =>
        have exit : closing + first.length + 1 = closing + 1 + first.length := by omega
        simp [Procedure.shift, exit]

/-- The symbols of both lists together are those of the first and those of the
second, moved. -/
theorem Symbols.resolve_append (consistent : Consistent (first ++ second)) :
    resolve (first ++ second) = .ok (left.union (right.shift first.length)) := by
  obtain ⟨whole, resolved⟩ := (resolve_isOk_iff _).mpr
    ⟨consistent.labelsOnce, consistent.paired, consistent.proceduresOnce⟩
  rw [resolved]
  obtain ⟨labels, procedures⟩ := whole
  have sameLabels : labels = (left.union (right.shift first.length)).labels := by
    apply NameTable.ext_get?
    intro name
    have looked := label?_append resolvedFirst resolvedSecond resolved name
    rw [← label?_union_shift] at looked
    exact looked
  have sameProcedures : procedures = (left.union (right.shift first.length)).procedures := by
    apply NameTable.ext_get?
    intro name
    have looked := procedure?_append resolvedFirst resolvedSecond resolved name
    rw [← procedure?_union_shift] at looked
    exact looked
  rw [sameLabels, sameProcedures]

end Append

/-! ## The program of both lists -/

def Program.shift (offset : Nat) (program : Program) : Program :=
  program.map (Instruction.relocate (· + offset))

section Lowered

variable {first second : List Numbered} {left right : Symbols}

theorem lower_union_left {source : Numbered} {instruction : Instruction}
    (lowered : lower left source = .ok instruction) (added : Symbols) (offset : Nat) :
    lower (left.union (added.shift offset)) source =
      .ok (instruction.relocate fun position => position) := by
  refine lower_relocate ?_ ?_ ?_ lowered
  · intro name _ target known
    rw [Symbols.label?_union_shift, known, Option.some_or]
  · intro name procedure known
    rw [Symbols.procedure?_union_shift, known, Option.some_or]
    exact ⟨procedure, rfl, rfl, rfl⟩
  · intro written _
    exact written.relocate_id

theorem lower_union_right {source : Numbered} {instruction : Instruction} {offset : Nat}
    (labels : ∀ name, (right.label? name).isSome → left.label? name = none)
    (procedures : ∀ name, (right.procedure? name).isSome → left.procedure? name = none)
    (untargeted : ∀ written, source.statement = .plain written → written.target? = none)
    (lowered : lower right source = .ok instruction) :
    lower (left.union (right.shift offset)) source =
      .ok (instruction.relocate (· + offset)) := by
  refine lower_relocate ?_ ?_ ?_ lowered
  · intro name _ target known
    rw [Symbols.label?_union_shift, labels name (by simp [known]), known]
    rfl
  · intro name procedure known
    rw [Symbols.procedure?_union_shift, procedures name (by simp [known]), known]
    refine ⟨procedure.shift offset, rfl, ?_, rfl⟩
    simp only [Procedure.callTarget, Procedure.shift]
    omega
  · intro written same
    exact Instruction.relocate_of_untargeted _ (untargeted written same)

end Lowered

namespace Assembly

section Append

variable {first second : List Numbered} {left right : Assembly}
  (acceptedFirst : ofStatements first = .ok left)
  (acceptedSecond : ofStatements second = .ok right)
  (labels : ∀ name ∈ labelNames first, name ∉ labelNames second)
  (procedures : ∀ name ∈ procedureNames first, name ∉ procedureNames second)

include acceptedFirst acceptedSecond labels procedures

theorem consistent_append : Consistent (first ++ second) := by
  have consistentFirst := (ofStatements_isOk_iff first).mp ⟨left, acceptedFirst⟩
  have consistentSecond := (ofStatements_isOk_iff second).mp ⟨right, acceptedSecond⟩
  exact consistentFirst.append consistentSecond labels procedures

theorem lowered_append
    (untargeted : ∀ source ∈ second, ∀ written, source.statement = .plain written →
      written.target? = none) :
    (first ++ second).map (lower (left.symbols.union (right.symbols.shift first.length))) =
      (left.program ++ right.program.shift first.length).toList.map .ok := by
  obtain ⟨resolvedFirst, loweredFirst, _⟩ := ofStatements_eq_ok_iff.mp acceptedFirst
  obtain ⟨resolvedSecond, loweredSecond, _⟩ := ofStatements_eq_ok_iff.mp acceptedSecond
  have labelsApart : ∀ name, (right.symbols.label? name).isSome →
      left.symbols.label? name = none := by
    intro name known
    rw [Symbols.label?_isSome_iff resolvedSecond] at known
    rw [← Option.not_isSome_iff_eq_none, Symbols.label?_isSome_iff resolvedFirst]
    intro member
    exact labels name member known
  have proceduresApart : ∀ name, (right.symbols.procedure? name).isSome →
      left.symbols.procedure? name = none := by
    intro name known
    rw [Symbols.procedure?_isSome_iff resolvedSecond] at known
    rw [← Option.not_isSome_iff_eq_none, Symbols.procedure?_isSome_iff resolvedFirst]
    intro member
    exact procedures name member known
  have before : first.map (lower (left.symbols.union (right.symbols.shift first.length))) =
      (left.program.toList.map (Instruction.relocate fun position => position)).map .ok := by
    refine lowered_relocate ?_ loweredFirst
    intro source _ instruction here
    exact lower_union_left here right.symbols first.length
  have after : second.map (lower (left.symbols.union (right.symbols.shift first.length))) =
      (right.program.toList.map (Instruction.relocate (· + first.length))).map .ok := by
    refine lowered_relocate ?_ loweredSecond
    intro source member instruction here
    exact lower_union_right labelsApart proceduresApart (untargeted source member) here
  rw [List.map_append, before, after]
  simp [Program.shift]

end Append

/-- Statements that follow others without sharing a name are assembled as they
are alone, and moved. -/
theorem ofStatements_append (first second : List Numbered) (left right : Assembly)
    (secondLines : List Source.Line)
    (parsed : Source.statements secondLines = .ok second)
    (acceptedFirst : ofStatements first = .ok left)
    (acceptedSecond : ofStatements second = .ok right)
    (labels : ∀ name ∈ labelNames first, name ∉ labelNames second)
    (procedures : ∀ name ∈ procedureNames first, name ∉ procedureNames second) :
    ofStatements (first ++ second) =
      .ok { program := left.program ++ right.program.shift first.length
            symbols := left.symbols.union (right.symbols.shift first.length)
            lines := left.lines ++ right.lines } := by
  obtain ⟨resolvedFirst, _, linesFirst⟩ := ofStatements_eq_ok_iff.mp acceptedFirst
  obtain ⟨resolvedSecond, _, linesSecond⟩ := ofStatements_eq_ok_iff.mp acceptedSecond
  have consistent := consistent_append acceptedFirst acceptedSecond labels procedures
  have resolved := Symbols.resolve_append resolvedFirst resolvedSecond consistent
  have lowered := lowered_append acceptedFirst acceptedSecond labels procedures
    (untargeted_of_statements parsed)
  refine ofStatements_eq_ok_iff.mpr ⟨resolved, lowered, ?_⟩
  rw [linesFirst, linesSecond, List.map_append]

def caller : List Source.Line :=
  [⟨1, "Proc", ["f"]⟩, ⟨2, "Ret", []⟩, ⟨3, "End", []⟩, ⟨4, "Call", ["f"]⟩]

def looper : List Source.Line :=
  [⟨1, "label", ["f"]⟩, ⟨2, "Get", ["3"]⟩, ⟨3, "Jump", ["f"]⟩, ⟨4, "Proc", ["g"]⟩,
    ⟨5, "End", []⟩, ⟨6, "Call", ["g"]⟩]

theorem ofStatements_append_looper :
    ∃ first second left right, Source.statements caller = .ok first ∧
      Source.statements looper = .ok second ∧ ofStatements first = .ok left ∧
      ofStatements second = .ok right ∧ (∀ name ∈ labelNames first, name ∉ labelNames second) ∧
      (∀ name ∈ procedureNames first, name ∉ procedureNames second) ∧
      ofStatements (first ++ second) =
        .ok { program := left.program ++ right.program.shift first.length
              symbols := left.symbols.union (right.symbols.shift first.length)
              lines := left.lines ++ right.lines } ∧
      right.program = #[.noop, .get 3, .jump 0, .jump 5, .noop, .call 4] ∧
      (ofStatements (first ++ second)).toOption.map Assembly.program =
        some #[.jump 3, .ret, .noop, .call 1, .noop, .get 3, .jump 4, .jump 9, .noop, .call 8] :=
  ⟨_, _, _, _, rfl, rfl, rfl, rfl, by decide, by decide,
    ofStatements_append _ _ _ _ looper rfl rfl rfl (by decide) (by decide), rfl, rfl⟩

end Assembly

end StackAsm
