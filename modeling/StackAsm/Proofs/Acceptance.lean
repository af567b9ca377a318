import StackAsm.Proofs.Lowering
import StackAsm.Proofs.Parsing

/-!
# Accepted sources

The passes of the assembler each refuse some sources.  Taken together they
refuse exactly the sources whose meaningful lines break one of six rules, and
each rule can be tested on the words of the lines alone.
-/

set_option autoImplicit false

namespace StackAsm

namespace Source

def Line.namesAfter (words : List String) (line : Line) : List String :=
  if line.mnemonic ∈ words then line.operands else []

def namesAfter (words : List String) (lines : List Line) : List String :=
  lines.flatMap (Line.namesAfter words)

def procedureWords (lines : List Line) : List String :=
  (lines.map Line.mnemonic).filter fun word => word ∈ ["Proc", "End"]

/-- The rules for the meaningful lines of a source. -/
structure Acceptable (lines : List Line) : Prop where
  wellFormed : ∀ line ∈ lines, line.WellFormed
  labelsOnce : (namesAfter ["label"] lines).Nodup
  alternating : ∃ pairs,
    procedureWords lines = (List.replicate pairs ["Proc", "End"]).flatten
  proceduresOnce : (namesAfter ["Proc"] lines).Nodup
  jumpsDeclared : ∀ name ∈ namesAfter ["Jump", "JE", "JNE"] lines, name ∈ namesAfter ["label"] lines
  callsDeclared : ∀ name ∈ namesAfter ["Call"] lines, name ∈ namesAfter ["Proc"] lines

def bracketWord : Bool → String
  | true => "Proc"
  | false => "End"

/-! ## Rules on lines and rules on statements -/

theorem Line.Reads.namesAfter {line : Line} {statement : Statement}
    (read : line.Reads statement) :
    line.namesAfter ["label"] = statement.label?.toList ∧
      line.namesAfter ["Proc"] = statement.procedure?.toList ∧
        line.namesAfter ["Jump", "JE", "JNE"] = statement.target?.toList ∧
          line.namesAfter ["Call"] = statement.callee?.toList := by
  unfold Line.namesAfter
  cases read with
  | plain instruction word =>
    simp only [List.mem_cons, List.not_mem_nil, or_false, not_or] at word
    simp [word, Statement.label?, Statement.procedure?, Statement.target?, Statement.callee?]
  | jump kind name word operands =>
    cases kind <;>
      simp [word, operands, JumpKind.mnemonic, Statement.label?, Statement.procedure?,
        Statement.target?, Statement.callee?]
  | call name word operands | label name word operands | proc name word operands
  | procEnd word operands =>
    simp [word, operands, Statement.label?, Statement.procedure?, Statement.target?,
      Statement.callee?]

theorem procedureWords_cons (line : Line) (rest : List Line) :
    procedureWords (line :: rest) =
      (if line.mnemonic ∈ ["Proc", "End"] then [line.mnemonic] else []) ++
        procedureWords rest := by
  rw [procedureWords, List.map_cons, List.filter_cons, ← procedureWords]
  by_cases bracket : line.mnemonic ∈ ["Proc", "End"]
  · rw [if_pos bracket, if_pos (decide_eq_true bracket)]
    rfl
  · rw [if_neg bracket, if_neg (by simpa using bracket)]
    rfl

theorem Line.Reads.procedureWord {line : Line} {statement : Statement}
    (read : line.Reads statement) :
    (if line.mnemonic ∈ ["Proc", "End"] then [line.mnemonic] else []) =
      statement.bracket?.toList.map bracketWord := by
  cases read with
  | plain instruction word =>
    simp only [List.mem_cons, List.not_mem_nil, or_false, not_or] at word
    simp [word, Statement.bracket?]
  | jump kind name word => cases kind <;> simp [word, JumpKind.mnemonic, Statement.bracket?]
  | call name word | label name word | proc name word | procEnd word =>
    simp [word, Statement.bracket?, bracketWord]

section Parsed

variable {lines : List Line} {statements : List Numbered}
  (reads : List.Forall₂ (fun line source => line.Reads source.statement) lines statements)

include reads

theorem namesAfter_eq_filterMap {words : List String} {name? : Statement → Option String}
    (agrees : ∀ {line : Line} {statement : Statement}, line.Reads statement →
      line.namesAfter words = (name? statement).toList) :
    namesAfter words lines = statements.filterMap fun source => name? source.statement := by
  induction reads with
  | nil => rfl
  | cons head _ ih =>
    rw [namesAfter, List.flatMap_cons, agrees head, List.filterMap_cons, ← ih]
    cases name? _ <;> rfl

theorem namesAfter_label : namesAfter ["label"] lines = labelNames statements :=
  namesAfter_eq_filterMap reads fun read => read.namesAfter.1

theorem namesAfter_proc : namesAfter ["Proc"] lines = procedureNames statements :=
  namesAfter_eq_filterMap reads fun read => read.namesAfter.2.1

theorem namesAfter_jump :
    namesAfter ["Jump", "JE", "JNE"] lines = targetNames statements :=
  namesAfter_eq_filterMap reads fun read => read.namesAfter.2.2.1

theorem namesAfter_call : namesAfter ["Call"] lines = calleeNames statements :=
  namesAfter_eq_filterMap reads fun read => read.namesAfter.2.2.2

theorem procedureWords_eq_map :
    procedureWords lines = (brackets statements).map bracketWord := by
  induction reads with
  | nil => rfl
  | cons head _ ih =>
    rw [procedureWords_cons, brackets_cons, List.map_append, ← ih, head.procedureWord]

end Parsed

theorem bracketWord_injective : Function.Injective bracketWord := by
  intro first second same
  cases first <;> cases second <;> simp [bracketWord] at same ⊢

theorem paired_iff_alternating (marks : List Bool) :
    Paired marks ↔
      ∃ pairs, marks.map bracketWord = (List.replicate pairs ["Proc", "End"]).flatten := by
  have written : ∀ pairs, (List.replicate pairs ["Proc", "End"]).flatten =
      (List.replicate pairs [true, false]).flatten.map bracketWord := by
    intro pairs
    simp [List.map_flatten, bracketWord]
  simp only [written, (List.map_injective_iff.mpr bracketWord_injective).eq_iff]
  exact Iff.rfl

/-- Once the lines are parsed, the other rules are rules on the statements. -/
theorem acceptable_iff_of_parsed {lines : List Line} {statements : List Numbered}
    (parsed : Source.statements lines = .ok statements) :
    Acceptable lines ↔
      (labelNames statements).Nodup ∧ Paired (brackets statements) ∧
        (procedureNames statements).Nodup ∧
          (∀ name ∈ targetNames statements, name ∈ labelNames statements) ∧
            ∀ name ∈ calleeNames statements, name ∈ procedureNames statements := by
  have reads := reads_of_statements parsed
  have wellFormed := (statements_isOk_iff lines).mp ⟨statements, parsed⟩
  rw [paired_iff_alternating, ← procedureWords_eq_map reads, ← namesAfter_label reads,
    ← namesAfter_proc reads, ← namesAfter_jump reads, ← namesAfter_call reads]
  constructor
  · intro rules
    exact ⟨rules.labelsOnce, rules.alternating, rules.proceduresOnce, rules.jumpsDeclared,
      rules.callsDeclared⟩
  · intro rules
    obtain ⟨labels, alternating, procedures, jumps, calls⟩ := rules
    exact ⟨wellFormed, labels, alternating, procedures, jumps, calls⟩

end Source

namespace Assembly

open Source

theorem ofLines_isOk_iff_acceptable (lines : List Line) :
    (∃ assembly, ofLines lines = .ok assembly) ↔ Acceptable lines := by
  rw [ofLines_isOk_iff]
  constructor
  · intro assembled
    obtain ⟨statements, parsed, symbols, resolved, lowered⟩ := assembled
    obtain ⟨labels, paired, procedures⟩ :=
      (Symbols.resolve_isOk_iff statements).mp ⟨symbols, resolved⟩
    have declared := (lowered_iff_declared resolved).mp lowered
    exact (acceptable_iff_of_parsed parsed).mpr ⟨labels, paired, procedures, declared⟩
  · intro acceptable
    obtain ⟨statements, parsed⟩ := (statements_isOk_iff lines).mpr acceptable.wellFormed
    obtain ⟨labels, paired, procedures, declared⟩ :=
      (acceptable_iff_of_parsed parsed).mp acceptable
    obtain ⟨symbols, resolved⟩ :=
      (Symbols.resolve_isOk_iff statements).mpr ⟨labels, paired, procedures⟩
    exact ⟨statements, parsed, symbols, resolved, (lowered_iff_declared resolved).mpr declared⟩

/-- A text is assembled exactly when its meaningful lines follow the rules. -/
theorem ofText_isOk_iff (marker : Marker) (text : String) :
    (∃ assembly, ofText marker text = .ok assembly) ↔ Acceptable (scan marker text) :=
  ofLines_isOk_iff_acceptable (scan marker text)

end Assembly

end StackAsm
