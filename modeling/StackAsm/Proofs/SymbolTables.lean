import StackAsm.Proofs.Emission
import StackAsm.Proofs.Rejection

/-!
# Symbols say what stands where

The pass over the procedures keeps one open procedure and reads every statement
once.  Its table is the one that a search would find: a procedure reaches from
its opening line to the first closing line below.  No opening line stands
between these two, since a procedure would be open there, and one is open above
every closing line.  So procedures do not overlap and every opening and closing
line belongs to one of them.
-/

set_option autoImplicit false

namespace StackAsm.Symbols

open Source (statementLayout Bracketed OpenAbove MisplacedBracket openAbove_succ procedures_scan
  proceduresAbove_zero failure?)

/-! ## Lines -/

def Stands (statements : List Numbered) (position : Nat) (statement : Statement) : Prop :=
  ∃ line, statements[position]? = some ⟨line, statement⟩

structure Closes (statements : List Numbered) (entry closing : Nat) : Prop where
  below : entry < closing
  stands : Stands statements closing .procEnd
  first : ∀ between, entry < between → between < closing → ¬ Stands statements between .procEnd

section Lines

variable {statements : List Numbered} {position entry closing : Nat}

theorem Stands.inside {statement : Statement} (stands : Stands statements position statement) :
    position < statements.length := by
  obtain ⟨line, here⟩ := stands
  exact (List.getElem?_eq_some_iff.mp here).1

theorem Stands.unique {statement other : Statement}
    (stands : Stands statements position statement) (also : Stands statements position other) :
    statement = other := by
  obtain ⟨line, here⟩ := stands
  obtain ⟨otherLine, there⟩ := also
  rw [here] at there
  cases there
  rfl

theorem Closes.unique {other : Nat} (closes : Closes statements entry closing)
    (also : Closes statements entry other) : closing = other := by
  have notBefore : ¬ closing < other := fun before =>
    also.first closing closes.below before closes.stands
  have notAfter : ¬ other < closing := fun after =>
    closes.first other also.below after also.stands
  omega

theorem endBelow?_eq_some_iff :
    endBelow? statements entry = some closing ↔ Closes statements entry closing := by
  have search : ∀ {found}, endBelow? statements entry = some found →
      Closes statements entry found := by
    intro found reached
    obtain ⟨below, stands, first⟩ := standing_of_endBelow? reached
    refine ⟨below, stands, ?_⟩
    intro between after before there
    obtain ⟨line, there⟩ := there
    exact first between after before line there
  refine ⟨search, ?_⟩
  intro closes
  cases found : endBelow? statements entry with
  | some reached => rw [(search found).unique closes]
  | none =>
    obtain ⟨line, stands⟩ := closes.stands
    have below := closes.below
    have member : (⟨line, .procEnd⟩ : Numbered) ∈ statements.drop (entry + 1) := by
      apply List.mem_of_getElem?
      rw [List.getElem?_drop, show entry + 1 + (closing - (entry + 1)) = closing by omega]
      exact stands
    have missed := List.findIdx?_eq_none_iff.mp (Option.map_eq_none_iff.mp found) _ member
    simp at missed

end Lines

/-! ## Where a procedure is open -/

section Resolved

variable {statements : List Numbered} {symbols : Symbols}
  (resolved : resolve statements = .ok symbols)

include resolved

theorem label?_eq_some_iff (name : String) (index : Nat) :
    symbols.label? name = some index ↔ Stands statements index (.label name) := by
  rw [label?_eq_labelLine? resolved]
  constructor
  · intro found
    exact (standing_of_findIdx? found).1
  · intro stands
    obtain ⟨line, stands⟩ := stands
    have unique := ((resolve_isOk_iff statements).mp ⟨symbols, resolved⟩).1
    exact labelLine?_of_nodup unique stands

theorem procedure?_eq_some_iff (name : String) (procedure : Procedure) :
    symbols.procedure? name = some procedure ↔
      ∃ closing, procedure.exit = closing + 1 ∧
        Stands statements procedure.entry (.proc name) ∧
          Closes statements procedure.entry closing := by
  rw [procedure?_eq_extent resolved]
  constructor
  · intro known
    obtain ⟨entry, found, extent⟩ := Option.bind_eq_some_iff.mp known
    obtain ⟨closing, closes, rfl⟩ := Option.map_eq_some_iff.mp extent
    exact ⟨closing, rfl, (standing_of_findIdx? found).1, endBelow?_eq_some_iff.mp closes⟩
  · intro stands
    obtain ⟨closing, exits, ⟨line, opens⟩, closes⟩ := stands
    obtain ⟨entry, exit⟩ := procedure
    obtain rfl : exit = closing + 1 := exits
    have unique := ((resolve_isOk_iff statements).mp ⟨symbols, resolved⟩).2.2
    rw [procedureLine?_of_nodup unique opens, Option.bind_some, endBelow?_eq_some_iff.mpr closes]
    rfl

theorem not_misplaced (position : Nat) (error : SourceError) :
    ¬ MisplacedBracket (statementLayout statements) position error := by
  obtain ⟨labels, procedures, _, collected, _⟩ := resolve_eq_ok_iff.mp resolved
  rcases (procedures_scan statements).cases (0, none, .empty) (proceduresAbove_zero statements) with
    ⟨found, failed, _⟩ | ⟨clear, _⟩
  · have failed : failure? (collectProcedures 0 none .empty statements) = some found := failed
    rw [collected] at failed
    cases failed
  · exact clear position error

omit resolved in
/-- Below an opening line a procedure is open until a line closes one. -/
theorem openAbove_of_unclosed {entry position : Nat} {name : String}
    (opens : Stands statements entry (.proc name)) (after : entry < position)
    (unclosed : ∀ between, entry < between → between < position →
      ¬ Stands statements between .procEnd) :
    ∃ number outer, OpenAbove (statementLayout statements) position number outer := by
  induction position with
  | zero => omega
  | succ position ih =>
    by_cases here : entry = position
    · obtain ⟨line, stands⟩ := opens
      exact ⟨line, name, (openAbove_succ _ _ _ _).mpr (.inl (here ▸ stands))⟩
    · have unclosedAbove : ∀ between, entry < between → between < position →
          ¬ Stands statements between .procEnd :=
        fun between below before => unclosed between below (by omega)
      obtain ⟨number, outer, above⟩ := ih (by omega) unclosedAbove
      by_cases bracketed : Bracketed (statementLayout statements) position
      · obtain ⟨line, inner, stands⟩ | ⟨line, stands⟩ := bracketed
        · exact ⟨line, inner, (openAbove_succ _ _ _ _).mpr (.inl stands)⟩
        · exact absurd ⟨line, stands⟩ (unclosed position (by omega) (by omega))
      · exact ⟨number, outer, (openAbove_succ _ _ _ _).mpr (.inr ⟨bracketed, above⟩)⟩

/-- No procedure is opened before the one above is closed. -/
theorem not_opened_inside {entry closing position : Nat} {name inner : String}
    (opens : Stands statements entry (.proc name)) (closes : Closes statements entry closing)
    (after : entry < position) (before : position < closing) :
    ¬ Stands statements position (.proc inner) := by
  intro stands
  obtain ⟨line, stands⟩ := stands
  obtain ⟨number, outer, above⟩ := openAbove_of_unclosed opens after
    fun between below above => closes.first between below (by omega)
  exact not_misplaced resolved position _ (.nested stands above)

/-- Every closing line closes a procedure. -/
theorem closes_of_procEnd {position : Nat} (stands : Stands statements position .procEnd) :
    ∃ entry name, Stands statements entry (.proc name) ∧ Closes statements entry position := by
  obtain ⟨line, here⟩ := stands
  by_cases isOpen : ∃ number outer, OpenAbove (statementLayout statements) position number outer
  · obtain ⟨number, name, entry, below, opens, quiet⟩ := isOpen
    refine ⟨entry, name, ⟨number, opens⟩, below, ⟨line, here⟩, ?_⟩
    intro between after before stands
    exact quiet between after before (.inr stands)
  · have outside : ∀ number outer,
        ¬ OpenAbove (statementLayout statements) position number outer :=
      fun number outer above => isOpen ⟨number, outer, above⟩
    exact absurd (.unmatched here outside) (not_misplaced resolved position _)

/-! ## Extents -/

theorem exit_le_entry {name other : String} {upper lower : Procedure}
    (known : symbols.procedure? name = some upper)
    (also : symbols.procedure? other = some lower) (above : upper.entry < lower.entry) :
    upper.exit ≤ lower.entry := by
  obtain ⟨closing, exits, opens, closes⟩ := (procedure?_eq_some_iff resolved name upper).mp known
  obtain ⟨_, _, opensLower, _⟩ := (procedure?_eq_some_iff resolved other lower).mp also
  have apart : lower.entry ≠ closing := by
    intro same
    rw [same] at opensLower
    cases opensLower.unique closes.stands
  have notInside : ¬ lower.entry < closing := fun before =>
    not_opened_inside resolved opens closes above before opensLower
  omega

theorem extents_disjoint {name other : String} {first second : Procedure}
    (different : name ≠ other) (known : symbols.procedure? name = some first)
    (also : symbols.procedure? other = some second) :
    first.exit ≤ second.entry ∨ second.exit ≤ first.entry := by
  rcases Nat.lt_trichotomy first.entry second.entry with above | same | below
  · exact .inl (exit_le_entry resolved known also above)
  · obtain ⟨_, _, opens, _⟩ := (procedure?_eq_some_iff resolved name first).mp known
    obtain ⟨_, _, opensAlso, _⟩ := (procedure?_eq_some_iff resolved other second).mp also
    rw [← same] at opensAlso
    cases opens.unique opensAlso
    exact absurd rfl different
  · exact .inr (exit_le_entry resolved also known below)

end Resolved

def Covers (symbols : Symbols) (name : String) (index : Nat) : Prop :=
  ∃ procedure, symbols.procedure? name = some procedure ∧
    procedure.entry ≤ index ∧ index < procedure.exit

section Covered

variable {statements : List Numbered} {symbols : Symbols}
  (resolved : resolve statements = .ok symbols)

include resolved

theorem covers_unique {name other : String} {index : Nat} (covers : symbols.Covers name index)
    (also : symbols.Covers other index) : name = other := by
  obtain ⟨first, known, fromFirst, toFirst⟩ := covers
  obtain ⟨second, knownAlso, fromSecond, toSecond⟩ := also
  by_contra different
  have disjoint := extents_disjoint resolved different known knownAlso
  omega

theorem covers_of_closes {entry closing : Nat} {name : String}
    (opens : Stands statements entry (.proc name)) (closes : Closes statements entry closing)
    {index : Nat} (below : entry ≤ index) (above : index ≤ closing) :
    symbols.Covers name index := by
  refine ⟨⟨entry, closing + 1⟩, ?_, below, by dsimp only; omega⟩
  exact (procedure?_eq_some_iff resolved name _).mpr ⟨closing, rfl, opens, closes⟩

theorem exists_covers {index : Nat}
    (bracket : (∃ name, Stands statements index (.proc name)) ∨
      Stands statements index .procEnd) :
    ∃ name, symbols.Covers name index := by
  obtain ⟨name, stands⟩ | stands := bracket
  · obtain ⟨line, here⟩ := stands
    have member : name ∈ procedureNames statements :=
      List.mem_filterMap.mpr ⟨_, List.mem_of_getElem? here, rfl⟩
    obtain ⟨procedure, known⟩ :=
      Option.isSome_iff_exists.mp ((procedure?_isSome_iff resolved name).mpr member)
    obtain ⟨closing, exits, ⟨line', opens⟩, closes⟩ :=
      (procedure?_eq_some_iff resolved name procedure).mp known
    have unique := ((resolve_isOk_iff statements).mp ⟨symbols, resolved⟩).2.2
    have found := procedureLine?_of_nodup unique here
    rw [procedureLine?_of_nodup unique opens, Option.some.injEq] at found
    have below := closes.below
    exact ⟨name, procedure, known, by omega, by omega⟩
  · obtain ⟨entry, name, opens, closes⟩ := closes_of_procEnd resolved stands
    have below := closes.below
    exact ⟨name, covers_of_closes resolved opens closes (by omega) (Nat.le_refl _)⟩

end Covered

/-- Symbols that give for every name what stands on the lines, and nothing
else. -/
structure Exact (symbols : Symbols) (statements : List Numbered) : Prop where
  label_iff : ∀ name index,
    symbols.label? name = some index ↔ Stands statements index (.label name)
  procedure_iff : ∀ name procedure, symbols.procedure? name = some procedure ↔
    ∃ closing, procedure.exit = closing + 1 ∧ Stands statements procedure.entry (.proc name) ∧
      Closes statements procedure.entry closing
  bracket : ∀ index, ((∃ name, Stands statements index (.proc name)) ∨
    Stands statements index .procEnd) → ∃! name, symbols.Covers name index
  disjoint : ∀ name other first second, name ≠ other →
    symbols.procedure? name = some first → symbols.procedure? other = some second →
      first.exit ≤ second.entry ∨ second.exit ≤ first.entry
  inside : ∀ name procedure, symbols.procedure? name = some procedure →
    ∃ closing, procedure.exit = closing + 1 ∧ procedure.entry < closing ∧
      closing < statements.length

/-- What is resolved from statements is exact. -/
theorem resolve_exact (statements : List Numbered) (symbols : Symbols)
    (resolved : resolve statements = .ok symbols) : symbols.Exact statements := by
  refine ⟨label?_eq_some_iff resolved, procedure?_eq_some_iff resolved, ?_, ?_, ?_⟩
  · intro index bracket
    obtain ⟨name, covers⟩ := exists_covers resolved bracket
    exact ⟨name, covers, fun other also => covers_unique resolved also covers⟩
  · intro name other first second different known also
    exact extents_disjoint resolved different known also
  · intro name procedure known
    obtain ⟨closing, exits, _, closes⟩ := (procedure?_eq_some_iff resolved name procedure).mp known
    exact ⟨closing, exits, closes.below, closes.stands.inside⟩

theorem resolve_exact_sharedName :
    ∃ statements symbols,
      statements = [⟨1, .label "a"⟩, ⟨2, .proc "b"⟩, ⟨4, .plain .ret⟩, ⟨5, .procEnd⟩,
        ⟨6, .label "c"⟩, ⟨8, .proc "a"⟩, ⟨9, .procEnd⟩] ∧
      resolve statements = .ok symbols ∧
      symbols.label? "a" = some 0 ∧ symbols.procedure? "a" = some ⟨5, 7⟩ ∧
      symbols.Exact statements :=
  ⟨_, _, rfl, rfl, rfl, rfl, resolve_exact _ _ rfl⟩

end StackAsm.Symbols
