import StackAsm.Symbols

/-!
# What the names of a source stand for

Statements have symbols exactly when no label is declared twice, opening and
closing statements alternate and no procedure is declared twice.  A label then
stands for the index of its declaration, and a procedure for the index of its
opening statement together with the index after the first closing one below.
-/

set_option autoImplicit false

namespace StackAsm

def Statement.label? : Statement → Option String
  | .label name => some name
  | _ => none

theorem Statement.label?_eq_some_iff {statement : Statement} {name : String} :
    statement.label? = some name ↔ statement = .label name := by
  cases statement <;> simp [label?]

def Statement.procedure? : Statement → Option String
  | .proc name => some name
  | _ => none

theorem Statement.procedure?_eq_some_iff {statement : Statement} {name : String} :
    statement.procedure? = some name ↔ statement = .proc name := by
  cases statement <;> simp [procedure?]

/-- Whether a statement opens a procedure (`true`) or closes one (`false`). -/
def Statement.bracket? : Statement → Option Bool
  | .proc _ => some true
  | .procEnd => some false
  | _ => none

def labelNames (statements : List Numbered) : List String :=
  statements.filterMap fun source => source.statement.label?

def procedureNames (statements : List Numbered) : List String :=
  statements.filterMap fun source => source.statement.procedure?

def brackets (statements : List Numbered) : List Bool :=
  statements.filterMap fun source => source.statement.bracket?

theorem brackets_cons (source : Numbered) (rest : List Numbered) :
    brackets (source :: rest) = source.statement.bracket?.toList ++ brackets rest := by
  rw [brackets, List.filterMap_cons]
  cases source.statement.bracket? <;> rfl

/-- Brackets that alternate, beginning with an opening and ending with a
closing one. -/
def Paired (marks : List Bool) : Prop :=
  ∃ pairs, marks = (List.replicate pairs [true, false]).flatten

/-! ## Alternating brackets -/

@[simp]
theorem paired_nil : Paired [] :=
  ⟨0, rfl⟩

@[simp]
theorem paired_cons_pair (rest : List Bool) : Paired (true :: false :: rest) ↔ Paired rest := by
  constructor
  · rintro ⟨pairs, same⟩
    cases pairs with
    | zero => simp at same
    | succ pairs =>
      refine ⟨pairs, ?_⟩
      simpa [List.replicate_succ] using same
  · rintro ⟨pairs, rfl⟩
    exact ⟨pairs + 1, by simp [List.replicate_succ]⟩

@[simp]
theorem not_paired_closing (rest : List Bool) : ¬ Paired (false :: rest) := by
  rintro ⟨pairs, same⟩
  cases pairs <;> simp [List.replicate_succ] at same

@[simp]
theorem not_paired_single : ¬ Paired [true] := by
  rintro ⟨pairs, same⟩
  cases pairs <;> simp [List.replicate_succ] at same

@[simp]
theorem not_paired_nested (rest : List Bool) : ¬ Paired (true :: true :: rest) := by
  rintro ⟨pairs, same⟩
  cases pairs <;> simp [List.replicate_succ] at same

theorem NameTable.free_insert_iff {α : Type} (table : NameTable α) (name : String) (value : α)
    (names : List String) :
    (∀ later ∈ names, (table.insert name value).get? later = none) ↔
      name ∉ names ∧ ∀ later ∈ names, table.get? later = none := by
  constructor
  · intro free
    have absent : name ∉ names := by
      intro member
      simpa [NameTable.get?_insert] using free name member
    refine ⟨absent, fun later member => ?_⟩
    have different : later ≠ name := fun same => absent (same ▸ member)
    simpa [NameTable.get?_insert, different] using free later member
  · rintro ⟨absent, free⟩ later member
    have different : later ≠ name := fun same => absent (same ▸ member)
    simpa [NameTable.get?_insert, different] using free later member

namespace Symbols

/-! ## Labels -/

/-- Labels are collected exactly when each is declared once and none was
declared before. -/
theorem collectLabels_isOk_iff (index : Nat) (found : NameTable Site)
    (statements : List Numbered) :
    (∃ table, collectLabels index found statements = .ok table) ↔
      (labelNames statements).Nodup ∧
        ∀ name ∈ labelNames statements, found.get? name = none := by
  induction statements generalizing index found with
  | nil => simp [collectLabels, labelNames]
  | cons source rest ih =>
    obtain ⟨line, statement⟩ := source
    cases statement with
    | label name =>
      have names : labelNames (⟨line, .label name⟩ :: rest) = name :: labelNames rest := rfl
      rw [collectLabels, names]
      cases present : found.get? name with
      | some first => simp [present]
      | none =>
        rw [ih, NameTable.free_insert_iff, List.nodup_cons, List.forall_mem_cons]
        simp only [present, true_and]
        exact and_left_comm.trans and_assoc.symm
    | plain _ | jump _ _ | call _ | proc _ | procEnd => exact ih (index + 1) found

def firstSite? (test : Statement → Bool) (index : Nat) : List Numbered → Option Site
  | [] => none
  | source :: rest =>
    if test source.statement then some ⟨index, source.line⟩
    else firstSite? test (index + 1) rest

theorem firstSite?_index (test : Statement → Bool) (index : Nat) (statements : List Numbered) :
    (firstSite? test index statements).map Site.index =
      (statements.findIdx? fun source => test source.statement).map (index + ·) := by
  induction statements generalizing index with
  | nil => rfl
  | cons source rest ih =>
    rw [firstSite?, List.findIdx?_cons]
    by_cases passed : test source.statement = true
    · simp [passed]
    · rw [if_neg passed, if_neg passed, ih (index + 1), Option.map_map]
      congr 1
      funext after
      simp only [Function.comp_apply]
      omega

def declaresLabel (name : String) (statement : Statement) : Bool :=
  statement = .label name

/-- A collected label was known before, or stands for its first declaration. -/
theorem collectLabels_get? {index : Nat} {found table : NameTable Site}
    {statements : List Numbered}
    (collected : collectLabels index found statements = .ok table) (query : String) :
    table.get? query =
      (found.get? query).or (firstSite? (declaresLabel query) index statements) := by
  induction statements generalizing index found with
  | nil =>
    rw [collectLabels] at collected
    cases collected
    simp [firstSite?]
  | cons source rest ih =>
    obtain ⟨line, statement⟩ := source
    cases statement with
    | label name =>
      rw [collectLabels] at collected
      cases present : found.get? name with
      | some first => simp [present] at collected
      | none =>
        simp only [present] at collected
        rw [ih collected, NameTable.get?_insert, firstSite?]
        by_cases same : query = name
        · subst same
          simp [declaresLabel, present]
        · have other : declaresLabel query (.label name) = false := by
            simp [declaresLabel, Ne.symm same]
          simp [same, other]
    | plain _ | jump _ _ | call _ | proc _ | procEnd =>
      have later := @ih (index + 1) found collected
      rw [later, firstSite?]
      simp [declaresLabel]

/-! ## Procedures -/

def pending : Option (String × Site) → List Numbered
  | none => []
  | some (name, opened) => [⟨opened.line, .proc name⟩]

/-- Procedures are collected exactly when, with the open one put in front, they
are opened and closed in turn and each is opened once, and none of the later
ones was collected before. -/
theorem collectProcedures_isOk_iff (index : Nat) (current : Option (String × Site))
    (found : NameTable Closed) (statements : List Numbered) :
    (∃ table, collectProcedures index current found statements = .ok table) ↔
      Paired (brackets (pending current ++ statements)) ∧
        (procedureNames (pending current ++ statements)).Nodup ∧
          ∀ name ∈ procedureNames statements, found.get? name = none := by
  -- The open procedure counts as if its opening statement were still ahead, so
  -- that both sides see the same brackets and names at every step.
  induction statements generalizing index current found with
  | nil =>
    cases current with
    | none => simp [collectProcedures, pending, brackets, procedureNames]
    | some opened => simp [collectProcedures, pending, brackets, Statement.bracket?]
  | cons source rest ih =>
    obtain ⟨line, statement⟩ := source
    cases statement with
    | proc name =>
      cases current with
      | some opened => simp [collectProcedures, pending, brackets, Statement.bracket?]
      | none =>
        have names : procedureNames (⟨line, .proc name⟩ :: rest) =
            name :: procedureNames rest := rfl
        cases present : found.get? name with
        | some first => simp [collectProcedures, names, present]
        | none =>
          simp only [collectProcedures, present, ih, names, List.forall_mem_cons, true_and]
          exact Iff.rfl
    | procEnd =>
      cases current with
      | none => simp [collectProcedures, pending, brackets, Statement.bracket?]
      | some opened =>
        obtain ⟨name, site⟩ := opened
        have marks : brackets (pending (some (name, site)) ++ ⟨line, .procEnd⟩ :: rest) =
            true :: false :: brackets rest := rfl
        have names : procedureNames (pending (some (name, site)) ++ ⟨line, .procEnd⟩ :: rest) =
            name :: procedureNames rest := rfl
        have laterNames : procedureNames (⟨line, .procEnd⟩ :: rest) = procedureNames rest := rfl
        simp only [collectProcedures, ih, NameTable.free_insert_iff, marks, names, laterNames,
          paired_cons_pair, List.nodup_cons]
        exact and_congr_right fun _ => and_left_comm.trans and_assoc.symm
    | plain _ | jump _ _ | call _ | label _ =>
      cases current with
      | none => exact ih (index + 1) none found
      | some opened => exact ih (index + 1) (some opened) found

def firstEnd? (statements : List Numbered) : Option Nat :=
  statements.findIdx? fun source => source.statement = .procEnd

/-- The extent of the first procedure with a name: its opening statement and the
index after the first closing one below. -/
def firstClosed? (name : String) (index : Nat) : List Numbered → Option Closed
  | [] => none
  | source :: rest =>
    if source.statement = .proc name then
      (firstEnd? rest).map fun between => ⟨⟨index, source.line⟩, index + 1 + between + 1⟩
    else firstClosed? name (index + 1) rest

/-- A collected procedure was known before, or is the open one, which ends at
the next closing statement, or is declared by the statements. -/
theorem collectProcedures_get? {index : Nat} {current : Option (String × Site)}
    {found table : NameTable Closed} {statements : List Numbered}
    (collected : collectProcedures index current found statements = .ok table)
    (query : String) :
    table.get? query =
      match current with
      | none => (found.get? query).or (firstClosed? query index statements)
      | some (name, opened) =>
        if query = name then
          (firstEnd? statements).map fun between => ⟨opened, index + between + 1⟩
        else (found.get? query).or (firstClosed? query index statements) := by
  induction statements generalizing index current found with
  | nil =>
    cases current with
    | none =>
      rw [collectProcedures] at collected
      cases collected
      simp [firstClosed?]
    | some opened => simp [collectProcedures] at collected
  | cons source rest ih =>
    obtain ⟨line, statement⟩ := source
    cases statement with
    | proc name =>
      cases current with
      | some opened => simp [collectProcedures] at collected
      | none =>
        cases present : found.get? name with
        | some first => simp [collectProcedures, present] at collected
        | none =>
          simp only [collectProcedures, present] at collected
          rw [ih collected]
          by_cases same : query = name
          · subst same
            simp [firstClosed?, present]
          · simp [firstClosed?, same, Ne.symm same]
    | procEnd =>
      cases current with
      | none => simp [collectProcedures] at collected
      | some opened =>
        obtain ⟨name, site⟩ := opened
        simp only [collectProcedures] at collected
        rw [ih collected, NameTable.get?_insert]
        by_cases same : query = name
        · simp [same, firstEnd?, List.findIdx?_cons]
        · simp [same, firstClosed?]
    | plain _ | jump _ _ | call _ | label _ =>
      have later := @ih (index + 1) current found collected
      rw [later]
      cases current with
      | none => simp [firstClosed?]
      | some opened =>
        have counted : ∀ between, index + 1 + between + 1 = index + (between + 1) + 1 := by
          intro between
          omega
        simp [firstClosed?, firstEnd?, List.findIdx?_cons, Function.comp_def, counted]

theorem collectProcedures_isSome_iff {index : Nat} {current : Option (String × Site)}
    {found table : NameTable Closed} {statements : List Numbered}
    (collected : collectProcedures index current found statements = .ok table)
    (query : String) :
    (table.get? query).isSome ↔
      (found.get? query).isSome ∨ query ∈ procedureNames (pending current ++ statements) := by
  induction statements generalizing index current found with
  | nil =>
    cases current with
    | none =>
      rw [collectProcedures] at collected
      cases collected
      simp [pending, procedureNames]
    | some opened => simp [collectProcedures] at collected
  | cons source rest ih =>
    obtain ⟨line, statement⟩ := source
    cases statement with
    | proc name =>
      cases current with
      | some opened => simp [collectProcedures] at collected
      | none =>
        cases present : found.get? name with
        | some first => simp [collectProcedures, present] at collected
        | none =>
          simp only [collectProcedures, present] at collected
          exact ih collected
    | procEnd =>
      cases current with
      | none => simp [collectProcedures] at collected
      | some opened =>
        obtain ⟨name, site⟩ := opened
        have names : procedureNames (pending (some (name, site)) ++ ⟨line, .procEnd⟩ :: rest) =
            name :: procedureNames rest := rfl
        simp only [collectProcedures] at collected
        rw [ih collected, NameTable.get?_insert, names, List.mem_cons]
        by_cases same : query = name
        · simp [same]
        · simp [same, pending]
    | plain _ | jump _ _ | call _ | label _ =>
      have later := @ih (index + 1) current found collected
      cases current with
      | none => exact later
      | some opened => exact later

/-! ## Lines of the declarations -/

def labelLine? (statements : List Numbered) (name : String) : Option Nat :=
  statements.findIdx? fun source => source.statement = .label name

def procedureLine? (statements : List Numbered) (name : String) : Option Nat :=
  statements.findIdx? fun source => source.statement = .proc name

def endBelow? (statements : List Numbered) (position : Nat) : Option Nat :=
  (firstEnd? (statements.drop (position + 1))).map (position + 1 + ·)

theorem endBelow?_cons (source : Numbered) (rest : List Numbered) (position : Nat) :
    endBelow? (source :: rest) (position + 1) = (endBelow? rest position).map (· + 1) := by
  have counted : ∀ between, position + 1 + 1 + between = position + 1 + between + 1 := by
    intro between
    omega
  simp [endBelow?, Function.comp_def, counted]

theorem procedureLine?_cons (source : Numbered) (rest : List Numbered) (name : String) :
    procedureLine? (source :: rest) name =
      if source.statement = .proc name then some 0
      else (procedureLine? rest name).map (· + 1) := by
  simp [procedureLine?, List.findIdx?_cons]

/-- The extent of the first procedure with a name, read off the positions of
its opening line and of the first closing line below. -/
theorem firstClosed?_extent (name : String) (index : Nat) (statements : List Numbered) :
    (firstClosed? name index statements).map
        (fun closed => (⟨closed.opened.index, closed.exit⟩ : Procedure)) =
      (procedureLine? statements name).bind fun entry =>
        (endBelow? statements entry).map fun closing =>
          ⟨index + entry, index + closing + 1⟩ := by
  induction statements generalizing index with
  | nil => rfl
  | cons source rest ih =>
    rw [firstClosed?, procedureLine?_cons]
    by_cases opens : source.statement = .proc name
    · rw [if_pos opens, if_pos opens]
      simp only [endBelow?, Option.bind_some, Option.map_map, Function.comp_def,
        List.drop_succ_cons, List.drop_zero]
      congr 1
      funext between
      simp only [Procedure.mk.injEq]
      omega
    · rw [if_neg opens, if_neg opens, ih (index + 1), Option.bind_map]
      congr 1
      funext entry
      simp only [Function.comp_apply, endBelow?_cons, Option.map_map]
      congr 1
      funext closing
      simp only [Function.comp_apply, Procedure.mk.injEq]
      omega

theorem resolve_eq_ok_iff {statements : List Numbered} {symbols : Symbols} :
    resolve statements = .ok symbols ↔
      ∃ labels procedures,
        collectLabels 0 .empty statements = .ok labels ∧
          collectProcedures 0 none .empty statements = .ok procedures ∧
            symbols = ⟨labels.map Site.index,
              procedures.map fun closed => ⟨closed.opened.index, closed.exit⟩⟩ := by
  unfold resolve
  cases collectLabels 0 .empty statements with
  | error error => simp
  | ok labels =>
    cases collectProcedures 0 none .empty statements with
    | error error => simp
    | ok procedures => simp [eq_comm]

/-- Statements have symbols exactly when no label is declared twice, procedures
are opened and closed in turn and none is declared twice. -/
theorem resolve_isOk_iff (statements : List Numbered) :
    (∃ symbols, resolve statements = .ok symbols) ↔
      (labelNames statements).Nodup ∧ Paired (brackets statements) ∧
        (procedureNames statements).Nodup := by
  have labels := collectLabels_isOk_iff 0 .empty statements
  have procedures := collectProcedures_isOk_iff 0 none .empty statements
  simp only [pending, List.nil_append, NameTable.get?_empty, implies_true, and_true]
    at labels procedures
  rw [← labels, ← procedures]
  simp only [resolve_eq_ok_iff]
  constructor
  · rintro ⟨_, labels, procedures, collected, closed, _⟩
    exact ⟨⟨labels, collected⟩, procedures, closed⟩
  · rintro ⟨⟨labels, collected⟩, procedures, closed⟩
    exact ⟨_, labels, procedures, collected, closed, rfl⟩

theorem label?_eq_labelLine? {statements : List Numbered} {symbols : Symbols}
    (resolved : resolve statements = .ok symbols) (name : String) :
    symbols.label? name = labelLine? statements name := by
  obtain ⟨labels, procedures, collected, _, rfl⟩ := resolve_eq_ok_iff.mp resolved
  have looked := collectLabels_get? collected name
  rw [NameTable.get?_empty, Option.none_or] at looked
  rw [label?, NameTable.get?_map, looked, firstSite?_index]
  simp [labelLine?, declaresLabel]

/-- A procedure stands for the position of its opening line and the position
after the first closing line below. -/
theorem procedure?_eq_extent {statements : List Numbered} {symbols : Symbols}
    (resolved : resolve statements = .ok symbols) (name : String) :
    symbols.procedure? name =
      (procedureLine? statements name).bind fun entry =>
        (endBelow? statements entry).map fun closing => ⟨entry, closing + 1⟩ := by
  obtain ⟨labels, procedures, _, collected, rfl⟩ := resolve_eq_ok_iff.mp resolved
  have looked := collectProcedures_get? collected name
  simp only [NameTable.get?_empty, Option.none_or] at looked
  rw [procedure?, NameTable.get?_map, looked, firstClosed?_extent]
  simp only [Nat.zero_add]

theorem label?_lt {statements : List Numbered} {symbols : Symbols} {name : String} {target : Nat}
    (resolved : resolve statements = .ok symbols) (known : symbols.label? name = some target) :
    target < statements.length := by
  rw [label?_eq_labelLine? resolved, labelLine?] at known
  exact (List.findIdx?_eq_some_iff_findIdx_eq.mp known).1

theorem procedure?_bounds {statements : List Numbered} {symbols : Symbols} {name : String}
    {procedure : Procedure} (resolved : resolve statements = .ok symbols)
    (known : symbols.procedure? name = some procedure) :
    procedure.entry + 1 < procedure.exit ∧ procedure.exit ≤ statements.length := by
  rw [procedure?_eq_extent resolved] at known
  obtain ⟨entry, _, extent⟩ := Option.bind_eq_some_iff.mp known
  obtain ⟨closing, closes, rfl⟩ := Option.map_eq_some_iff.mp extent
  obtain ⟨between, found, rfl⟩ := Option.map_eq_some_iff.mp closes
  have inside : between < (statements.drop (entry + 1)).length :=
    (List.findIdx?_eq_some_iff_findIdx_eq.mp found).1
  rw [List.length_drop] at inside
  dsimp only
  omega

theorem label?_isSome_iff {statements : List Numbered} {symbols : Symbols}
    (resolved : resolve statements = .ok symbols) (name : String) :
    (symbols.label? name).isSome ↔ name ∈ labelNames statements := by
  rw [label?_eq_labelLine? resolved, labelLine?, List.findIdx?_isSome]
  simp [labelNames, Statement.label?_eq_some_iff]

theorem procedure?_isSome_iff {statements : List Numbered} {symbols : Symbols}
    (resolved : resolve statements = .ok symbols) (name : String) :
    (symbols.procedure? name).isSome ↔ name ∈ procedureNames statements := by
  obtain ⟨labels, procedures, _, collected, rfl⟩ := resolve_eq_ok_iff.mp resolved
  have known := collectProcedures_isSome_iff collected name
  rw [NameTable.get?_empty] at known
  rw [procedure?, NameTable.get?_map, Option.isSome_map, known]
  simp [pending]

theorem findIdx?_of_nodup {name? : Statement → Option String} {declare : String → Statement}
    (declares : ∀ statement name, name? statement = some name ↔ statement = declare name)
    {statements : List Numbered} {position line : Nat} {name : String}
    (unique : (statements.filterMap fun source => name? source.statement).Nodup)
    (stands : statements[position]? = some ⟨line, declare name⟩) :
    (statements.findIdx? fun source => source.statement = declare name) = some position := by
  induction statements generalizing position with
  | nil => simp at stands
  | cons source rest ih =>
    rw [List.findIdx?_cons]
    cases position with
    | zero =>
      obtain rfl : source = ⟨line, declare name⟩ := by simpa using stands
      simp
    | succ position =>
      have standsLater : rest[position]? = some ⟨line, declare name⟩ := by simpa using stands
      have member : name ∈ rest.filterMap fun source => name? source.statement :=
        List.mem_filterMap.mpr ⟨_, List.mem_of_getElem? standsLater, (declares _ _).mpr rfl⟩
      have elsewhere : source.statement ≠ declare name := by
        intro same
        simp only [List.filterMap_cons, (declares _ _).mpr same] at unique
        exact (List.nodup_cons.mp unique).1 member
      have later := unique.sublist ((List.sublist_cons_self source rest).filterMap _)
      rw [ih later standsLater]
      simp [elsewhere]

theorem labelLine?_of_nodup {statements : List Numbered} {position line : Nat} {name : String}
    (unique : (labelNames statements).Nodup)
    (stands : statements[position]? = some ⟨line, .label name⟩) :
    labelLine? statements name = some position :=
  findIdx?_of_nodup (fun _ _ => Statement.label?_eq_some_iff) unique stands

theorem procedureLine?_of_nodup {statements : List Numbered} {position line : Nat}
    {name : String} (unique : (procedureNames statements).Nodup)
    (stands : statements[position]? = some ⟨line, .proc name⟩) :
    procedureLine? statements name = some position :=
  findIdx?_of_nodup (fun _ _ => Statement.procedure?_eq_some_iff) unique stands

end Symbols

end StackAsm
