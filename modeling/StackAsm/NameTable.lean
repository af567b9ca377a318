/-!
# Tables keyed by name

A table holds at most one value for a name, in the order of the names.  Writing
a name again replaces its value.  Names are ordered by code points.
-/

set_option autoImplicit false

namespace StackAsm

variable {α β : Type}

/-- Writes a value into a list of entries sorted by name. -/
def insertEntry (name : String) (value : α) :
    List (String × α) → List (String × α)
  | [] => [(name, value)]
  | entry :: rest =>
    if name < entry.1 then (name, value) :: entry :: rest
    else if name = entry.1 then (name, value) :: rest
    else entry :: insertEntry name value rest

theorem mem_insertEntry {name : String} {value : α} {entries : List (String × α)}
    {entry : String × α} (member : entry ∈ insertEntry name value entries) :
    entry = (name, value) ∨ entry ∈ entries := by
  induction entries with
  | nil => simpa [insertEntry] using member
  | cons head rest hypothesis =>
    rw [insertEntry] at member
    split at member
    · simpa using member
    · split at member
      · rcases List.mem_cons.mp member with rfl | member
        · exact .inl rfl
        · exact .inr (List.mem_cons_of_mem _ member)
      · rcases List.mem_cons.mp member with rfl | member
        · exact .inr List.mem_cons_self
        · rcases hypothesis member with written | older
          · exact .inl written
          · exact .inr (List.mem_cons_of_mem _ older)

/-- Writing keeps the names in strictly increasing order. -/
theorem insertEntry_sorted {name : String} {value : α} {entries : List (String × α)}
    (sorted : entries.Pairwise fun left right => left.1 < right.1) :
    (insertEntry name value entries).Pairwise fun left right => left.1 < right.1 := by
  induction entries with
  | nil => simp [insertEntry]
  | cons head rest hypothesis =>
    obtain ⟨below, sortedRest⟩ := List.pairwise_cons.mp sorted
    rw [insertEntry]
    split
    · rename_i before
      refine List.pairwise_cons.mpr ⟨fun entry member => ?_, sorted⟩
      rcases List.mem_cons.mp member with rfl | member
      · exact before
      · exact String.lt_trans before (below entry member)
    · rename_i notBefore
      split
      · rename_i same
        exact List.pairwise_cons.mpr ⟨fun entry member => same ▸ below entry member, sortedRest⟩
      · rename_i different
        refine List.pairwise_cons.mpr ⟨fun entry member => ?_, hypothesis sortedRest⟩
        rcases mem_insertEntry member with rfl | older
        · exact Classical.byContradiction fun notAfter =>
            different (String.le_antisymm (String.not_lt.mp notAfter) (String.not_lt.mp notBefore))
        · exact below entry older

theorem lookup_insertEntry (name : String) (value : α) (entries : List (String × α))
    (query : String) :
    (insertEntry name value entries).lookup query =
      if query = name then some value else entries.lookup query := by
  by_cases same : query = name
  · subst same
    induction entries with
    | nil => simp [insertEntry]
    | cons entry rest hypothesis =>
      obtain ⟨key, old⟩ := entry
      rw [insertEntry]
      split
      · simp
      · split
        · simp
        · rename_i different
          have skipped : (query == key) = false := by simpa using different
          simpa [List.lookup_cons, skipped] using hypothesis
  · have skipped : (query == name) = false := by simpa using same
    induction entries with
    | nil => simp [insertEntry, List.lookup_cons, skipped, same]
    | cons entry rest hypothesis =>
      obtain ⟨key, old⟩ := entry
      rw [insertEntry]
      split
      · simp [List.lookup_cons, skipped]
      · split
        · rename_i keyed
          have passed : (query == key) = false := by
            rw [← show name = key from keyed]
            exact skipped
          simp [List.lookup_cons, skipped, passed]
        · simp only [List.lookup_cons, hypothesis, same, if_false]

theorem map_insertEntry (f : α → β) (name : String) (value : α) (entries : List (String × α)) :
    (insertEntry name value entries).map (fun entry => (entry.1, f entry.2)) =
      insertEntry name (f value) (entries.map fun entry => (entry.1, f entry.2)) := by
  induction entries with
  | nil => rfl
  | cons entry rest hypothesis =>
    simp only [insertEntry, List.map_cons]
    split
    · rfl
    · split
      · rfl
      · rw [List.map_cons, hypothesis]

/-- A table of values keyed by name. -/
structure NameTable (α : Type) where
  /-- The names with their values. -/
  entries : List (String × α)
  /-- Every name stands once, and names increase. -/
  sorted : entries.Pairwise fun left right => left.1 < right.1

namespace NameTable

def empty : NameTable α :=
  ⟨[], List.Pairwise.nil⟩

instance : Inhabited (NameTable α) := ⟨empty⟩

def insert (table : NameTable α) (name : String) (value : α) : NameTable α :=
  ⟨insertEntry name value table.entries, insertEntry_sorted table.sorted⟩

def get? (table : NameTable α) (name : String) : Option α :=
  table.entries.lookup name

def size (table : NameTable α) : Nat :=
  table.entries.length

/-- The table that arises by writing the given values in order. -/
def ofList (entries : List (String × α)) : NameTable α :=
  entries.foldl (fun table entry => table.insert entry.1 entry.2) empty

def map (f : α → β) (table : NameTable α) : NameTable β where
  entries := table.entries.map fun entry => (entry.1, f entry.2)
  sorted := by
    rw [List.pairwise_map]
    exact table.sorted

/-- A name just written has the value written, and every other name the value
it had. -/
theorem get?_insert (table : NameTable α) (name : String) (value : α) (query : String) :
    (table.insert name value).get? query =
      if query = name then some value else table.get? query :=
  lookup_insertEntry name value table.entries query

@[simp]
theorem get?_empty (query : String) : (empty : NameTable α).get? query = none :=
  rfl

/-- Replacing values commutes with looking them up. -/
theorem get?_map (f : α → β) (table : NameTable α) (query : String) :
    (table.map f).get? query = (table.get? query).map f := by
  simp only [get?, map]
  induction table.entries with
  | nil => rfl
  | cons entry rest hypothesis =>
    obtain ⟨key, value⟩ := entry
    simp only [List.map_cons, List.lookup_cons]
    cases query == key with
    | true => rfl
    | false => exact hypothesis

theorem ext {left right : NameTable α} (same : left.entries = right.entries) : left = right := by
  cases left
  cases right
  cases same
  rfl

theorem map_insert (f : α → β) (table : NameTable α) (name : String) (value : α) :
    (table.insert name value).map f = (table.map f).insert name (f value) :=
  ext (map_insertEntry f name value table.entries)

theorem map_map {γ : Type} (g : β → γ) (f : α → β) (table : NameTable α) :
    (table.map f).map g = table.map fun value => g (f value) := by
  apply ext
  simp [map]

end NameTable

end StackAsm
