import Mathlib.Data.List.Nodup
import Mathlib.Data.List.Perm.Basic
import Mathlib.Data.Set.Function
import StackAsm.NameTable

/-!
# Tables with the same names

A table is known by what it gives for each name.  Two tables can be put
together, and the names of a table can be replaced by others; a replacement
that keeps different names different keeps what they stand for, although it may
change their order.
-/

set_option autoImplicit false

namespace StackAsm.NameTable

variable {α β : Type}

/-! ## Tables are functions of names -/

theorem mem_iff_lookup {entries : List (String × α)}
    (sorted : entries.Pairwise fun left right => left.1 < right.1) (name : String) (value : α) :
    (name, value) ∈ entries ↔ entries.lookup name = some value := by
  induction entries with
  | nil => simp
  | cons entry rest ih =>
    obtain ⟨key, old⟩ := entry
    obtain ⟨below, sortedRest⟩ := List.pairwise_cons.mp sorted
    rw [List.mem_cons, List.lookup_cons, ih sortedRest]
    by_cases same : name = key
    · subst same
      have absent : rest.lookup name ≠ some value := by
        intro found
        have before := below _ ((ih sortedRest).mpr found)
        exact String.lt_irrefl name before
      simp [absent, eq_comm]
    · have skipped : (name == key) = false := by simpa using same
      simp [skipped, same]

/-- Tables that give the same for every name are the same. -/
theorem ext_get? {left right : NameTable α} (same : ∀ name, left.get? name = right.get? name) :
    left = right := by
  apply ext
  have distinct : ∀ table : NameTable α, table.entries.Nodup := by
    intro table
    refine table.sorted.imp ?_
    intro first second before equal
    rw [equal] at before
    exact String.lt_irrefl _ before
  have permuted : left.entries.Perm right.entries := by
    rw [List.perm_ext_iff_of_nodup (distinct left) (distinct right)]
    intro entry
    obtain ⟨name, value⟩ := entry
    rw [mem_iff_lookup left.sorted, mem_iff_lookup right.sorted]
    exact Iff.of_eq (congrArg (· = some value) (same name))
  refine permuted.eq_of_pairwise ?_ left.sorted right.sorted
  intro first second _ _ before after
  exact absurd (String.lt_trans before after) (String.lt_irrefl _)

/-! ## Putting tables together -/

def insertAll (table : NameTable α) (entries : List (String × α)) : NameTable α :=
  entries.foldr (fun entry filled => filled.insert entry.1 entry.2) table

theorem get?_insertAll (table : NameTable α) (entries : List (String × α)) (query : String) :
    (table.insertAll entries).get? query = (entries.lookup query).or (table.get? query) := by
  induction entries with
  | nil => rfl
  | cons entry rest ih =>
    obtain ⟨name, value⟩ := entry
    have written : table.insertAll ((name, value) :: rest) =
        (table.insertAll rest).insert name value := rfl
    rw [written, get?_insert, List.lookup_cons, ih]
    by_cases same : query = name
    · simp [same]
    · have skipped : (query == name) = false := by simpa using same
      simp [same, skipped]

def union (left right : NameTable α) : NameTable α :=
  right.insertAll left.entries

theorem get?_union (left right : NameTable α) (query : String) :
    (left.union right).get? query = (left.get? query).or (right.get? query) :=
  get?_insertAll right left.entries query

/-! ## Other names for the same values -/

def rename (f : String → String) (table : NameTable α) : NameTable α :=
  empty.insertAll (table.entries.map fun entry => (f entry.1, entry.2))

theorem get?_rename (f : String → String) (table : NameTable α) (query : String) :
    (table.rename f).get? query =
      (table.entries.map fun entry => (f entry.1, entry.2)).lookup query := by
  rw [rename, get?_insertAll, get?_empty, Option.or_none]

theorem map_rename (f : String → String) (g : α → β) (table : NameTable α) :
    (table.rename f).map g = (table.map g).rename f := by
  apply ext_get?
  intro query
  rw [get?_map, get?_rename, get?_rename]
  show _ = ((table.entries.map fun entry => (entry.1, g entry.2)).map
    fun entry => (f entry.1, entry.2)).lookup query
  induction table.entries with
  | nil => rfl
  | cons entry rest ih =>
    simp only [List.map_cons, List.lookup_cons]
    cases query == f entry.1 with
    | true => rfl
    | false => exact ih

@[simp]
theorem rename_id (table : NameTable α) : table.rename id = table := by
  apply ext_get?
  intro query
  rw [get?_rename]
  simp [get?]

def Within (names : Set String) (table : NameTable α) : Prop :=
  ∀ name, (table.get? name).isSome → name ∈ names

theorem Within.insert {names : Set String} {table : NameTable α} (within : Within names table)
    {name : String} (member : name ∈ names) (value : α) :
    Within names (table.insert name value) := by
  intro query present
  rw [get?_insert] at present
  by_cases same : query = name
  · rw [same]
    exact member
  · rw [if_neg same] at present
    exact within query present

theorem within_empty (names : Set String) : Within names (empty : NameTable α) := by
  intro name present
  cases present

section Injective

variable {f : String → String} {names : Set String} (injective : Set.InjOn f names)
  {table : NameTable α} (within : Within names table)

include injective within

theorem get?_rename_eq_some_iff (query : String) (value : α) :
    (table.rename f).get? query = some value ↔
      ∃ name, f name = query ∧ table.get? name = some value := by
  have forward : ∀ found, (table.rename f).get? query = some found →
      ∃ name, f name = query ∧ table.get? name = some found := by
    intro found holds
    rw [get?_rename] at holds
    obtain ⟨before, after, split, _⟩ := List.lookup_eq_some_iff.mp holds
    have member : (query, found) ∈ table.entries.map fun entry => (f entry.1, entry.2) := by
      simp [split]
    obtain ⟨entry, listed, same⟩ := List.mem_map.mp member
    cases same
    exact ⟨entry.1, rfl, (mem_iff_lookup table.sorted _ _).mp listed⟩
  constructor
  · exact forward value
  · intro known
    obtain ⟨name, rfl, holds⟩ := known
    cases looked : (table.rename f).get? (f name) with
    | none =>
      rw [get?_rename, List.lookup_eq_none_iff] at looked
      have listed := (mem_iff_lookup table.sorted _ _).mpr holds
      have different := looked _ (List.mem_map_of_mem listed)
      simp at different
    | some found =>
      obtain ⟨other, same, held⟩ := forward found looked
      have equal := injective (within other (by simp [held])) (within name (by simp [holds])) same
      rw [equal, holds] at held
      exact held.symm

theorem get?_rename_of_mem {name : String} (member : name ∈ names) :
    (table.rename f).get? (f name) = table.get? name := by
  apply Option.ext
  intro value
  rw [get?_rename_eq_some_iff injective within]
  constructor
  · intro found
    obtain ⟨other, same, holds⟩ := found
    rwa [← injective (within other (by simp [holds])) member same]
  · intro holds
    exact ⟨name, rfl, holds⟩

theorem rename_insert {name : String} (member : name ∈ names) (value : α) :
    (table.insert name value).rename f = (table.rename f).insert (f name) value := by
  have filled := within.insert member value
  apply ext_get?
  intro query
  rw [get?_insert]
  by_cases same : query = f name
  · rw [same, get?_rename_of_mem injective filled member, get?_insert, if_pos rfl, if_pos rfl]
  · rw [if_neg same]
    apply Option.ext
    intro found
    rw [get?_rename_eq_some_iff injective filled, get?_rename_eq_some_iff injective within]
    refine exists_congr fun other => and_congr_right ?_
    intro renamed
    have different : other ≠ name := by
      intro equal
      rw [equal] at renamed
      exact same renamed.symm
    rw [get?_insert, if_neg different]

end Injective

end StackAsm.NameTable
