import Mathlib.Logic.Function.Basic
import Mathlib.Tactic.SplitIfs
import StackAsm.Listing
import StackAsm.Proofs.Literals
import StackAsm.Proofs.Lowering

/-!
# A JSON listing tells everything

Each part of a JSON text can be told apart from what follows it: a string by its
closing quotation mark, which its characters never imitate, a number by the end
of its item, a block by the line its closing bracket stands on.  So a text is
the listing of one set of labels, procedures and instructions only, whatever
characters their names are made of.
-/

set_option autoImplicit false

namespace StackAsm

namespace Text

/-! ## Quoted strings -/

namespace Quoted

def hexValue (digit : Char) : Nat :=
  if digit.toNat < 'a'.toNat then digit.toNat - '0'.toNat else digit.toNat - 'a'.toNat + 10

def meaning : Char → Char
  | 'b' => '\x08'
  | 't' => '\t'
  | 'n' => '\n'
  | 'f' => '\x0c'
  | 'r' => '\r'
  | c => c

def unescape : List Char → Option (Char × List Char)
  | [] => none
  | '\\' :: 'u' :: _ :: _ :: high :: low :: rest =>
    some (Char.ofNat (16 * hexValue high + hexValue low), rest)
  | '\\' :: c :: rest => some (meaning c, rest)
  | c :: rest => some (c, rest)

theorem hexValue_hexDigit : ∀ n < 16, hexValue (hexDigit n) = n := by
  decide

theorem unescape_escape (c : Char) (rest : List Char) :
    unescape (escape c ++ rest) = some (c, rest) := by
  unfold escape
  split_ifs with quote backslash backspace tab newline feed carriage control
  · subst quote
    rfl
  · subst backslash
    rfl
  · subst backspace
    rfl
  · subst tab
    rfl
  · subst newline
    rfl
  · subst feed
    rfl
  · subst carriage
    rfl
  · have high := hexValue_hexDigit (c.toNat / 16) (by omega)
    have low := hexValue_hexDigit (c.toNat % 16) (by omega)
    have whole : 16 * (c.toNat / 16) + c.toNat % 16 = c.toNat := Nat.div_add_mod _ _
    simp [unescape, high, low, whole]
  · simp [unescape, backslash]

theorem escape_append_inj {c d : Char} {rest other : List Char}
    (same : escape c ++ rest = escape d ++ other) : c = d ∧ rest = other := by
  have read := unescape_escape c rest
  rw [same, unescape_escape] at read
  cases read
  exact ⟨rfl, rfl⟩

theorem escape_append_ne {c : Char} {rest other : List Char} :
    escape c ++ rest ≠ '"' :: other := by
  intro same
  have read := unescape_escape c rest
  rw [same] at read
  cases read
  simp [escape] at same

theorem escapeAll_append_inj {text other rest later : List Char}
    (same : escapeAll text ++ '"' :: rest = escapeAll other ++ '"' :: later) :
    text = other ∧ rest = later := by
  induction text generalizing other with
  | nil =>
    cases other with
    | nil => exact ⟨rfl, (List.cons.inj same).2⟩
    | cons d other =>
      simp only [escapeAll, List.flatMap_cons, List.flatMap_nil, List.nil_append,
        List.append_assoc] at same
      exact absurd same.symm escape_append_ne
  | cons c text ih =>
    cases other with
    | nil =>
      simp only [escapeAll, List.flatMap_cons, List.flatMap_nil, List.nil_append,
        List.append_assoc] at same
      exact absurd same escape_append_ne
    | cons d other =>
      simp only [escapeAll, List.flatMap_cons, List.append_assoc] at same
      obtain ⟨rfl, behind⟩ := escape_append_inj same
      obtain ⟨rfl, after⟩ := ih behind
      exact ⟨rfl, after⟩

theorem quote_append_inj {text other rest later : List Char}
    (same : quote text ++ rest = quote other ++ later) : text = other ∧ rest = later := by
  simp only [quote, List.cons_append, List.append_assoc, List.cons.injEq, true_and,
    List.nil_append] at same
  exact escapeAll_append_inj same

end Quoted

/-! ## Values in front of the end of an item -/

namespace Indented

inductive EndsItem : List Char → Prop where
  | comma (rest : List Char) : EndsItem (',' :: rest)
  | newline (rest : List Char) : EndsItem ('\n' :: rest)

/-- Values can be told apart by their texts in front of the end of an item. -/
def Delimited {α : Type} (print : α → List Char) : Prop :=
  ∀ value other rest later, EndsItem rest → EndsItem later →
    print value ++ rest = print other ++ later → value = other ∧ rest = later

variable {α β : Type} {print : α → List Char} {printOther : β → List Char}

theorem Delimited.injective (delimited : Delimited print) : Function.Injective print := by
  intro value other same
  have ended : print value ++ ['\n'] = print other ++ ['\n'] := by rw [same]
  exact (delimited value other _ _ (.newline []) (.newline []) ended).1

theorem Delimited.comap (delimited : Delimited print) {f : β → α} (injective : f.Injective) :
    Delimited fun value => print (f value) := by
  intro value other rest later ends endsLater same
  obtain ⟨images, after⟩ := delimited _ _ rest later ends endsLater same
  exact ⟨injective images, after⟩

/-- Digits end where an item does. -/
theorem digits_append_inj {digits others rest later : List Char}
    (all : ∀ c ∈ digits, Decimal.IsDigit c) (allOthers : ∀ c ∈ others, Decimal.IsDigit c)
    (ends : EndsItem rest) (endsLater : EndsItem later)
    (same : digits ++ rest = others ++ later) : digits = others ∧ rest = later := by
  have noDigit : ∀ {after : List Char}, EndsItem after → ∀ c ∈ after.head?, ¬ Decimal.IsDigit c := by
    intro after ends c first
    cases ends with
    | comma | newline =>
      obtain rfl := Option.some.inj first
      decide
  induction digits generalizing others with
  | nil =>
    cases others with
    | nil => exact ⟨rfl, same⟩
    | cons d others =>
      rw [List.nil_append] at same
      exact absurd (allOthers d List.mem_cons_self) (noDigit ends d (by rw [same]; rfl))
  | cons c digits ih =>
    cases others with
    | nil =>
      rw [List.nil_append] at same
      exact absurd (all c List.mem_cons_self) (noDigit endsLater c (by rw [← same]; rfl))
    | cons d others =>
      obtain ⟨rfl, behind⟩ := List.cons.inj same
      obtain ⟨rfl, after⟩ := ih (List.forall_mem_cons.mp all).2 (List.forall_mem_cons.mp allOthers).2
        behind
      exact ⟨rfl, after⟩

theorem delimited_number : Delimited number := by
  intro n m rest later ends endsLater same
  have digits : ∀ n, ∀ c ∈ number n, Decimal.IsDigit c := fun n c member =>
    Decimal.isDigit_of_mem_ofNat member
  obtain ⟨written, after⟩ := digits_append_inj (digits n) (digits m) ends endsLater same
  exact ⟨Decimal.ofNat_injective (String.toList_inj.mp written), after⟩

theorem delimited_string : Delimited string := by
  intro text other rest later _ _ same
  obtain ⟨characters, after⟩ := Quoted.quote_append_inj same
  exact ⟨String.toList_inj.mp characters, after⟩

theorem Delimited.member (delimited : Delimited print) :
    Delimited fun entry : String × α => member entry.1 (print entry.2) := by
  intro entry other rest later ends endsLater same
  obtain ⟨key, value⟩ := entry
  obtain ⟨otherKey, otherValue⟩ := other
  simp only [Indented.member, List.append_assoc, List.cons_append] at same
  obtain ⟨keys, behind⟩ := Quoted.quote_append_inj same
  obtain ⟨rfl, after⟩ := delimited _ _ rest later ends endsLater (by simpa using behind)
  rw [String.toList_inj.mp keys]
  exact ⟨rfl, after⟩

theorem Delimited.field (delimited : Delimited print) (key : String) :
    Delimited fun value => Indented.member key (print value) := by
  have pairs : Function.Injective fun value : α => (key, value) := by
    intro value other same
    exact (Prod.mk.inj same).2
  exact (delimited.member.comap pairs :)

/-! ## Blocks -/

def afterItem (depth : Nat) (others : List (List Char)) (rest : List Char) : List Char :=
  if others = [] then '\n' :: rest else ',' :: items depth others ++ '\n' :: rest

theorem afterItem_cons (depth : Nat) (item : List Char) (others : List (List Char))
    (rest : List Char) :
    afterItem depth (item :: others) rest =
      ',' :: (margin depth ++ (item ++ afterItem depth others rest)) := by
  cases others with
  | nil => simp [afterItem, items]
  | cons next others => simp [afterItem, items]

theorem endsItem_afterItem (depth : Nat) (others : List (List Char)) (rest : List Char) :
    EndsItem (afterItem depth others rest) := by
  unfold afterItem
  split
  · exact .newline rest
  · exact .comma _

/-- Items can be told apart, their number included, when more of their block
stands around them. -/
def Itemized (texts : α → List (List Char)) : Prop :=
  ∀ depth value other rest later,
    afterItem depth (texts value) rest = afterItem depth (texts other) later →
      value = other ∧ rest = later

theorem itemized_nil : Itemized fun _ : Unit => [] := by
  intro depth value other rest later same
  exact ⟨rfl, (List.cons.inj same).2⟩

theorem Delimited.item_inj (delimited : Delimited print) {depth : Nat} {value other : α}
    {others later : List (List Char)} {rest restLater : List Char}
    (same : afterItem depth (print value :: others) rest =
      afterItem depth (print other :: later) restLater) :
    value = other ∧ afterItem depth others rest = afterItem depth later restLater := by
  rw [afterItem_cons, afterItem_cons] at same
  have behind := List.append_cancel_left (List.cons.inj same).2
  exact delimited _ _ _ _ (endsItem_afterItem ..) (endsItem_afterItem ..) behind

theorem Delimited.itemized_cons {texts : β → List (List Char)} (delimited : Delimited print)
    (itemized : Itemized texts) :
    Itemized fun values : α × β => print values.1 :: texts values.2 := by
  intro depth values others rest later same
  obtain ⟨first, behind⟩ := delimited.item_inj same
  obtain ⟨second, after⟩ := itemized depth _ _ rest later behind
  exact ⟨Prod.ext first second, after⟩

/-- Items of one kind, as many as there are. -/
theorem Delimited.itemized_map (delimited : Delimited print) :
    Itemized fun values : List α => values.map print := by
  intro depth values others rest later same
  induction values generalizing others with
  | nil =>
    cases others with
    | nil => exact ⟨rfl, (List.cons.inj same).2⟩
    | cons other others =>
      simp only [List.map_cons, afterItem_cons] at same
      cases same
  | cons value values ih =>
    cases others with
    | nil =>
      simp only [List.map_cons, afterItem_cons] at same
      cases same
    | cons other others =>
      obtain ⟨rfl, behind⟩ := delimited.item_inj same
      obtain ⟨rfl, after⟩ := ih others behind
      exact ⟨rfl, after⟩

section Shape

variable (opening closing : Char) (depth : Nat) {contents : List (List Char)}

theorem block_append_of_empty (empty : contents = []) (rest : List Char) :
    block opening closing depth contents ++ rest = opening :: closing :: rest := by
  simp [block, empty]

theorem block_append_of_nonempty (nonempty : contents ≠ []) (rest : List Char) :
    ∃ inside, block opening closing depth contents ++ rest = opening :: '\n' :: inside ∧
      afterItem (depth + 1) contents (List.replicate (2 * depth) ' ' ++ closing :: rest) =
        ',' :: '\n' :: inside := by
  obtain ⟨item, others, rfl⟩ := List.exists_cons_of_ne_nil nonempty
  have lines := afterItem_cons (depth + 1) item others
    (List.replicate (2 * depth) ' ' ++ closing :: rest)
  refine ⟨_, ?_, lines⟩
  rw [afterItem, if_neg nonempty] at lines
  have inside := (List.cons.inj lines).2
  simpa [block, margin] using inside

end Shape

theorem Itemized.delimited_block {texts : α → List (List Char)} (itemized : Itemized texts)
    (opening : Char) {closing : Char} (inline : closing ≠ '\n') (depth : Nat) :
    Delimited fun value => block opening closing depth (texts value) := by
  intro value other rest later _ _ same
  by_cases empty : texts value = []
  · by_cases emptyOther : texts other = []
    · simp only [block_append_of_empty _ _ _ empty, block_append_of_empty _ _ _ emptyOther] at same
      obtain rfl : rest = later := by simpa using same
      have alike : afterItem depth (texts value) rest = afterItem depth (texts other) rest := by
        rw [empty, emptyOther]
      exact itemized depth value other rest rest alike
    · obtain ⟨inside, shape, _⟩ := block_append_of_nonempty opening closing depth emptyOther later
      simp only [block_append_of_empty _ _ _ empty, shape, List.cons.injEq, true_and] at same
      exact absurd same.1 inline
  · by_cases emptyOther : texts other = []
    · obtain ⟨inside, shape, _⟩ := block_append_of_nonempty opening closing depth empty rest
      simp only [block_append_of_empty _ _ _ emptyOther, shape, List.cons.injEq, true_and] at same
      exact absurd same.1.symm inline
    · obtain ⟨inside, shape, read⟩ := block_append_of_nonempty opening closing depth empty rest
      obtain ⟨otherInside, otherShape, otherRead⟩ :=
        block_append_of_nonempty opening closing depth emptyOther later
      simp only [shape, otherShape, List.cons.injEq, true_and] at same
      subst same
      obtain ⟨rfl, closed⟩ := itemized _ value other _ _ (read.trans otherRead.symm)
      exact ⟨rfl, (List.cons.inj (List.append_cancel_left closed)).2⟩

end Indented

end Text

/-! ## Listings -/

namespace Listing

open Text.Indented

theorem delimited_labels (depth : Nat) :
    Delimited fun labels : List (String × Nat) => object depth (labels.map labelMember) :=
  delimited_number.member.itemized_map.delimited_block _ (by decide) depth

theorem delimited_procedure :
    Delimited fun procedure : Procedure =>
      object 2 [member "entry" (number procedure.entry), member "exit" (number procedure.exit)] := by
  have fields : Itemized fun values : Nat × Nat × Unit =>
      [member "entry" (number values.1), member "exit" (number values.2.1)] :=
    (delimited_number.field "entry").itemized_cons
      ((delimited_number.field "exit").itemized_cons itemized_nil)
  have injective : Function.Injective fun procedure : Procedure =>
      (procedure.entry, procedure.exit, ()) := by
    intro procedure other same
    cases procedure
    cases other
    cases same
    rfl
  exact ((fields.delimited_block '\x7b' (by decide : '\x7d' ≠ '\n') 2).comap injective :)

theorem delimited_procedures (depth : Nat) :
    Delimited fun procedures : List (String × Procedure) =>
      object depth (procedures.map procedureMember) :=
  delimited_procedure.member.itemized_map.delimited_block _ (by decide) depth

theorem delimited_element : Delimited Entry.element := by
  have fields : Itemized fun values : Nat × Nat × String × Unit =>
      [member "index" (number values.1), member "line" (number values.2.1),
        member "instruction" (string values.2.2.1)] :=
    (delimited_number.field "index").itemized_cons
      ((delimited_number.field "line").itemized_cons
        ((delimited_string.field "instruction").itemized_cons itemized_nil))
  have injective : Function.Injective fun entry : Entry =>
      (entry.index, entry.line, entry.instruction, ()) := by
    intro entry other same
    cases entry
    cases other
    cases same
    rfl
  exact ((fields.delimited_block '\x7b' (by decide : '\x7d' ≠ '\n') 2).comap injective :)

theorem delimited_entries (depth : Nat) :
    Delimited fun entries : List Entry => array depth (entries.map Entry.element) :=
  delimited_element.itemized_map.delimited_block _ (by decide) depth

theorem json_injective : Function.Injective json := by
  have fields := ((delimited_labels 1).field "labels").itemized_cons
    (((delimited_procedures 1).field "procedures").itemized_cons
      (((delimited_entries 1).field "instructions").itemized_cons itemized_nil))
  have injective : Function.Injective fun listing : Listing =>
      (listing.labels.entries, listing.procedures.entries, listing.entries, ()) := by
    intro listing other same
    simp only [Prod.mk.injEq, and_true] at same
    obtain ⟨labels, procedures, entries⟩ := same
    cases listing
    cases other
    obtain rfl := NameTable.ext labels
    obtain rfl := NameTable.ext procedures
    obtain rfl := entries
    rfl
  have blocks := (fields.delimited_block '\x7b' (by decide : '\x7d' ≠ '\n') 0).comap injective
  intro listing other same
  exact blocks.injective (String.ofList_injective same)

/-- Assembled sources with the same JSON listing have the same labels, the same
procedures and the same instructions on the same lines. -/
theorem json_lossless (left right : Assembly)
    (same : (ofAssembly left).json = (ofAssembly right).json) :
    left.symbols.labels = right.symbols.labels ∧
      left.symbols.procedures = right.symbols.procedures ∧
        (ofAssembly left).entries = (ofAssembly right).entries := by
  have listings := json_injective same
  exact ⟨congrArg Listing.labels listings, congrArg Listing.procedures listings,
    congrArg Listing.entries listings⟩

def quotedNames : String :=
  "label \"\\\x01\nProc \":0,\nEnd"

theorem json_lossless_quotedNames :
    ∃ left right, Assembly.ofText .semicolon quotedNames = .ok left ∧
      Assembly.ofText .semicolon (quotedNames ++ " ; last") = .ok right ∧
        left.symbols.labels.entries = [("\"\\\x01", 0)] ∧
          left.symbols.procedures.entries = [("\":0,", ⟨1, 3⟩)] ∧
            (ofAssembly left).json = (ofAssembly right).json ∧
              left.symbols.labels = right.symbols.labels ∧
                left.symbols.procedures = right.symbols.procedures ∧
                  (ofAssembly left).entries = (ofAssembly right).entries := by
  let tables (assembly : Assembly) :=
    (assembly.symbols.labels.entries, assembly.symbols.procedures.entries,
      (ofAssembly assembly).entries)
  have evaluated : (Assembly.ofText .semicolon quotedNames).toOption.map tables =
      some ([("\"\\\x01", 0)], [("\":0,", ⟨1, 3⟩)],
        [⟨0, 1, "Noop"⟩, ⟨1, 2, "Jump 3"⟩, ⟨2, 3, "Noop"⟩]) := by
    decide +kernel
  have agree : (Assembly.ofText .semicolon (quotedNames ++ " ; last")).toOption.map tables =
      (Assembly.ofText .semicolon quotedNames).toOption.map tables := by
    decide +kernel
  obtain ⟨left, accepted, parts⟩ := Assembly.exists_of_evaluated evaluated
  obtain ⟨right, acceptedRight, partsRight⟩ := Assembly.exists_of_evaluated (agree.trans evaluated)
  simp only [tables, Prod.mk.injEq] at parts partsRight
  have same : (ofAssembly left).json = (ofAssembly right).json := by
    simp only [json, ofAssembly] at parts partsRight ⊢
    simp only [parts, partsRight]
  exact ⟨left, right, accepted, acceptedRight, parts.1, parts.2.1, same,
    json_lossless left right same⟩

end Listing

end StackAsm
