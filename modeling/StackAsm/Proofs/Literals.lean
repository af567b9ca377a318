import StackAsm.Text.Decimal

/-!
# Decimal literals

A literal is an optional sign and at least one decimal digit.  Reading keeps
every value on the way inside the range, which comes to the same as testing the
number at the end: the values only move away from zero.  So a text is read
exactly when it is a literal whose number is in the range.
-/

set_option autoImplicit false

namespace StackAsm.Text.Decimal

def IsDigit (c : Char) : Prop :=
  '0' ≤ c ∧ c ≤ '9'

instance (c : Char) : Decidable (IsDigit c) :=
  inferInstanceAs (Decidable ('0' ≤ c ∧ c ≤ '9'))

def digitValue (c : Char) : Nat :=
  c.toNat - '0'.toNat

def numeralFrom (high : Nat) (digits : List Char) : Nat :=
  digits.foldl (fun n c => n * 10 + digitValue c) high

theorem numeralFrom_cons (high : Nat) (c : Char) (rest : List Char) :
    numeralFrom high (c :: rest) = numeralFrom (high * 10 + digitValue c) rest := by
  rw [numeralFrom, List.foldl_cons, numeralFrom]

/-- At least one digit, and the number that the digits write. -/
def Magnitude (digits : List Char) (n : Nat) : Prop :=
  digits ≠ [] ∧ (∀ c ∈ digits, IsDigit c) ∧ numeralFrom 0 digits = n

def UnsignedNumeral (text : List Char) (n : Nat) : Prop :=
  Magnitude text n ∨ ∃ digits, text = '+' :: digits ∧ Magnitude digits n

def SignedNumeral (text : List Char) (value : Int) : Prop :=
  (∃ n, UnsignedNumeral text n ∧ value = n) ∨
    ∃ digits n, text = '-' :: digits ∧ Magnitude digits n ∧ value = -n

def Sign.value : Sign → Nat → Int
  | .plus, n => n
  | .minus, n => -n

theorem Sign.append_value (sign : Sign) (n digit : Nat) :
    sign.append (sign.value n) digit = sign.value (n * 10 + digit) := by
  cases sign with
  | plus => simp [append, value]
  | minus =>
    simp only [append, value]
    omega

theorem digit?_eq_some {c : Char} (isDigit : IsDigit c) :
    digit? c = some (digitValue c) :=
  if_pos isDigit

theorem digit?_eq_none {c : Char} (noDigit : ¬ IsDigit c) : digit? c = none :=
  if_neg noDigit

theorem le_numeralFrom (high : Nat) (digits : List Char) : high ≤ numeralFrom high digits := by
  induction digits generalizing high with
  | nil => exact Nat.le_refl high
  | cons c rest ih =>
    have later := ih (high * 10 + digitValue c)
    rw [numeralFrom_cons]
    omega

theorem Sign.value_inRange {low high : Int} (spans : low ≤ 0 ∧ 0 ≤ high) (sign : Sign)
    {n m : Nat} (below : n ≤ m) (inRange : low ≤ sign.value m ∧ sign.value m ≤ high) :
    low ≤ sign.value n ∧ sign.value n ≤ high := by
  cases sign <;> simp only [value] at inRange ⊢ <;> omega

theorem readDigits_eq_ok_iff {low high : Int} (spans : low ≤ 0 ∧ 0 ≤ high) (sign : Sign)
    (start : Nat) (inRange : low ≤ sign.value start ∧ sign.value start ≤ high)
    (digits : List Char) (result : Int) :
    readDigits low high sign (sign.value start) digits = .ok result ↔
      (∀ c ∈ digits, IsDigit c) ∧ result = sign.value (numeralFrom start digits) ∧
        low ≤ result ∧ result ≤ high := by
  induction digits generalizing start with
  | nil =>
    simp only [readDigits, numeralFrom, List.foldl_nil, Except.ok.injEq]
    constructor
    · rintro rfl
      exact ⟨by simp, rfl, inRange⟩
    · rintro ⟨_, rfl, _⟩
      rfl
  | cons c rest ih =>
    rw [readDigits, List.forall_mem_cons, numeralFrom_cons]
    by_cases isDigit : IsDigit c
    · simp only [digit?_eq_some isDigit, sign.append_value, isDigit, true_and]
      split
      · rename_i nextInRange
        exact ih _ nextInRange
      · rename_i nextOutside
        constructor
        · intro impossible
          cases impossible
        · rintro ⟨_, rfl, reached⟩
          exact absurd (sign.value_inRange spans (le_numeralFrom _ rest) reached) nextOutside
    · simp [digit?_eq_none isDigit, isDigit]

theorem readMagnitude_eq_ok_iff {low high : Int} (spans : low ≤ 0 ∧ 0 ≤ high) (sign : Sign)
    (digits : List Char) (result : Int) :
    readMagnitude low high sign digits = .ok result ↔
      ∃ n, Magnitude digits n ∧ result = sign.value n ∧ low ≤ result ∧ result ≤ high := by
  have zero : sign.value 0 = 0 := by cases sign <;> rfl
  cases digits with
  | nil => simp [readMagnitude, Magnitude]
  | cons c rest =>
    have read := readDigits_eq_ok_iff spans sign 0 (by rw [zero]; exact spans) (c :: rest) result
    rw [zero] at read
    rw [readMagnitude, read]
    · constructor
      · rintro ⟨all, rfl, reached⟩
        exact ⟨_, ⟨List.cons_ne_nil c rest, all, rfl⟩, rfl, reached⟩
      · rintro ⟨_, ⟨_, all, rfl⟩, rfl, reached⟩
        exact ⟨all, rfl, reached⟩
    · exact List.cons_ne_nil c rest

theorem not_magnitude_cons {c : Char} (noDigit : ¬ IsDigit c) (rest : List Char) (n : Nat) :
    ¬ Magnitude (c :: rest) n := by
  rintro ⟨_, all, _⟩
  exact noDigit (all c List.mem_cons_self)

theorem readUnsigned_eq_ok_iff {high : Int} (spans : 0 ≤ high) (text : List Char)
    (result : Int) :
    readUnsigned high text = .ok result ↔
      ∃ n : Nat, UnsignedNumeral text n ∧ result = n ∧ result ≤ high := by
  have magnitude := fun digits =>
    readMagnitude_eq_ok_iff ⟨Int.le_refl 0, spans⟩ .plus digits result
  have nonnegative : ∀ n : Nat, result = n → 0 ≤ result := by
    intro n same
    omega
  unfold readUnsigned
  split
  · simp [UnsignedNumeral, Magnitude]
  · rename_i digits
    rw [magnitude]
    constructor
    · rintro ⟨n, written, same, _, below⟩
      exact ⟨n, .inr ⟨digits, rfl, written⟩, same, below⟩
    · rintro ⟨n, written | ⟨_, parts, written⟩, same, below⟩
      · exact absurd written (not_magnitude_cons (by decide) digits n)
      · obtain rfl := (List.cons.inj parts).2
        exact ⟨n, written, same, nonnegative n same, below⟩
  · rename_i noPlus
    rw [magnitude]
    constructor
    · rintro ⟨n, written, same, _, below⟩
      exact ⟨n, .inl written, same, below⟩
    · rintro ⟨n, written | ⟨digits, rfl, _⟩, same, below⟩
      · exact ⟨n, written, same, nonnegative n same, below⟩
      · exact absurd rfl (noPlus digits)

theorem readSigned_eq_ok_iff {low high : Int} (spans : low ≤ 0 ∧ 0 ≤ high) (text : List Char)
    (result : Int) :
    readSigned low high text = .ok result ↔
      SignedNumeral text result ∧ low ≤ result ∧ result ≤ high := by
  have magnitude := fun sign digits => readMagnitude_eq_ok_iff spans sign digits result
  unfold readSigned
  split
  · simp [SignedNumeral, UnsignedNumeral, Magnitude]
  · rename_i digits
    rw [magnitude]
    constructor
    · rintro ⟨n, written, same, reached⟩
      exact ⟨.inl ⟨n, .inr ⟨digits, rfl, written⟩, same⟩, reached⟩
    · rintro ⟨⟨n, written | ⟨_, parts, written⟩, same⟩ | ⟨_, _, other, _⟩, reached⟩
      · exact absurd written (not_magnitude_cons (by decide) digits n)
      · obtain rfl := (List.cons.inj parts).2
        exact ⟨n, written, same, reached⟩
      · simp at other
  · rename_i digits
    rw [magnitude]
    constructor
    · rintro ⟨n, written, same, reached⟩
      exact ⟨.inr ⟨digits, n, rfl, written, same⟩, reached⟩
    · rintro ⟨⟨n, written | ⟨_, other, _⟩, _⟩ | ⟨_, n, parts, written, same⟩, reached⟩
      · exact absurd written (not_magnitude_cons (by decide) digits n)
      · simp at other
      · obtain rfl := (List.cons.inj parts).2
        exact ⟨n, written, same, reached⟩
  · rename_i noPlus noMinus
    rw [magnitude]
    constructor
    · rintro ⟨n, written, same, reached⟩
      exact ⟨.inl ⟨n, .inl written, same⟩, reached⟩
    · rintro ⟨⟨n, written | ⟨digits, rfl, _⟩, same⟩ | ⟨digits, _, rfl, _⟩, reached⟩
      · exact ⟨n, written, same, reached⟩
      · exact absurd rfl (noPlus digits)
      · exact absurd rfl (noMinus digits)

/-- A signed 64-bit number is read exactly from the literals that write it. -/
theorem readInt64_eq_ok_iff (text : String) (value : Int64) :
    readInt64 text = .ok value ↔ SignedNumeral text.toList value.toInt := by
  have read := fun result => readSigned_eq_ok_iff
    (⟨by decide, by decide⟩ : (-0x8000000000000000 : Int) ≤ 0 ∧ (0 : Int) ≤ 0x7fffffffffffffff)
    text.toList result
  have above := value.le_toInt
  have below := value.toInt_lt
  rw [readInt64]
  constructor
  · intro success
    cases call : readSigned (-0x8000000000000000) 0x7fffffffffffffff text.toList with
    | error error => simp [call, Except.map] at success
    | ok result =>
      obtain ⟨numeral, low, high⟩ := (read result).mp call
      obtain rfl : Int64.ofInt result = value := by simpa [call, Except.map] using success
      rwa [Int64.toInt_ofInt_of_le (by omega) (by omega)]
  · intro numeral
    rw [(read value.toInt).mpr ⟨numeral, by omega, by omega⟩]
    simp [Except.map]

theorem readWord_eq_ok_iff (text : String) (n : Nat) :
    readWord text = .ok n ↔ UnsignedNumeral text.toList n ∧ n < 0x10000000000000000 := by
  have read := fun result => readUnsigned_eq_ok_iff
    (by decide : (0 : Int) ≤ 0xffffffffffffffff) text.toList result
  rw [readWord]
  constructor
  · intro success
    cases call : readUnsigned 0xffffffffffffffff text.toList with
    | error error => simp [call, Except.map] at success
    | ok result =>
      obtain ⟨m, numeral, rfl, high⟩ := (read result).mp call
      obtain rfl : m = n := by simpa [call, Except.map] using success
      exact ⟨numeral, by omega⟩
  · rintro ⟨numeral, fits⟩
    rw [(read n).mpr ⟨n, numeral, rfl, by omega⟩]
    simp [Except.map]

def SignedLiteral (text : String) : Prop :=
  ∃ value, SignedNumeral text.toList value ∧
    -0x8000000000000000 ≤ value ∧ value ≤ 0x7fffffffffffffff

def UnsignedLiteral (text : String) : Prop :=
  ∃ n, UnsignedNumeral text.toList n ∧ n ≤ 0xffffffffffffffff

theorem readInt64_isOk_iff (text : String) :
    (∃ value, readInt64 text = .ok value) ↔ SignedLiteral text := by
  simp only [readInt64_eq_ok_iff, SignedLiteral]
  constructor
  · rintro ⟨value, numeral⟩
    have above := value.le_toInt
    have below := value.toInt_lt
    exact ⟨value.toInt, numeral, by omega, by omega⟩
  · rintro ⟨value, numeral, above, below⟩
    refine ⟨Int64.ofInt value, ?_⟩
    rwa [Int64.toInt_ofInt_of_le (by omega) (by omega)]

theorem readWord_isOk_iff (text : String) :
    (∃ n, readWord text = .ok n) ↔ UnsignedLiteral text := by
  simp only [readWord_eq_ok_iff, UnsignedLiteral]
  constructor
  · rintro ⟨n, numeral, fits⟩
    exact ⟨n, numeral, by omega⟩
  · rintro ⟨n, numeral, fits⟩
    exact ⟨n, numeral, by omega⟩

/-! ## Written numbers -/

theorem isDigit_of_mem_ofNat {n : Nat} {c : Char} (member : c ∈ (ofNat n).toList) : IsDigit c := by
  rw [ofNat, Nat.toList_repr] at member
  have digit := Nat.isDigit_of_mem_toDigits (by decide) (by decide) member
  simpa [Char.isDigit, IsDigit, Char.le_def] using digit

/-- A number in decimal is a magnitude that writes it. -/
theorem magnitude_ofNat (n : Nat) : Magnitude (ofNat n).toList n := by
  refine ⟨?_, fun c member => isDigit_of_mem_ofNat member, ?_⟩
  · rw [ofNat, Nat.toList_repr]
    exact Nat.toDigits_ne_nil
  · have same : numeralFrom 0 (ofNat n).toList = Nat.ofDigitChars 10 (ofNat n).toList 0 := by
      simp only [numeralFrom, digitValue, Nat.ofDigitChars_eq_foldl, Nat.mul_comm]
    rw [same, ofNat, Nat.toList_repr, Nat.ofDigitChars_ten_toDigits]

theorem ofNat_injective {n m : Nat} (same : ofNat n = ofNat m) : n = m := by
  obtain ⟨_, _, value⟩ := magnitude_ofNat n
  obtain ⟨_, _, otherValue⟩ := magnitude_ofNat m
  rw [← value, ← otherValue, same]

theorem readWord_ofNat {n : Nat} (fits : n < 0x10000000000000000) : readWord (ofNat n) = .ok n :=
  (readWord_eq_ok_iff _ n).mpr ⟨.inl (magnitude_ofNat n), fits⟩

/-- Reading gives back a signed number that was written in decimal. -/
theorem readInt64_ofInt (value : Int64) : readInt64 (ofInt value.toInt) = .ok value := by
  rw [readInt64_eq_ok_iff, ofInt]
  split
  · rename_i negative
    refine .inr ⟨(ofNat value.toInt.natAbs).toList, _, ?_, magnitude_ofNat _, by omega⟩
    rw [String.toList_append]
    rfl
  · rename_i nonnegative
    exact .inl ⟨_, .inl (magnitude_ofNat _), by omega⟩

end StackAsm.Text.Decimal
