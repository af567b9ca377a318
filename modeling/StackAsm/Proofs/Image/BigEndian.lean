import Mathlib.Algebra.Group.Nat.Defs
import StackAsm.Image.Decode

/-!
# Big-endian numbers of a fixed width

Writing a number below `256 ^ width` in `width` bytes and reading these bytes
gives the number back; reading any `width` bytes and writing the number gives
the bytes back.  So a number is read exactly where it was written.
-/

set_option autoImplicit false

namespace StackAsm.Bytes

theorem bigEndian_succ (width n : Nat) :
    bigEndian (width + 1) n = UInt8.ofNat (n / 256 ^ width) :: bigEndian width n := by
  have base : 2 ^ (8 * width) = 256 ^ width := by rw [Nat.pow_mul]
  rw [bigEndian, Nat.shiftRight_eq_div_pow, base]

theorem length_bigEndian (width n : Nat) : (bigEndian width n).length = width := by
  induction width with
  | zero => rfl
  | succ width ih => rw [bigEndian, List.length_cons, ih]

theorem toNatFrom_eq (high : Nat) (bytes : Bytes) :
    toNatFrom high bytes = high * 256 ^ bytes.length + toNat bytes := by
  induction bytes generalizing high with
  | nil => simp [toNatFrom, toNat]
  | cons byte rest ih =>
    simp only [toNatFrom, toNat]
    rw [ih (high * 256 + byte.toNat), ih (0 * 256 + byte.toNat), List.length_cons, Nat.pow_succ,
      Nat.zero_mul, Nat.zero_add, Nat.add_mul, Nat.mul_comm (256 ^ rest.length), Nat.mul_assoc high]
    omega

theorem toNat_cons (byte : UInt8) (rest : Bytes) :
    toNat (byte :: rest) = byte.toNat * 256 ^ rest.length + toNat rest := by
  rw [toNat, toNatFrom, toNatFrom_eq, Nat.zero_mul, Nat.zero_add]

theorem toNat_lt (bytes : Bytes) : toNat bytes < 256 ^ bytes.length := by
  induction bytes with
  | nil => decide
  | cons byte rest ih =>
    have digit : byte.toNat + 1 ≤ 256 := byte.toNat_lt
    calc toNat (byte :: rest) = byte.toNat * 256 ^ rest.length + toNat rest := toNat_cons byte rest
      _ < byte.toNat * 256 ^ rest.length + 256 ^ rest.length := Nat.add_lt_add_left ih _
      _ = (byte.toNat + 1) * 256 ^ rest.length := (Nat.succ_mul _ _).symm
      _ ≤ 256 * 256 ^ rest.length := Nat.mul_le_mul_right _ digit
      _ = 256 ^ (byte :: rest).length := by rw [List.length_cons, Nat.pow_succ, Nat.mul_comm]

theorem toNat_bigEndian_mod (width n : Nat) : toNat (bigEndian width n) = n % 256 ^ width := by
  induction width with
  | zero => simp [bigEndian, toNat, toNatFrom, Nat.mod_one]
  | succ width ih =>
    rw [bigEndian_succ, toNat_cons, length_bigEndian, ih, Nat.mod_pow_succ, UInt8.toNat_ofNat']
    rw [Nat.mul_comm, Nat.add_comm]

theorem toNat_bigEndian {width n : Nat} (fits : n < 256 ^ width) :
    toNat (bigEndian width n) = n := by
  rw [toNat_bigEndian_mod, Nat.mod_eq_of_lt fits]

theorem bigEndian_high (width high n : Nat) :
    bigEndian width (high * 256 ^ width + n) = bigEndian width n := by
  induction width generalizing high with
  | zero => rfl
  | succ width ih =>
    have split : high * 256 ^ (width + 1) + n = high * 256 * 256 ^ width + n := by
      rw [Nat.pow_succ, Nat.mul_comm (256 ^ width), Nat.mul_assoc]
    have quotient : (high * 256 * 256 ^ width + n) / 256 ^ width = high * 256 + n / 256 ^ width := by
      rw [Nat.add_comm, Nat.add_mul_div_right _ _ (Nat.pow_pos (by decide)), Nat.add_comm]
    rw [bigEndian_succ, bigEndian_succ, split, ih, quotient]
    congr 1
    apply UInt8.toNat_inj.mp
    simp

theorem bigEndian_toNat (bytes : Bytes) : bigEndian bytes.length (toNat bytes) = bytes := by
  induction bytes with
  | nil => rfl
  | cons byte rest ih =>
    have quotient : (byte.toNat * 256 ^ rest.length + toNat rest) / 256 ^ rest.length =
        byte.toNat := by
      rw [Nat.add_comm, Nat.add_mul_div_right _ _ (Nat.pow_pos (by decide)),
        Nat.div_eq_of_lt (toNat_lt rest), Nat.zero_add]
    rw [List.length_cons, bigEndian_succ, toNat_cons, quotient, bigEndian_high, ih, UInt8.ofNat_toNat]

/-- A number is read exactly where it was written. -/
theorem readNat?_eq_some_iff {width n : Nat} {bytes rest : Bytes} :
    readNat? width bytes = some (n, rest) ↔
      n < 256 ^ width ∧ bytes = bigEndian width n ++ rest := by
  unfold readNat?
  constructor
  · intro read
    split at read
    · rename_i enough
      have front : (bytes.take width).length = width := by
        rw [List.length_take]
        omega
      obtain ⟨rfl, rfl⟩ := Prod.mk.inj (Option.some.inj read)
      have small := toNat_lt (bytes.take width)
      rw [front] at small
      refine ⟨small, ?_⟩
      have written : bigEndian width (toNat (bytes.take width)) = bytes.take width := by
        have same := bigEndian_toNat (bytes.take width)
        rwa [front] at same
      rw [written, List.take_append_drop]
    · cases read
  · rintro ⟨fits, rfl⟩
    have length := length_bigEndian width n
    have enough : width ≤ (bigEndian width n ++ rest).length := by
      rw [List.length_append]
      omega
    rw [if_pos enough, List.take_left' length, List.drop_left' length, toNat_bigEndian fits]

end StackAsm.Bytes
