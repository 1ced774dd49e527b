import Fips.Lib.Bytes

set_option autoImplicit false

/-! The sixteen-bit one's-complement sum of a byte string. -/

namespace OnesComplement

open List

/-- The sum of the big-endian words. A last odd byte is the high byte of its word. -/
def wordSum : List UInt8 → Nat
  | [] => 0
  | [high] => 256 * high.toNat
  | high :: low :: rest => 256 * high.toNat + low.toNat + wordSum rest

/-- A sum with its carries added in again until it fits in a word. -/
def fold (sum : Nat) : Nat := if sum = 0 then 0 else (sum - 1) % 65535 + 1

/-- What the receiver of a checksum looks for. -/
def Valid (sum : Nat) : Prop := fold sum = 65535

instance (sum : Nat) : Decidable (Valid sum) := inferInstanceAs (Decidable (_ = _))

theorem fold_le (sum : Nat) : fold sum ≤ 65535 := by
  unfold fold
  split_ifs <;> omega

theorem fold_of_le {sum : Nat} (small : sum ≤ 65535) : fold sum = sum := by
  unfold fold
  split_ifs <;> omega

theorem fold_carry (sum : Nat) : fold (sum % 65536 + sum / 65536) = fold sum := by
  unfold fold
  split_ifs <;> omega

theorem valid_iff (sum : Nat) : Valid sum ↔ 0 < sum ∧ sum % 65535 = 0 := by
  unfold Valid fold
  by_cases zero : sum = 0
  · rw [if_pos zero]
    omega
  · rw [if_neg zero]
    omega

theorem fold_mod (sum : Nat) : fold sum % 65535 = sum % 65535 := by
  unfold fold
  split_ifs <;> omega

theorem valid_complement (sum : Nat) : Valid (sum + (65535 - fold sum)) := by
  have le := fold_le sum
  have mod := fold_mod sum
  rw [valid_iff]
  by_cases zero : sum = 0
  · subst zero
    decide
  · omega

theorem valid_complemented_iff {part : Nat} (positive : 0 < part) (rest : Nat) :
    Valid (part + (rest + (65535 - fold (65535 - fold part + rest)))) ↔ part % 65535 = 0 := by
  have le := fold_le part
  have mod := fold_mod part
  have le' := fold_le (65535 - fold part + rest)
  have mod' := fold_mod (65535 - fold part + rest)
  have double : (part + (rest + (65535 - fold (65535 - fold part + rest)))) % 65535 = (2 * part) % 65535 := by
    omega
  have half : 65535 ∣ 2 * part ↔ 65535 ∣ part := Nat.Coprime.dvd_mul_left (by decide)
  rw [valid_iff,double,← Nat.dvd_iff_mod_eq_zero,← Nat.dvd_iff_mod_eq_zero,half]
  exact and_iff_right (by omega)

theorem wordSum_append {a : List UInt8} (b : List UInt8) (even : a.length % 2 = 0) :
    wordSum (a ++ b) = wordSum a + wordSum b := by
  fun_induction wordSum a with
  | case1 => rw [nil_append,Nat.zero_add]
  | case2 high => cases even
  | case3 high low rest ih =>
    rw [length_cons,length_cons] at even
    rw [cons_append,cons_append,wordSum,ih (by omega),← Nat.add_assoc]

theorem wordSum_ofValue (n : Nat) : wordSum (Bytes.ofValue 2 n) = n % 65536 := by
  simp only [Bytes.ofValue,nil_append,cons_append,wordSum,UInt8.toNat_ofNat']
  omega

theorem wordSum_overwrite {bytes : List UInt8} {start : Nat} (even : start % 2 = 0)
    (fits : start + 2 ≤ bytes.length) (n : Nat) :
    wordSum (Bytes.overwrite bytes start (Bytes.ofValue 2 n)) + wordSum (Bytes.slice bytes start 2) =
      wordSum bytes + n % 65536 := by
  have front : (bytes.take start).length = start := by
    rw [length_take]
    omega
  have split : bytes = bytes.take start ++ (Bytes.slice bytes start 2 ++ bytes.drop (start + 2)) := by
    rw [Bytes.slice,← drop_drop,take_append_drop,take_append_drop]
  have old : wordSum bytes =
      wordSum (bytes.take start) +
        (wordSum (Bytes.slice bytes start 2) + wordSum (bytes.drop (start + 2))) := by
    conv => lhs; rw [split]
    rw [wordSum_append _ (by omega),wordSum_append _ (by rw [Bytes.length_slice fits])]
  have new : wordSum (Bytes.overwrite bytes start (Bytes.ofValue 2 n)) =
      wordSum (bytes.take start) + (n % 65536 + wordSum (bytes.drop (start + 2))) := by
    rw [Bytes.overwrite,append_assoc,wordSum_append _ (by omega),wordSum_append _ (by simp),
      wordSum_ofValue,Bytes.length_ofValue]
  omega

end OnesComplement
