import Mathlib

set_option autoImplicit false

/-! Bits packed into bytes, least significant first. -/

namespace PackedBits

def bit (byte : UInt8) (offset : Nat) : Bool := (byte >>> offset.toUInt8) &&& 1 == 1

def bitAt (bytes : List UInt8) (index : Nat) : Bool := bit (bytes.getD (index / 8) 0) (index % 8)

def setBit (bytes : List UInt8) (index : Nat) : List UInt8 :=
  bytes.modify (index / 8) (· ||| (1 <<< (index % 8).toUInt8))

variable {offset : Nat}

theorem bit_eq_testBit (byte : UInt8) (h : offset < 8) :
    bit byte offset = byte.toNat.testBit offset := by
  have shift : offset.toUInt8.toNat = offset := by
    simp
    omega
  have value : ((byte >>> offset.toUInt8) &&& 1).toNat = byte.toNat >>> offset % 2 := by
    rw [UInt8.toNat_and,UInt8.toNat_shiftRight,shift,Nat.mod_eq_of_lt h]
    exact Nat.and_one_is_mod _
  rw [bit,beq_eq_decide,Nat.testBit_eq_decide_div_mod_eq,decide_eq_decide,← UInt8.toNat_inj,value,
    Nat.shiftRight_eq_div_pow]
  rfl

theorem bit_or (a b : UInt8) (h : offset < 8) :
    bit (a ||| b) offset = (bit a offset || bit b offset) := by
  simp only [bit_eq_testBit _ h,UInt8.toNat_or,Nat.testBit_or]

theorem bit_and (a b : UInt8) (h : offset < 8) :
    bit (a &&& b) offset = (bit a offset && bit b offset) := by
  simp only [bit_eq_testBit _ h,UInt8.toNat_and,Nat.testBit_and]

theorem bit_not (a : UInt8) (h : offset < 8) :
    bit (~~~a) offset = !bit a offset := by
  rw [bit_eq_testBit _ h,bit_eq_testBit _ h,← UInt8.toNat_toBitVec,← UInt8.toNat_toBitVec,
    BitVec.testBit_toNat,BitVec.testBit_toNat]
  simp [h]

theorem bit_one_shiftLeft {offset tested : Nat} (h : offset < 8) (ht : tested < 8) :
    bit (1 <<< offset.toUInt8) tested = decide (tested = offset) := by
  have table : ∀ i < 8, ∀ j < 8, bit (1 <<< Nat.toUInt8 i) j = decide (j = i) := by decide
  exact table offset h tested ht

theorem bit_zero (offset : Nat) : bit 0 offset = false := by
  simp [bit]

theorem bit_ext {a b : UInt8} (h : ∀ offset < 8, bit a offset = bit b offset) : a = b := by
  apply UInt8.toNat_inj.1
  apply Nat.eq_of_testBit_eq
  intro i
  by_cases low : i < 8
  · rw [← bit_eq_testBit _ low,← bit_eq_testBit _ low]
    exact h i low
  · have wide : (2 : Nat)^8 ≤ 2^i := Nat.pow_le_pow_right (by decide) (by omega)
    rw [Nat.testBit_lt_two_pow (Nat.lt_of_lt_of_le a.toNat_lt wide),
      Nat.testBit_lt_two_pow (Nat.lt_of_lt_of_le b.toNat_lt wide)]

variable {xs ys : List UInt8}

theorem ext (length : xs.length = ys.length)
    (h : ∀ index, bitAt xs index = bitAt ys index) : xs = ys := by
  apply List.ext_getElem length
  intro i hx hy
  apply bit_ext
  intro offset low
  have same := h (8 * i + offset)
  have word : (8 * i + offset) / 8 = i := by omega
  have rest : (8 * i + offset) % 8 = offset := by omega
  simpa [bitAt,word,rest,hx,hy] using same

theorem bitAt_of_length_le {bytes : List UInt8} {index : Nat} (h : 8 * bytes.length ≤ index) :
    bitAt bytes index = false := by
  have outside : bytes[index / 8]? = none := List.getElem?_eq_none (by omega)
  simp [bitAt,outside,bit_zero]

theorem bitAt_replicate (n index : Nat) : bitAt (List.replicate n 0) index = false := by
  by_cases inside : index / 8 < n
  · simp [bitAt,inside,bit_zero]
  · simp [bitAt,inside,bit_zero]

theorem bitAt_zipWith_of_lt (f : UInt8 → UInt8 → UInt8) (g : Bool → Bool → Bool)
    (pointwise : ∀ a b offset, offset < 8 → bit (f a b) offset = g (bit a offset) (bit b offset))
    (length : xs.length = ys.length) {index : Nat} (inside : index < 8 * xs.length) :
    bitAt (List.zipWith f xs ys) index = g (bitAt xs index) (bitAt ys index) := by
  have low : index % 8 < 8 := Nat.mod_lt index (by decide)
  have stored : index / 8 < xs.length := by omega
  have stored' : index / 8 < ys.length := by omega
  simp only [bitAt,List.getD_eq_getElem?_getD,List.getElem?_zipWith]
  simp [stored,stored',pointwise _ _ _ low]

theorem bitAt_zipWith (f : UInt8 → UInt8 → UInt8) (g : Bool → Bool → Bool) (zero : g false false = false)
    (pointwise : ∀ a b offset, offset < 8 → bit (f a b) offset = g (bit a offset) (bit b offset))
    (length : xs.length = ys.length) (index : Nat) :
    bitAt (List.zipWith f xs ys) index = g (bitAt xs index) (bitAt ys index) := by
  by_cases inside : index < 8 * xs.length
  · exact bitAt_zipWith_of_lt f g pointwise length inside
  · rw [bitAt_of_length_le (by simp; omega),bitAt_of_length_le (by omega),bitAt_of_length_le (by omega),zero]

@[simp] theorem length_setBit (bytes : List UInt8) (index : Nat) :
    (setBit bytes index).length = bytes.length := by
  simp [setBit]

theorem bitAt_setBit {bytes : List UInt8} {index : Nat} (stored : index < 8 * bytes.length) (tested : Nat) :
    bitAt (setBit bytes index) tested = (bitAt bytes tested || decide (tested = index)) := by
  have offset : tested % 8 < 8 := Nat.mod_lt tested (by decide)
  have offset' : index % 8 < 8 := Nat.mod_lt index (by decide)
  by_cases same : index / 8 = tested / 8
  · have inside : tested / 8 < bytes.length := by omega
    have position : tested % 8 = index % 8 ↔ tested = index := by omega
    simp [bitAt,setBit,same,inside,bit_or _ _ offset,bit_one_shiftLeft offset' offset,position]
  · have differ : tested ≠ index := by
      rintro rfl
      exact same rfl
    simp [bitAt,setBit,same,differ]

end PackedBits
