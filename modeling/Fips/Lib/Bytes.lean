import Mathlib

set_option autoImplicit false

/-! Fields in byte strings: big-endian values, slices and overwriting in place. -/

namespace Bytes

open List

section Values

variable (bytes : List UInt8)

def value : Nat := bytes.foldl (fun high byte => 256 * high + byte.toNat) 0

def ofValue : Nat → Nat → List UInt8
  | 0,_ => []
  | width + 1,n => ofValue width (n / 256) ++ [(n % 256).toUInt8]

def slice (start len : Nat) : List UInt8 := (bytes.drop start).take len

def overwrite (start : Nat) (new : List UInt8) : List UInt8 :=
  bytes.take start ++ new ++ bytes.drop (start + new.length)

def leValue : Nat := value bytes.reverse

def leBytes (width n : Nat) : List UInt8 := (ofValue width n).reverse

theorem value_append_singleton (byte : UInt8) :
    value (bytes ++ [byte]) = 256 * value bytes + byte.toNat := by
  rw [value,foldl_append]
  rfl

end Values

@[simp] theorem length_ofValue (width n : Nat) : (ofValue width n).length = width := by
  induction width generalizing n with
  | zero => rfl
  | succ width ih => rw [ofValue,length_append,ih,length_singleton]

theorem value_ofValue (width n : Nat) : value (ofValue width n) = n % 256^width := by
  induction width generalizing n with
  | zero => rw [Nat.pow_zero,Nat.mod_one]; rfl
  | succ width ih =>
    have low : (n % 256).toUInt8.toNat = n % 256 := by
      rw [Nat.toUInt8,UInt8.toNat_ofNat']
      omega
    rw [ofValue,value_append_singleton,ih,low,Nat.pow_succ',Nat.mod_mul,Nat.add_comm]

@[simp] theorem length_leBytes (width n : Nat) : (leBytes width n).length = width := by
  rw [leBytes,length_reverse,length_ofValue]

variable {n : Nat}

theorem leValue_leBytes {width : Nat} (fits : n < 256^width) : leValue (leBytes width n) = n := by
  rw [leValue,leBytes,reverse_reverse,value_ofValue,Nat.mod_eq_of_lt fits]

theorem ofValue_value (bytes : List UInt8) : ofValue bytes.length (value bytes) = bytes := by
  induction bytes using reverseRecOn with
  | nil => rfl
  | append_singleton bytes byte ih =>
    have bound := byte.toNat_lt
    rw [length_append,length_singleton,ofValue,value_append_singleton,Nat.mul_add_mod,
      Nat.mod_eq_of_lt (by omega),Nat.mul_add_div (by decide),Nat.div_eq_of_lt (by omega),Nat.add_zero,ih]
    exact congrArg (fun b => bytes ++ [b]) (UInt8.ofNat_toNat)

variable {a b : List UInt8}

theorem value_inj (length : a.length = b.length) (same : value a = value b) : a = b := by
  rw [← ofValue_value a,← ofValue_value b,length,same]

theorem value_lt (bytes : List UInt8) : value bytes < 256^bytes.length := by
  have same := value_ofValue bytes.length (value bytes)
  rw [ofValue_value] at same
  rw [same]
  exact Nat.mod_lt _ (Nat.pow_pos (by decide))

theorem getElem?_slice (bytes : List UInt8) (start len i : Nat) :
    (slice bytes start len)[i]? = if i < len then bytes[start + i]? else none := by
  rw [slice,getElem?_take]
  split_ifs
  · rw [getElem?_drop]
  · rfl

variable {bytes : List UInt8} {start len : Nat}

theorem length_slice (fits : start + len ≤ bytes.length) : (slice bytes start len).length = len := by
  rw [slice,length_take,length_drop]
  omega

theorem slice_append {c : List UInt8} (before : a.length = start) (length : b.length = len) :
    slice (a ++ (b ++ c)) start len = b := by
  subst before length
  rw [slice,drop_left,take_left]

theorem leValue_lt (bytes : List UInt8) : leValue bytes < 256^bytes.length := by
  have bound := value_lt bytes.reverse
  rwa [length_reverse] at bound

variable {i : Nat}

theorem getElem?_of_slice (same : slice a start len = slice b start len) (low : start ≤ i)
    (high : i < start + len) :
    a[i]? = b[i]? := by
  have here := congrArg (fun s : List UInt8 => s[i - start]?) same
  simp only [getElem?_slice] at here
  rwa [if_pos (by omega),if_pos (by omega),Nat.add_sub_cancel' low] at here

theorem slice_congr (same : ∀ i, start ≤ i → i < start + len → a[i]? = b[i]?) :
    slice a start len = slice b start len := by
  refine ext_getElem? fun i => ?_
  rw [getElem?_slice,getElem?_slice]
  split_ifs with inside
  · exact same _ (Nat.le_add_right _ _) (by omega)
  · rfl

variable {new : List UInt8}

theorem slice_eq (length : new.length = len) (same : ∀ i < len, bytes[start + i]? = new[i]?) :
    slice bytes start len = new := by
  refine ext_getElem? fun i => ?_
  rw [getElem?_slice]
  split_ifs with inside
  · exact same i inside
  · rw [getElem?_eq_none (by omega)]

section Overwriting

variable (fits : start + new.length ≤ bytes.length)
include fits

theorem length_overwrite : (overwrite bytes start new).length = bytes.length := by
  rw [overwrite,length_append,length_append,length_take,length_drop]
  omega

theorem getElem?_overwrite (i : Nat) :
    (overwrite bytes start new)[i]? = if start ≤ i ∧ i < start + new.length then
      new[i - start]? else bytes[i]? := by
  have front : (bytes.take start).length = start := by
    rw [length_take]
    omega
  rw [overwrite,append_assoc]
  by_cases before : i < start
  · rw [getElem?_append_left (by omega),getElem?_take_of_lt before,if_neg (by omega)]
  · rw [getElem?_append_right (by omega),front]
    by_cases inside : i < start + new.length
    · rw [getElem?_append_left (by omega),if_pos (by omega)]
    · rw [getElem?_append_right (by omega),getElem?_drop,if_neg (by omega)]
      congr 1
      omega

theorem getElem?_overwrite_of_le (after : start + new.length ≤ i) :
    (overwrite bytes start new)[i]? = bytes[i]? := by
  rw [getElem?_overwrite fits,if_neg (by omega)]

theorem slice_overwrite : slice (overwrite bytes start new) start new.length = new := by
  refine slice_eq rfl fun i inside => ?_
  rw [getElem?_overwrite fits,if_pos (by omega),Nat.add_sub_cancel_left]

theorem slice_overwrite_of_disjoint {first : Nat} (apart : first + len ≤ start ∨ start + new.length ≤ first) :
    slice (overwrite bytes start new) first len = slice bytes first len := by
  refine slice_congr fun i low high => ?_
  rw [getElem?_overwrite fits,if_neg (by omega)]

theorem drop_overwrite (after : start + new.length ≤ n) :
    (overwrite bytes start new).drop n = bytes.drop n := by
  refine ext_getElem? fun i => ?_
  rw [getElem?_drop,getElem?_drop,getElem?_overwrite_of_le fits (by omega)]

end Overwriting

theorem overwrite_drop (fits : n + start + new.length ≤ bytes.length) :
    (overwrite bytes (n + start) new).drop n = overwrite (bytes.drop n) start new := by
  have fits' : start + new.length ≤ (bytes.drop n).length := by
    rw [length_drop]
    omega
  refine ext_getElem? fun i => ?_
  rw [getElem?_drop,getElem?_overwrite fits,getElem?_overwrite fits',getElem?_drop]
  split_ifs
  · congr 1
    omega
  · omega
  · omega
  · rfl

theorem overwrite_append (before : a.length = start) (new : List UInt8) :
    overwrite (a ++ b) start new = a ++ new ++ b.drop new.length := by
  subst before
  rw [overwrite,take_left,drop_length_add_append]

theorem drop_overwrite_start (within : start ≤ bytes.length) (new : List UInt8) :
    (overwrite bytes start new).drop start = new ++ bytes.drop (start + new.length) := by
  rw [overwrite,append_assoc]
  exact drop_left' (length_take_of_le within)

theorem overwrite_byte_if {c : Prop} [Decidable c] (f : UInt8 → UInt8) (inside : start < bytes.length) :
    (if c then overwrite bytes start [f (bytes.getD start 0)] else bytes) = bytes.modify start fun byte =>
      if c then f byte else byte := by
  rw [modify_eq_take_cons_drop inside]
  split_ifs
  · rw [overwrite,getD_eq_getElem?_getD,getElem?_eq_getElem inside,append_assoc]
    rfl
  · rw [getElem_cons_drop,take_append_drop]

theorem slice_drop (bytes : List UInt8) (n start len : Nat) :
    slice (bytes.drop n) start len = slice bytes (n + start) len := by
  rw [slice,drop_drop,slice]

end Bytes
