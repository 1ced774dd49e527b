import Mathlib

set_option autoImplicit false

/-! Arithmetic of unsigned 64-bit words on natural numbers. -/

namespace U64

def checkedAdd (a b : Nat) : Option Nat := if a + b < 2^64 then some (a + b) else none

def checkedSub (a b : Nat) : Option Nat := if b ≤ a then some (a - b) else none

def checkedMul (a b : Nat) : Option Nat := if a * b < 2^64 then some (a * b) else none

def saturatingAdd (a b : Nat) : Nat := min (a + b) (2^64-1)

/-- A plain addition of the release build. -/
def wrappingAdd (a b : Nat) : Nat := (a + b) % 2^64

def tryFrom (n : Nat) : Option Nat := if n < 2^64 then some n else none

@[simp] theorem checkedAdd_eq_some {a b c : Nat} : checkedAdd a b = some c ↔ a + b < 2^64 ∧ a + b = c := by
  simp [checkedAdd]

@[simp] theorem checkedSub_eq_some {a b c : Nat} : checkedSub a b = some c ↔ b ≤ a ∧ a - b = c := by
  simp [checkedSub]

@[simp] theorem checkedMul_eq_some {a b c : Nat} : checkedMul a b = some c ↔ a * b < 2^64 ∧ a * b = c := by
  simp [checkedMul]

@[simp] theorem tryFrom_eq_some {n m : Nat} : tryFrom n = some m ↔ n < 2^64 ∧ n = m := by
  simp [tryFrom]

theorem wrappingAdd_eq {a b : Nat} (h : a + b < 2^64) : wrappingAdd a b = a + b := Nat.mod_eq_of_lt h

theorem foldlM_checkedAdd {α : Type} (f : α → Nat) (l : List α) (start : Nat) (bound : start < 2^64) :
    l.foldlM (fun sum x => checkedAdd sum (f x)) start = tryFrom (start + (l.map f).sum) := by
  induction l generalizing start with
  | nil => simpa [tryFrom] using bound
  | cons x rest ih =>
    rw [List.foldlM_cons,List.map_cons,List.sum_cons,← Nat.add_assoc]
    by_cases fits : start + f x < 2^64
    · simp only [checkedAdd,if_pos fits]
      exact ih _ fits
    · simp only [checkedAdd,if_neg fits,Option.bind_eq_bind,Option.bind_none,tryFrom]
      rw [if_neg (by omega)]

end U64
