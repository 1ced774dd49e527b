import Mathlib

set_option autoImplicit false

/-! Joining contributions so that any single one can be taken out again. -/

namespace Contribution
open List
variable {α : Type} [BooleanAlgebra α]

section Tally

variable (base : α)
variable (xs : List α)

def join : α := xs.foldl (· ⊔ ·) base

def add (acc : α × α) (x : α) : α × α := (acc.1 ⊔ x,acc.2 ⊔ acc.1 ⊓ x)

def tally : α × α := xs.foldl add (base,⊥)

theorem tally_append (x : α) :
    tally base (xs ++ [x]) = add (tally base xs) x := by
  simp [tally]

theorem join_append (x : α) : join base (xs ++ [x]) = join base xs ⊔ x := by
  simp [join]

theorem tally_fst : (tally base xs).1 = join base xs := by
  induction xs using List.reverseRecOn with
  | nil => rfl
  | append_singleton xs x ih => rw [tally_append,join_append,add,ih]

theorem tally_snd_le : (tally base xs).2 ≤ join base xs := by
  induction xs using List.reverseRecOn with
  | nil => exact bot_le
  | append_singleton xs x ih =>
    rw [tally_append,join_append]
    exact sup_le (ih.trans le_sup_left) (inf_le_right.trans le_sup_right)

theorem join_middle (x : α) (ys : List α) :
    join base (xs ++ x :: ys) = join base (xs ++ ys) ⊔ x := by
  induction ys using List.reverseRecOn with
  | nil => rw [join_append,append_nil]
  | append_singleton ys y ih =>
    rw [← cons_append,← append_assoc,← append_assoc,join_append,join_append,ih,sup_right_comm]

theorem tally_snd_le_without (x : α) (ys : List α) :
    (tally base (xs ++ x :: ys)).2 ≤ join base (xs ++ ys) := by
  induction ys using List.reverseRecOn with
  | nil =>
    rw [tally_append,add,tally_fst,append_nil]
    exact sup_le (tally_snd_le base xs) inf_le_left
  | append_singleton ys y ih =>
    rw [← cons_append,← append_assoc,← append_assoc,tally_append,join_append]
    exact sup_le (ih.trans le_sup_left) (inf_le_right.trans le_sup_right)

theorem without_inf_le_tally_snd (x : α) (ys : List α) :
    join base (xs ++ ys) ⊓ x ≤ (tally base (xs ++ x :: ys)).2 := by
  induction ys using List.reverseRecOn with
  | nil =>
    rw [tally_append,add,tally_fst,append_nil]
    exact le_sup_right
  | append_singleton ys y ih =>
    rw [← cons_append,← append_assoc,← append_assoc,tally_append,join_append,add,tally_fst,
      join_middle,inf_sup_right]
    have fromX : y ⊓ x ≤ (join base (xs ++ ys) ⊔ x) ⊓ y :=
      le_inf (inf_le_right.trans le_sup_right) inf_le_left
    exact sup_le (ih.trans le_sup_left) (fromX.trans le_sup_right)

theorem tally_without (x : α) (ys : List α) :
    (tally base (xs ++ x :: ys)).1 ⊓ (xᶜ ⊔ (tally base (xs ++ x :: ys)).2) = join base (xs ++ ys) := by
  have upper := tally_snd_le_without base xs x ys
  have lower := without_inf_le_tally_snd base xs x ys
  rw [tally_fst,join_middle]
  apply le_antisymm
  · rw [inf_sup_left,inf_sup_right,inf_compl_eq_bot,sup_bot_eq]
    exact sup_le inf_le_left (inf_le_right.trans upper)
  · apply le_inf le_sup_left
    calc join base (xs ++ ys)
        = join base (xs ++ ys) ⊓ x ⊔ join base (xs ++ ys) ⊓ xᶜ := (sup_inf_inf_compl).symm
      _ ≤ (tally base (xs ++ x :: ys)).2 ⊔ xᶜ := sup_le_sup lower inf_le_right
      _ = xᶜ ⊔ (tally base (xs ++ x :: ys)).2 := sup_comm _ _

end Tally

theorem join_eq_true (base : Bool) (xs : List Bool) : join base xs = true ↔ base = true ∨ true ∈ xs := by
  induction xs using List.reverseRecOn with
  | nil => simp [join]
  | append_singleton xs x ih => simp [join_append,ih,or_assoc]

end Contribution
