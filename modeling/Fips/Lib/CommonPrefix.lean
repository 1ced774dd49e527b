import Mathlib

set_option autoImplicit false

/-! Paths from a common origin, and the number of edges between their ends. -/

namespace CommonPrefix
variable {α : Type} [DecidableEq α]

def shared : List α → List α → Nat
  | x :: xs, y :: ys => if x = y then shared xs ys + 1 else 0
  | _, _ => 0

def edges (xs ys : List α) : Nat := (xs.length - shared xs ys) + (ys.length - shared xs ys)

theorem shared_le (xs ys : List α) : shared xs ys ≤ xs.length ∧ shared xs ys ≤ ys.length := by
  induction xs generalizing ys with
  | nil => simp [shared]
  | cons x xs ih =>
    cases ys with
    | nil => simp [shared]
    | cons y ys =>
      have h := ih ys
      simp only [shared]
      split
      · simpa using h
      · simp

theorem shared_append (xs rest : List α) : shared xs (xs ++ rest) = xs.length := by
  induction xs with
  | nil => simp [shared]
  | cons x xs ih => simp [shared,ih]

theorem shared_self (xs : List α) : shared xs xs = xs.length := by
  simpa using shared_append xs []

theorem exists_append_of_shared {xs ys : List α} (h : shared xs ys = xs.length) :
    ∃ rest, ys = xs ++ rest := by
  induction xs generalizing ys with
  | nil => exact ⟨ys,rfl⟩
  | cons x xs ih =>
    cases ys with
    | nil => simp [shared] at h
    | cons y ys =>
      simp only [shared] at h
      split at h
      · rename_i eq
        obtain ⟨rest,rfl⟩ := ih (by simpa using h)
        exact ⟨rest,by simp [eq]⟩
      · simp at h

theorem shared_dropLast (xs ys : List α) (x : α) (h : shared (xs ++ [x]) ys ≤ xs.length) :
    shared xs ys = shared (xs ++ [x]) ys := by
  induction xs generalizing ys with
  | nil =>
    cases ys with
    | nil => simp [shared]
    | cons y ys =>
      simp only [List.nil_append,shared] at h ⊢
      split at h
      · simp at h
      · rename_i differ
        simp [differ]
  | cons z xs ih =>
    cases ys with
    | nil => simp [shared]
    | cons y ys =>
      simp only [List.cons_append,shared] at h ⊢
      split
      · rename_i eq
        rw [ih ys (by simpa [eq] using h)]
      · rfl

theorem edges_back {xs ys : List α} {x : α} (h : shared (xs ++ [x]) ys ≤ xs.length) :
    edges xs ys + 1 = edges (xs ++ [x]) ys := by
  have same := shared_dropLast xs ys x h
  unfold edges
  rw [List.length_append,List.length_singleton]
  omega

theorem edges_forward (xs rest : List α) (x : α) :
    edges (xs ++ [x]) (xs ++ x :: rest) + 1 = edges xs (xs ++ x :: rest) := by
  have next : shared (xs ++ [x]) (xs ++ x :: rest) = (xs ++ [x]).length := by
    simpa using shared_append (xs ++ [x]) rest
  unfold edges
  rw [next,shared_append]
  simp
  omega

end CommonPrefix
