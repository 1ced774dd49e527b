import Mathlib

set_option autoImplicit false

/-! Passes over a collection in an order that nobody promises. -/

/-- The order in which one pass visits the elements. -/
structure Traversal (α : Type) where
  order : List α → List α
  perm : ∀ l, (order l).Perm l

namespace Traversal

variable {α : Type}

def stored : Traversal α := ⟨id,fun _ => .refl _⟩

theorem mem_order (t : Traversal α) {l : List α} {a : α} : a ∈ t.order l ↔ a ∈ l := (t.perm l).mem_iff

def maxByKey (key : α → Nat) (l : List α) : Option α :=
  l.foldl (fun best a => match best with
    | none => some a
    | some b => if key b ≤ key a then some a else some b) none

def minByKey (key : α → Nat) (l : List α) : Option α :=
  l.foldl (fun best a => match best with
    | none => some a
    | some b => if key a < key b then some a else some b) none

/-- A fold that keeps one of the elements it meets. -/
theorem foldl_pick (better : α → α → Prop) [DecidableRel better] {l : List α} (h : l ≠ []) :
    ∃ a ∈ l, l.foldl (fun best a => match best with
      | none => some a
      | some b => if better a b then some a else some b) none = some a := by
  have stays : ∀ (l : List α) (b : α), ∃ c ∈ b :: l, l.foldl (fun best a => match best with
      | none => some a
      | some b => if better a b then some a else some b) (some b) = some c := by
    intro l
    induction l with
    | nil => exact fun b => ⟨b,List.mem_cons_self,rfl⟩
    | cons a l ih =>
      intro b
      by_cases replaced : better a b
      · obtain ⟨c,member,eq⟩ := ih a
        refine ⟨c,List.mem_cons_of_mem b member,?_⟩
        simpa [replaced] using eq
      · obtain ⟨c,member,eq⟩ := ih b
        refine ⟨c,?_,by simpa [replaced] using eq⟩
        rcases List.mem_cons.1 member with rfl | later
        · exact List.mem_cons_self
        · exact List.mem_cons_of_mem b (List.mem_cons_of_mem a later)
  cases l with
  | nil => exact absurd rfl h
  | cons b l => exact stays l b

theorem minByKey_mem (key : α → Nat) {l : List α} (h : l ≠ []) : ∃ a ∈ l, minByKey key l = some a :=
  foldl_pick (fun a b => key a < key b) h

end Traversal
