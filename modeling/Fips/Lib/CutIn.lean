import Mathlib

set_option autoImplicit false

/-! A waiting line whose newcomers may sometimes cut in. Each cut leaves a debt of two, every departure pays
one off, and nobody cuts in while a debt is open. -/

structure Line (α : Type) where
  waiting : List α
  debt : Nat

namespace Line

open List

variable {α : Type}

/-- The line changes from the first to the last argument while `taken` leave it. Cuts happen only where
`cuts` holds. -/
inductive Moves (cuts : Prop) : Line α → List α → Line α → Prop where
  | refl (line : Line α) : Moves cuts line [] line
  | join (waiting : List α) (debt : Nat) (a : α) : Moves cuts ⟨waiting,debt⟩ [] ⟨waiting ++ [a],debt⟩
  | cut (waiting : List α) (a : α) (may : cuts) : Moves cuts ⟨waiting,0⟩ [] ⟨a :: waiting,2⟩
  | leave (waiting : List α) (debt : Nat) (a : α) : Moves cuts ⟨a :: waiting,debt⟩ [a] ⟨waiting,debt - 1⟩
  | trans {first second third : Line α} {taken later : List α} (before : Moves cuts first taken second)
      (after : Moves cuts second later third) : Moves cuts first (taken ++ later) third

def patience (ahead debt : Nat) : Nat := max (2 * ahead + 2 - debt) (ahead + 1)

theorem patience_le (ahead debt : Nat) : patience ahead debt ≤ 2 * ahead + 2 := by
  unfold patience
  omega

theorem patience_leave (ahead debt : Nat) : patience ahead (debt - 1) < patience (ahead + 1) debt := by
  unfold patience
  omega

theorem patience_cut (ahead : Nat) : patience (ahead + 1) 2 = patience ahead 0 := by
  unfold patience
  omega

/-- Someone in the line leaves within their patience, and what is left of it bounds the wait that remains. -/
theorem Moves.leaves {cuts : Prop} {before after : Line α} {taken : List α}
    (moves : Moves cuts before taken after) (a : α) :
    ∀ front back : List α, before.waiting = front ++ a :: back →
      (∃ first rest, taken = first ++ a :: rest ∧ first.length < patience front.length before.debt) ∨
      (∃ front' back', after.waiting = front' ++ a :: back' ∧
        taken.length + patience front'.length after.debt ≤ patience front.length before.debt) := by
  induction moves with
  | refl line =>
    intro front back here
    refine .inr ⟨front,back,here,?_⟩
    simp
  | join waiting debt b =>
    intro front back here
    refine .inr ⟨front,back ++ [b],?_,?_⟩
    · change waiting = _ at here
      simp [here]
    · simp
  | cut waiting b may =>
    intro front back here
    refine .inr ⟨b :: front,back,congrArg (b :: ·) here,?_⟩
    simp [patience_cut]
  | leave waiting debt b =>
    intro front back here
    cases front with
    | nil =>
      obtain ⟨rfl,rfl⟩ := List.cons.inj here
      refine .inl ⟨[],[],rfl,?_⟩
      unfold patience
      omega
    | cons c front =>
      obtain ⟨rfl,rfl⟩ := List.cons.inj here
      have lowered := patience_leave front.length debt
      refine .inr ⟨front,back,rfl,?_⟩
      simp only [length_cons,length_nil]
      omega
  | trans _ _ ihBefore ihAfter =>
    intro front back here
    obtain ⟨first,rest,rfl,bound⟩ | ⟨front',back',here',bound⟩ := ihBefore front back here
    · exact .inl ⟨first,_,append_assoc _ _ _,bound⟩
    · obtain ⟨first,rest,rfl,bound'⟩ | ⟨front'',back'',here'',bound'⟩ := ihAfter front' back' here'
      · refine .inl ⟨_ ++ first,rest,(append_assoc _ _ _).symm,?_⟩
        rw [length_append]
        omega
      · refine .inr ⟨front'',back'',here'',?_⟩
        rw [length_append]
        omega

theorem Moves.inOrder {cuts : Prop} {before after : Line α} {taken : List α}
    (moves : Moves cuts before taken after) (never : ¬cuts) : before.waiting <+: taken ++ after.waiting := by
  induction moves with
  | refl line => exact prefix_refl _
  | join waiting debt a => exact prefix_append _ _
  | cut waiting a may => exact absurd may never
  | leave waiting debt a => exact prefix_refl _
  | trans _ _ ihBefore ihAfter =>
    rw [append_assoc]
    exact ihBefore.trans (prefix_append_right_inj _ |>.2 ihAfter)

end Line
