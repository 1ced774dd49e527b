import Mathlib

set_option autoImplicit false

/-! General facts about lists: pieces of one length, a property of all states of a run, removal by moving
the last element into the gap. -/

namespace Chunks

open List

variable {α : Type} {size : Nat}

theorem length_flatten {full : List (List α)} (same : ∀ piece ∈ full, piece.length = size) :
    full.flatten.length = full.length * size := by
  induction full with
  | nil => rw [length_nil,Nat.zero_mul]; rfl
  | cons piece full ih =>
    obtain ⟨here,later⟩ := forall_mem_cons.1 same
    rw [flatten_cons,length_append,here,ih later,length_cons,Nat.succ_mul,Nat.add_comm]

theorem take_drop_flatten {full : List (List α)} {last : List α} (same : ∀ piece ∈ full, piece.length = size)
    (short : last.length ≤ size) : ∀ (k : Nat) (piece : List α), (full ++ [last])[k]? = some piece →
      ((full ++ [last]).flatten.drop (k * size)).take size = piece := by
  induction full with
  | nil =>
    intro k piece found
    obtain ⟨bound,rfl⟩ := List.getElem?_eq_some_iff.1 found
    obtain rfl : k = 0 := by simpa using bound
    simp [take_of_length_le short]
  | cons first full ih =>
    intro k piece found
    obtain ⟨here,later⟩ := forall_mem_cons.1 same
    cases k with
    | zero =>
      cases found
      rw [Nat.zero_mul,drop_zero,cons_append,flatten_cons,← here,take_left]
    | succ k =>
      rw [cons_append,flatten_cons,Nat.succ_mul,Nat.add_comm,← drop_drop]
      have front : (first ++ (full ++ [last]).flatten).drop size = (full ++ [last]).flatten := by
        rw [← here,drop_left]
      rw [front]
      exact ih later k piece found

end Chunks

namespace Fips

/-- A property of all states of a run, when each step says exactly when it keeps the property. -/
theorem forall_foldl_take_iff {σ ε : Type} {step : σ → ε → σ} {Q P : σ → Prop} {keeps : σ → ε → Prop}
    {events : List ε} {s : σ} (start : Q s) (holds : ∀ s, Q s → P s)
    (stays : ∀ s e, Q s → keeps s e → Q (step s e)) (needs : ∀ s e, Q s → P (step s e) → keeps s e) :
    (∀ n ≤ events.length, P ((events.take n).foldl step s)) ↔
      ∀ (n : Nat) (e : ε), events[n]? = some e → keeps ((events.take n).foldl step s) e := by
  induction events generalizing s with
  | nil => simpa using holds s start
  | cons e events ih =>
    have rest (kept : keeps s e) := ih (stays s e start kept)
    constructor
    · intro all n
      have kept : keeps s e := needs s e start (all 1 (by simp))
      cases n with
      | zero => simpa using kept
      | succ n => exact (rest kept).mp (fun n le => all (n + 1) (by simpa using le)) n
    · intro all n le
      cases n with
      | zero => exact holds s start
      | succ n => exact (rest (all 0 e rfl)).mpr (fun n => all (n + 1)) n (by simpa using le)

variable {α : Type}

theorem eq_of_nodup_filterMap {β : Type} {f : α → Option β} {l : List α} (nodup : (l.filterMap f).Nodup)
    {a b : α} (first : a ∈ l) (second : b ∈ l) {x : β} (left : f a = some x) (right : f b = some x) :
    a = b := by
  by_contra differ
  have apart := List.pairwise_filterMap.1 nodup
  have symmetric : Std.Symm fun a b : α => ∀ x, f a = some x → ∀ y, f b = some y → x ≠ y :=
    ⟨fun a b ne x fx y fy => (ne y fy x fx).symm⟩
  exact apart.forall first second differ x left x right rfl

/-- The last element takes the place of the one removed. -/
def swapRemove (l : List α) (i : Nat) : List α := l.getLast?.elim l fun last => (l.set i last).dropLast

theorem swapRemove_concat_last (init : List α) (last : α) :
    swapRemove (init ++ [last]) init.length = init := by
  simp [swapRemove]

theorem swapRemove_concat (init : List α) (last : α) {i : Nat} (h : i < init.length) :
    swapRemove (init ++ [last]) i = init.set i last := by
  simp [swapRemove,List.set_append_left _ _ h]

theorem perm_swapRemove {l : List α} {i : Nat} {a : α} (h : l[i]? = some a) :
    l.Perm (a :: swapRemove l i) := by
  obtain rfl | ⟨init,last,rfl⟩ := List.eq_nil_or_concat' l
  · cases h
  obtain ⟨less,rfl⟩ := List.getElem?_eq_some_iff.1 h
  rw [List.length_append,List.length_singleton] at less
  obtain inner | rfl : i < init.length ∨ i = init.length := by omega
  · rw [swapRemove_concat init last inner,List.getElem_append_left inner]
    calc (init ++ [last]).Perm (last :: init) := List.perm_append_singleton last init
      _ |>.Perm (last :: init[i] :: init.eraseIdx i) := (List.getElem_cons_eraseIdx_perm inner).symm.cons last
      _ |>.Perm (init[i] :: last :: init.eraseIdx i) := .swap _ _ _
      _ |>.Perm (init[i] :: init.set i last) := (List.set_perm_cons_eraseIdx inner last).symm.cons _
  · rw [swapRemove_concat_last]
    simp

theorem getElem?_swapRemove {l : List α} {i : Nat} (h : i < l.length) (j : Nat) :
    (swapRemove l i)[j]? = if j + 1 < l.length then if j = i then l.getLast? else l[j]? else none := by
  obtain rfl | ⟨init,last,rfl⟩ := List.eq_nil_or_concat' l
  · cases h
  rw [List.length_append,List.length_singleton] at h ⊢
  obtain inner | rfl : i < init.length ∨ i = init.length := by omega
  · rw [swapRemove_concat init last inner]
    by_cases bound : j < init.length
    · by_cases same : j = i
      · simp [same,inner]
      · simp [same,Ne.symm same,List.getElem?_append_left bound]
    · simp [bound]
  · rw [swapRemove_concat_last]
    by_cases bound : j < init.length
    · simp [bound,Nat.ne_of_lt bound,List.getElem?_append_left bound]
    · simp [bound]

end Fips
