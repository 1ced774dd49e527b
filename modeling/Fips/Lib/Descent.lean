import Mathlib

set_option autoImplicit false

/-! Following a partial function along which a measure decreases. -/

namespace Descent
variable {α : Type}

def walk (next : α → Option α) : Nat → α → List α
  | 0, a => [a]
  | fuel+1, a =>
    match next a with
    | none => [a]
    | some b => a :: walk next fuel b

/-- Inside `S` every step goes down and the only place to stop is the goal. -/
structure Descends (next : α → Option α) (S : α → Prop) (measure : α → Nat) (goal : α) : Prop where
  stops : ∀ a, S a → next a = none → a = goal
  stays : ∀ a b, S a → next a = some b → S b
  decreases : ∀ a b, S a → next a = some b → measure b < measure a

variable {next : α → Option α} {S : α → Prop} {measure : α → Nat} {goal : α}

theorem measure_le_of_mem_walk (d : Descends next S measure goal) (fuel : Nat) {a b : α} (inside : S a)
    (member : b ∈ walk next fuel a) : measure b ≤ measure a := by
  induction fuel generalizing a with
  | zero => simp_all [walk]
  | succ fuel ih =>
    unfold walk at member
    cases h : next a with
    | none => simp_all
    | some c =>
      have lower := d.decreases a c inside h
      simp only [h,List.mem_cons] at member
      cases member with
      | inl eq => simp [eq]
      | inr rest =>
        have below := ih (d.stays a c inside h) rest
        omega

theorem walk_nodup (d : Descends next S measure goal) (fuel : Nat) {a : α} (inside : S a) :
    (walk next fuel a).Nodup := by
  induction fuel generalizing a with
  | zero => simp [walk]
  | succ fuel ih =>
    unfold walk
    cases h : next a with
    | none => simp
    | some c =>
      have lower := d.decreases a c inside h
      have stays := d.stays a c inside h
      rw [List.nodup_cons]
      refine ⟨?_,ih stays⟩
      intro again
      have below := measure_le_of_mem_walk d fuel stays again
      omega

theorem walk_reaches (d : Descends next S measure goal) (fuel : Nat) {a : α} (inside : S a)
    (enough : measure a ≤ fuel) :
    (walk next fuel a).getLast? = some goal ∧ (walk next fuel a).length ≤ measure a + 1 := by
  induction fuel generalizing a with
  | zero =>
    cases h : next a with
    | none => simp [walk,d.stops a inside h]
    | some c =>
      have lower := d.decreases a c inside h
      omega
  | succ fuel ih =>
    unfold walk
    cases h : next a with
    | none => simp [d.stops a inside h]
    | some c =>
      have lower := d.decreases a c inside h
      obtain ⟨last,length⟩ := ih (d.stays a c inside h) (by omega)
      constructor
      · simp only [List.getLast?_cons,last,Option.getD_some]
      · simp only [List.length_cons]
        omega

end Descent
