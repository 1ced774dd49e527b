import Mathlib

set_option autoImplicit false

/-! Computations that stop at the first failed check. -/

namespace Checked

open List

variable {ε α β : Type} {e : ε} {a : α} {x : Except ε α}

theorem bind_eq_ok {f : α → Except ε β} {b : β} : (x >>= f) = .ok b ↔ ∃ a, x = .ok a ∧ f a = .ok b := by
  cases x <;> simp [bind,Except.bind]

theorem pure_eq_ok {b : α} : (pure b : Except ε α) = .ok a ↔ b = a := by simp [pure,Except.pure]

theorem throw_eq_ok : (throw e : Except ε α) = .ok a ↔ False := by simp [throw,throwThe,MonadExceptOf.throw]

variable {c : Prop}

theorem throwIf_eq_ok [Decidable c] {k : Unit → Except ε α} :
    (if c then (throw e : Except ε Unit) >>= k else k ()) = .ok a ↔ ¬ c ∧ k () = .ok a := by
  split_ifs with failed
  · simp [failed,bind_eq_ok]
  · simp [failed]

theorem ite_throw_eq_ok [Decidable c] : (if c then throw e else x) = .ok a ↔ ¬ c ∧ x = .ok a := by
  split_ifs with failed
  · simp [failed]
  · simp [failed]

theorem ite_error_eq_ok [Decidable c] : (if c then .error e else x) = .ok a ↔ ¬ c ∧ x = .ok a := by
  split_ifs with failed <;> simp [failed]

theorem elim_eq_ok {x : Option α} : (x.elim (.error e) .ok : Except ε α) = .ok a ↔ x = some a := by
  cases x <;> simp

theorem map_eq_ok {f : α → β} {b : β} : x.map f = .ok b ↔ ∃ a, x = .ok a ∧ f a = b := by
  cases x <;> simp [Except.map]

variable {σ : Type} {xs : List α}

theorem foldlM_congr {m : Type → Type} [Monad m] {f g : σ → α → m σ}
    (same : ∀ s, ∀ x ∈ xs, f s x = g s x) (s : σ) :
    xs.foldlM f s = xs.foldlM g s := by
  induction xs generalizing s with
  | nil => rfl
  | cons x rest ih =>
    rw [foldlM_cons,same s x mem_cons_self]
    congr 1
    funext s'
    exact ih (fun s y hy => same s y (mem_cons_of_mem _ hy)) s'

theorem exists_foldlM {m : Type → Type} [Monad m] [LawfulMonad m] {f : σ → α → m σ}
    (motive : List α → σ → Prop) (done rest : List α) {s : σ} (start : motive done s)
    (step : ∀ before, ∀ x ∈ rest, ∀ s, motive before s → ∃ s', f s x = pure s' ∧ motive (before ++ [x]) s') :
    ∃ t, rest.foldlM f s = pure t ∧ motive (done ++ rest) t := by
  induction rest generalizing done s with
  | nil => exact ⟨s,rfl,by simpa using start⟩
  | cons x rest ih =>
    obtain ⟨s',turn,kept⟩ := step done x mem_cons_self s start
    obtain ⟨t,later,last⟩ := ih (done ++ [x]) kept fun before y hy =>
      step before y (mem_cons_of_mem _ hy)
    refine ⟨t,?_,by simpa using last⟩
    rw [foldlM_cons,turn,pure_bind]
    exact later

theorem foldlM_follows {f : σ → α → Except ε σ} (state : List α → σ) (l : List α)
    (step : ∀ done x, done ++ [x] <+: l → f (state done) x = .ok (state (done ++ [x]))) :
    l.foldlM f (state []) = .ok (state l) := by
  induction l using reverseRecOn with
  | nil => rfl
  | append_singleton l x ih =>
    rw [foldlM_append,bind_eq_ok]
    refine ⟨_,ih fun done y part => step done y (part.trans (prefix_append l [x])),?_⟩
    rw [foldlM_cons,step l x (prefix_refl _)]
    rfl

theorem foldlM_unit_eq_ok {f : Unit → α → Except ε Unit} :
    xs.foldlM f () = .ok () ↔ ∀ x ∈ xs, f () x = .ok () := by
  induction xs with
  | nil => simp [pure,Except.pure]
  | cons x rest ih =>
    rw [foldlM_cons,bind_eq_ok,forall_mem_cons,← ih]
    exact ⟨fun ⟨_,first,later⟩ => ⟨first,later⟩,fun ⟨first,later⟩ => ⟨(),first,later⟩⟩

/-- One turn of a loop that turns down a key it has met. -/
theorem nodup_keys_cons {κ : Type} {key : α → κ} {met : List κ} {x : α} (fresh : key x ∉ met)
    (nodup : (xs.map key).Nodup) (apart : ∀ y ∈ xs, key y ∉ key x :: met) :
    ((x :: xs).map key).Nodup ∧ ∀ y ∈ x :: xs, key y ∉ met := by
  refine ⟨nodup_cons.2 ⟨?_,nodup⟩,forall_mem_cons.2 ⟨fresh,?_⟩⟩
  · intro again
    obtain ⟨y,hy,same⟩ := mem_map.1 again
    exact apart y hy (same ▸ mem_cons_self)
  · exact fun y hy old => apart y hy (mem_cons_of_mem _ old)

theorem toFinset_concat [DecidableEq α] (xs : List α) (x : α) :
    (xs ++ [x]).toFinset = insert x xs.toFinset := by
  ext y
  simp

section Parts

variable {done : List α} {x : α} (part : done ++ [x] <+: xs)
include part

theorem notMem_of_part {f : α → β} {ys : List β} (nodup : (ys ++ xs.map f).Nodup) :
    f x ∉ ys ++ done.map f := by
  obtain ⟨rest,rfl⟩ := part
  rw [map_append,map_append,← append_assoc,← append_assoc] at nodup
  intro mem
  exact (nodup_append.1 (nodup_append.1 nodup).1).2.2 _ mem _ mem_cons_self rfl

theorem nodup_flatMap_of_part {f : α → List β} (nodup : (xs.flatMap f).Nodup) :
    (done.flatMap f ++ f x).Nodup := by
  have front := nodup.sublist (part.sublist.flatMap f)
  rwa [flatMap_append,flatMap_singleton] at front

theorem sum_le_of_part (f : α → Nat) : (done.map f).sum + f x ≤ (xs.map f).sum := by
  have front := (part.sublist.map f).sum_le_sum fun _ _ => Nat.zero_le _
  rwa [map_append,sum_append,map_singleton,sum_singleton] at front

end Parts

end Checked
