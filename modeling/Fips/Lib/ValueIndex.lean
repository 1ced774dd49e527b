import Fips.Lib.OrderedMap

set_option autoImplicit false

/-! A map together with the set of its entries ordered by value. -/

namespace OrderedMap

variable {κ τ : Type} [LinearOrder κ] [LinearOrder τ]

def Indexes (index : OrderedMap (τ ×ₗ κ) Unit) (m : OrderedMap κ τ) : Prop :=
  ∀ v k, index.get? (toLex (v,k)) = some () ↔ m.get? k = some v

section Indexes

variable {index : OrderedMap (τ ×ₗ κ) Unit} {m : OrderedMap κ τ}

theorem indexes_empty : Indexes (∅ : OrderedMap (τ ×ₗ κ) Unit) ∅ := by
  intro v k
  simp

theorem Indexes.erase (h : Indexes index m) {v : τ} {k : κ} (found : m.get? k = some v) :
    Indexes (index.erase (toLex (v,k))) (m.erase k) := by
  intro v' k'
  simp only [get?_erase]
  by_cases key : k' = k
  · subst key
    by_cases value : v' = v
    · simp [value]
    · simp [h v' k',found,Ne.symm value]
  · simp [key,h v' k']

theorem Indexes.insert (h : Indexes index m) {v : τ} {k : κ} (fresh : m.get? k = none) :
    Indexes (index.insert (toLex (v,k)) ()) (m.insert k v) := by
  intro v' k'
  simp only [get?_insert]
  by_cases key : k' = k
  · subst key
    by_cases value : v' = v
    · simp [value]
    · simp [value,h v' k',fresh,Ne.symm value]
  · simp [key,h v' k']

theorem Indexes.replace (h : Indexes index m) {v v' : τ} {k : κ} (found : m.get? k = some v) :
    Indexes ((index.erase (toLex (v,k))).insert (toLex (v',k)) ()) (m.insert k v') := by
  rw [← insert_erase m k v']
  exact (h.erase found).insert (by rw [get?_erase,if_pos rfl])

theorem Indexes.filterValues (h : Indexes index m) (p : τ → Bool) :
    Indexes (((m.entries.filter fun e => ¬ p e.2).map fun e => toLex (e.2,e.1)).foldl .erase index)
      (m.filterValues p) := by
  intro v k
  have dropped : toLex (v,k) ∈ ((m.entries.filter fun e => ¬ p e.2).map fun e => toLex (e.2,e.1)) ↔
      m.get? k = some v ∧ ¬ p v := by
    rw [List.mem_map]
    constructor
    · rintro ⟨e,member,eq⟩
      obtain ⟨rfl,rfl⟩ : e.2 = v ∧ e.1 = k := Prod.ext_iff.1 (toLex.injective eq)
      exact ⟨mem_entries.1 (List.mem_filter.1 member).1,of_decide_eq_true (List.mem_filter.1 member).2⟩
    · rintro ⟨found,fails⟩
      exact ⟨(k,v),List.mem_filter.2 ⟨mem_entries.2 found,decide_eq_true fails⟩,rfl⟩
  rw [get?_foldl_erase,get?_filterValues,Option.filter_eq_some_iff]
  by_cases gone : toLex (v,k) ∈ ((m.entries.filter fun e => ¬ p e.2).map fun e => toLex (e.2,e.1))
  · rw [if_pos gone]
    simp [(dropped.1 gone).2]
  · rw [if_neg gone,h v k]
    tauto

end Indexes

end OrderedMap
