import Mathlib

set_option autoImplicit false

/-- A finite map kept as the list of its entries in strictly increasing key order. -/
structure OrderedMap (κ ν : Type) [LinearOrder κ] where
  entries : List (κ × ν)
  sorted : entries.Pairwise fun a b => a.1 < b.1
  deriving DecidableEq

namespace OrderedMap

open Option List

variable {κ ν μ : Type} [LinearOrder κ]

/-- Insertion in one pass, replacing the entry of the same key. -/
def insertEntry (k : κ) (v : ν) : List (κ × ν) → List (κ × ν)
  | [] => [(k,v)]
  | e :: rest =>
    if k < e.1 then (k,v) :: e :: rest
    else if k = e.1 then (k,v) :: rest
    else e :: insertEntry k v rest

variable {k : κ} {v : ν} {l : List (κ × ν)}

theorem mem_insertEntry {e : κ × ν} (h : e ∈ insertEntry k v l) : e = (k,v) ∨ e ∈ l := by
  induction l with
  | nil => exact .inl (mem_singleton.1 h)
  | cons head rest ih =>
    unfold insertEntry at h
    split_ifs at h with below same
    · exact (mem_cons.1 h)
    · exact (mem_cons.1 h).imp_right (mem_cons_of_mem _)
    · obtain rfl | later := mem_cons.1 h
      · exact .inr mem_cons_self
      · exact (ih later).imp_right (mem_cons_of_mem _)

theorem pairwise_insertEntry (k : κ) (v : ν) (h : l.Pairwise fun a b => a.1 < b.1) :
    (insertEntry k v l).Pairwise fun a b => a.1 < b.1 := by
  induction l with
  | nil => exact pairwise_singleton _ _
  | cons head rest ih =>
    obtain ⟨first,tail⟩ := pairwise_cons.1 h
    unfold insertEntry
    split_ifs with below same
    · refine pairwise_cons.2 ⟨?_,h⟩
      intro e he
      obtain rfl | later := mem_cons.1 he
      · exact below
      · exact below.trans (first e later)
    · exact pairwise_cons.2 ⟨fun e he => same ▸ first e he,tail⟩
    · refine pairwise_cons.2 ⟨?_,ih tail⟩
      intro e he
      obtain rfl | later := mem_insertEntry he
      · exact lt_of_le_of_ne (not_lt.1 below) (Ne.symm same)
      · exact first e later

def empty : OrderedMap κ ν := ⟨[],.nil⟩

instance : EmptyCollection (OrderedMap κ ν) := ⟨empty⟩

instance : Inhabited (OrderedMap κ ν) := ⟨∅⟩

def lookupEntry (k : κ) : List (κ × ν) → Option ν
  | [] => none
  | e :: rest => if k = e.1 then some e.2 else lookupEntry k rest

section Operations

variable (m : OrderedMap κ ν)

def get? (k : κ) : Option ν := lookupEntry k m.entries

def contains (k : κ) : Bool := (m.get? k).isSome

def insert (k : κ) (v : ν) : OrderedMap κ ν :=
  ⟨insertEntry k v m.entries,pairwise_insertEntry k v m.sorted⟩

def erase (k : κ) : OrderedMap κ ν :=
  ⟨m.entries.filter fun e => e.1 ≠ k,m.sorted.filter _⟩

def mapWithKey (f : κ → ν → μ) : OrderedMap κ μ :=
  ⟨m.entries.map fun e => (e.1,f e.1 e.2),pairwise_map.2 m.sorted⟩

def mapValues (f : ν → μ) : OrderedMap κ μ := m.mapWithKey fun _ => f

/-- The value of one key rewritten in place; nothing happens when the key is absent. -/
def modify (k : κ) (f : ν → ν) : OrderedMap κ ν :=
  m.mapWithKey fun k' v => if k' = k then f v else v

def filterValues (p : ν → Bool) : OrderedMap κ ν :=
  ⟨m.entries.filter fun e => p e.2,m.sorted.filter _⟩

def values : List ν := m.entries.map Prod.snd

def size : Nat := m.entries.length

def total (f : κ → ν → Nat) : Nat := (m.entries.map fun e => f e.1 e.2).sum

end Operations

theorem lookupEntry_eq_some (sorted : l.Pairwise fun a b => a.1 < b.1) :
    lookupEntry k l = some v ↔ (k,v) ∈ l := by
  induction l with
  | nil => simp [lookupEntry]
  | cons head rest ih =>
    obtain ⟨key,value⟩ := head
    obtain ⟨first,tail⟩ := pairwise_cons.1 sorted
    rw [lookupEntry]
    by_cases same : k = key
    · subst same
      have absent : (k,v) ∉ rest := fun later => lt_irrefl k (first _ later)
      simp [absent,eq_comm]
    · simp [same,ih tail]

variable {m : OrderedMap κ ν}

theorem mem_entries : (k,v) ∈ m.entries ↔ m.get? k = some v :=
  (lookupEntry_eq_some m.sorted).symm

theorem mem_values : v ∈ m.values ↔ ∃ k, m.get? k = some v := by
  constructor
  · intro h
    obtain ⟨⟨k,w⟩,he,rfl⟩ := List.mem_map.1 h
    exact ⟨k,mem_entries.1 he⟩
  · rintro ⟨k,h⟩
    exact List.mem_map.2 ⟨(k,v),mem_entries.2 h,rfl⟩

theorem get?_eq_none : m.get? k = none ↔ ∀ e ∈ m.entries, e.1 ≠ k := by
  rw [eq_none_iff_forall_ne_some]
  constructor
  · rintro h ⟨k',v⟩ he rfl
    exact h v (mem_entries.1 he)
  · intro h v hv
    exact h (k,v) (mem_entries.2 hv) rfl

theorem ext {m' : OrderedMap κ ν} (h : ∀ k, m.get? k = m'.get? k) : m = m' := by
  have nodup (n : OrderedMap κ ν) : n.entries.Nodup := n.sorted.imp fun less same => (same ▸ less).false
  have perm : m.entries.Perm m'.entries := by
    refine (perm_ext_iff_of_nodup (nodup m) (nodup m')).2 ?_
    rintro ⟨k,v⟩
    rw [mem_entries,mem_entries,h]
  have same := perm.eq_of_pairwise (fun a b _ _ hab hba => absurd hab hba.asymm) m.sorted m'.sorted
  cases m
  congr

@[simp] theorem get?_empty (k : κ) : (∅ : OrderedMap κ ν).get? k = none := rfl

theorem lookupEntry_insertEntry (k k' : κ) (v : ν) (l : List (κ × ν)) :
    lookupEntry k' (insertEntry k v l) = if k' = k then some v else lookupEntry k' l := by
  induction l with
  | nil => rfl
  | cons head rest ih =>
    by_cases below : k < head.1
    · simp only [insertEntry,if_pos below,lookupEntry]
    · by_cases equal : k = head.1
      · simp only [insertEntry,if_neg below,if_pos equal,lookupEntry]
        split_ifs with same other
        · rfl
        · exact absurd (other.trans equal.symm) same
        · rfl
      · simp only [insertEntry,if_neg below,if_neg equal,lookupEntry,ih]
        split_ifs with same other
        · exact absurd (other.symm.trans same) equal
        · rfl
        · rfl
        · rfl

section Lookups

variable (m : OrderedMap κ ν)

theorem get?_insert (k k' : κ) (v : ν) :
    (m.insert k v).get? k' = if k' = k then some v else m.get? k' := lookupEntry_insertEntry k k' v m.entries

theorem get?_erase (k k' : κ) :
    (m.erase k).get? k' = if k' = k then none else m.get? k' := by
  refine Option.ext fun v => ?_
  rw [← mem_entries]
  show (k',v) ∈ m.entries.filter _ ↔ _
  rw [mem_filter,mem_entries]
  by_cases same : k' = k <;> simp [same]

theorem get?_foldl_erase (ks : List κ) (m : OrderedMap κ ν) (k : κ) :
    (ks.foldl erase m).get? k = if k ∈ ks then none else m.get? k := by
  induction ks generalizing m with
  | nil => simp
  | cons head rest ih =>
    rw [foldl_cons,ih,get?_erase]
    by_cases same : k = head <;> by_cases later : k ∈ rest <;> simp [same]

theorem lookupEntry_map (f : κ → ν → μ) (k : κ) (l : List (κ × ν)) :
    lookupEntry k (l.map fun e => (e.1,f e.1 e.2)) = (lookupEntry k l).map (f k) := by
  induction l with
  | nil => rfl
  | cons head rest ih =>
    rw [map_cons,lookupEntry,lookupEntry]
    by_cases same : k = head.1
    · simp [same]
    · simp [same,ih]

@[simp] theorem get?_mapWithKey (f : κ → ν → μ) (k : κ) :
    (m.mapWithKey f).get? k = (m.get? k).map (f k) := lookupEntry_map f k m.entries

@[simp] theorem get?_mapValues (f : ν → μ) (k : κ) :
    (m.mapValues f).get? k = (m.get? k).map f := get?_mapWithKey m _ k

theorem get?_modify (k k' : κ) (f : ν → ν) :
    (m.modify k f).get? k' = (m.get? k').map fun v => if k' = k then f v else v := get?_mapWithKey m _ k'

@[simp] theorem mapWithKey_self : m.mapWithKey (fun _ v => v) = m := by
  refine ext fun k => ?_
  rw [get?_mapWithKey]
  exact map_id'

/-- The map with the values of some keys replaced by one function and the others by another. -/
def mapPart (ks : List κ) (f g : κ → ν → μ) : OrderedMap κ μ :=
  m.mapWithKey fun k v => if k ∈ ks then f k v else g k v

theorem mapPart_concat {m : OrderedMap κ ν} {ks : List κ} {f g : κ → ν → μ} {h : μ → μ} (fresh : k ∉ ks)
    (step : ∀ v, m.get? k = some v → h (g k v) = f k v) :
    m.mapPart (ks ++ [k]) f g = (m.mapPart ks f g).modify k h := by
  refine ext fun j => ?_
  rw [get?_modify,mapPart,get?_mapWithKey,mapPart,get?_mapWithKey,Option.map_map]
  refine map_congr fun v hv => ?_
  by_cases same : j = k
  · subst same
    simp [fresh,step v hv]
  · simp [same]

theorem mapPart_keys (f g : κ → ν → μ) :
    m.mapPart (m.entries.map Prod.fst) f g = m.mapWithKey f := by
  refine ext fun k => ?_
  rw [mapPart,get?_mapWithKey,get?_mapWithKey]
  refine map_congr fun v hv => ?_
  rw [if_pos (List.mem_map.2 ⟨(k,v),mem_entries.2 hv,rfl⟩)]

@[simp] theorem get?_filterValues (p : ν → Bool) (k : κ) :
    (m.filterValues p).get? k = (m.get? k).filter p := by
  refine Option.ext fun v => ?_
  rw [← mem_entries,filter_eq_some_iff,← mem_entries]
  exact mem_filter

/-- Erasing the keys of the values that pass a test leaves the other values. -/
theorem foldl_erase_eq_filterValues {key : ν → κ} (keyed : ∀ k v, m.get? k = some v → key v = k)
    (p : ν → Bool) {more : List κ} (absent : ∀ k ∈ more, m.get? k = none) :
    (((m.values.filter p).map key) ++ more).foldl erase m = m.filterValues fun v => !p v := by
  refine ext fun k => ?_
  rw [get?_foldl_erase,get?_filterValues]
  cases held : m.get? k with
  | none => simp
  | some v =>
    have taken : k ∈ (m.values.filter p).map key ++ more ↔ p v = true := by
      rw [mem_append,List.mem_map]
      constructor
      · rintro (⟨w,hw,rfl⟩ | mem)
        · obtain ⟨present,passes⟩ := mem_filter.1 hw
          obtain ⟨k,hk⟩ := mem_values.1 present
          rw [keyed k w hk,hk] at held
          exact some.inj held ▸ passes
        · cases held.symm.trans (absent k mem)
      · exact fun passes => .inl ⟨v,mem_filter.2 ⟨mem_values.2 ⟨k,held⟩,passes⟩,keyed k v held⟩
    by_cases passes : p v = true
    · rw [if_pos (taken.2 passes)]
      simp [Option.filter,passes]
    · rw [if_neg fun inside => passes (taken.1 inside)]
      simp [Option.filter,passes]

@[simp] theorem contains_eq (k : κ) : m.contains k = (m.get? k).isSome := rfl

end Lookups

theorem any_values {p : ν → Bool} : m.values.any p = true ↔ ∃ k v, m.get? k = some v ∧ p v = true := by
  simp only [List.any_eq_true,mem_values]
  exact ⟨fun ⟨v,⟨k,h⟩,hp⟩ => ⟨k,v,h,hp⟩,fun ⟨k,v,h,hp⟩ => ⟨v,⟨k,h⟩,hp⟩⟩

variable {f : κ → ν → Nat}

theorem total_congr {g : κ → ν → Nat} (h : ∀ k v, m.get? k = some v → f k v = g k v) :
    m.total f = m.total g := by
  unfold total
  congr 1
  refine map_congr_left ?_
  rintro ⟨k,v⟩ he
  exact h k v (mem_entries.1 he)

theorem total_add (m : OrderedMap κ ν) (f g : κ → ν → Nat) :
    m.total (fun k v => f k v + g k v) = m.total f + m.total g := sum_map_add

theorem total_eq_zero (h : ∀ k v, m.get? k = some v → f k v = 0) : m.total f = 0 := by
  rw [total_congr h]
  unfold total
  simp

theorem total_le_total {g : κ → ν → Nat} (h : ∀ k v, m.get? k = some v → f k v ≤ g k v) :
    m.total f ≤ m.total g := by
  refine sum_le_sum ?_
  rintro ⟨k,v⟩ he
  exact h k v (mem_entries.1 he)

theorem le_total (f : κ → ν → Nat) (h : m.get? k = some v) : f k v ≤ m.total f :=
  single_le_sum (fun _ _ => Nat.zero_le _) _ (List.mem_map.2 ⟨(k,v),mem_entries.2 h,rfl⟩)

@[simp] theorem total_empty (f : κ → ν → Nat) : (∅ : OrderedMap κ ν).total f = 0 := rfl

@[simp] theorem total_mapWithKey (m : OrderedMap κ ν) (g : κ → ν → μ) (f : κ → μ → Nat) :
    (m.mapWithKey g).total f = m.total fun k v => f k (g k v) := by
  simp [total,mapWithKey,Function.comp_def]

@[simp] theorem total_mapValues (m : OrderedMap κ ν) (g : ν → μ) (f : κ → μ → Nat) :
    (m.mapValues g).total f = m.total fun k v => f k (g v) := total_mapWithKey m _ f

@[simp] theorem total_filterValues (m : OrderedMap κ ν) (p : ν → Bool) (f : κ → ν → Nat) :
    (m.filterValues p).total f = m.total fun k v => if p v then f k v else 0 := by
  simp only [total,filterValues]
  induction m.entries with
  | nil => rfl
  | cons e rest ih =>
    by_cases kept : p e.2 = true
    · simp [kept,ih]
    · simp [kept,ih]

theorem sum_values (m : OrderedMap κ ν) (f : ν → Nat) : (m.values.map f).sum = m.total fun _ v => f v := by
  rw [values,List.map_map]
  rfl

theorem sum_filter_values (m : OrderedMap κ ν) (p : ν → Bool) (f : ν → Nat) :
    ((m.values.filter p).map f).sum = m.total fun _ v => if p v then f v else 0 := by
  have kept : m.values.filter p = (m.filterValues p).values := List.filter_map
  rw [kept,sum_values,total_filterValues]

/-- Entries of one owner leave: what stays and what goes add up to what was there. -/
theorem total_filterValues_add {α : Type} [DecidableEq α] (m : OrderedMap κ ν) (f : ν → Nat)
    {owner : ν → α} {gone : ν → Bool} {a : α} (mine : ∀ v, gone v = true → owner v = a) (b : α) :
    ((m.filterValues fun v => !gone v).total fun _ v => if owner v = b then f v else 0) +
      (if b = a then ((m.values.filter gone).map f).sum else 0) =
        m.total fun _ v => if owner v = b then f v else 0 := by
  have moved : (if b = a then ((m.values.filter gone).map f).sum else 0) =
      m.total fun _ v => if gone v ∧ b = a then f v else 0 := by
    split_ifs with same
    · simp [sum_filter_values,same]
    · exact (total_eq_zero fun _ v _ => if_neg fun both => same both.2).symm
  rw [moved,total_filterValues,← total_add]
  refine total_congr fun _ v _ => ?_
  by_cases leaves : gone v = true
  · simp [leaves,mine v leaves,eq_comm]
  · simp [leaves]

theorem sum_insertEntry (v : ν) (f : κ × ν → Nat) (fresh : ∀ e ∈ l, e.1 ≠ k) :
    ((insertEntry k v l).map f).sum = (l.map f).sum + f (k,v) := by
  induction l with
  | nil => simp [insertEntry]
  | cons head rest ih =>
    have other := (fresh head mem_cons_self).symm
    unfold insertEntry
    split_ifs with below
    · simp only [map_cons,sum_cons]
      omega
    · simp only [map_cons,sum_cons,ih fun e he => fresh e (mem_cons_of_mem _ he)]
      omega

theorem total_insert (v : ν) (f : κ → ν → Nat) (fresh : m.get? k = none) :
    (m.insert k v).total f = m.total f + f k v :=
  sum_insertEntry v (fun e => f e.1 e.2) (get?_eq_none.1 fresh)

theorem sum_filter_ne (f : κ × ν → Nat) (sorted : l.Pairwise fun a b => a.1 < b.1) (h : (k,v) ∈ l) :
    ((l.filter fun e => e.1 ≠ k).map f).sum + f (k,v) = (l.map f).sum := by
  induction l with
  | nil => cases h
  | cons head rest ih =>
    obtain ⟨first,tail⟩ := pairwise_cons.1 sorted
    obtain rfl | later := mem_cons.1 h
    · have kept : rest.filter (fun e => e.1 ≠ k) = rest :=
        filter_eq_self.2 fun e he => by simp [(first e he).ne']
      rw [filter_cons_of_neg (by simp),kept,map_cons,sum_cons]
      omega
    · rw [filter_cons_of_pos (by simp [(first _ later).ne]),map_cons,map_cons,sum_cons,
        sum_cons,add_assoc,ih tail later]

theorem total_erase (f : κ → ν → Nat) (h : m.get? k = some v) : (m.erase k).total f + f k v = m.total f :=
  sum_filter_ne (fun e => f e.1 e.2) m.sorted (mem_entries.2 h)

theorem total_single (f : κ → ν → Nat) (h : m.get? k = some v) :
    (m.total fun k' v' => if k' = k then f k' v' else 0) = f k v := by
  have rest : (m.erase k).total (fun k' v' => if k' = k then f k' v' else 0) = 0 := by
    refine total_eq_zero fun k' v' h' => if_neg ?_
    rintro rfl
    rw [get?_erase,if_pos rfl] at h'
    cases h'
  rw [← total_erase _ h,rest,if_pos rfl,Nat.zero_add]

theorem erase_of_get?_none (h : m.get? k = none) : m.erase k = m := by
  refine ext fun k' => ?_
  rw [get?_erase]
  split_ifs with same
  · rw [same,h]
  · rfl

theorem total_erase_elim (m : OrderedMap κ ν) (k : κ) (f : κ → ν → Nat) :
    (m.erase k).total f + (m.get? k).elim 0 (f k) = m.total f := by
  cases held : m.get? k with
  | none => rw [erase_of_get?_none held]; rfl
  | some v => exact total_erase f held

theorem total_insert_elim (m : OrderedMap κ ν) (k : κ) (v : ν) (f : κ → ν → Nat) :
    (m.insert k v).total f + (m.get? k).elim 0 (f k) = m.total f + f k v := by
  have same : m.insert k v = (m.erase k).insert k v := by
    refine ext fun k' => ?_
    rw [get?_insert,get?_insert,get?_erase]
    split_ifs <;> rfl
  have gone : (m.erase k).get? k = none := by rw [get?_erase,if_pos rfl]
  have rest := total_erase_elim m k f
  rw [same,total_insert v f gone]
  omega

theorem total_foldl_erase {ks : List κ} (nodup : ks.Nodup) (m : OrderedMap κ ν) (f : κ → ν → Nat) :
    (ks.foldl erase m).total f + (ks.map fun k => (m.get? k).elim 0 (f k)).sum = m.total f := by
  induction ks generalizing m with
  | nil => simp
  | cons k rest ih =>
    obtain ⟨fresh,later⟩ := nodup_cons.1 nodup
    have same : (rest.map fun k' => ((m.erase k).get? k').elim 0 (f k')) =
        rest.map fun k' => (m.get? k').elim 0 (f k') := by
      refine map_congr_left fun k' mem => ?_
      have other : k' ≠ k := fun here => fresh (here ▸ mem)
      rw [get?_erase,if_neg other]
    have step := ih later (m.erase k)
    rw [same] at step
    rw [foldl_cons,map_cons,sum_cons]
    cases held : m.get? k with
    | none =>
      rw [erase_of_get?_none held] at step ⊢
      simpa using step
    | some v =>
      have erased := total_erase f held
      simp only [elim_some]
      omega

theorem modify_eq_insert_erase (f : ν → ν) (h : m.get? k = some v) :
    m.modify k f = (m.erase k).insert k (f v) := by
  refine ext fun k' => ?_
  rw [get?_modify,get?_insert,get?_erase]
  by_cases same : k' = k
  · simp [same,h]
  · simp [same]

theorem total_modify (g : ν → ν) (f : κ → ν → Nat) (h : m.get? k = some v) :
    (m.modify k g).total f + f k v = m.total f + f k (g v) := by
  have gone : (m.erase k).get? k = none := by rw [get?_erase,if_pos rfl]
  have rest := total_erase f h
  rw [modify_eq_insert_erase g h,total_insert (g v) f gone]
  omega

theorem size_eq_total (m : OrderedMap κ ν) : m.size = m.total fun _ _ => 1 := by simp [size,total]

@[simp] theorem size_empty : (∅ : OrderedMap κ ν).size = 0 := rfl

theorem eq_empty_of_size (h : m.size = 0) : m = ∅ := by
  refine ext fun k => ?_
  have none : m.entries = [] := length_eq_zero_iff.1 h
  exact get?_eq_none.2 (by simp [none])

theorem size_insert (v : ν) (fresh : m.get? k = none) : (m.insert k v).size = m.size + 1 := by
  rw [size_eq_total,total_insert v _ fresh,size_eq_total]

theorem size_erase_le (m : OrderedMap κ ν) (k : κ) : (m.erase k).size ≤ m.size := length_filter_le _ _

theorem size_erase (h : m.get? k = some v) : (m.erase k).size + 1 = m.size := by
  rw [size_eq_total,size_eq_total,← total_erase _ h]

@[simp] theorem size_mapWithKey (m : OrderedMap κ ν) (f : κ → ν → μ) : (m.mapWithKey f).size = m.size :=
  length_map _

@[simp] theorem size_mapValues (m : OrderedMap κ ν) (f : ν → μ) : (m.mapValues f).size = m.size :=
  length_map _

@[simp] theorem size_modify (m : OrderedMap κ ν) (k : κ) (f : ν → ν) : (m.modify k f).size = m.size :=
  length_map _

theorem insert_erase (m : OrderedMap κ ν) (k : κ) (v : ν) : (m.erase k).insert k v = m.insert k v := by
  refine ext fun k' => ?_
  rw [get?_insert,get?_insert,get?_erase]
  by_cases same : k' = k
  · rw [if_pos same,if_pos same]
  · rw [if_neg same,if_neg same,if_neg same]

theorem size_insert_of_some {v' : ν} (v : ν) (h : m.get? k = some v') : (m.insert k v).size = m.size := by
  have gone : (m.erase k).get? k = none := by rw [get?_erase,if_pos rfl]
  have erased := size_erase h
  rw [← insert_erase,size_insert v gone]
  omega

theorem size_filterValues_le (m : OrderedMap κ ν) (p : ν → Bool) : (m.filterValues p).size ≤ m.size :=
  length_filter_le _ _

theorem filterValues_eq_self {p : ν → Bool} (h : (m.filterValues p).size = m.size) :
    m.filterValues p = m := by
  have all := length_filter_eq_length_iff.1 h
  have same : (m.filterValues p).entries = m.entries := filter_eq_self.2 all
  refine ext fun k => ?_
  rw [get?,get?,same]

def ofList (l : List (κ × ν)) : OrderedMap κ ν := l.foldl (fun m e => m.insert e.1 e.2) ∅

theorem ofList_concat (l : List (κ × ν)) (k : κ) (v : ν) : ofList (l ++ [(k,v)]) = (ofList l).insert k v := by
  rw [ofList,foldl_append]
  rfl

theorem insertEntry_last (v : ν) (h : ∀ e ∈ l, e.1 < k) : insertEntry k v l = l ++ [(k,v)] := by
  induction l with
  | nil => rfl
  | cons head rest ih =>
    have less := h head mem_cons_self
    rw [insertEntry,if_neg less.asymm,if_neg less.ne',ih fun e he => h e (mem_cons_of_mem _ he)]
    rfl

theorem entries_ofList (sorted : l.Pairwise fun a b => a.1 < b.1) : (ofList l).entries = l := by
  induction l using List.reverseRecOn with
  | nil => rfl
  | append_singleton l e ih =>
    obtain ⟨front,-,last⟩ := pairwise_append.1 sorted
    rw [ofList_concat]
    show insertEntry e.1 e.2 (ofList l).entries = _
    rw [ih front,insertEntry_last e.2 fun d hd => last d hd e mem_cons_self]

theorem get?_ofList_of_lt (sorted : l.Pairwise fun a b => a.1 < b.1)
    (fresh : ∀ e ∈ l, e.1 < k) (f : κ → ν → μ) :
    (ofList (l.map fun e => (e.1,f e.1 e.2))).get? k = none := by
  have keys := entries_ofList (l := l.map fun e => (e.1,f e.1 e.2)) (pairwise_map.2 sorted)
  refine get?_eq_none.2 ?_
  rw [keys]
  intro e he
  obtain ⟨x,hx,rfl⟩ := List.mem_map.1 he
  exact (fresh x hx).ne

section Parts

variable {done : List (κ × ν)} (part : done ++ [(k,v)] <+: m.entries)
include part

theorem get?_of_part : m.get? k = some v := mem_entries.1 (part.mem (by simp))

theorem earlier_of_part {e : κ × ν} (mem : e ∈ done) : m.get? e.1 = some e.2 ∧ e.1 < k := by
  have sorted := m.sorted.sublist part.sublist
  exact ⟨mem_entries.1 (part.mem (mem_append_left _ mem)),
    (pairwise_append.1 sorted).2.2 e mem (k,v) mem_cons_self⟩

theorem notMem_keys : k ∉ done.map Prod.fst := by
  intro mem
  obtain ⟨e,he,same⟩ := List.mem_map.1 mem
  exact (earlier_of_part part he).2.ne same

theorem get?_ofList_of_part (f : κ → ν → μ) :
    (ofList (done.map fun e => (e.1,f e.1 e.2))).get? k = none :=
  get?_ofList_of_lt (pairwise_append.1 (m.sorted.sublist part.sublist)).1
    (fun _ he => (earlier_of_part part he).2) f

end Parts

theorem ofList_entries (m : OrderedMap κ ν) : ofList m.entries = m := by
  have same := entries_ofList m.sorted
  refine ext fun k => ?_
  rw [get?,get?,same]

end OrderedMap
