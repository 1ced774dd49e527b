import Mathlib

set_option autoImplicit false

namespace Fips

open List

/-- The ceiling of a `u64`. Counters are natural numbers here; no operation of the
modelled code wraps, so a bound on them is never needed. -/
def u64Max : Nat := 2^64-1

/-- A node address is sixteen bytes compared lexicographically, which is the order
of its big-endian value. -/
abbrev NodeAddr := Fin (2^128)

-- Named instances: a literal or a membership test is then the same term in every module.
instance neZero_nodeAddr : NeZero (2^128) := ⟨by decide⟩

instance : LawfulBEq (NodeAddr × NodeAddr) := inferInstance

instance : LawfulBEq (NodeAddr × String) := inferInstance

def NodeAddr.asBytes (a : NodeAddr) : List UInt8 :=
  (List.range 16).map fun i => (a.val / 256^(15-i)).toUInt8

def u64ToLeBytes (n : UInt64) : List UInt8 := (List.range 8).map fun i => (n.toNat / 256^i).toUInt8

def u64FromLeBytes (bytes : List UInt8) : UInt64 :=
  .ofNat (bytes.foldr (fun byte high => byte.toNat + 256 * high) 0)

theorem length_u64ToLeBytes (n : UInt64) : (u64ToLeBytes n).length = 8 := rfl

theorem u64FromLeBytes_toLeBytes (n : UInt64) : u64FromLeBytes (u64ToLeBytes n) = n := by
  have bound := n.toNat_lt
  have digits : (u64ToLeBytes n).foldr (fun byte high => byte.toNat + 256 * high) 0 = n.toNat := by
    simp only [u64ToLeBytes,List.range,List.range.loop,map_cons,map_nil,foldr_cons,
      foldr_nil,UInt8.toNat_ofNat']
    omega
  rw [u64FromLeBytes,digits]
  simp

theorem u64ToLeBytes_fromLeBytes {bytes : List UInt8} (length : bytes.length = 8) :
    u64ToLeBytes (u64FromLeBytes bytes) = bytes := by
  match bytes with
  | [a,b,c,d,e,f,g,h] =>
    simp [u64ToLeBytes,u64FromLeBytes,List.range,List.range.loop,← UInt8.toNat_inj]
    simp only [← UInt8.toNat_toBitVec]
    omega

/-- A hash map keyed by node addresses. -/
abbrev NodeMap (β : Type) := AList fun _ : NodeAddr => β

/-- The order in which one traversal of a hash map visits its entries. -/
structure IterationOrder (β : Type) where
  order : List (Sigma fun _ : NodeAddr => β) → List (Sigma fun _ : NodeAddr => β)
  perm : ∀ entries, (order entries).Perm entries

def NodeMap.iterate {β : Type} (o : IterationOrder β) (m : NodeMap β) :
    List (Sigma fun _ : NodeAddr => β) := o.order m.entries

theorem NodeMap.mem_iterate {β : Type} (o : IterationOrder β) (m : NodeMap β) (a : NodeAddr) (b : β) :
    ⟨a,b⟩ ∈ m.iterate o ↔ m.lookup a = some b := by
  rw [NodeMap.iterate,(o.perm m.entries).mem_iff,← AList.mem_lookup_iff,Option.mem_def]

theorem NodeMap.iterate_split {β : Type} (o : IterationOrder β) {m : NodeMap β} {a : NodeAddr} {b : β}
    (h : m.lookup a = some b) :
    ∃ before after, m.iterate o = before ++ ⟨a,b⟩ :: after ∧
      ∀ entry, entry ∈ before ++ after ↔ entry ∈ m.iterate o ∧ entry.1 ≠ a := by
  obtain ⟨before,after,split⟩ := append_of_mem ((m.mem_iterate o a b).2 h)
  have nodup : (m.iterate o).NodupKeys := (perm_nodupKeys (o.perm m.entries)).2 m.nodupKeys
  rw [split,List.NodupKeys,List.keys,map_append,nodup_append] at nodup
  obtain ⟨-,tail,disjoint⟩ := nodup
  refine ⟨before,after,split,?_⟩
  intro entry
  rw [split]
  simp only [mem_append,mem_cons]
  constructor
  · rintro (early | late)
    · refine ⟨.inl early,?_⟩
      rintro rfl
      exact disjoint _ (mem_map_of_mem early) _ mem_cons_self rfl
    · refine ⟨.inr (.inr late),?_⟩
      rintro rfl
      exact (nodup_cons.1 tail).1 (mem_map.2 ⟨entry,late,rfl⟩)
  · rintro ⟨early | rfl | late,differ⟩
    · exact .inl early
    · exact absurd rfl differ
    · exact .inr late

end Fips
