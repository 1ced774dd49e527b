import Fips.Peer.Lifecycle

set_option autoImplicit false

/-! Who has which receive index, and what a step that concerns one peer may do to it. -/

namespace Fips.Peer

open List

variable {S H : Type}

namespace ActivePeer

variable {p : ActivePeer S H}

theorem mem_indices {i : SessionIndex} :
    i ∈ p.indices ↔
      p.ourIndex = some i ∨ p.rekeyOurIndex = some i ∨ p.pendingOurIndex = some i ∨
        p.previousOurIndex = some i := by
  simp [indices]

theorem mem_dispatchKeys {key : SessionKey} :
    key ∈ p.dispatchKeys ↔
      (p.transportId = some (ofLex key).1 ∧
        (p.ourIndex = some (ofLex key).2 ∨ p.pendingOurIndex = some (ofLex key).2)) ∨
        (p.previousTransportId = some (ofLex key).1 ∧ p.previousOurIndex = some (ofLex key).2) := by
  simp only [dispatchKeys,mem_append,mem_flatMap,mem_map,Option.mem_toList]
  constructor
  · rintro (⟨t',transport,i',index,rfl⟩ | ⟨t',transport,i',index,rfl⟩)
    · exact .inl ⟨transport,index⟩
    · exact .inr ⟨transport,index⟩
  · rintro (⟨transport,index⟩ | ⟨transport,index⟩)
    · exact .inl ⟨_,transport,_,index,rfl⟩
    · exact .inr ⟨_,transport,_,index,rfl⟩

theorem index_of_mem_dispatchKeys {key : SessionKey} (h : key ∈ p.dispatchKeys) :
    (ofLex key).2 ∈ p.indices := by
  rw [mem_indices]
  rcases mem_dispatchKeys.mp h with ⟨_,current | pending⟩ | ⟨_,previous⟩
  · exact .inl current
  · exact .inr (.inr (.inl pending))
  · exact .inr (.inr (.inr previous))

theorem nodup_indices :
    p.indices.Nodup ↔
      (∀ i, p.ourIndex = some i → p.rekeyOurIndex ≠ some i ∧ p.pendingOurIndex ≠ some i ∧
        p.previousOurIndex ≠ some i) ∧
      (∀ i, p.rekeyOurIndex = some i → p.pendingOurIndex ≠ some i ∧ p.previousOurIndex ≠ some i) ∧
      ∀ i, p.pendingOurIndex = some i → p.previousOurIndex ≠ some i := by
  simp only [indices]
  grind

theorem key_eq_toLex {key : SessionKey} {t : TransportId} {i : SessionIndex} :
    key = toLex (t,i) ↔ (ofLex key).1 = t ∧ (ofLex key).2 = i := by
  constructor
  · rintro rfl
    exact ⟨rfl,rfl⟩
  · rintro ⟨rfl,rfl⟩
    rfl

structure Shaped (p : ActivePeer S H) : Prop where
  transport : p.transportId.isSome
  current : p.ourIndex.isSome
  pending : p.pendingNewSession.isSome = p.pendingOurIndex.isSome
  rekey : p.rekeyInProgress = p.rekeyOurIndex.isSome
  exclusive : p.rekeyOurIndex = none ∨ p.pendingOurIndex = none
  previous : p.previousTransportId.isSome = p.previousOurIndex.isSome

def entry (kind : PeerSessionIndexKind) (t : TransportId) (i : SessionIndex) : PeerSessionIndex :=
  ⟨kind,toLex (t,i),i⟩

theorem pushIndex_eq {l : List PeerSessionIndex} (kind : PeerSessionIndexKind) (t : TransportId)
    {index : Option SessionIndex} (keyed : ∀ r ∈ l, (ofLex r.key).2 = r.index)
    (fresh : ∀ i ∈ index, ∀ r ∈ l, r.index ≠ i) :
    pushIndex l kind t index = l ++ index.toList.map (entry kind t) := by
  cases index with
  | none => simp [pushIndex]
  | some i =>
    have absent : ¬ l.any fun existing => existing.key = toLex (t,i) := by
      simp only [any_eq_true,decide_eq_true_eq,not_exists,not_and]
      intro r member key
      apply fresh i rfl r member
      rw [← keyed r member,key]
      rfl
    simp only [pushIndex,absent]
    rfl

theorem sessionIndices_eq {t : TransportId} (transport : p.transportId = some t)
    (distinct : p.indices.Nodup) :
    p.sessionIndices =
      p.ourIndex.toList.map (entry .current t) ++ p.rekeyOurIndex.toList.map (entry .rekey t) ++
        p.pendingOurIndex.toList.map (entry .pending t) ++
        p.previousOurIndex.toList.map (entry .previous (p.previousTransportId.getD t)) := by
  have current : p.currentSessionIndex.toList = p.ourIndex.toList.map (entry .current t) := by
    cases own : p.ourIndex <;> simp [currentSessionIndex,transport,own,entry]
  obtain ⟨current',rekey',pending'⟩ := nodup_indices.mp distinct
  simp only [sessionIndices,transport,current]
  -- one entry after the other, each with an index that is not listed yet
  rw [pushIndex_eq (l := p.ourIndex.toList.map (entry .current t)) .rekey t
    (by grind [entry,ofLex_toLex]) (by grind [entry,Option.mem_def])]
  rw [pushIndex_eq .pending t (by grind [entry,ofLex_toLex]) (by grind [entry,Option.mem_def])]
  rw [pushIndex_eq .previous _ (by grind [entry,ofLex_toLex]) (by grind [entry,Option.mem_def])]

theorem map_index_entries (kind : PeerSessionIndexKind) (t : TransportId) (l : List SessionIndex) :
    (l.map (entry kind t)).map PeerSessionIndex.index = l := by
  rw [map_map]
  exact map_id l

theorem Shaped.map_index_sessionIndices (shaped : p.Shaped) (distinct : p.indices.Nodup) :
    p.sessionIndices.map PeerSessionIndex.index = p.indices := by
  obtain ⟨t,transport⟩ := Option.isSome_iff_exists.mp shaped.transport
  simp only [sessionIndices_eq transport distinct,map_append,map_index_entries,indices]

/-- The keys listed for a peer are those of its sessions and that of a rekey in progress. -/
theorem Shaped.listed_key (shaped : p.Shaped) (distinct : p.indices.Nodup) {key : SessionKey} :
    (∃ r ∈ p.sessionIndices, r.key = key) ↔
      key ∈ p.dispatchKeys ∨ (p.transportId = some (ofLex key).1 ∧ p.rekeyOurIndex = some (ofLex key).2) := by
  obtain ⟨t,transport⟩ := Option.isSome_iff_exists.mp shaped.transport
  have entry_key : ∀ {kind t' i}, (entry kind t' i).key = key ↔ t' = (ofLex key).1 ∧ i = (ofLex key).2 := by
    intro kind t' i
    rw [eq_comm,entry,key_eq_toLex,eq_comm,@eq_comm _ i]
  have previous : ∀ {i}, p.previousOurIndex = some i →
      p.previousTransportId = some (p.previousTransportId.getD t) := by
    intro i found
    have known := shaped.previous
    rw [found,Option.isSome_some,Option.isSome_iff_exists] at known
    obtain ⟨t',at'⟩ := known
    rw [at',Option.getD_some]
  simp only [sessionIndices_eq transport distinct,mem_dispatchKeys,mem_append,mem_map,Option.mem_toList,
    transport,Option.some.injEq]
  constructor
  · rintro ⟨r,((⟨i,own,rfl⟩ | ⟨i,own,rfl⟩) | ⟨i,own,rfl⟩) | ⟨i,own,rfl⟩,at'⟩ <;> obtain ⟨same,rfl⟩ :=
      entry_key.mp at'
    · exact .inl (.inl ⟨same,.inl own⟩)
    · exact .inr ⟨same,own⟩
    · exact .inl (.inl ⟨same,.inr own⟩)
    · exact .inl (.inr ⟨same ▸ previous own,own⟩)
  · rintro ((⟨same,own | own⟩ | ⟨same,own⟩) | ⟨same,own⟩)
    · exact ⟨_,.inl (.inl (.inl ⟨_,own,rfl⟩)),entry_key.mpr ⟨same,rfl⟩⟩
    · exact ⟨_,.inl (.inr ⟨_,own,rfl⟩),entry_key.mpr ⟨same,rfl⟩⟩
    · exact ⟨_,.inr ⟨_,own,rfl⟩,entry_key.mpr ⟨by rw [same,Option.getD_some],rfl⟩⟩
    · exact ⟨_,.inl (.inl (.inr ⟨_,own,rfl⟩)),entry_key.mpr ⟨same,rfl⟩⟩

end ActivePeer

namespace Node

variable {s s' : Node S H} {addr : NodeAddr}

def held (s : Node S H) (addr : NodeAddr) : List SessionIndex :=
  ((s.active.get? addr).map ActivePeer.indices).getD []

def keys (s : Node S H) (addr : NodeAddr) : List SessionKey :=
  ((s.active.get? addr).map ActivePeer.dispatchKeys).getD []

theorem held_of_get? {p : ActivePeer S H} (found : s.active.get? addr = some p) :
    s.held addr = p.indices := by
  rw [held,found]
  rfl

theorem keys_of_get? {p : ActivePeer S H} (found : s.active.get? addr = some p) :
    s.keys addr = p.dispatchKeys := by
  rw [keys,found]
  rfl

theorem index_of_mem_keys {key : SessionKey} (h : key ∈ s.keys addr) : (ofLex key).2 ∈ s.held addr := by
  cases found : s.active.get? addr with
  | none => simp [keys,found] at h
  | some p =>
    rw [keys_of_get? found] at h
    rw [held_of_get? found]
    exact ActivePeer.index_of_mem_dispatchKeys h

structure Sound (s : Node S H) : Prop where
  shaped : ∀ addr p, s.active.get? addr = some p → p.Shaped
  distinct : ∀ addr, (s.held addr).Nodup
  used : ∀ addr i, i ∈ s.held addr → i ∈ s.indexAllocator.inUse
  apart : ∀ a b i, i ∈ s.held a → i ∈ s.held b → a = b
  dispatch : ∀ key addr, s.bySessionIndex.get? key = some addr ↔ key ∈ s.keys addr
  balance : ∀ addr i, s.taken.count (addr,i) = s.freed.count (addr,i) + (s.held addr).count i

/-- A step that concerns one peer: it takes some indices, frees some, and keeps the others. -/
structure Moved (s s' : Node S H) (addr : NodeAddr) (ins outs : List SessionIndex) : Prop where
  others : ∀ b, b ≠ addr → s'.active.get? b = s.active.get? b
  shaped : ∀ p, s'.active.get? addr = some p → p.Shaped
  taken : s'.taken = s.taken ++ ins.map (Prod.mk addr)
  freed : s'.freed = s.freed ++ outs.map (Prod.mk addr)
  inUse : ∀ i, i ∈ s'.indexAllocator.inUse ↔ (i ∈ s.indexAllocator.inUse ∨ i ∈ ins) ∧ i ∉ outs
  fresh : ins.Nodup ∧ ∀ i ∈ ins, ∀ b, i ∉ s.held b
  kept : (ins ++ s.held addr).Perm (outs ++ s'.held addr)
  dispatch : ∀ key, s'.bySessionIndex.get? key =
    if key ∈ s'.keys addr then some addr else if key ∈ s.keys addr then none else s.bySessionIndex.get? key

section Moved

variable {ins outs : List SessionIndex}

section Moves

variable (moved : Moved s s' addr ins outs)
include moved

theorem Moved.held_other {b : NodeAddr} (h : b ≠ addr) : s'.held b = s.held b := by
  simp only [held,moved.others b h]

theorem Moved.keys_other {b : NodeAddr} (h : b ≠ addr) : s'.keys b = s.keys b := by
  simp only [keys,moved.others b h]

theorem Moved.nodup (sound : s.Sound) : (outs ++ s'.held addr).Nodup := by
  rw [← moved.kept.nodup_iff]
  exact List.Nodup.append moved.fresh.1 (sound.distinct addr) fun i member => moved.fresh.2 i member addr

theorem Moved.mem_held {i : SessionIndex} (h : i ∈ s'.held addr) : i ∈ ins ∨ i ∈ s.held addr :=
  mem_append.mp (moved.kept.mem_iff.mpr (mem_append_right _ h))

theorem Moved.notMem_held (sound : s.Sound) {b : NodeAddr} {i : SessionIndex} (h : i ∈ s'.held addr)
    (other : b ≠ addr) : i ∉ s.held b := by
  rcases moved.mem_held h with new | old
  · exact moved.fresh.2 i new b
  · exact fun member => other (sound.apart b addr i member old)

end Moves

theorem count_pair_map (b : NodeAddr) (i : SessionIndex) (l : List SessionIndex) :
    (l.map (Prod.mk addr)).count (b,i) = if b = addr then l.count i else 0 := by
  split
  · next same =>
    subst same
    exact count_map_of_injective l _ (Prod.mk_right_injective b) i
  · next other =>
    rw [count_eq_zero]
    simp only [mem_map,Prod.mk.injEq,not_exists,not_and]
    exact fun _ _ same => absurd same.symm other

theorem Sound.moved (sound : s.Sound) (moved : Moved s s' addr ins outs) : s'.Sound where
  shaped b p found := by
    by_cases same : b = addr
    · exact moved.shaped p (same ▸ found)
    · exact sound.shaped b p (moved.others b same ▸ found)
  distinct b := by
    by_cases same : b = addr
    · exact same ▸ (nodup_append.mp (moved.nodup sound)).2.1
    · exact moved.held_other same ▸ sound.distinct b
  used b i member := by
    rw [moved.inUse]
    by_cases same : b = addr
    · subst same
      refine ⟨(moved.mem_held member).symm.imp_left (sound.used b i),fun gone => ?_⟩
      exact (nodup_append.mp (moved.nodup sound)).2.2 i gone i member rfl
    · rw [moved.held_other same] at member
      refine ⟨.inl (sound.used b i member),fun gone => ?_⟩
      rcases mem_append.mp (moved.kept.mem_iff.mpr (mem_append_left _ gone)) with new | old
      · exact moved.fresh.2 i new b member
      · exact same (sound.apart b addr i member old)
  apart a b i atA atB := by
    by_cases sameA : a = addr <;> by_cases sameB : b = addr
    · exact sameA.trans sameB.symm
    · exact absurd (moved.held_other sameB ▸ atB) (moved.notMem_held sound (sameA ▸ atA) sameB)
    · exact absurd (moved.held_other sameA ▸ atA) (moved.notMem_held sound (sameB ▸ atB) sameA)
    · exact sound.apart a b i (moved.held_other sameA ▸ atA) (moved.held_other sameB ▸ atB)
  dispatch key b := by
    rw [moved.dispatch]
    by_cases same : b = addr
    · have before := sound.dispatch key b
      grind
    · rw [moved.keys_other same,← sound.dispatch key b]
      have apart : key ∈ s'.keys addr → s.bySessionIndex.get? key ≠ some b := by
        intro member at'
        exact moved.notMem_held sound (index_of_mem_keys member) same
          (index_of_mem_keys ((sound.dispatch key b).mp at'))
      have before := sound.dispatch key addr
      grind
  balance b i := by
    rw [moved.taken,moved.freed,count_append,count_append,count_pair_map,count_pair_map,sound.balance b i]
    by_cases same : b = addr
    · subst same
      have count := moved.kept.count_eq i
      rw [count_append,count_append] at count
      simp only [if_true]
      omega
    · simp only [if_neg same,moved.held_other same]
      omega

theorem Moved.of_set (ins outs : List SessionIndex) {p p' : ActivePeer S H}
    (found : s.active.get? addr = some p) (active : s'.active = s.active.insert addr p') (shaped : p'.Shaped)
    (taken : s'.taken = s.taken ++ ins.map (Prod.mk addr))
    (freed : s'.freed = s.freed ++ outs.map (Prod.mk addr))
    (inUse : ∀ i, i ∈ s'.indexAllocator.inUse ↔ (i ∈ s.indexAllocator.inUse ∨ i ∈ ins) ∧ i ∉ outs)
    (fresh : ins.Nodup ∧ ∀ i ∈ ins, ∀ b, i ∉ s.held b) (kept : (ins ++ p.indices).Perm (outs ++ p'.indices))
    (dispatch : ∀ key, s'.bySessionIndex.get? key = if key ∈ p'.dispatchKeys then some addr
      else if key ∈ p.dispatchKeys then none else s.bySessionIndex.get? key) :
    Moved s s' addr ins outs := by
  have after : s'.active.get? addr = some p' := by rw [active,OrderedMap.get?_insert,if_pos rfl]
  refine ⟨fun b other => ?_,?_,taken,freed,inUse,fresh,?_,?_⟩
  · rw [active,OrderedMap.get?_insert,if_neg other]
  · intro q same
    rw [after] at same
    exact Option.some.inj same ▸ shaped
  · rwa [held_of_get? found,held_of_get? after]
  · rwa [keys_of_get? found,keys_of_get? after]

end Moved

end Node

end Fips.Peer
