import Fips.Bloom.State

set_option autoImplicit false

/-! The ordered index of pending update deadlines, beside the state of each peer that it copies. -/

namespace Fips.Bloom.BloomState

open Option

section Updates

variable (s : BloomState)

def leafOnly (ownNodeAddr : NodeAddr) : BloomState := { new ownNodeAddr with isLeafOnly := true }

def markAllUpdatesNeeded (peers : List NodeAddr) : BloomState := peers.foldl markUpdateNeeded s

def pendingPeersDue (o : IterationOrder Nat) (nowMs : Nat) : List NodeAddr :=
  ((s.pendingUpdates.iterate o).map Sigma.fst).filter fun peer =>
    (s.pendingPeerDeadlineMs peer).any (· ≤ nowMs)

def deferUpdateRetry (peer : NodeAddr) (retryAtMs : Nat) : BloomState :=
  match s.pendingUpdates.lookup peer with
  | some floor =>
    if floor ≥ retryAtMs then s
    else
      { s with pendingUpdates := s.pendingUpdates.insert peer (max floor retryAtMs) }.updatePendingDeadline
        peer
        (s.pendingPeerDeadlineMs peer)
  | none => s

def refreshPendingDeadline : BloomState :=
  let deadlines := (s.pendingUpdates.keys.filterMap fun peer =>
    (s.pendingPeerDeadlineMs peer).map fun due => toLex (due,peer)).toFinset
  { s with pendingUpdateDeadlines := deadlines, pendingUpdateDeadlineMs := firstDeadline deadlines }

def deferPendingRetries (retryAtMs : Nat) : BloomState :=
  refreshPendingDeadline
    { s with pendingUpdates := ⟨s.pendingUpdates.entries.map fun e => ⟨e.1,max e.2 retryAtMs⟩,
      s.pendingUpdates.nodupKeys.map₂ (fun _ floor => max floor retryAtMs)⟩ }

def setUpdateDebounceMs (ms : Nat) : BloomState := refreshPendingDeadline { s with updateDebounceMs := ms }

def recordUpdateSent (peer : NodeAddr) (currentTimeMs : Nat) : BloomState :=
  { s with
    lastUpdateSent := s.lastUpdateSent.insert peer currentTimeMs
    pendingUpdates := s.pendingUpdates.erase peer }.updatePendingDeadline peer (s.pendingPeerDeadlineMs peer)

def clearPendingUpdates : BloomState :=
  { s with pendingUpdates := ∅, pendingUpdateDeadlines := ∅, pendingUpdateDeadlineMs := none }

def recordSentFilter (peer : NodeAddr) (filter : BloomFilter) : BloomState :=
  { s with lastSentFilters := s.lastSentFilters.insert peer filter }

def removePeerState (peer : NodeAddr) : BloomState :=
  { s with
    leafDependents := s.leafDependents.erase peer
    lastSentFilters := s.lastSentFilters.erase peer
    lastUpdateSent := s.lastUpdateSent.erase peer
    pendingUpdates := s.pendingUpdates.erase peer }.updatePendingDeadline peer (s.pendingPeerDeadlineMs peer)

end Updates

inductive Operation where
  | setUpdateDebounceMs (ms : Nat)
  | markUpdateNeeded (peer : NodeAddr)
  | markAllUpdatesNeeded (peers : List NodeAddr)
  | markChangedPeers (o : IterationOrder Unit) (oPeers : IterationOrder BloomFilter) (excludeFrom : NodeAddr)
      (peerAddrs : List NodeAddr) (peerFilters : NodeMap BloomFilter)
  | deferUpdateRetry (peer : NodeAddr) (retryAtMs : Nat)
  | deferPendingRetries (retryAtMs : Nat)
  | recordUpdateSent (peer : NodeAddr) (currentTimeMs : Nat)
  | recordSentFilter (peer : NodeAddr) (filter : BloomFilter)
  | clearPendingUpdates
  | removePeerState (peer : NodeAddr)

def apply (sha256 : List UInt8 → List UInt8) (s : BloomState) : Operation → BloomState
  | .setUpdateDebounceMs ms => s.setUpdateDebounceMs ms
  | .markUpdateNeeded peer => s.markUpdateNeeded peer
  | .markAllUpdatesNeeded peers => s.markAllUpdatesNeeded peers
  | .markChangedPeers o oPeers excludeFrom peerAddrs peerFilters =>
    s.markChangedPeers sha256 o oPeers excludeFrom peerAddrs peerFilters
  | .deferUpdateRetry peer retryAtMs => s.deferUpdateRetry peer retryAtMs
  | .deferPendingRetries retryAtMs => s.deferPendingRetries retryAtMs
  | .recordUpdateSent peer currentTimeMs => s.recordUpdateSent peer currentTimeMs
  | .recordSentFilter peer filter => s.recordSentFilter peer filter
  | .clearPendingUpdates => s.clearPendingUpdates
  | .removePeerState peer => s.removePeerState peer

structure Indexed (s : BloomState) : Prop where
  deadlines : ∀ due p, toLex (due,p) ∈ s.pendingUpdateDeadlines ↔ s.pendingPeerDeadlineMs p = some due
  first : s.pendingUpdateDeadlineMs = firstDeadline s.pendingUpdateDeadlines

theorem firstDeadline_eq_none {deadlines : Finset (Nat ×ₗ NodeAddr)} :
    firstDeadline deadlines = none ↔ deadlines = ∅ :=
  map_eq_none_iff.trans Finset.min_eq_top

theorem firstDeadline_eq_some {deadlines : Finset (Nat ×ₗ NodeAddr)} {due : Nat}
    (h : firstDeadline deadlines = some due) :
    (∃ p, toLex (due,p) ∈ deadlines) ∧ ∀ entry ∈ deadlines, due ≤ (ofLex entry).1 := by
  obtain ⟨entry,least,rfl⟩ := map_eq_some_iff.1 h
  exact ⟨⟨(ofLex entry).2,Finset.mem_of_min least⟩,
    fun later mem => Prod.Lex.monotone_fst_ofLex (Finset.min_le_of_eq mem least)⟩

theorem mem_updatePendingDeadline (s : BloomState) (p q : NodeAddr) (previous : Option Nat) (due : Nat) :
    toLex (due,q) ∈ (s.updatePendingDeadline p previous).pendingUpdateDeadlines ↔
      (q = p ∧ s.pendingPeerDeadlineMs p = some due) ∨
        (toLex (due,q) ∈ s.pendingUpdateDeadlines ∧ ¬ (q = p ∧ previous = some due)) := by
  unfold updatePendingDeadline
  cases previous with
  | none => cases s.pendingPeerDeadlineMs p <;> simp [and_comm,eq_comm]
  | some was => cases s.pendingPeerDeadlineMs p <;> simp [and_comm,eq_comm]

/-- An operation that changes one peer replaces that peer's pair. -/
theorem Indexed.replace {s s' : BloomState} (h : s.Indexed) (p : NodeAddr)
    (index : s'.pendingUpdateDeadlines = s.pendingUpdateDeadlines)
    (others : ∀ q ≠ p, s'.pendingPeerDeadlineMs q = s.pendingPeerDeadlineMs q) :
    (s'.updatePendingDeadline p (s.pendingPeerDeadlineMs p)).Indexed := by
  refine ⟨fun due q => ?_,rfl⟩
  have kept : (s'.updatePendingDeadline p (s.pendingPeerDeadlineMs p)).pendingPeerDeadlineMs q =
    s'.pendingPeerDeadlineMs q := rfl
  rw [kept,mem_updatePendingDeadline,index,h.deadlines]
  by_cases own : q = p
  · subst own
    simp
  · simp [own,others q own]

theorem refreshPendingDeadline_indexed (s : BloomState) : s.refreshPendingDeadline.Indexed := by
  refine ⟨fun due p => ?_,rfl⟩
  rw [refreshPendingDeadline]
  simp only [List.mem_toFinset,List.mem_filterMap,map_eq_some_iff,toLex_inj,Prod.mk.injEq]
  constructor
  · rintro ⟨_,-,_,deadline,rfl,rfl⟩
    exact deadline
  · intro deadline
    refine ⟨p,?_,due,deadline,rfl,rfl⟩
    obtain ⟨retry,pending,-⟩ := map_eq_some_iff.1 deadline
    exact AList.mem_keys.1 (AList.lookup_isSome.1 (by rw [pending]; rfl))

theorem markUpdateNeeded_indexed {s : BloomState} (h : s.Indexed) (p : NodeAddr) :
    (s.markUpdateNeeded p).Indexed := by
  unfold markUpdateNeeded
  cases pending : s.pendingUpdates.lookup p with
  | some retry => exact h
  | none =>
    have idle : s.pendingPeerDeadlineMs p = none := by simp [pendingPeerDeadlineMs,pending]
    dsimp only
    rw [← idle]
    refine h.replace p rfl fun q other => ?_
    simp [pendingPeerDeadlineMs,AList.lookup_insert_ne other]

theorem apply_indexed (sha256 : List UInt8 → List UInt8) {s : BloomState}
    (h : s.Indexed) (operation : Operation) :
    (s.apply sha256 operation).Indexed := by
  cases operation with
  | setUpdateDebounceMs ms => exact refreshPendingDeadline_indexed _
  | markUpdateNeeded peer => exact markUpdateNeeded_indexed h peer
  | markAllUpdatesNeeded peers =>
    exact List.foldlRecOn peers _ h fun _ held peer _ => markUpdateNeeded_indexed held peer
  | markChangedPeers o oPeers excludeFrom peerAddrs peerFilters =>
    refine List.foldlRecOn peerAddrs _ h fun s held peer _ => ?_
    unfold markIfChanged
    split_ifs
    · exact held
    · split
      · split_ifs
        · exact held
        · exact markUpdateNeeded_indexed held peer
      · exact markUpdateNeeded_indexed held peer
  | deferUpdateRetry peer retryAtMs =>
    dsimp only [apply,deferUpdateRetry]
    split
    · split_ifs
      · exact h
      · refine h.replace peer rfl fun q other => ?_
        simp [pendingPeerDeadlineMs,AList.lookup_insert_ne other]
    · exact h
  | deferPendingRetries retryAtMs => exact refreshPendingDeadline_indexed _
  | recordUpdateSent peer currentTimeMs =>
    refine h.replace peer rfl fun q other => ?_
    simp [pendingPeerDeadlineMs,AList.lookup_insert_ne other,AList.lookup_erase_ne other]
  | recordSentFilter peer filter => exact ⟨h.deadlines,h.first⟩
  | clearPendingUpdates => exact ⟨by simp [apply,clearPendingUpdates,pendingPeerDeadlineMs],rfl⟩
  | removePeerState peer =>
    refine h.replace peer rfl fun q other => ?_
    simp [pendingPeerDeadlineMs,AList.lookup_erase_ne other]

theorem mem_pendingPeersDue (s : BloomState) (o : IterationOrder Nat) (nowMs : Nat) (p : NodeAddr) :
    p ∈ s.pendingPeersDue o nowMs ↔ ∃ due, s.pendingPeerDeadlineMs p = some due ∧ due ≤ nowMs := by
  unfold pendingPeersDue
  simp only [List.mem_filter,List.mem_map,Sigma.exists,NodeMap.mem_iterate,any_eq_true,
    decide_eq_true_eq]
  constructor
  · exact And.right
  · rintro ⟨due,deadline,le⟩
    obtain ⟨retry,pending,-⟩ := map_eq_some_iff.1 deadline
    exact ⟨⟨p,retry,pending,rfl⟩,due,deadline,le⟩

/-- After every run the index holds exactly the deadlines of the pending peers, the cached deadline is
the least of them, and the peers due are those whose deadline has come. -/
theorem run_indexes_deadlines (sha256 : List UInt8 → List UInt8) (ownNodeAddr : NodeAddr) (isLeafOnly : Bool)
    (operations : List Operation) :
    let start := if isLeafOnly then leafOnly ownNodeAddr else new ownNodeAddr
    let s := operations.foldl (apply sha256) start
    (∀ due p, toLex (due,p) ∈ s.pendingUpdateDeadlines ↔ s.pendingPeerDeadlineMs p = some due) ∧
    (∀ p, (s.pendingPeerDeadlineMs p).isSome = s.needsUpdate p) ∧
    (s.pendingUpdateDeadlineMs = none ↔ ∀ p, s.needsUpdate p = false) ∧
    (∀ due, s.pendingUpdateDeadlineMs = some due →
      (∃ p, s.pendingPeerDeadlineMs p = some due) ∧
        ∀ p later, s.pendingPeerDeadlineMs p = some later → due ≤ later) ∧
    ∀ o nowMs, (s.pendingPeersDue o nowMs).Nodup ∧
      ∀ p, p ∈ s.pendingPeersDue o nowMs ↔ ∃ due, s.pendingPeerDeadlineMs p = some due ∧ due ≤ nowMs := by
  intro start s
  have empty : start.Indexed := by
    cases isLeafOnly <;> exact ⟨by simp [start,leafOnly,new,pendingPeerDeadlineMs],rfl⟩
  have h : s.Indexed := List.foldlRecOn operations _ empty fun _ held operation _ =>
    apply_indexed sha256 held operation
  have pending (p : NodeAddr) : (s.pendingPeerDeadlineMs p).isSome = s.needsUpdate p := isSome_map
  refine ⟨h.deadlines,pending,?_,fun due least => ?_,fun o nowMs => ⟨?_,s.mem_pendingPeersDue o nowMs⟩⟩
  · rw [h.first,firstDeadline_eq_none,Finset.eq_empty_iff_forall_notMem]
    constructor
    · intro none p
      rw [← pending,isSome_eq_false_iff,isNone_iff_eq_none,eq_none_iff_forall_not_mem]
      exact fun due deadline => none _ ((h.deadlines due p).2 deadline)
    · intro idle entry mem
      have held := pending (ofLex entry).2
      rw [(h.deadlines (ofLex entry).1 (ofLex entry).2).1 mem,idle] at held
      cases held
  · obtain ⟨⟨p,mem⟩,le⟩ := firstDeadline_eq_some (h.first ▸ least)
    exact ⟨⟨p,(h.deadlines due p).1 mem⟩,fun p later deadline => le _ ((h.deadlines later p).2 deadline)⟩
  · have nodup : ((s.pendingUpdates.iterate o).map Sigma.fst).Nodup :=
      ((o.perm _).map _).nodup_iff.2 s.pendingUpdates.keys_nodup
    exact nodup.filter _

end Fips.Bloom.BloomState
