import Fips.Bloom.Announce
import Fips.Bloom.Fanout
import Fips.Tree.State

set_option autoImplicit false

namespace Fips.Bloom

open List

namespace BloomState

/-- What the filters of a node are built from, besides its peers. -/
def identity (s : BloomState) : NodeAddr × NodeMap Unit × Bool :=
  (s.ownNodeAddr,s.leafDependents,s.isLeafOnly)

@[simp] theorem identity_markUpdateNeeded (s : BloomState) (p : NodeAddr) :
    (s.markUpdateNeeded p).identity = s.identity := by
  unfold markUpdateNeeded
  cases s.pendingUpdates.lookup p with
  | some floor => rfl
  | none => rfl

theorem identity_markIfChanged (filters : OutgoingBloomFilters) (excludeFrom : NodeAddr) (s : BloomState)
    (peer : NodeAddr) : (markIfChanged filters excludeFrom s peer).identity = s.identity := by
  unfold markIfChanged
  split
  · rfl
  · split
    · split
      · rfl
      · exact identity_markUpdateNeeded s peer
    · exact identity_markUpdateNeeded s peer

theorem identity_markChangedPeers (sha256 : List UInt8 → List UInt8)
    (s : BloomState) (o : IterationOrder Unit) (oPeers : IterationOrder BloomFilter) (excludeFrom : NodeAddr)
    (peers : List NodeAddr) (peerFilters : NodeMap BloomFilter) :
    (s.markChangedPeers sha256 o oPeers excludeFrom peers peerFilters).identity = s.identity := by
  unfold markChangedPeers
  generalize s.prepareOutgoingFilters sha256 o oPeers peerFilters = filters
  induction peers generalizing s with
  | nil => rfl
  | cons peer peers ih => rw [foldl_cons,ih,identity_markIfChanged]

end BloomState

structure ActivePeer where
  inboundFilter : Option BloomFilter
  filterSequence : UInt64
  filterReceivedAt : Nat
  lastSeen : Nat

def ActivePeer.updateFilter (p : ActivePeer) (filter : BloomFilter) (sequence : UInt64) (nowMs : Nat) :
    ActivePeer :=
  { p with
    inboundFilter := some filter
    filterSequence := sequence
    filterReceivedAt := nowMs
    lastSeen := nowMs }

structure Node where
  nodeAddr : NodeAddr
  isLeafOnly : Bool
  treeState : Tree.TreeState
  bloomState : BloomState
  peers : NodeMap ActivePeer

namespace Node

/-- The peer is our parent or names us as its parent. -/
def isTreePeer (n : Node) (peer : NodeAddr) : Bool :=
  !n.treeState.isRoot && n.treeState.myDeclaration.parentId = peer ||
    (n.treeState.peerDeclarations.lookup peer).any fun declaration => declaration.parentId = n.nodeAddr

/-- One turn of the loop of `peer_inbound_filters`. -/
def collectFilter (n : Node) (filters : NodeMap BloomFilter) (entry : Sigma fun _ : NodeAddr => ActivePeer) :
    NodeMap BloomFilter :=
  match entry.2.inboundFilter with
  | some filter => if !n.isLeafOnly && n.isTreePeer entry.1 then filters.insert entry.1 filter else filters
  | none => filters

def peerInboundFilters (n : Node) (o : IterationOrder ActivePeer) : NodeMap BloomFilter :=
  (n.peers.iterate o).foldl n.collectFilter ∅

structure Traversals where
  peers : IterationOrder ActivePeer
  filters : IterationOrder BloomFilter
  dependents : IterationOrder Unit

section Handler
-- SHA-256, and whether the estimated false positive rate of a filter is above the
-- configured cap; the estimate is in floating point and left open here
variable (sha256 : List UInt8 → List UInt8) (aboveCap : BloomFilter → Bool)

def acceptFilter (n : Node) (t : Traversals) (nowMs : Nat) (sender : NodeAddr) (peer : ActivePeer)
    (announce : FilterAnnounce) : Node :=
  let stored := { n with
    peers := n.peers.insert sender (peer.updateFilter announce.filter announce.sequence nowMs) }
  { stored with
    bloomState := stored.bloomState.markChangedPeers sha256 t.dependents t.filters sender
      ((stored.peers.iterate t.peers).map Sigma.fst) (stored.peerInboundFilters t.peers) }

def handleFilterAnnounce (n : Node) (t : Traversals) (nowMs : Nat) (sender : NodeAddr)
    (payload : List UInt8) : Node :=
  match FilterAnnounce.decode payload with
  | .error _ => n
  | .ok announce =>
    if !announce.isValid then n
    else if !announce.isV1Compliant then n
    else
      match n.peers.lookup sender with
      | none => n
      | some peer =>
        if announce.sequence ≤ peer.filterSequence then n
        else if aboveCap announce.filter then n
        else n.acceptFilter sha256 t nowMs sender peer announce

end Handler

theorem lookup_collectFilter (n : Node) (filters : NodeMap BloomFilter)
    (entry : Sigma fun _ : NodeAddr => ActivePeer) (a : NodeAddr) (absent : filters.lookup entry.1 = none)
    (f : BloomFilter) :
    (n.collectFilter filters entry).lookup a = some f ↔
      filters.lookup a = some f ∨
        n.isLeafOnly = false ∧ n.isTreePeer a = true ∧ a = entry.1 ∧ entry.2.inboundFilter = some f := by
  unfold collectFilter
  cases h : entry.2.inboundFilter with
  | none => simp
  | some filter =>
    by_cases same : a = entry.1
    · subst same
      by_cases kept : (!n.isLeafOnly && n.isTreePeer entry.1) = true
      · simp only [absent]
        simp only [Bool.and_eq_true,Bool.not_eq_true'] at kept
        simp [kept]
      · simp only [if_neg kept,iff_self_or]
        simp only [Bool.and_eq_true,Bool.not_eq_true',not_and] at kept
        rintro ⟨leaf,tree,-⟩
        exact absurd tree (kept leaf)
    · by_cases kept : (!n.isLeafOnly && n.isTreePeer entry.1) = true
      · simp [kept,same]
      · simp [kept,same]

theorem lookup_foldl_collectFilter (n : Node) (entries : List (Sigma fun _ : NodeAddr => ActivePeer))
    (unique : entries.NodupKeys) (a : NodeAddr) (f : BloomFilter) :
    (entries.foldl n.collectFilter ∅).lookup a = some f ↔
      n.isLeafOnly = false ∧ n.isTreePeer a = true ∧ ∃ peer, ⟨a,peer⟩ ∈ entries ∧
        peer.inboundFilter = some f := by
  induction entries using List.reverseRecOn generalizing a f with
  | nil => simp
  | append_singleton entries entry ih =>
    rw [List.NodupKeys,List.keys,map_append,nodup_append] at unique
    obtain ⟨earlier,-,disjoint⟩ := unique
    have absent : (entries.foldl n.collectFilter ∅).lookup entry.1 = none := by
      rw [Option.eq_none_iff_forall_ne_some]
      intro g known
      obtain ⟨-,-,peer,mem,-⟩ := (ih earlier entry.1 g).1 known
      exact disjoint _ (mem_map_of_mem mem) _ (by simp) rfl
    rw [foldl_append,foldl_cons,foldl_nil,lookup_collectFilter n _ entry a absent,ih earlier]
    simp only [mem_append,mem_singleton]
    constructor
    · rintro (⟨leaf,tree,peer,mem,inbound⟩ | ⟨leaf,tree,rfl,inbound⟩)
      · exact ⟨leaf,tree,peer,.inl mem,inbound⟩
      · exact ⟨leaf,tree,entry.2,.inr rfl,inbound⟩
    · rintro ⟨leaf,tree,peer,mem | rfl,inbound⟩
      · exact .inl ⟨leaf,tree,peer,mem,inbound⟩
      · exact .inr ⟨leaf,tree,rfl,inbound⟩

theorem lookup_peerInboundFilters (n : Node) (o : IterationOrder ActivePeer)
    (a : NodeAddr) (f : BloomFilter) :
    (n.peerInboundFilters o).lookup a = some f ↔
      n.isLeafOnly = false ∧ n.isTreePeer a = true ∧
        ∃ peer, n.peers.lookup a = some peer ∧ peer.inboundFilter = some f := by
  have unique : (n.peers.iterate o).NodupKeys :=
    (perm_nodupKeys (o.perm n.peers.entries)).2 n.peers.nodupKeys
  rw [peerInboundFilters,lookup_foldl_collectFilter n _ unique]
  simp only [NodeMap.mem_iterate]

@[simp] theorem identity_acceptFilter (sha256 : List UInt8 → List UInt8) (n : Node)
    (t : Traversals) (nowMs : Nat) (sender : NodeAddr) (peer : ActivePeer) (announce : FilterAnnounce) :
    (n.acceptFilter sha256 t nowMs sender peer announce).bloomState.identity = n.bloomState.identity :=
  n.bloomState.identity_markChangedPeers sha256 _ _ _ _ _

theorem lookup_acceptFilter (sha256 : List UInt8 → List UInt8) (n : Node) (t : Traversals) (nowMs : Nat)
    (sender : NodeAddr) (peer : ActivePeer) (announce : FilterAnnounce) (a : NodeAddr) (f : BloomFilter) :
    ((n.acceptFilter sha256 t nowMs sender peer announce).peerInboundFilters t.peers).lookup a = some f ↔
      n.isLeafOnly = false ∧ n.isTreePeer a = true ∧
        if a = sender then announce.filter = f
        else ∃ peer, n.peers.lookup a = some peer ∧ peer.inboundFilter = some f := by
  have tree : (n.acceptFilter sha256 t nowMs sender peer announce).isTreePeer a = n.isTreePeer a := rfl
  rw [lookup_peerInboundFilters,tree]
  apply and_congr_right
  by_cases own : a = sender
  · subst own
    simp [acceptFilter,ActivePeer.updateFilter]
  · simp [acceptFilter,own]

theorem handleFilterAnnounce_accepted (sha256 : List UInt8 → List UInt8)
    (aboveCap : BloomFilter → Bool) (n : Node) (t : Traversals) (nowMs : Nat) (sender : NodeAddr)
    {payload : List UInt8} {announce : FilterAnnounce} {peer : ActivePeer}
    (decoded : FilterAnnounce.decode payload = .ok announce) (known : n.peers.lookup sender = some peer)
    (fresh : peer.filterSequence < announce.sequence) (likely : aboveCap announce.filter = false) :
    n.handleFilterAnnounce sha256 aboveCap t nowMs sender payload =
      n.acceptFilter sha256 t nowMs sender peer announce := by
  obtain ⟨length,-,-,-,v1,bits,count⟩ := FilterAnnounce.decode_eq_ok.1 decoded
  have valid : announce.isValid = true := by
    have size : announce.filter.bits.length = 1024 := by
      rw [bits,length_drop,length]
      rfl
    simp [FilterAnnounce.isValid,FilterAnnounce.filterSizeBytes,BloomFilter.numBytes,v1,
      size,count,v1SizeClass]
  have compliant : announce.isV1Compliant = true := by simp [FilterAnnounce.isV1Compliant,v1]
  have newer : ¬ announce.sequence ≤ peer.filterSequence := UInt64.not_le.2 fresh
  simp only [handleFilterAnnounce,decoded,valid,compliant,known,if_neg newer,likely]
  rfl

end Node

end Fips.Bloom
