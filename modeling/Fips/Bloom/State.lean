import Fips.Bloom.Filter

set_option autoImplicit false

namespace Fips.Bloom

def saturatingAdd (a b : Nat) : Nat := min (a + b) u64Max

/-- Times are milliseconds. A hash set is a hash map to `Unit`; the ordered set of
deadlines is compared by deadline first. -/
structure BloomState where
  ownNodeAddr : NodeAddr
  leafDependents : NodeMap Unit
  isLeafOnly : Bool
  updateDebounceMs : Nat
  lastUpdateSent : NodeMap Nat
  pendingUpdates : NodeMap Nat
  pendingUpdateDeadlines : Finset (Nat ×ₗ NodeAddr)
  pendingUpdateDeadlineMs : Option Nat
  sequence : Nat
  lastSentFilters : NodeMap BloomFilter

/-- The input of one fanout: all bits, and the bits that came at least twice. -/
structure OutgoingBloomFilters where
  peers : Option (NodeMap BloomFilter)
  combined : List UInt8
  shared : List UInt8
  hashCount : UInt8

namespace OutgoingBloomFilters

def excluded (o : OutgoingBloomFilters) (peer : NodeAddr) : Option BloomFilter :=
  (o.peers.bind fun peers => peers.lookup peer).filter fun filter => filter.numBytes = o.combined.length

def without (o : OutgoingBloomFilters) (filter : BloomFilter) : List UInt8 :=
  List.zipWith (· &&& ·) o.combined
    (List.zipWith (fun excluded shared => ~~~excluded ||| shared) filter.bits o.shared)

/-- An error is the failed `expect`. -/
def forPeer (o : OutgoingBloomFilters) (peer : NodeAddr) : Except BloomError BloomFilter :=
  match o.excluded peer with
  | some filter => BloomFilter.fromBytes (o.without filter) o.hashCount
  | none => BloomFilter.fromBytes o.combined o.hashCount

def matchesLast (o : OutgoingBloomFilters) (peer : NodeAddr) (last : BloomFilter) : Bool :=
  if last.numBytes ≠ o.combined.length ∨ last.hashCount ≠ o.hashCount then false
  else
    match o.excluded peer with
    | some filter => (last.bits.zip (o.without filter)).all fun pair => pair.1 == pair.2
    | none => last.bits == o.combined

end OutgoingBloomFilters

namespace BloomState

def new (ownNodeAddr : NodeAddr) : BloomState where
  ownNodeAddr := ownNodeAddr
  leafDependents := ∅
  isLeafOnly := false
  updateDebounceMs := 500
  lastUpdateSent := ∅
  pendingUpdates := ∅
  pendingUpdateDeadlines := ∅
  pendingUpdateDeadlineMs := none
  sequence := 0
  lastSentFilters := ∅

def needsUpdate (s : BloomState) (peer : NodeAddr) : Bool := (s.pendingUpdates.lookup peer).isSome

def pendingPeerDeadlineMs (s : BloomState) (peer : NodeAddr) : Option Nat :=
  (s.pendingUpdates.lookup peer).map fun retry =>
    max retry (((s.lastUpdateSent.lookup peer).map fun last => saturatingAdd last s.updateDebounceMs).getD 0)

def firstDeadline (deadlines : Finset (Nat ×ₗ NodeAddr)) : Option Nat :=
  Option.map (fun entry => (ofLex entry).1) deadlines.min

def updatePendingDeadline (s : BloomState) (peer : NodeAddr) (previous : Option Nat) : BloomState :=
  let cleared := match previous with
    | some due => s.pendingUpdateDeadlines.erase (toLex (due,peer))
    | none => s.pendingUpdateDeadlines
  let deadlines := match s.pendingPeerDeadlineMs peer with
    | some due => insert (toLex (due,peer)) cleared
    | none => cleared
  { s with pendingUpdateDeadlines := deadlines, pendingUpdateDeadlineMs := firstDeadline deadlines }

def markUpdateNeeded (s : BloomState) (peer : NodeAddr) : BloomState :=
  match s.pendingUpdates.lookup peer with
  | some _ => s
  | none => { s with pendingUpdates := s.pendingUpdates.insert peer 0 }.updatePendingDeadline peer none

section Filters
variable (sha256 : List UInt8 → List UInt8)
variable (s : BloomState) (o : IterationOrder Unit)

def insertDependents (filter : BloomFilter) : BloomFilter :=
  (s.leafDependents.iterate o).foldl (fun filter dep => filter.insert sha256 dep.1) filter

def baseFilter : BloomFilter :=
  let filter := BloomFilter.new.insert sha256 s.ownNodeAddr
  if !s.isLeafOnly then s.insertDependents sha256 o filter else filter

def computeOutgoingFilter (oPeers : IterationOrder BloomFilter)
    (excludePeer : NodeAddr) (peerFilters : NodeMap BloomFilter) : BloomFilter :=
  if s.isLeafOnly then s.baseFilter sha256 o
  else
    let filter := s.insertDependents sha256 o (BloomFilter.new.insert sha256 s.ownNodeAddr)
    (peerFilters.iterate oPeers).foldl
      (fun filter peer => if peer.1 ≠ excludePeer then filter.mergeOrSkip peer.2 else filter) filter

/-- One turn of the loop of `prepare_outgoing_filters`. -/
def absorb (bytes : List UInt8 × List UInt8) (incoming : List UInt8) : List UInt8 × List UInt8 :=
  (List.zipWith (· ||| ·) bytes.1 incoming,
    List.zipWith (· ||| ·) bytes.2 (List.zipWith (· &&& ·) bytes.1 incoming))

/-- The filters that loop runs over. -/
def fanoutInputs (base : BloomFilter) (entries : List (Sigma fun _ : NodeAddr => BloomFilter)) :
    List BloomFilter :=
  (entries.map Sigma.snd).filter fun filter => !s.isLeafOnly && filter.numBits == base.numBits

def prepareOutgoingFilters (oPeers : IterationOrder BloomFilter)
    (peerFilters : NodeMap BloomFilter) : OutgoingBloomFilters :=
  let base := s.baseFilter sha256 o
  let bytes := (s.fanoutInputs base (peerFilters.iterate oPeers)).foldl
    (fun bytes filter => absorb bytes filter.bits)
    (base.bits,List.replicate base.bits.length 0)
  { peers := if !s.isLeafOnly then some peerFilters else none
    combined := bytes.1
    shared := bytes.2
    hashCount := base.hashCount }

/-- One turn of the loop of `mark_changed_peers`. -/
def markIfChanged (filters : OutgoingBloomFilters) (excludeFrom : NodeAddr)
    (s : BloomState) (peer : NodeAddr) :
    BloomState :=
  if peer = excludeFrom then s
  else
    match s.lastSentFilters.lookup peer with
    | some last => if filters.matchesLast peer last then s else s.markUpdateNeeded peer
    | none => s.markUpdateNeeded peer

def markChangedPeers (oPeers : IterationOrder BloomFilter)
    (excludeFrom : NodeAddr) (peerAddrs : List NodeAddr) (peerFilters : NodeMap BloomFilter) : BloomState :=
  peerAddrs.foldl (markIfChanged (s.prepareOutgoingFilters sha256 o oPeers peerFilters) excludeFrom) s

end Filters

end BloomState

end Fips.Bloom
