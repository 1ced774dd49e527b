import Fips.Bloom.Node

set_option autoImplicit false

/-! Which destinations of an inbound filter survive in the outgoing ones. -/

namespace Fips.Bloom

open BloomFilter FilterAnnounce

namespace Node
variable (sha256 : List UInt8 → List UInt8)

def outgoingFilter (n : Node) (t : Traversals) (q : NodeAddr) : BloomFilter :=
  n.bloomState.computeOutgoingFilter sha256 t.dependents t.filters q (n.peerInboundFilters t.peers)

/-- A bit that the node's own identities or the filter of a tree peer other than
`q` contributes to what `q` is told. -/
def Contributed (n : Node) (t : Traversals) (q : NodeAddr) (index : Nat) : Prop :=
  (n.bloomState.baseFilter sha256 t.dependents).getBit index = true ∨
    ∃ r f, r ≠ q ∧ (n.peerInboundFilters t.peers).lookup r = some f ∧ f.numBits = defaultFilterSizeBits ∧
      f.getBit index = true

theorem getBit_outgoingFilter (n : Node) (t : Traversals) (q : NodeAddr)
    (nonleaf : n.bloomState.isLeafOnly = false) (index : Nat) :
    (n.outgoingFilter sha256 t q).getBit index = true ↔ n.Contributed sha256 t q index := by
  rw [outgoingFilter,(BloomState.computeOutgoingFilter_spec sha256 _ _ _ _ _).2.2,nonleaf]
  simp only [Sigma.exists,NodeMap.mem_iterate,true_and]
  apply or_congr_right
  constructor
  · rintro ⟨r,f,known,differ,size,bit⟩
    exact ⟨r,f,differ,known,size,bit⟩
  · rintro ⟨r,f,differ,known,size,bit⟩
    exact ⟨r,f,known,differ,size,bit⟩

theorem numBits_of_decode {payload : List UInt8} {announce : FilterAnnounce}
    (decoded : decode payload = .ok announce) :
    announce.filter.numBits = defaultFilterSizeBits := by
  obtain ⟨length,-,-,-,-,bits,-⟩ := decode_eq_ok.1 decoded
  rw [announce.filter.numBits_eq,bits,List.length_drop,length]
  rfl

/-- The destinations of an accepted filter all stay in what another peer is told
exactly if the probes that the filter itself does not use are contributed too;
with five or more hash functions there are none. -/
theorem aggregation_complete_iff (n : Node) (t : Traversals) (p q : NodeAddr) (payload : List UInt8)
    (announce : FilterAnnounce) (decoded : decode payload = .ok announce)
    (stored : (n.peerInboundFilters t.peers).lookup p = some announce.filter)
    (nonleaf : n.bloomState.isLeafOnly = false) (other : q ≠ p) :
    (∀ x, announce.filter.contains sha256 x = true → (n.outgoingFilter sha256 t q).contains sha256 x = true) ↔
      ∀ x, announce.filter.contains sha256 x = true →
        ∀ i, announce.hashCount.toNat ≤ i → i < defaultHashCount.toNat →
          n.Contributed sha256 t q
            (announce.filter.hashFromPair (hashPair sha256 x.asBytes) i.toUInt8) := by
  have size := numBits_of_decode decoded
  obtain ⟨outSize,outCount,-⟩ :=
    n.bloomState.computeOutgoingFilter_spec sha256 t.dependents t.filters q (n.peerInboundFilters t.peers)
  have count : announce.filter.hashCount = announce.hashCount :=
    (decode_eq_ok.1 decoded).2.2.2.2.2.2
  have probe (pair : UInt64 × UInt64) (k : UInt8) :
      (n.outgoingFilter sha256 t q).hashFromPair pair k = announce.filter.hashFromPair pair k := by
    rw [hashFromPair,hashFromPair,size,outgoingFilter,outSize]
  have outgoing (x : NodeAddr) : (n.outgoingFilter sha256 t q).contains sha256 x = true ↔
      ∀ i < defaultHashCount.toNat, n.Contributed sha256 t q
        (announce.filter.hashFromPair (hashPair sha256 x.asBytes) i.toUInt8) := by
    rw [contains,containsHashPair_iff]
    simp only [probe,getBit_outgoingFilter sha256 n t q nonleaf]
    rw [outgoingFilter,outCount]
  simp only [outgoing]
  constructor
  · intro complete x mem i _ small
    exact complete x mem i small
  · intro covered x mem i small
    rcases Nat.lt_or_ge i announce.hashCount.toNat with used | unused
    · have inbound := mem
      rw [contains,containsHashPair_iff,count] at inbound
      exact .inr ⟨p,announce.filter,other.symm,stored,size,inbound i used⟩
    · exact covered x mem i unused small

section Sample

/-- SHA-256 of addresses 1 and 4, the only ones that matter below. -/
def digests (data : List UInt8) : List UInt8 :=
  if data = NodeAddr.asBytes 1 then
    [124,60,205,16,187,126,195,123,70,211,121,38,174,98,116,38,127,0,122,52,174,175,21,200,130,
      167,21,167,243,48,5,41]
  else if data = NodeAddr.asBytes 4 then
    [101,190,85,79,166,24,139,24,26,145,202,247,202,131,126,170,168,190,95,121,220,154,43,157,174,
      203,80,172,62,216,6,111]
  else []

theorem hashPair_four : hashPair digests (NodeAddr.asBytes 4) =
    (1768534381247708773,12285401741277171994) := by
  decide +kernel

section Samples

variable (hashCount : UInt8)

def firstBit (ne : hashCount ≠ 0) : BloomFilter :=
  setBit ⟨List.replicate 1024 0,8192,hashCount,by rw [List.length_replicate],by decide,ne⟩ 7781

def firstBitPayload (ne : hashCount ≠ 0) : List UInt8 :=
  u64ToLeBytes 1 ++ hashCount :: v1SizeClass :: (firstBit hashCount ne).bits

theorem decode_firstBitPayload (ne : hashCount ≠ 0) :
    decode (firstBitPayload hashCount ne) = .ok (.new (firstBit hashCount ne) 1) := by
  have size : (firstBit hashCount ne).bits.length = 1024 := by
    rw [firstBit,setBit,PackedBits.length_setBit,List.length_replicate]
  have valid : (new (firstBit hashCount ne) 1).isValid = true := by
    simp only [FilterAnnounce.isValid,FilterAnnounce.new,numBytes,size]
    rfl
  refine @FilterAnnounce.decode_encode _ rfl (messageType :: firstBitPayload hashCount ne) ?_
  rw [encode,valid]
  rfl

theorem getBit_firstBit (ne : hashCount ≠ 0) (index : Nat) :
    (firstBit hashCount ne).getBit index = decide (index = 7781) := by
  rw [firstBit,getBit_setBit _ (show 7781 < 8192 by decide)]
  simp only [getBit,PackedBits.bitAt_replicate,Bool.false_or]

def sampleNode : Node where
  nodeAddr := 1
  isLeafOnly := false
  treeState := (Tree.TreeState.new 1 0).storePeer ⟨2,1,1,0⟩ (.extend ⟨2,1,0⟩ (.rootWithMeta 1 1 0))
  bloomState := .new 1
  peers := (AList.insert 3 ⟨none,0,0,0⟩ ∅).insert 2 ⟨none,0,0,0⟩

def aboveDefaultCap (f : BloomFilter) : Bool :=
  f.numBits^f.hashCount.toNat < 5 * f.countOnes^f.hashCount.toNat

def sampleTraversals : Traversals := ⟨⟨id,List.Perm.refl⟩,⟨id,List.Perm.refl⟩,⟨id,List.Perm.refl⟩⟩

def sampleNext (ne : hashCount ≠ 0) : Node :=
  sampleNode.handleFilterAnnounce digests aboveDefaultCap sampleTraversals 0 2 (firstBitPayload hashCount ne)

theorem countOnes_firstBit (ne : hashCount ≠ 0) : (firstBit hashCount ne).countOnes = 1 := by
  have bits : ((PackedBits.setBit (List.replicate 1024 0) 7781).map fun byte =>
      (List.range 8).countP (PackedBits.bit byte)).sum = 1 := by decide +kernel
  exact bits

theorem sampleNext_eq (ne : hashCount ≠ 0) (likely : 5 < 8192^hashCount.toNat) :
    sampleNext hashCount ne =
      sampleNode.acceptFilter digests sampleTraversals 0 2 ⟨none,0,0,0⟩ (.new (firstBit hashCount ne) 1) := by
  have known : sampleNode.peers.lookup 2 = some ⟨none,0,0,0⟩ := by simp [sampleNode]
  have below : aboveDefaultCap (firstBit hashCount ne) = false := by
    have count : (firstBit hashCount ne).hashCount = hashCount := rfl
    have size : (firstBit hashCount ne).numBits = 8192 := rfl
    rw [aboveDefaultCap,countOnes_firstBit,count,size]
    simp only [Nat.one_pow,decide_eq_false_iff_not]
    omega
  exact sampleNode.handleFilterAnnounce_accepted digests aboveDefaultCap sampleTraversals 0 2
    (decode_firstBitPayload hashCount ne) known (show (0 : UInt64) < 1 by decide) below

theorem lookup_sampleNext (ne : hashCount ≠ 0) (likely : 5 < 8192^hashCount.toNat)
    (a : NodeAddr) (f : BloomFilter) :
    ((sampleNext hashCount ne).peerInboundFilters sampleTraversals.peers).lookup a = some f ↔
      a = 2 ∧ firstBit hashCount ne = f := by
  have tree : sampleNode.isTreePeer a = true ↔ a = 2 := by
    by_cases own : a = 2
    · subst own
      simp [sampleNode,isTreePeer,Tree.TreeState.storePeer]
    · simp [sampleNode,isTreePeer,Tree.TreeState.storePeer,Tree.TreeState.isRoot,Tree.TreeState.new,
        own,-AList.insert_empty]
  have leaf : sampleNode.isLeafOnly = false := rfl
  rw [sampleNext_eq hashCount ne likely,lookup_acceptFilter,tree,leaf]
  simp only [true_and]
  apply and_congr_right
  intro own
  rw [if_pos own,FilterAnnounce.new]

theorem sampleNext_identity (ne : hashCount ≠ 0) (likely : 5 < 8192^hashCount.toNat) :
    (sampleNext hashCount ne).bloomState.ownNodeAddr = 1 ∧
      (sampleNext hashCount ne).bloomState.leafDependents = ∅ ∧
      (sampleNext hashCount ne).bloomState.isLeafOnly = false := by
  rw [sampleNext_eq hashCount ne likely]
  have same := identity_acceptFilter digests sampleNode sampleTraversals 0 2 ⟨none,0,0,0⟩
    (.new (firstBit hashCount ne) 1)
  obtain ⟨own,rest⟩ := Prod.ext_iff.1 same
  obtain ⟨dependents,leaf⟩ := Prod.ext_iff.1 rest
  exact ⟨own,dependents,leaf⟩

end Samples

/-- A kept destination: with five hash functions nothing is lost. -/
theorem sample_aggregation_complete :
    ((sampleNext 5 (by decide)).peerInboundFilters sampleTraversals.peers).lookup 2 =
        some (firstBit 5 (by decide)) ∧
      ∀ x, (firstBit 5 (by decide)).contains digests x = true →
        ((sampleNext 5 (by decide)).outgoingFilter digests sampleTraversals 3).contains digests x = true := by
  have stored := (lookup_sampleNext 5 (by decide) (by decide) 2 _).2 ⟨rfl,rfl⟩
  refine ⟨stored,?_⟩
  have nonleaf := (sampleNext_identity 5 (by decide) (by decide)).2.2
  apply (aggregation_complete_iff digests (sampleNext 5 (by decide)) sampleTraversals 2 3 _ _
    (decode_firstBitPayload 5 (by decide)) stored nonleaf (by decide)).2
  intro x _ i used small
  exact absurd (Nat.lt_of_lt_of_le small used) (Nat.lt_irrefl _)

theorem contains_firstBit : (firstBit 1 (by decide)).contains digests 4 = true := by
  rw [contains,containsHashPair_iff]
  intro i small
  have zero : i = 0 := by
    have one : (firstBit 1 (by decide)).hashCount.toNat = 1 := rfl
    omega
  subst zero
  decide +kernel

theorem secondBit_not_contributed :
    ¬ (sampleNext 1 (by decide)).Contributed digests sampleTraversals 3 3967 := by
  obtain ⟨own,dependents,nonleaf⟩ := sampleNext_identity 1 (by decide) (by decide)
  rintro (base | ⟨r,f,-,known,-,bit⟩)
  · have none : NodeMap.iterate sampleTraversals.dependents ∅ = [] := rfl
    rw [BloomState.baseFilter,nonleaf,own,BloomState.insertDependents,dependents,none] at base
    simp only [Bool.not_false,if_true,List.foldl_nil,BloomFilter.insert,BloomFilter.getBit_insertHashPair,
      getBit_new] at base
    exact absurd base (by decide)
  · obtain ⟨-,rfl⟩ := (lookup_sampleNext 1 (by decide) (by decide) r f).1 known
    rw [getBit_firstBit] at bit
    exact absurd bit (by decide)

/-- A dropped destination: the filter with one hash function contains address 4,
the one advertised to peer 3 does not. -/
theorem sample_aggregation_drops :
    decode (firstBitPayload 1 (by decide)) = .ok (.new (firstBit 1 (by decide)) 1) ∧
      ((sampleNext 1 (by decide)).peerInboundFilters sampleTraversals.peers).lookup 2 =
        some (firstBit 1 (by decide)) ∧
      (sampleNext 1 (by decide)).bloomState.isLeafOnly = false ∧
      (firstBit 1 (by decide)).contains digests 4 = true ∧
      ((sampleNext 1 (by decide)).outgoingFilter digests sampleTraversals 3).contains digests 4 = false := by
  have nonleaf := (sampleNext_identity 1 (by decide) (by decide)).2.2
  refine ⟨decode_firstBitPayload 1 (by decide),(lookup_sampleNext 1 (by decide) (by decide) 2 _).2 ⟨rfl,rfl⟩,
    nonleaf,contains_firstBit,?_⟩
  rw [Bool.eq_false_iff,ne_eq,contains,containsHashPair_iff]
  intro contained
  obtain ⟨size,count,-⟩ := (sampleNext 1 (by decide)).bloomState.computeOutgoingFilter_spec digests
    sampleTraversals.dependents sampleTraversals.filters 3
    ((sampleNext 1 (by decide)).peerInboundFilters sampleTraversals.peers)
  have second := contained 1 (by rw [outgoingFilter,count]; decide)
  rw [hashPair_four,hashFromPair,outgoingFilter,size,← outgoingFilter,
    getBit_outgoingFilter digests _ _ _ nonleaf] at second
  have index : ((1768534381247708773 : UInt64) + (Nat.toUInt8 1).toUInt64 * 12285401741277171994).toNat %
      defaultFilterSizeBits = 3967 := by decide +kernel
  rw [index] at second
  exact secondBit_not_contributed second

end Sample

end Node

end Fips.Bloom
