import Fips.Lib.Contribution
import Fips.Bloom.State

set_option autoImplicit false

/-! The shared fanout view gives each peer the filter recomputed for it. -/

namespace Fips.Bloom

open PackedBits BloomFilter List

namespace BloomFilter
variable (sha256 : List UInt8 → List UInt8)

@[simp] theorem numBits_insert (f : BloomFilter) (a : NodeAddr) : (f.insert sha256 a).numBits = f.numBits :=
  numBits_insertHashPair f _

@[simp] theorem hashCount_insert (f : BloomFilter) (a : NodeAddr) :
    (f.insert sha256 a).hashCount = f.hashCount := hashCount_insertHashPair f _

theorem probes_congr {f g : BloomFilter} (size : f.numBits = g.numBits) (count : f.hashCount = g.hashCount)
    (pair : UInt64 × UInt64) : f.probes pair = g.probes pair := by
  simp [probes,hashFromPair,size,count]

theorem insert_comm (f : BloomFilter) (a b : NodeAddr) :
    (f.insert sha256 a).insert sha256 b = (f.insert sha256 b).insert sha256 a := by
  apply ext_getBit
  · simp
  · simp
  · intro index
    have first := probes_congr (numBits_insert sha256 f a) (hashCount_insert sha256 f a)
    have second := probes_congr (numBits_insert sha256 f b) (hashCount_insert sha256 f b)
    simp only [insert,getBit_insertHashPair] at first second ⊢
    rw [first,second,Bool.or_right_comm]

theorem foldl_mergeOrSkip (q : NodeAddr) (entries : List (Sigma fun _ : NodeAddr => BloomFilter))
    (f : BloomFilter) :
    let merged := entries.foldl (fun f peer => if peer.1 ≠ q then f.mergeOrSkip peer.2 else f) f
    merged.numBits = f.numBits ∧ merged.hashCount = f.hashCount ∧
      ∀ index, merged.getBit index = true ↔ f.getBit index = true ∨
        ∃ peer ∈ entries, peer.1 ≠ q ∧ peer.2.numBits = f.numBits ∧ peer.2.getBit index = true := by
  induction entries generalizing f with
  | nil => simp
  | cons peer entries ih =>
    by_cases same : peer.1 = q
    · simpa [same] using ih f
    · obtain ⟨size,count,bits⟩ := ih (f.mergeOrSkip peer.2)
      simp only [foldl_cons,if_pos same] at size count bits ⊢
      refine ⟨size.trans (numBits_mergeOrSkip _ _),count.trans (hashCount_mergeOrSkip _ _),?_⟩
      intro index
      rw [bits,getBit_mergeOrSkip]
      simp [same,or_assoc]

end BloomFilter

namespace BloomState
variable (sha256 : List UInt8 → List UInt8)

theorem foldl_insert_size (dependents : List (Sigma fun _ : NodeAddr => Unit)) (f : BloomFilter) :
    let inserted := dependents.foldl (fun f dep => f.insert sha256 dep.1) f
    inserted.numBits = f.numBits ∧ inserted.hashCount = f.hashCount := by
  induction dependents generalizing f with
  | nil => exact ⟨rfl,rfl⟩
  | cons dep dependents ih => simpa using ih (f.insert sha256 dep.1)

variable (s : BloomState)

theorem insertDependents_order (o o' : IterationOrder Unit) (f : BloomFilter) :
    s.insertDependents sha256 o f = s.insertDependents sha256 o' f := by
  have perm : (s.leafDependents.iterate o).Perm (s.leafDependents.iterate o') :=
    (o.perm _).trans (o'.perm _).symm
  have : RightCommutative fun (f : BloomFilter) (dep : Sigma fun _ : NodeAddr => Unit) =>
      f.insert sha256 dep.1 := ⟨fun f a b => insert_comm sha256 f a.1 b.1⟩
  exact perm.foldl_eq f

theorem baseFilter_order (o o' : IterationOrder Unit) :
    s.baseFilter sha256 o = s.baseFilter sha256 o' := by
  simp only [baseFilter,s.insertDependents_order sha256 o o']

theorem baseFilter_params (o : IterationOrder Unit) :
    (s.baseFilter sha256 o).numBits = defaultFilterSizeBits ∧
      (s.baseFilter sha256 o).hashCount = defaultHashCount := by
  simp only [baseFilter]
  split
  · obtain ⟨size,count⟩ := foldl_insert_size sha256 (s.leafDependents.iterate o)
      (BloomFilter.new.insert sha256 s.ownNodeAddr)
    exact ⟨size.trans (numBits_insert sha256 _ _),count.trans (hashCount_insert sha256 _ _)⟩
  · exact ⟨numBits_insert sha256 _ _,hashCount_insert sha256 _ _⟩

/-- The outgoing filter has the default parameters, and the bits of the node's own
identities and of the other peers' filters of that size. -/
theorem computeOutgoingFilter_spec (o : IterationOrder Unit) (oPeers : IterationOrder BloomFilter)
    (q : NodeAddr) (peerFilters : NodeMap BloomFilter) :
    (s.computeOutgoingFilter sha256 o oPeers q peerFilters).numBits = defaultFilterSizeBits ∧
      (s.computeOutgoingFilter sha256 o oPeers q peerFilters).hashCount = defaultHashCount ∧
      ∀ index, (s.computeOutgoingFilter sha256 o oPeers q peerFilters).getBit index = true ↔
        (s.baseFilter sha256 o).getBit index = true ∨ s.isLeafOnly = false ∧
          ∃ peer ∈ peerFilters.iterate oPeers,
            peer.1 ≠ q ∧ peer.2.numBits = defaultFilterSizeBits ∧ peer.2.getBit index = true := by
  obtain ⟨baseSize,baseCount⟩ := s.baseFilter_params sha256 o
  cases leaf : s.isLeafOnly with
  | true => simp [computeOutgoingFilter,leaf,baseSize,baseCount]
  | false =>
    have base : s.baseFilter sha256 o =
        s.insertDependents sha256 o (BloomFilter.new.insert sha256 s.ownNodeAddr) := by
      simp [baseFilter,leaf]
    obtain ⟨size,count,bits⟩ := foldl_mergeOrSkip q (peerFilters.iterate oPeers) (s.baseFilter sha256 o)
    rw [baseSize] at size bits
    rw [baseCount] at count
    simp only [computeOutgoingFilter,leaf,← base,true_and]
    exact ⟨size,count,bits⟩

/-- The fanout loop tallies each bit. -/
theorem foldl_absorb (inputs : List BloomFilter) (bytes : List UInt8 × List UInt8) (n : Nat)
    (all : bytes.1.length = n) (shared : bytes.2.length = n) (sizes : ∀ f ∈ inputs, f.bits.length = n) :
    let folded := inputs.foldl (fun bytes filter => absorb bytes filter.bits) bytes
    folded.1.length = n ∧ folded.2.length = n ∧
      ∀ index, (bitAt folded.1 index,bitAt folded.2 index) =
        (inputs.map fun f => f.getBit index).foldl Contribution.add
          (bitAt bytes.1 index,bitAt bytes.2 index) := by
  induction inputs generalizing bytes with
  | nil => exact ⟨all,shared,fun _ => rfl⟩
  | cons f inputs ih =>
    have size := sizes f mem_cons_self
    have conj : (List.zipWith (· &&& ·) bytes.1 f.bits).length = n := by simp [all,size]
    obtain ⟨left,right,bits⟩ :=
      ih (absorb bytes f.bits) (by simp [absorb,all,size]) (by simp [absorb,all,shared,size])
      (fun g mem => sizes g (mem_cons_of_mem _ mem))
    refine ⟨left,right,?_⟩
    intro index
    rw [foldl_cons,bits index,absorb]
    have union := bitAt_zipWith (· ||| ·) _ rfl (fun a b _ low => bit_or a b low)
      (all.trans size.symm) index
    have common := bitAt_zipWith (· &&& ·) _ rfl (fun a b _ low => bit_and a b low)
      (all.trans size.symm) index
    have twice := bitAt_zipWith (· ||| ·) _ rfl (fun a b _ low => bit_or a b low)
      (shared.trans conj.symm) index
    rw [union,twice,common]
    rfl

theorem mem_fanoutInputs (base f : BloomFilter)
    (entries : List (Sigma fun _ : NodeAddr => BloomFilter)) :
    f ∈ s.fanoutInputs base entries ↔
      s.isLeafOnly = false ∧ f.numBits = base.numBits ∧ ∃ peer ∈ entries, peer.2 = f := by
  simp [fanoutInputs]
  tauto

structure Tallied (base : BloomFilter) (inputs : List BloomFilter) (filters : OutgoingBloomFilters) :
    Prop where
  hashCount : filters.hashCount = base.hashCount
  combined_length : filters.combined.length = base.bits.length
  shared_length : filters.shared.length = base.bits.length
  bits : ∀ index, (bitAt filters.combined index,bitAt filters.shared index) =
    Contribution.tally (base.getBit index) (inputs.map fun f => f.getBit index)

theorem Tallied.lengths_eq {base : BloomFilter} {inputs : List BloomFilter} {filters : OutgoingBloomFilters}
    (tallied : Tallied base inputs filters) : filters.shared.length = filters.combined.length :=
  tallied.shared_length.trans tallied.combined_length.symm

theorem prepareOutgoingFilters_tallied (o : IterationOrder Unit)
    (oPeers : IterationOrder BloomFilter) (peerFilters : NodeMap BloomFilter) :
    Tallied (s.baseFilter sha256 o) (s.fanoutInputs (s.baseFilter sha256 o) (peerFilters.iterate oPeers))
      (s.prepareOutgoingFilters sha256 o oPeers peerFilters) := by
  have sizes : ∀ f ∈ s.fanoutInputs (s.baseFilter sha256 o) (peerFilters.iterate oPeers),
      f.bits.length = (s.baseFilter sha256 o).bits.length := by
    intro f mem
    exact (f.length_bits_eq_iff _).2 ((s.mem_fanoutInputs _ f _).1 mem).2.1
  obtain ⟨left,right,bits⟩ := foldl_absorb _
    ((s.baseFilter sha256 o).bits,List.replicate (s.baseFilter sha256 o).bits.length 0) _ rfl (by simp) sizes
  refine ⟨rfl,left,right,?_⟩
  intro index
  rw [prepareOutgoingFilters,bits index]
  simp only [bitAt_replicate]
  rfl

end BloomState

namespace OutgoingBloomFilters

variable (o : OutgoingBloomFilters)

def bytesFor (peer : NodeAddr) : List UInt8 :=
  match o.excluded peer with
  | some filter => o.without filter
  | none => o.combined

theorem forPeer_eq (peer : NodeAddr) :
    o.forPeer peer = fromBytes (o.bytesFor peer) o.hashCount := by
  unfold forPeer bytesFor
  cases o.excluded peer with
  | none => rfl
  | some filter => rfl

theorem length_bytesFor (shared : o.shared.length = o.combined.length)
    (peer : NodeAddr) : (o.bytesFor peer).length = o.combined.length := by
  unfold bytesFor
  cases h : o.excluded peer with
  | none => rfl
  | some filter =>
    have size : filter.bits.length = o.combined.length := of_decide_eq_true (Option.filter_eq_some_iff.1 h).2
    simp [without,size,shared]

theorem all_zip_beq {xs ys : List UInt8} (length : xs.length = ys.length) :
    ((xs.zip ys).all fun pair => pair.1 == pair.2) = true ↔ xs = ys := by
  induction xs generalizing ys with
  | nil => cases ys with
    | nil => simp
    | cons y ys => simp at length
  | cons x xs ih => cases ys with
    | nil => simp at length
    | cons y ys =>
      have rest := @ih ys (by simpa using length)
      simp only [zip_cons_cons,all_cons,Bool.and_eq_true,beq_iff_eq,rest,List.cons.injEq]

theorem matchesLast_iff (shared : o.shared.length = o.combined.length)
    (peer : NodeAddr) (last : BloomFilter) :
    o.matchesLast peer last = true ↔ last.bits = o.bytesFor peer ∧ last.hashCount = o.hashCount := by
  have length := o.length_bytesFor shared peer
  unfold matchesLast
  split
  · rename_i differ
    simp only [Bool.false_eq_true,false_iff]
    rintro ⟨bits,count⟩
    rw [numBytes,bits,length] at differ
    exact differ.elim (fun h => h rfl) (fun h => h count)
  · rename_i same
    simp only [not_or,not_not] at same
    unfold bytesFor at length ⊢
    cases h : o.excluded peer with
    | none => simp [same.2]
    | some filter =>
      simp only [h] at length
      simp only [same.2,and_true]
      exact all_zip_beq (same.1.trans length.symm)

theorem bitAt_without (filter : BloomFilter)
    (shared : o.shared.length = o.combined.length)
    (size : filter.bits.length = o.combined.length) (index : Nat) :
    bitAt (o.without filter) index =
      (bitAt o.combined index && (!filter.getBit index || bitAt o.shared index)) := by
  by_cases inside : index < 8 * o.combined.length
  · have stored : index < 8 * filter.bits.length := size ▸ inside
    have masked := bitAt_zipWith_of_lt (fun excluded shared => ~~~excluded ||| shared) (fun a b => !a || b)
      (fun a b _ low => by rw [bit_or _ _ low,bit_not _ low])
      (size.trans shared.symm) stored
    rw [without,bitAt_zipWith_of_lt (· &&& ·) _ (fun a b _ low => bit_and a b low)
      (by simp [shared,size]) inside,masked]
    rfl
  · have outside : bitAt o.combined index = false := bitAt_of_length_le (by omega)
    rw [bitAt_of_length_le (by simp [without]; omega),outside,Bool.false_and]

end OutgoingBloomFilters

namespace BloomState
variable (sha256 : List UInt8 → List UInt8)

theorem excluded_eq_some {s : BloomState} {o : IterationOrder Unit} {oPeers : IterationOrder BloomFilter}
    {peerFilters : NodeMap BloomFilter} {p : NodeAddr} {f : BloomFilter} :
    (s.prepareOutgoingFilters sha256 o oPeers peerFilters).excluded p = some f ↔
      s.isLeafOnly = false ∧ peerFilters.lookup p = some f ∧ f.numBits = defaultFilterSizeBits := by
  have tallied := s.prepareOutgoingFilters_tallied sha256 o oPeers peerFilters
  have size := (s.baseFilter_params sha256 o).1
  have length : f.numBytes = (s.prepareOutgoingFilters sha256 o oPeers peerFilters).combined.length ↔
      f.numBits = defaultFilterSizeBits := by
    rw [tallied.combined_length,numBytes,f.length_bits_eq_iff,size]
  have peers : (s.prepareOutgoingFilters sha256 o oPeers peerFilters).peers =
      if !s.isLeafOnly then some peerFilters else none := rfl
  rw [OutgoingBloomFilters.excluded,Option.filter_eq_some_iff,decide_eq_true_eq,length,peers]
  cases s.isLeafOnly with
  | true => simp
  | false => simp

section Outgoing

variable (s : BloomState) (o : IterationOrder Unit) (oPeers : IterationOrder BloomFilter)
  (peerFilters : NodeMap BloomFilter)
include s

theorem fanoutInputs_append (base : BloomFilter)
    (before after : List (Sigma fun _ : NodeAddr => BloomFilter)) :
    s.fanoutInputs base (before ++ after) = s.fanoutInputs base before ++ s.fanoutInputs base after := by
  simp [fanoutInputs]

theorem true_mem_map_getBit (base : BloomFilter) (entries : List (Sigma fun _ : NodeAddr => BloomFilter))
    (index : Nat) :
    true ∈ (s.fanoutInputs base entries).map (fun f => f.getBit index) ↔
      s.isLeafOnly = false ∧ ∃ peer ∈ entries, peer.2.numBits = base.numBits ∧
        peer.2.getBit index = true := by
  simp only [mem_map,mem_fanoutInputs]
  constructor
  · rintro ⟨f,⟨leaf,size,peer,mem,rfl⟩,bit⟩
    exact ⟨leaf,peer,mem,size,bit⟩
  · rintro ⟨leaf,peer,mem,size,bit⟩
    exact ⟨peer.2,⟨leaf,size,peer,mem,rfl⟩,bit⟩

theorem bitAt_combined (index : Nat) :
    bitAt (s.prepareOutgoingFilters sha256 o oPeers peerFilters).combined index = true ↔
      (s.baseFilter sha256 o).getBit index = true ∨ s.isLeafOnly = false ∧
        ∃ peer ∈ peerFilters.iterate oPeers,
          peer.2.numBits = defaultFilterSizeBits ∧ peer.2.getBit index = true := by
  have tallied := s.prepareOutgoingFilters_tallied sha256 o oPeers peerFilters
  obtain ⟨combined,-⟩ := Prod.ext_iff.1 (tallied.bits index)
  simp only at combined
  rw [combined,Contribution.tally_fst,Contribution.join_eq_true,true_mem_map_getBit,
    (s.baseFilter_params sha256 o).1]

/-- Taking one peer's filter out of the combined bits leaves those of the others. -/
theorem bitAt_without_peer {p : NodeAddr} {f : BloomFilter} (leaf : s.isLeafOnly = false)
    (known : peerFilters.lookup p = some f) (size : f.numBits = defaultFilterSizeBits) (index : Nat) :
    bitAt ((s.prepareOutgoingFilters sha256 o oPeers peerFilters).without f) index = true ↔
      (s.baseFilter sha256 o).getBit index = true ∨ s.isLeafOnly = false ∧
        ∃ peer ∈ peerFilters.iterate oPeers,
          peer.1 ≠ p ∧ peer.2.numBits = defaultFilterSizeBits ∧ peer.2.getBit index = true := by
  have tallied := s.prepareOutgoingFilters_tallied sha256 o oPeers peerFilters
  have baseSize := (s.baseFilter_params sha256 o).1
  obtain ⟨before,after,split,others⟩ := NodeMap.iterate_split oPeers known
  have inputs : s.fanoutInputs (s.baseFilter sha256 o) (peerFilters.iterate oPeers) =
      s.fanoutInputs (s.baseFilter sha256 o) before ++ f :: s.fanoutInputs (s.baseFilter sha256 o) after := by
    simp [fanoutInputs,split,leaf,size,baseSize]
  have length : f.bits.length = (s.prepareOutgoingFilters sha256 o oPeers peerFilters).combined.length := by
    rw [tallied.combined_length,f.length_bits_eq_iff,size,baseSize]
  obtain ⟨combined,shared⟩ := Prod.ext_iff.1 (tallied.bits index)
  simp only [inputs,map_append,map_cons] at combined shared
  rw [OutgoingBloomFilters.bitAt_without _ f tallied.lengths_eq length index,combined,shared]
  have without := Contribution.tally_without ((s.baseFilter sha256 o).getBit index)
  simp only [Bool.inf_eq_band,Bool.sup_eq_bor,Bool.compl_eq_bnot] at without
  rw [without,← map_append,← fanoutInputs_append,Contribution.join_eq_true,true_mem_map_getBit,baseSize]
  simp only [others,and_assoc]

/-- The bits of the fanout view for one peer: the node's own and those of the others. -/
theorem bitAt_bytesFor (p : NodeAddr) (index : Nat) :
    bitAt ((s.prepareOutgoingFilters sha256 o oPeers peerFilters).bytesFor p) index = true ↔
      (s.baseFilter sha256 o).getBit index = true ∨ s.isLeafOnly = false ∧
        ∃ peer ∈ peerFilters.iterate oPeers,
          peer.1 ≠ p ∧ peer.2.numBits = defaultFilterSizeBits ∧ peer.2.getBit index = true := by
  unfold OutgoingBloomFilters.bytesFor
  cases h : (s.prepareOutgoingFilters sha256 o oPeers peerFilters).excluded p with
  | some f =>
    obtain ⟨leaf,known,size⟩ := (excluded_eq_some sha256).1 h
    exact s.bitAt_without_peer sha256 o oPeers peerFilters leaf known size index
  | none =>
    rw [bitAt_combined]
    apply or_congr_right
    apply and_congr_right
    intro leaf
    -- a filter of the right size that is not excluded is not the peer's own
    constructor
    · rintro ⟨peer,mem,size,bit⟩
      refine ⟨peer,mem,?_,size,bit⟩
      rintro rfl
      have known := (NodeMap.mem_iterate oPeers _ _ _).1 mem
      rw [(excluded_eq_some sha256).2 ⟨leaf,known,size⟩] at h
      cases h
    · rintro ⟨peer,mem,-,size,bit⟩
      exact ⟨peer,mem,size,bit⟩

variable (o' : IterationOrder Unit) (oPeers' : IterationOrder BloomFilter) (p : NodeAddr)

theorem bytesFor_prepareOutgoingFilters :
    (s.prepareOutgoingFilters sha256 o oPeers peerFilters).bytesFor p =
      (s.computeOutgoingFilter sha256 o' oPeers' p peerFilters).bits := by
  have tallied := s.prepareOutgoingFilters_tallied sha256 o oPeers peerFilters
  obtain ⟨size,-,bits⟩ := s.computeOutgoingFilter_spec sha256 o' oPeers' p peerFilters
  have baseSize := (s.baseFilter_params sha256 o).1
  apply ext
  · rw [OutgoingBloomFilters.length_bytesFor _ tallied.lengths_eq,
      tallied.combined_length,length_bits_eq_iff,baseSize,size]
  · intro index
    have sent := s.bitAt_bytesFor sha256 o oPeers peerFilters p index
    have computed := bits index
    rw [getBit,s.baseFilter_order sha256 o' o] at computed
    rw [Bool.eq_iff_iff,sent,computed]
    simp only [Sigma.exists,NodeMap.mem_iterate]

theorem needsUpdate_markUpdateNeeded (q : NodeAddr) :
    (s.markUpdateNeeded p).needsUpdate q = true ↔ s.needsUpdate q = true ∨ q = p := by
  unfold markUpdateNeeded
  cases h : s.pendingUpdates.lookup p with
  | some floor =>
    simp only [iff_self_or]
    rintro rfl
    simp [needsUpdate,h]
  | none =>
    simp only [updatePendingDeadline,needsUpdate]
    by_cases same : q = p
    · subst same
      simp
    · simp [same]

@[simp] theorem lastSentFilters_markUpdateNeeded :
    (s.markUpdateNeeded p).lastSentFilters = s.lastSentFilters := by
  unfold markUpdateNeeded
  cases s.pendingUpdates.lookup p with
  | some floor => rfl
  | none => rfl

theorem hashCount_prepareOutgoingFilters :
    (s.prepareOutgoingFilters sha256 o oPeers peerFilters).hashCount =
      (s.computeOutgoingFilter sha256 o' oPeers' p peerFilters).hashCount := by
  rw [(s.prepareOutgoingFilters_tallied sha256 o oPeers peerFilters).hashCount,
    (s.baseFilter_params sha256 o).2,(s.computeOutgoingFilter_spec sha256 o' oPeers' p peerFilters).2.1]

theorem forPeer_prepareOutgoingFilters :
    (s.prepareOutgoingFilters sha256 o oPeers peerFilters).forPeer p =
      .ok (s.computeOutgoingFilter sha256 o' oPeers' p peerFilters) := by
  rw [OutgoingBloomFilters.forPeer_eq,bytesFor_prepareOutgoingFilters sha256 s o oPeers _ o' oPeers',
    hashCount_prepareOutgoingFilters sha256 s o oPeers _ o' oPeers' p]
  exact fromBytes_bits _

theorem matchesLast_prepareOutgoingFilters (last : BloomFilter) :
    (s.prepareOutgoingFilters sha256 o oPeers peerFilters).matchesLast p last = true ↔
      last = s.computeOutgoingFilter sha256 o' oPeers' p peerFilters := by
  have tallied := s.prepareOutgoingFilters_tallied sha256 o oPeers peerFilters
  rw [OutgoingBloomFilters.matchesLast_iff _ tallied.lengths_eq,
    bytesFor_prepareOutgoingFilters sha256 s o oPeers _ o' oPeers',
    hashCount_prepareOutgoingFilters sha256 s o oPeers _ o' oPeers' p]
  exact bits_hashCount_inj last _

end Outgoing

def Changed (filters : OutgoingBloomFilters) (s : BloomState) (peer : NodeAddr) : Prop :=
  ∀ last, s.lastSentFilters.lookup peer = some last → filters.matchesLast peer last = false

theorem markIfChanged_of_changed {filters : OutgoingBloomFilters} {excludeFrom : NodeAddr} {s : BloomState}
    {peer : NodeAddr} (own : peer ≠ excludeFrom) (changed : Changed filters s peer) :
    markIfChanged filters excludeFrom s peer = s.markUpdateNeeded peer := by
  unfold markIfChanged
  rw [if_neg own]
  cases h : s.lastSentFilters.lookup peer with
  | none => rfl
  | some last => simp [changed last h]

theorem markIfChanged_of_not {filters : OutgoingBloomFilters} {excludeFrom : NodeAddr} {s : BloomState}
    {peer : NodeAddr} (same : ¬ (peer ≠ excludeFrom ∧ Changed filters s peer)) :
    markIfChanged filters excludeFrom s peer = s := by
  unfold markIfChanged
  by_cases own : peer = excludeFrom
  · rw [if_pos own]
  · cases h : s.lastSentFilters.lookup peer with
    | none => exact absurd ⟨own,by simp [Changed,h]⟩ same
    | some last =>
      have unchanged : filters.matchesLast peer last = true := by
        by_contra differ
        exact same ⟨own,by simpa [Changed,h] using differ⟩
      simp [unchanged]

theorem markIfChanged_spec (filters : OutgoingBloomFilters) (excludeFrom : NodeAddr) (s : BloomState)
    (peer q : NodeAddr) :
    (markIfChanged filters excludeFrom s peer).lastSentFilters = s.lastSentFilters ∧
      ((markIfChanged filters excludeFrom s peer).needsUpdate q = true ↔
        s.needsUpdate q = true ∨ q = peer ∧ q ≠ excludeFrom ∧ Changed filters s q) := by
  by_cases marked : peer ≠ excludeFrom ∧ Changed filters s peer
  · rw [markIfChanged_of_changed marked.1 marked.2]
    refine ⟨lastSentFilters_markUpdateNeeded s peer,?_⟩
    rw [needsUpdate_markUpdateNeeded]
    apply or_congr_right
    constructor
    · rintro rfl
      exact ⟨rfl,marked⟩
    · exact And.left
  · rw [markIfChanged_of_not marked]
    refine ⟨rfl,?_⟩
    simp only [iff_self_or]
    rintro ⟨rfl,changed⟩
    exact absurd changed marked

theorem foldl_markIfChanged (filters : OutgoingBloomFilters) (excludeFrom : NodeAddr) (peers : List NodeAddr)
    (s : BloomState) (q : NodeAddr) :
    (peers.foldl (markIfChanged filters excludeFrom) s).needsUpdate q = true ↔
      s.needsUpdate q = true ∨ q ∈ peers ∧ q ≠ excludeFrom ∧ Changed filters s q := by
  induction peers generalizing s with
  | nil => simp
  | cons peer peers ih =>
    obtain ⟨same,marked⟩ := markIfChanged_spec filters excludeFrom s peer q
    rw [foldl_cons,ih,mem_cons]
    simp only [Changed,same]
    tauto

/-- Whatever the orders in which the hash maps are traversed, the fanout view hands
out the recomputed filters, and marking compares with exactly those. -/
theorem fanout_equivalence (s : BloomState) (o o' : IterationOrder Unit)
    (oPeers oPeers' : IterationOrder BloomFilter) (peerFilters : NodeMap BloomFilter) :
    (∀ p, (s.prepareOutgoingFilters sha256 o oPeers peerFilters).forPeer p =
      .ok (s.computeOutgoingFilter sha256 o' oPeers' p peerFilters)) ∧
    (∀ p last, (s.prepareOutgoingFilters sha256 o oPeers peerFilters).matchesLast p last = true ↔
      last = s.computeOutgoingFilter sha256 o' oPeers' p peerFilters) ∧
    ∀ excludeFrom peerAddrs q,
      (s.markChangedPeers sha256 o oPeers excludeFrom peerAddrs peerFilters).needsUpdate q = true ↔
        s.needsUpdate q = true ∨ q ∈ peerAddrs ∧ q ≠ excludeFrom ∧
          s.lastSentFilters.lookup q ≠ some (s.computeOutgoingFilter sha256 o' oPeers' q peerFilters) := by
  have sent := s.matchesLast_prepareOutgoingFilters sha256 o oPeers peerFilters o' oPeers'
  refine ⟨s.forPeer_prepareOutgoingFilters sha256 o oPeers peerFilters o' oPeers',sent,?_⟩
  intro excludeFrom peerAddrs q
  rw [markChangedPeers,foldl_markIfChanged]
  simp only [Changed,← Bool.not_eq_true,sent,ne_eq]
  cases s.lastSentFilters.lookup q with
  | none => simp
  | some last => simp

end BloomState

end Fips.Bloom
