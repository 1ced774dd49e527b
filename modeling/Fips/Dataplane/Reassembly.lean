import Fips.Dataplane.DirectTransport

set_option autoImplicit false

/-! What comes out of the table that puts direct session packets together. -/

namespace Fips.Dataplane.DirectFsp

open OrderedMap Option List

def filledBytes (slots : List (Option (List UInt8))) : Nat :=
  (slots.map fun slot => (slot.getD []).length).sum

theorem filledBytes_set {slots : List (Option (List UInt8))} {index : Nat} (payload : List UInt8)
    (empty : slots[index]? = some none) :
    filledBytes (slots.set index (some payload)) = filledBytes slots + payload.length ∧
      (slots.set index (some payload)).countP isSome = slots.countP isSome + 1 := by
  induction slots generalizing index with
  | nil => cases empty
  | cons slot slots ih =>
    cases index with
    | zero =>
      obtain rfl : slot = none := by simpa using empty
      constructor
      · simp only [filledBytes,set_cons_zero,map_cons,sum_cons,getD_some,getD_none,
          length_nil]
        omega
      · simp
    | succ index =>
      have here : slots[index]? = some none := by simpa using empty
      obtain ⟨bytes,count⟩ := ih here
      constructor
      · simp only [filledBytes,set_cons_succ,map_cons,sum_cons] at bytes ⊢
        omega
      · simp only [set_cons_succ,countP_cons]
        omega

theorem mapM_of_full {slots : List (Option (List UInt8))} (full : slots.countP isSome = slots.length) :
    ∃ fragments, slots.mapM id = some fragments ∧ slots = fragments.map some ∧
      fragments.flatten.length = filledBytes slots := by
  induction slots with
  | nil => exact ⟨[],rfl,rfl,rfl⟩
  | cons slot slots ih =>
    have here : slot.isSome = true := by
      have all := countP_eq_length.1 full
      exact all slot mem_cons_self
    obtain ⟨fragment,rfl⟩ := isSome_iff_exists.1 here
    obtain ⟨fragments,eq,same,length⟩ := ih (by simpa using full)
    refine ⟨fragment :: fragments,by simp [eq],by rw [map_cons,← same],?_⟩
    rw [flatten_cons,length_append,length]
    rfl

namespace Reassembly

structure Counted (r : Reassembly) : Prop where
  count : r.receivedCount = r.fragments.countP isSome
  bytes : r.receivedBytes = filledBytes r.fragments

theorem counted_new (totalLen fragmentCount now : Nat) : (new totalLen fragmentCount now).Counted where
  count := by simp [new,countP_replicate]
  bytes := by simp [new,filledBytes]

theorem insert_cases (r : Reassembly) (index : Nat) (payload : List UInt8) :
    (r.insert index payload).1 = false ∨ r.insert index payload = (true,r) ∧
      (∃ old, r.fragments[index]? = some (some old)) ∨
      r.fragments[index]? = some none ∧ r.receivedBytes + payload.length ≤ r.totalLen ∧
        r.insert index payload = (true,{ r with
          receivedBytes := r.receivedBytes + payload.length
          receivedCount := r.receivedCount + 1
          fragments := r.fragments.set index (some payload) }) := by
  unfold insert
  cases slot : r.fragments[index]? with
  | none => exact .inl rfl
  | some content =>
    cases content with
    | some old => exact .inr (.inl ⟨rfl,old,rfl⟩)
    | none =>
      by_cases beyond : r.receivedBytes + payload.length > r.totalLen
      · simp [beyond]
      · exact .inr (.inr ⟨rfl,not_lt.1 beyond,if_neg beyond⟩)

theorem Counted.insert {r : Reassembly} (h : r.Counted) (index : Nat) (payload : List UInt8) :
    (r.insert index payload).1 = false ∨ (r.insert index payload).2.Counted := by
  rcases insert_cases r index payload with refused | ⟨eq,-⟩ | ⟨empty,-,eq⟩
  · exact .inl refused
  · rw [eq]
    exact .inr h
  · obtain ⟨bytes,count⟩ := filledBytes_set payload empty
    rw [eq]
    exact .inr ⟨by rw [count,h.count],by rw [bytes,h.bytes]⟩

theorem Counted.intoPayload {r : Reassembly} (h : r.Counted) (complete : r.isComplete = true) :
    ∃ fragments : List (List UInt8), r.fragments = fragments.map some ∧
      fragments.flatten.length = r.totalLen ∧
      r.intoPayload = some fragments.flatten := by
  obtain ⟨count,bytes⟩ := of_decide_eq_true complete
  obtain ⟨fragments,eq,same,length⟩ := mapM_of_full (h.count.symm.trans count)
  have total : fragments.flatten.length = r.totalLen := by rw [length,← h.bytes,bytes]
  refine ⟨fragments,same,total,?_⟩
  rw [Reassembly.intoPayload,if_neg (by simp [complete]),eq]
  exact if_pos total

end Reassembly

namespace Reassembler

variable {Addr : Type} [LinearOrder Addr]

def Keeps (s s' : Reassembler Addr) : Prop := ∀ k r, s'.entries.get? k = some r → s.entries.get? k = some r

section Pruning

variable (s : Reassembler Addr)
include s

theorem keeps_of_erase (k : FragmentKey Addr) : Keeps s { s with entries := s.entries.erase k } := by
  intro k' r found
  rw [get?_erase] at found
  split at found
  · cases found
  · exact found

theorem keeps_pruneExpired (now : Nat) : Keeps s (s.pruneExpired now) := by
  intro k r found
  have get : (s.pruneExpired now).entries.get? k = (s.entries.get? k).filter fun entry =>
      ¬ entryIsExpired entry now :=
    get?_filterValues _ _ _
  rw [get] at found
  exact (filter_eq_some_iff.1 found).1

@[simp] theorem entries_scheduleNextPrune (now : Nat) : (s.scheduleNextPrune now).entries = s.entries := by
  simp only [scheduleNextPrune]

theorem pruneExpiredIfDue_cases (now : Nat) :
    (s.pruneExpiredIfDue now).entries = s.entries ∨
      (s.pruneExpiredIfDue now).entries = (s.pruneExpired now).entries := by
  unfold pruneExpiredIfDue
  split
  · exact .inl (entries_scheduleNextPrune s now)
  · split
    · exact .inl rfl
    · exact .inr (entries_scheduleNextPrune _ now)

theorem removeExpiredEntry_cases (k : FragmentKey Addr) (now : Nat) :
    s.removeExpiredEntry k now = s ∨ ∃ r, s.entries.get? k = some r ∧ entryIsExpired r now = true ∧
      s.removeExpiredEntry k now = { s with entries := s.entries.erase k } := by
  unfold removeExpiredEntry
  cases found : s.entries.get? k with
  | none => exact .inl (if_neg (by simp))
  | some r =>
    by_cases expired : entryIsExpired r now = true
    · exact .inr ⟨r,rfl,expired,if_pos (by simpa using expired)⟩
    · exact .inl (if_neg (by simpa using expired))

/-- Room is made by dropping what has expired, and then the oldest record of a table that is still full. -/
theorem reserve_cases (pass : Traversal (FragmentKey Addr × Reassembly)) (now : Nat) :
    (s.entries.size < maxReassemblyRecords ∧ s.reserveCapacityForNewRecord pass now = s) ∨
      maxReassemblyRecords ≤ s.entries.size ∧
        ((s.pruneExpired now).entries.size < maxReassemblyRecords ∧
          (s.reserveCapacityForNewRecord pass now).entries = (s.pruneExpired now).entries ∨
        ∃ k r, (s.pruneExpired now).entries.get? k = some r ∧
          (s.reserveCapacityForNewRecord pass now).entries = (s.pruneExpired now).entries.erase k) := by
  unfold reserveCapacityForNewRecord
  by_cases room : s.entries.size < maxReassemblyRecords
  · exact .inl ⟨room,if_pos room⟩
  · refine .inr ⟨not_lt.1 room,?_⟩
    rw [if_neg room]
    by_cases full : ((s.pruneExpired now).scheduleNextPrune now).entries.size ≥ maxReassemblyRecords
    · rw [if_pos full]
      have some_left : pass.order (s.pruneExpired now).entries.entries ≠ [] := by
        intro none_left
        have length := (pass.perm (s.pruneExpired now).entries.entries).length_eq
        rw [none_left] at length
        have size : (s.pruneExpired now).entries.size = 0 := length.symm
        simp [size,maxReassemblyRecords] at full
      obtain ⟨oldest,member,eq⟩ := Traversal.minByKey_mem (fun e => e.2.createdAtMs) some_left
      refine .inr ⟨oldest.1,oldest.2,mem_entries.1 (pass.mem_order.1 member),?_⟩
      simp only [removeOldest,entries_scheduleNextPrune,eq]
    · rw [if_neg full]
      exact .inl ⟨not_le.1 full,rfl⟩

end Pruning

section Ingest

variable (s : Reassembler Addr)

def prepare (pass : Traversal (FragmentKey Addr × Reassembly)) (k : FragmentKey Addr) (now : Nat) :
    Reassembler Addr :=
  let s := (s.pruneExpiredIfDue now).removeExpiredEntry k now
  if s.entries.contains k then s else s.reserveCapacityForNewRecord pass now

theorem keeps_swept (k : FragmentKey Addr) (now : Nat) :
    Keeps s ((s.pruneExpiredIfDue now).removeExpiredEntry k now) := by
  intro k' r found
  have swept : (s.pruneExpiredIfDue now).entries.get? k' = some r := by
    rcases removeExpiredEntry_cases (s.pruneExpiredIfDue now) k now with eq | ⟨-,-,-,eq⟩
    · rwa [eq] at found
    · rw [eq] at found
      exact keeps_of_erase _ k k' r found
  rcases pruneExpiredIfDue_cases s now with eq | eq
  · rwa [eq] at swept
  · rw [eq] at swept
    exact keeps_pruneExpired s now k' r swept

theorem keeps_prepare (pass : Traversal (FragmentKey Addr × Reassembly)) (k : FragmentKey Addr)
    (now : Nat) : Keeps s (s.prepare pass k now) := by
  intro k' r found
  refine keeps_swept s k now k' r ?_
  unfold prepare at found
  set swept := (s.pruneExpiredIfDue now).removeExpiredEntry k now
  simp only at found
  split at found
  · exact found
  · rcases reserve_cases swept pass now with ⟨-,eq⟩ | ⟨-,⟨-,eq⟩ | ⟨oldest,-,-,eq⟩⟩
    · rwa [eq] at found
    · rw [eq] at found
      exact keeps_pruneExpired swept now k' r found
    · rw [eq,get?_erase] at found
      split at found
      · cases found
      · exact keeps_pruneExpired swept now k' r found

theorem size_swept (k : FragmentKey Addr) (now : Nat) :
    ((s.pruneExpiredIfDue now).removeExpiredEntry k now).entries.size ≤ s.entries.size := by
  have swept : (s.pruneExpiredIfDue now).entries.size ≤ s.entries.size := by
    rcases pruneExpiredIfDue_cases s now with eq | eq
    · rw [eq]
    · rw [eq]
      exact size_filterValues_le _ _
  rcases removeExpiredEntry_cases (s.pruneExpiredIfDue now) k now with eq | ⟨-,-,-,eq⟩
  · rwa [eq]
  · rw [eq]
    exact (size_erase_le _ _).trans swept

/-- There is room for the record of `k`, or it is there. -/
theorem size_prepare {s : Reassembler Addr} (bounded : s.entries.size ≤ maxReassemblyRecords)
    (pass : Traversal (FragmentKey Addr × Reassembly)) (k : FragmentKey Addr) (now : Nat) :
    (∃ r, (s.prepare pass k now).entries.get? k = some r) ∧
      (s.prepare pass k now).entries.size ≤ maxReassemblyRecords ∨
      (s.prepare pass k now).entries.get? k = none ∧
      (s.prepare pass k now).entries.size < maxReassemblyRecords := by
  have small := (size_swept s k now).trans bounded
  have keeps := keeps_prepare s pass k now k
  unfold prepare at keeps ⊢
  set swept := (s.pruneExpiredIfDue now).removeExpiredEntry k now
  cases found : swept.entries.get? k with
  | some r =>
    rw [if_pos (by simp [found])]
    exact .inl ⟨⟨r,found⟩,small⟩
  | none =>
    have absent : ¬ swept.entries.contains k = true := by simp [found]
    rw [if_neg absent]
    have sizePruned : (swept.pruneExpired now).entries.size ≤ swept.entries.size := size_filterValues_le _ _
    have none_pruned : (swept.pruneExpired now).entries.get? k = none := by
      cases kept : (swept.pruneExpired now).entries.get? k with
      | none => rfl
      | some r => cases found.symm.trans (keeps_pruneExpired swept now k r kept)
    right
    rcases reserve_cases swept pass now with ⟨room,eq⟩ | ⟨-,⟨room,eq⟩ | ⟨oldest,r,stored,eq⟩⟩
    · rw [eq]
      exact ⟨found,room⟩
    · rw [eq]
      exact ⟨none_pruned,room⟩
    · rw [eq]
      have erased := size_erase stored
      refine ⟨?_,by omega⟩
      rw [get?_erase,none_pruned,ite_self]

/-- What taking a fragment can do. -/
theorem takeFragment_cases (k : FragmentKey Addr) (header : FragmentHeader)
    (packet : ReceivedPacket Addr) :
    let entry := s.openEntry k header packet.timestampMs
    let added := entry.insert header.fragmentIndex (packet.data.drop fragmentHeaderLen)
    (s.takeFragment k header packet = (.dropped,{ s with entries := s.entries.erase k }) ∧
      (added.1 = false ∨ added.2.isComplete = true ∧ added.2.intoPayload = none)) ∨
    (added.1 = true ∧ added.2.isComplete = false ∧
      s.takeFragment k header packet = (.pending,{ s with entries := s.entries.insert k added.2 })) ∨
    ∃ payload, added.1 = true ∧ added.2.isComplete = true ∧ added.2.intoPayload = some payload ∧
      s.takeFragment k header packet =
        (.complete { packet with data := payload },{ s with entries := s.entries.erase k }) := by
  intro entry added
  unfold Reassembler.takeFragment
  cases taken : added.1 with
  | false => exact .inl (by simp [entry,added,taken])
  | true =>
    cases complete : added.2.isComplete with
    | false => exact .inr (.inl (by simp [entry,added,taken,complete]))
    | true =>
      cases payload : added.2.intoPayload with
      | none => exact .inl (by simp [entry,added,taken,complete,payload])
      | some bytes => exact .inr (.inr (by simp [entry,added,taken,complete,payload]))

theorem ingest_eq {s : Reassembler Addr} {pass : Traversal (FragmentKey Addr × Reassembly)}
    {packet : ReceivedPacket Addr} {header : FragmentHeader}
    (parsed : parseTransportFragmentHeaderAfterMagic packet.data = some header)
    (valid : validTransportFragmentHeader header = true)
    (nonempty : packet.data.length - fragmentHeaderLen ≠ 0) :
    s.ingestFragment pass packet =
      (s.prepare pass (toLex (packet.transportId,toLex (packet.remoteAddr,header.recordId)))
        packet.timestampMs).takeFragment
        (toLex (packet.transportId,toLex (packet.remoteAddr,header.recordId))) header packet := by
  unfold ingestFragment prepare
  simp only [parsed,valid,not_true_eq_false,if_false,nonempty]

theorem ingest_cases (pass : Traversal (FragmentKey Addr × Reassembly)) (packet : ReceivedPacket Addr) :
    (∃ s', Keeps s s' ∧ s'.entries.size ≤ s.entries.size ∧ s.ingestFragment pass packet = (.dropped,s')) ∨
      ∃ header, parseTransportFragmentHeaderAfterMagic packet.data = some header ∧
        validTransportFragmentHeader header = true ∧ packet.data.length - fragmentHeaderLen ≠ 0 := by
  unfold ingestFragment
  cases parsed : parseTransportFragmentHeaderAfterMagic packet.data with
  | none => exact .inl ⟨s,fun _ _ => id,le_rfl,rfl⟩
  | some header =>
    cases valid : validTransportFragmentHeader header with
    | false => exact .inl ⟨s,fun _ _ => id,le_rfl,by simp [valid]⟩
    | true =>
      by_cases empty : packet.data.length - fragmentHeaderLen = 0
      · left
        refine ⟨_,keeps_swept s (toLex (packet.transportId,toLex (packet.remoteAddr,header.recordId)))
          packet.timestampMs,size_swept _ _ _,?_⟩
        simp only [valid,not_true_eq_false,if_false,empty,if_true]
      · exact .inr ⟨header,rfl,valid,empty⟩

end Ingest

/-- The table never holds more than its bound. -/
theorem size_ingest {s : Reassembler Addr} (bounded : s.entries.size ≤ maxReassemblyRecords)
    (pass : Traversal (FragmentKey Addr × Reassembly)) (packet : ReceivedPacket Addr) :
    (s.ingestFragment pass packet).2.entries.size ≤ maxReassemblyRecords := by
  rcases ingest_cases s pass packet with ⟨s',-,smaller,eq⟩ | ⟨header,parsed,valid,nonempty⟩
  · rw [eq]
    exact smaller.trans bounded
  · rw [ingest_eq parsed valid nonempty]
    set k : FragmentKey Addr := toLex (packet.transportId,toLex (packet.remoteAddr,header.recordId))
    have room := size_prepare bounded pass k packet.timestampMs
    set ready := s.prepare pass k packet.timestampMs
    have small : ready.entries.size ≤ maxReassemblyRecords := by
      rcases room with ⟨-,small⟩ | ⟨-,small⟩
      · exact small
      · exact small.le
    rcases takeFragment_cases ready k header packet with ⟨eq,-⟩ | ⟨-,-,eq⟩ | ⟨payload,-,-,-,eq⟩
    · rw [eq]
      exact (size_erase_le _ _).trans small
    · rw [eq]
      rcases room with ⟨⟨r,found⟩,small⟩ | ⟨absent,small⟩
      · exact (size_insert_of_some _ found).trans_le small
      · exact (size_insert _ absent).trans_le small
    · rw [eq]
      exact (size_erase_le _ _).trans small

end Reassembler

end Fips.Dataplane.DirectFsp
