import Fips.Dataplane.Reassembly

set_option autoImplicit false

/-! Runs of the reassembly table: what the fragments of some records give in any order, and when
the records of one path can be taken for one another. -/

namespace Fips.Dataplane.DirectFsp

open List

structure Record where
  counter : Nat
  pieces : List (List UInt8)
  counter_lt : counter < 256^8
  several : 1 < pieces.length
  few : pieces.length ≤ maxFragments
  short : pieces.flatten.length ≤ maxReassembledLen
  nonempty : ∀ p ∈ pieces, p ≠ []

namespace Record

def header (r : Record) (index : Nat) : FragmentHeader :=
  ⟨r.counter,r.pieces.flatten.length,index,r.pieces.length⟩

def fragment (r : Record) (index : Nat) : List UInt8 :=
  segmentHeader r.counter r.pieces.flatten.length index r.pieces.length ++ r.pieces.getD index []

theorem parse_fragment (r : Record) {index : Nat} (inside : index < r.pieces.length) :
    parseTransportFragmentHeaderAfterMagic (r.fragment index) = some (r.header index) := by
  have few := r.few
  have short := r.short
  simp only [maxFragments,maxReassembledLen] at few short
  exact parse_segment _ r.counter_lt (by omega) (by omega) (by omega)

theorem length_le_flatten {pieces : List (List UInt8)} (nonempty : ∀ p ∈ pieces, p ≠ []) :
    pieces.length ≤ pieces.flatten.length := by
  induction pieces with
  | nil => simp
  | cons p pieces ih =>
    have first := length_pos_iff.2 (nonempty p mem_cons_self)
    have rest := ih fun p' member => nonempty p' (mem_cons_of_mem _ member)
    rw [flatten_cons,length_append,length_cons]
    omega

theorem valid_fragment (r : Record) {index : Nat} (inside : index < r.pieces.length) :
    validTransportFragmentHeader (r.header index) = true := by
  have counted := length_le_flatten r.nonempty
  have several := r.several
  exact decide_eq_true ⟨(show 0 < r.pieces.flatten.length by omega),r.short,several,r.few,counted,inside⟩

theorem drop_fragment (r : Record) (index : Nat) :
    (r.fragment index).drop fragmentHeaderLen = r.pieces.getD index [] :=
  drop_left' (length_segmentHeader _ _ _ _)

theorem length_fragment (r : Record) {index : Nat} (inside : index < r.pieces.length) :
    (r.fragment index).length - fragmentHeaderLen ≠ 0 := by
  have found : r.pieces.getD index [] ∈ r.pieces := by
    rw [getD_eq_getElem _ _ inside]
    exact getElem_mem inside
  have some := length_pos_iff.2 (r.nonempty _ found)
  rw [← length_drop,r.drop_fragment]
  omega

end Record

section Slots

variable (pieces : List (List UInt8))

def slots (got : Finset Nat) : List (Option (List UInt8)) :=
  pieces.mapIdx fun index p => if index ∈ got then some p else none

@[simp] theorem length_slots (got : Finset Nat) :
    (slots pieces got).length = pieces.length := by
  simp [slots]

theorem getElem?_slots (got : Finset Nat) (index : Nat) :
    (slots pieces got)[index]? = pieces[index]?.map fun p => if index ∈ got then some p else none := by
  simp [slots]

theorem slots_empty : slots pieces ∅ = replicate pieces.length none := by
  simp [slots,mapIdx_eq_replicate_iff]

end Slots

variable {pieces : List (List UInt8)}

theorem slots_set {index : Nat} (got : Finset Nat) (inside : index < pieces.length) :
    (slots pieces got).set index (some (pieces.getD index [])) = slots pieces (insert index got) := by
  apply ext_getElem?
  intro i
  rw [getElem?_slots,getElem?_set,length_slots,if_pos inside,getElem?_slots]
  by_cases here : index = i
  · subst here
    simp [getElem?_eq_getElem inside]
  · simp [here,Ne.symm here]

theorem slots_full {got : Finset Nat} (all : Finset.range pieces.length ⊆ got) :
    slots pieces got = pieces.map some := by
  apply ext_getElem?
  intro i
  rw [getElem?_slots,getElem?_map]
  cases found : pieces[i]? with
  | none => rfl
  | some p =>
    have inside := (List.getElem?_eq_some_iff.1 found).1
    simp [all (Finset.mem_range.2 inside)]

theorem filledBytes_map_some (pieces : List (List UInt8)) :
    filledBytes (pieces.map some) = pieces.flatten.length := by
  simp [filledBytes,Function.comp_def]

theorem filledBytes_slots_le (pieces : List (List UInt8)) (got : Finset Nat) :
    filledBytes (slots pieces got) ≤ pieces.flatten.length := by
  rw [← filledBytes_map_some]
  refine List.Forall₂.sum_le_sum ?_
  rw [forall₂_iff_get]
  refine ⟨by simp,?_⟩
  intro i inside _
  simp only [slots,get_eq_getElem,getElem_map,getElem_mapIdx]
  split <;> simp

theorem countP_slots {got : Finset Nat} :
    (slots pieces got).countP Option.isSome = pieces.length ↔ Finset.range pieces.length ⊆ got := by
  constructor
  · intro full i inside
    rw [← length_slots pieces got,countP_eq_length] at full
    have small := Finset.mem_range.1 inside
    have found : (slots pieces got)[i]? = some (if i ∈ got then some pieces[i] else none) := by
      rw [getElem?_slots,getElem?_eq_getElem small]
      rfl
    have filled := full _ (mem_of_getElem? found)
    by_contra missing
    rw [if_neg missing] at filled
    cases filled
  · intro all
    rw [slots_full all]
    simp

/-- The entry of a record of which the fragments in `got` have arrived; there is none at first. -/
structure Gathered (r : Record) (got : Finset Nat) (entry : Reassembly) : Prop where
  counted : entry.Counted
  total : entry.totalLen = r.pieces.flatten.length
  fragments : entry.fragments = slots r.pieces got

namespace Gathered

variable {r : Record} {got : Finset Nat} {entry : Reassembly}

theorem new (r : Record) (now : Nat) : Gathered r ∅ (.new r.pieces.flatten.length r.pieces.length now) where
  counted := Reassembly.counted_new _ _ _
  total := rfl
  fragments := (slots_empty r.pieces).symm

theorem fits (h : Gathered r got entry) : entry.fits r.pieces.flatten.length r.pieces.length = true :=
  decide_eq_true ⟨h.total,by rw [h.fragments,length_slots]⟩

/-- An honest fragment is never refused. -/
theorem insert (h : Gathered r got entry) {index : Nat} (inside : index < r.pieces.length) :
    (entry.insert index (r.pieces.getD index [])).1 = true ∧
      (entry.insert index (r.pieces.getD index [])).2.createdAtMs = entry.createdAtMs ∧
      Gathered r (insert index got) (entry.insert index (r.pieces.getD index [])).2 := by
  have slot : entry.fragments[index]? =
      some (if index ∈ got then some (r.pieces.getD index []) else none) := by
    rw [h.fragments,getElem?_slots,getElem?_eq_getElem inside,getD_eq_getElem _ _ inside]
    rfl
  by_cases here : index ∈ got
  · have same : entry.insert index (r.pieces.getD index []) = (true,entry) := by
      unfold Reassembly.insert
      rw [slot,if_pos here]
    rw [same,Finset.insert_eq_self.2 here]
    exact ⟨rfl,rfl,h⟩
  · rw [if_neg here] at slot
    have grown := filledBytes_set (r.pieces.getD index []) slot
    have filled := filledBytes_slots_le r.pieces (Insert.insert index got)
    rw [h.fragments,slots_set got inside] at grown
    have room : ¬ entry.receivedBytes + (r.pieces.getD index []).length > entry.totalLen := by
      rw [h.counted.bytes,h.total,h.fragments]
      omega
    have taken : entry.insert index (r.pieces.getD index []) = (true,{ entry with
        receivedBytes := entry.receivedBytes + (r.pieces.getD index []).length
        receivedCount := entry.receivedCount + 1
        fragments := entry.fragments.set index (some (r.pieces.getD index [])) }) := by
      unfold Reassembly.insert
      rw [slot]
      exact if_neg room
    have counted := h.counted.insert index (r.pieces.getD index [])
    rw [taken] at counted ⊢
    refine ⟨rfl,rfl,counted.resolve_left (by simp),h.total,?_⟩
    simp only [h.fragments]
    exact slots_set got inside

theorem isComplete (h : Gathered r got entry) :
    entry.isComplete = true ↔ Finset.range r.pieces.length ⊆ got := by
  unfold Reassembly.isComplete
  rw [decide_eq_true_iff,h.counted.count,h.counted.bytes,h.total,h.fragments,length_slots,countP_slots]
  constructor
  · exact fun complete => complete.1
  · intro all
    refine ⟨all,?_⟩
    rw [slots_full all,filledBytes_map_some]

theorem intoPayload (h : Gathered r got entry) (all : Finset.range r.pieces.length ⊆ got) :
    entry.intoPayload = some r.pieces.flatten := by
  obtain ⟨fragments,same,-,eq⟩ := h.counted.intoPayload (h.isComplete.2 all)
  rw [h.fragments,slots_full all] at same
  rw [eq,← map_injective_iff.2 (Option.some_injective _) same]

end Gathered

section Expected

variable {Addr : Type} [LinearOrder Addr]

structure Item (Addr : Type) where
  key : FragmentKey Addr
  count : Nat
  index : Nat
  whole : ReceivedPacket Addr

def Item.fills (i : Item Addr) (got : FragmentKey Addr → Finset Nat) : Prop :=
  Finset.range i.count ⊆ insert i.index (got i.key)

instance (i : Item Addr) (got : FragmentKey Addr → Finset Nat) : Decidable (i.fills got) :=
  inferInstanceAs (Decidable (Finset.range i.count ⊆ insert i.index (got i.key)))

/-- The fragments that have arrived of each record since it was last complete. -/
def Item.next (i : Item Addr) (got : FragmentKey Addr → Finset Nat) : FragmentKey Addr → Finset Nat :=
  Function.update got i.key (if i.fills got then ∅ else insert i.index (got i.key))

/-- A record comes out with its last missing fragment; until then nothing does. -/
def expect (got : FragmentKey Addr → Finset Nat) : List (Item Addr) → List (ReassemblyResult Addr)
  | [] => []
  | i :: items => (if i.fills got then .complete i.whole else .pending) :: expect (i.next got) items

/-- The fragments of one record bring it out when none of them is missing. -/
theorem complete_mem_expect {key : FragmentKey Addr} {count : Nat} {items : List (Item Addr)}
    {got : FragmentKey Addr → Finset Nat} (same : ∀ i ∈ items, i.key = key ∧ i.count = count)
    (all : ∀ index < count, index ∈ got key ∨ ∃ i ∈ items, i.index = index) (present : items ≠ []) :
    ∃ i ∈ items, .complete i.whole ∈ expect got items := by
  induction items generalizing got with
  | nil => exact absurd rfl present
  | cons i items ih =>
    obtain ⟨rfl,rfl⟩ := same i mem_cons_self
    by_cases fills : i.fills got
    · refine ⟨i,mem_cons_self,?_⟩
      rw [expect,if_pos fills]
      exact mem_cons_self
    · have now : i.next got i.key = insert i.index (got i.key) := by
        rw [Item.next,Function.update_self,if_neg fills]
      have later : ∀ index < i.count, index ∈ i.next got i.key ∨ ∃ j ∈ items, j.index = index := by
        intro index inside
        rw [now,Finset.mem_insert]
        rcases all index inside with there | ⟨j,member,eq⟩
        · exact .inl (.inr there)
        · rcases mem_cons.1 member with rfl | member
          · exact .inl (.inl eq.symm)
          · exact .inr ⟨j,member,eq⟩
      have left : items ≠ [] := by
        rintro rfl
        apply fills
        intro index inside
        rw [← now]
        exact (later index (Finset.mem_range.1 inside)).resolve_right (by simp)
      obtain ⟨j,member,out⟩ := ih (fun j member => same j (mem_cons_of_mem _ member)) later left
      exact ⟨j,mem_cons_of_mem _ member,by rw [expect]; exact mem_cons_of_mem _ out⟩

end Expected

namespace Reassembler

variable {Addr : Type} [LinearOrder Addr]

def ingestAll (s : Reassembler Addr) :
    List (Traversal (FragmentKey Addr × Reassembly) × ReceivedPacket Addr) →
      List (ReassemblyResult Addr) × Reassembler Addr
  | [] => ([],s)
  | p :: packets =>
    let (result,s) := s.ingestFragment p.1 p.2
    let (results,s) := s.ingestAll packets
    (result :: results,s)

variable {s : Reassembler Addr}

theorem size_ingestAll (bounded : s.entries.size ≤ maxReassemblyRecords)
    (packets : List (Traversal (FragmentKey Addr × Reassembly) × ReceivedPacket Addr)) :
    (s.ingestAll packets).2.entries.size ≤ maxReassemblyRecords := by
  induction packets generalizing s with
  | nil => exact bounded
  | cons p packets ih => exact ih (size_ingest bounded p.1 p.2)

/-- Nothing is dropped from a table in which nothing has expired and there is room. -/
theorem entries_prepare {k : FragmentKey Addr} {now : Nat}
    (pass : Traversal (FragmentKey Addr × Reassembly))
    (fresh : ∀ k r, s.entries.get? k = some r → entryIsExpired r now = false)
    (room : (∃ r, s.entries.get? k = some r) ∨ s.entries.size < maxReassemblyRecords) :
    (s.prepare pass k now).entries = s.entries := by
  have kept : (s.pruneExpired now).entries = s.entries := by
    apply OrderedMap.ext
    intro k'
    have get : (s.pruneExpired now).entries.get? k' = (s.entries.get? k').filter fun entry =>
        ¬ entryIsExpired entry now :=
      OrderedMap.get?_filterValues _ _ _
    rw [get]
    cases found : s.entries.get? k' with
    | none => rfl
    | some r => simp [fresh k' r found]
  have swept : (s.pruneExpiredIfDue now).entries = s.entries := by
    rcases pruneExpiredIfDue_cases s now with eq | eq
    · exact eq
    · exact eq.trans kept
  have removed : ((s.pruneExpiredIfDue now).removeExpiredEntry k now).entries = s.entries := by
    rcases removeExpiredEntry_cases (s.pruneExpiredIfDue now) k now with eq | ⟨r,found,expired,-⟩
    · rw [eq,swept]
    · rw [swept] at found
      rw [fresh k r found] at expired
      cases expired
  unfold prepare
  simp only [removed]
  split
  · exact removed
  · rename_i absent
    rcases room with ⟨r,found⟩ | room
    · simp [found] at absent
    · rcases reserve_cases ((s.pruneExpiredIfDue now).removeExpiredEntry k now)
        pass now with ⟨-,eq⟩ | ⟨full,-⟩
      · rw [eq,removed]
      · rw [removed] at full
        omega

/-- Taking a fragment of a record, in a table that has the record's earlier ones. -/
theorem takeFragment_gathered {k : FragmentKey Addr} {r : Record} {got : Finset Nat} {index : Nat}
    (packet : ReceivedPacket Addr) (inside : index < r.pieces.length) (data : packet.data = r.fragment index)
    (there : (got = ∅ ∧ s.entries.get? k = none) ∨ ∃ entry, s.entries.get? k = some entry ∧
      Gathered r got entry) :
    (Finset.range r.pieces.length ⊆ insert index got ∧
        (s.takeFragment k (r.header index) packet).1 = .complete { packet with data := r.pieces.flatten } ∧
        (s.takeFragment k (r.header index) packet).2.entries = s.entries.erase k) ∨
      ∃ entry, ¬ Finset.range r.pieces.length ⊆ insert index got ∧ Gathered r (insert index got) entry ∧
        (entry.createdAtMs = packet.timestampMs ∨ ∃ old, s.entries.get? k = some old ∧
          entry.createdAtMs = old.createdAtMs) ∧
        (s.takeFragment k (r.header index) packet).1 = .pending ∧
        (s.takeFragment k (r.header index) packet).2.entries = s.entries.insert k entry := by
  have opened : ∃ entry, s.openEntry k (r.header index) packet.timestampMs = entry ∧ Gathered r got entry ∧
      (entry.createdAtMs = packet.timestampMs ∨ ∃ old, s.entries.get? k = some old ∧
        entry.createdAtMs = old.createdAtMs) := by
    rcases there with ⟨rfl,absent⟩ | ⟨entry,found,gathered⟩
    · refine ⟨.new r.pieces.flatten.length r.pieces.length packet.timestampMs,?_,.new r _,.inl rfl⟩
      simp only [openEntry,absent,Record.header]
    · refine ⟨entry,?_,gathered,.inr ⟨entry,found,rfl⟩⟩
      simp only [openEntry,found]
      exact if_pos gathered.fits
  obtain ⟨entry,eq,gathered,created⟩ := opened
  obtain ⟨taken,age,grown⟩ := gathered.insert inside
  have cases := takeFragment_cases s k (r.header index) packet
  simp only [eq,data,r.drop_fragment,show (r.header index).fragmentIndex = index from rfl] at cases
  by_cases all : Finset.range r.pieces.length ⊆ insert index got
  · have complete := grown.isComplete.2 all
    have payload := grown.intoPayload all
    refine .inl ⟨all,?_⟩
    rcases cases with ⟨-,refused | ⟨-,refused⟩⟩ | ⟨-,incomplete,-⟩ | ⟨bytes,-,-,same,out⟩
    · rw [taken] at refused
      cases refused
    · rw [payload] at refused
      cases refused
    · rw [complete] at incomplete
      cases incomplete
    · rw [payload] at same
      cases same
      rw [out]
      exact ⟨rfl,rfl⟩
  · have incomplete : (entry.insert index (r.pieces.getD index [])).2.isComplete = false :=
      Bool.eq_false_iff.2 fun complete => all (grown.isComplete.1 complete)
    rw [← age] at created
    refine .inr ⟨_,all,grown,created,?_⟩
    rcases cases with ⟨-,refused | ⟨complete,-⟩⟩ | ⟨-,-,out⟩ | ⟨bytes,-,complete,-⟩
    · rw [taken] at refused
      cases refused
    · rw [incomplete] at complete
      cases complete
    · rw [out]
      exact ⟨rfl,rfl⟩
    · rw [incomplete] at complete
      cases complete

end Reassembler

structure Parcel (Addr : Type) where
  transportId : Nat
  remoteAddr : Addr
  record : Record

section Parcels

variable {Addr : Type} [LinearOrder Addr]

def Parcel.key (p : Parcel Addr) : FragmentKey Addr :=
  toLex (p.transportId,toLex (p.remoteAddr,p.record.counter))

structure Arrival (Addr : Type) [LinearOrder Addr] where
  parcel : Parcel Addr
  index : Nat
  timestampMs : Nat
  pass : Traversal (FragmentKey Addr × Reassembly)

namespace Arrival

def packet (a : Arrival Addr) : ReceivedPacket Addr :=
  ⟨a.parcel.transportId,a.parcel.remoteAddr,a.parcel.record.fragment a.index,a.timestampMs⟩

def item (a : Arrival Addr) : Item Addr :=
  ⟨a.parcel.key,a.parcel.record.pieces.length,a.index,
    { a.packet with data := a.parcel.record.pieces.flatten }⟩

structure Within (a : Arrival Addr) (parcels : List (Parcel Addr)) (start : Nat) : Prop where
  member : a.parcel ∈ parcels
  inside : a.index < a.parcel.record.pieces.length
  after : start ≤ a.timestampMs
  before : a.timestampMs ≤ start + reassemblyTtlMs

end Arrival

/-- The table holds what has arrived of the parcels, and nothing else. -/
structure Tracks (parcels : List (Parcel Addr)) (start : Nat) (got : FragmentKey Addr → Finset Nat)
    (s : Reassembler Addr) : Prop where
  known : ∀ k r, s.entries.get? k = some r → k ∈ parcels.map Parcel.key ∧ start ≤ r.createdAtMs
  gathered : ∀ p ∈ parcels, (got p.key = ∅ ∧ s.entries.get? p.key = none) ∨
    ∃ entry, s.entries.get? p.key = some entry ∧ Gathered p.record (got p.key) entry

theorem tracks_default (parcels : List (Parcel Addr)) (start : Nat) :
    Tracks parcels start (fun _ => ∅) (.default : Reassembler Addr) where
  known := by
    intro k r found
    cases found
  gathered _ _ := .inl ⟨rfl,rfl⟩

variable {parcels : List (Parcel Addr)} {start : Nat} {got : FragmentKey Addr →
  Finset Nat} {s : Reassembler Addr}
variable (h : Tracks parcels start got s)
include h

theorem Tracks.room (few : parcels.length ≤ maxReassemblyRecords) {p : Parcel Addr} (member : p ∈ parcels)
    (absent : s.entries.get? p.key = none) : s.entries.size < maxReassemblyRecords := by
  have nodup : (p.key :: s.entries.entries.map Prod.fst).Nodup := by
    refine nodup_cons.2 ⟨?_,(pairwise_map.2 s.entries.sorted).imp ne_of_lt⟩
    intro inside
    obtain ⟨e,stored,eq⟩ := mem_map.1 inside
    exact OrderedMap.get?_eq_none.1 absent e stored eq
  have inside : (p.key :: s.entries.entries.map Prod.fst) ⊆ parcels.map Parcel.key := by
    intro k inside
    rcases mem_cons.1 inside with rfl | inside
    · exact mem_map_of_mem member
    · obtain ⟨e,stored,rfl⟩ := mem_map.1 inside
      exact (h.known e.1 e.2 (OrderedMap.mem_entries.1 stored)).1
  have length := (subperm_of_subset nodup inside).length_le
  rw [length_cons,length_map,length_map] at length
  exact Nat.lt_of_succ_le (length.trans few)

/-- A fragment that arrives in time finds the table as it was left. -/
theorem Tracks.ingest_eq (few : parcels.length ≤ maxReassemblyRecords) {a : Arrival Addr}
    (within : a.Within parcels start) :
    ∃ ready : Reassembler Addr, ready.entries = s.entries ∧
      s.ingestFragment a.pass a.packet =
        ready.takeFragment a.parcel.key (a.parcel.record.header a.index) a.packet := by
  refine ⟨s.prepare a.pass a.parcel.key a.timestampMs,?_,?_⟩
  · refine Reassembler.entries_prepare a.pass ?_ ?_
    · intro k r found
      have made := (h.known k r found).2
      have before := within.before
      exact decide_eq_false (by omega)
    · rcases h.gathered a.parcel within.member with ⟨-,absent⟩ | ⟨entry,found,-⟩
      · exact .inr (h.room few within.member absent)
      · exact .inl ⟨entry,found⟩
  · have parsed : parseTransportFragmentHeaderAfterMagic a.packet.data =
        some (a.parcel.record.header a.index) :=
      a.parcel.record.parse_fragment within.inside
    rw [Reassembler.ingest_eq parsed (a.parcel.record.valid_fragment within.inside)
      (a.parcel.record.length_fragment within.inside)]
    rfl

/-- The table after one parcel's entry has changed. -/
theorem Tracks.update (distinct : (parcels.map Parcel.key).Nodup) {p : Parcel Addr} (member : p ∈ parcels)
    {s' : Reassembler Addr} {now : Finset Nat}
    (others : ∀ k, k ≠ p.key → s'.entries.get? k = s.entries.get? k)
    (here : (now = ∅ ∧ s'.entries.get? p.key = none) ∨ ∃ entry, s'.entries.get? p.key = some entry ∧
      start ≤ entry.createdAtMs ∧ Gathered p.record now entry) :
    Tracks parcels start (Function.update got p.key now) s' where
  known := by
    intro k r found
    by_cases same : k = p.key
    · subst same
      rcases here with ⟨-,absent⟩ | ⟨entry,there,made,-⟩
      · cases absent.symm.trans found
      · cases there.symm.trans found
        exact ⟨mem_map_of_mem member,made⟩
    · rw [others k same] at found
      exact h.known k r found
  gathered := by
    intro p' member'
    by_cases same : p'.key = p.key
    · obtain rfl := inj_on_of_nodup_map distinct member' member same
      rw [Function.update_self]
      rcases here with absent | ⟨entry,there,-,gathered⟩
      · exact .inl absent
      · exact .inr ⟨entry,there,gathered⟩
    · rw [Function.update_of_ne same,others _ same]
      exact h.gathered p' member'

/-- One arrival does what is expected of it. -/
theorem Tracks.ingest (few : parcels.length ≤ maxReassemblyRecords)
    (distinct : (parcels.map Parcel.key).Nodup) {a : Arrival Addr} (within : a.Within parcels start) :
    (s.ingestFragment a.pass a.packet).1 = (if a.item.fills got then .complete a.item.whole else .pending) ∧
      Tracks parcels start (a.item.next got) (s.ingestFragment a.pass a.packet).2 := by
  obtain ⟨ready,same,eq⟩ := h.ingest_eq few within
  have there := h.gathered a.parcel within.member
  rw [← same] at there
  rcases Reassembler.takeFragment_gathered a.packet within.inside rfl there with
    ⟨all,out,entries⟩ | ⟨entry,missing,gathered,made,out,entries⟩
  · have fills : a.item.fills got := all
    rw [eq,out,if_pos fills,Item.next,if_pos fills]
    refine ⟨rfl,h.update distinct within.member ?_ (.inl ⟨rfl,?_⟩)⟩
    · intro k other
      rw [entries,OrderedMap.get?_erase,if_neg other,same]
    · rw [entries,OrderedMap.get?_erase,if_pos rfl]
  · have fills : ¬ a.item.fills got := missing
    rw [eq,out,if_neg fills,Item.next,if_neg fills]
    refine ⟨rfl,h.update distinct within.member ?_ (.inr ⟨entry,?_,?_,gathered⟩)⟩
    · intro k other
      rw [entries,OrderedMap.get?_insert,if_neg other,same]
    · rw [entries,OrderedMap.get?_insert,if_pos rfl]
    · rcases made with now | ⟨old,found,kept⟩
      · rw [now]
        exact within.after
      · rw [same] at found
        rw [kept]
        exact (h.known _ _ found).2

theorem Tracks.ingestAll (few : parcels.length ≤ maxReassemblyRecords)
    (distinct : (parcels.map Parcel.key).Nodup) {arrivals : List (Arrival Addr)}
    (within : ∀ a ∈ arrivals, a.Within parcels start) :
    (s.ingestAll (arrivals.map fun a => (a.pass,a.packet))).1 = expect got (arrivals.map Arrival.item) := by
  induction arrivals generalizing s got with
  | nil => rfl
  | cons a arrivals ih =>
    obtain ⟨out,after⟩ := h.ingest few distinct (within a mem_cons_self)
    have rest := ih after fun b member => within b (mem_cons_of_mem _ member)
    simp only [map_cons,Reassembler.ingestAll,expect]
    rw [out,rest]

end Parcels

namespace Segmented

variable {output : PacketOutput} {s : Segmentation}

def record (h : Segmented output s) : Record where
  counter := s.header.counter
  pieces := (range s.fragmentCount).map (piece output.payload s.maxFragmentPayload)
  counter_lt := h.counter_lt
  several := by
    rw [length_map,length_range]
    exact h.several
  few := by
    rw [length_map,length_range]
    exact h.few
  short := by
    rw [h.flatten]
    exact h.short
  nonempty := by
    intro p member
    obtain ⟨index,inside,rfl⟩ := mem_map.1 member
    exact length_pos_iff.1 (h.length_piece (mem_range.1 inside)).1

theorem fragment_record (h : Segmented output s) {index : Nat} (inside : index < s.fragmentCount) :
    h.record.fragment index = contiguousPayload output (segmentAt output s index) := by
  have here : h.record.pieces.getD index [] = piece output.payload s.maxFragmentPayload index := by
    rw [getD_eq_getElem _ _ (by simpa [record] using inside)]
    simp [record]
  rw [h.contiguousPayload_eq inside,Record.fragment,here,show h.record.pieces.flatten =
    output.payload from h.flatten]
  simp [record]

end Segmented

structure Sent (Addr : Type) where
  transportId : Nat
  remoteAddr : Addr
  output : PacketOutput
  segments : List Segment
  segmented : transportOutput output = .segments output segments

section RoundTrip

variable {Addr : Type}

namespace Sent

def recordId (x : Sent Addr) : Nat := (transportHeader x.output).elim 0 FspWireHeader.counter

def key (x : Sent Addr) : FragmentKey Addr := toLex (x.transportId,toLex (x.remoteAddr,x.recordId))

theorem segments_ok (x : Sent Addr) : x.segments.length ≤ maxFragments ∧
    ∀ segment ∈ x.segments, (contiguousPayload x.output segment).length ≤ x.output.pathMtu ∧
      validateTransportFragment (contiguousPayload x.output segment) = true := by
  obtain ⟨s,h,-,eq⟩ := transportOutput_eq_segments x.segmented
  rw [eq]
  refine ⟨by simpa using h.few,?_⟩
  intro segment member
  obtain ⟨index,inside,rfl⟩ := mem_map.1 member
  exact h.segment_ok (mem_range.1 inside)

theorem exists_parcel (x : Sent Addr) :
    ∃ p : Parcel Addr, p.transportId = x.transportId ∧ p.remoteAddr = x.remoteAddr ∧
    p.key = x.key ∧ p.record.pieces.length = x.segments.length ∧ p.record.pieces.flatten = x.output.payload ∧
    ∀ index : Fin x.segments.length, p.record.fragment index =
      contiguousPayload x.output (x.segments.get index) := by
  obtain ⟨s,h,-,eq⟩ := transportOutput_eq_segments x.segmented
  refine ⟨⟨x.transportId,x.remoteAddr,h.record⟩,rfl,rfl,?_,?_,h.flatten,?_⟩
  · simp only [key,recordId,h.header]
    rfl
  · simp [Segmented.record,eq]
  · intro index
    have inside : index < s.fragmentCount := by simpa [eq] using index.isLt
    rw [h.fragment_record inside]
    simp [eq]

end Sent

variable [LinearOrder Addr]

structure Delivery (Addr : Type) [LinearOrder Addr] where
  sent : Sent Addr
  index : Fin sent.segments.length
  timestampMs : Nat
  pass : Traversal (FragmentKey Addr × Reassembly)

namespace Delivery

def packet (d : Delivery Addr) : ReceivedPacket Addr :=
  ⟨d.sent.transportId,d.sent.remoteAddr,contiguousPayload d.sent.output (d.sent.segments.get d.index),
    d.timestampMs⟩

def item (d : Delivery Addr) : Item Addr :=
  ⟨d.sent.key,d.sent.segments.length,d.index,{ d.packet with data := d.sent.output.payload }⟩

end Delivery

/-- The segments of up to 512 packets, in any order and with any duplicates, bring out each packet with
its last missing segment and nothing else. -/
theorem direct_round_trip (records : List (Sent Addr)) (few : records.length ≤ 512)
    (distinct : (records.map Sent.key).Nodup) (start : Nat) (deliveries : List (Delivery Addr))
    (timely : ∀ d ∈ deliveries, d.sent ∈ records ∧ start ≤ d.timestampMs ∧ d.timestampMs ≤ start + 2000) :
    (∀ x ∈ records, x.segments.length ≤ 128 ∧ ∀ segment ∈ x.segments,
      (contiguousPayload x.output segment).length ≤ x.output.pathMtu ∧
        validateTransportFragment (contiguousPayload x.output segment) = true) ∧
    ((.default : Reassembler Addr).ingestAll (deliveries.map fun d => (d.pass,d.packet))).1 =
      expect (fun _ => ∅) (deliveries.map Delivery.item) ∧
    ∀ packets, ((.default : Reassembler Addr).ingestAll packets).2.entries.size ≤ 512 := by
  refine ⟨fun x _ => x.segments_ok,?_,fun packets => Reassembler.size_ingestAll (Nat.zero_le _) packets⟩
  choose parcel transport remote key count flatten fragment using fun x : Sent Addr => x.exists_parcel
  let arrival (d : Delivery Addr) : Arrival Addr := ⟨parcel d.sent,d.index,d.timestampMs,d.pass⟩
  have packet (d : Delivery Addr) : (arrival d).packet = d.packet := by
    simp only [Arrival.packet,Delivery.packet,arrival,transport,remote,fragment]
  have item (d : Delivery Addr) : (arrival d).item = d.item := by
    simp only [Arrival.item,Delivery.item,packet,arrival,key,count,flatten]
  have keys : (records.map parcel).map Parcel.key = records.map Sent.key := by simp [Function.comp_def,key]
  have within : ∀ a ∈ deliveries.map arrival, a.Within (records.map parcel) start := by
    intro a member
    obtain ⟨d,inside,rfl⟩ := mem_map.1 member
    obtain ⟨known,after,before⟩ := timely d inside
    exact ⟨mem_map_of_mem known,(count d.sent).symm ▸ d.index.isLt,after,before⟩
  have room : (records.map parcel).length ≤ maxReassemblyRecords := by
    rw [length_map]
    exact few
  have run := (tracks_default (records.map parcel) start).ingestAll room (keys ▸ distinct) within
  rw [map_map,map_map] at run
  simpa only [Function.comp_def,packet,item] using run

def shortPacket (flags fill : UInt8) (counter : UInt8 := 5) : PacketOutput :=
  ⟨.fsp,.transport,[0,flags,0,0,counter,0,0,0,0,0,0,0] ++ replicate 19 fill,30⟩

def shortSent : Sent Nat where
  transportId := 1
  remoteAddr := 7
  output := shortPacket 0x08 9
  segments := (range 4).map (segmentAt (shortPacket 0x08 9) ⟨⟨5,12,0x08⟩,10,4⟩)
  segmented := by decide +kernel

theorem direct_round_trip_shuffled :
    let deliver (index : Fin 4) (now : Nat) : Delivery Nat := ⟨shortSent,index,now,.stored⟩
    ((.default : Reassembler Nat).ingestAll
        ([deliver 3 0,deliver 0 900,deliver 3 950,deliver 2 1000,deliver 1 2000,deliver 1 2000].map
          fun d => (d.pass,d.packet))).1 =
      [.pending,.pending,.pending,.pending,.complete ⟨1,7,(shortPacket 0x08 9).payload,2000⟩,.pending] := by
  intro deliver
  have run := (direct_round_trip [shortSent] (by decide) (nodup_singleton _) 0
    [deliver 3 0,deliver 0 900,deliver 3 950,deliver 2 1000,deliver 1 2000,deliver 1 2000] (by
      intro d member
      simp only [mem_cons,not_mem_nil,or_false] at member
      rcases member with rfl | rfl | rfl | rfl | rfl | rfl <;>
        exact ⟨mem_singleton.2 rfl,by decide,by decide⟩)).2.1
  rw [run]
  decide +kernel

end RoundTrip

end Fips.Dataplane.DirectFsp
