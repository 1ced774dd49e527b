import Fips.Dataplane.ReassemblyRuns

set_option autoImplicit false

/-! Records are told apart by their path, counter, length and number of fragments only; when that is
enough. -/

namespace Fips.Dataplane.DirectFsp

open List

/-- A fragment on the wire of a packet that was sent. -/
def IsFragment (sent : List PacketOutput) (data : List UInt8) : Prop :=
  ∃ output ∈ sent, ∃ segments, transportOutput output = .segments output segments ∧
    ∃ segment ∈ segments, data = contiguousPayload output segment

/-- The bytes at one index of a sent packet that has this counter, length and number of fragments. -/
def IsPiece (sent : List PacketOutput) (counter totalLen count index : Nat) (bytes : List UInt8) : Prop :=
  ∃ output ∈ sent, ∃ s, transportSegmentation output = .ok (some s) ∧ s.header.counter = counter ∧
    output.payload.length = totalLen ∧ s.fragmentCount = count ∧
      bytes = piece output.payload s.maxFragmentPayload index

/-- Pieces of sent packets that agree in counter, length and number of fragments, one at each index, are
one of the packets whenever they have its length together. -/
def Unmixed (sent : List PacketOutput) : Prop :=
  ∀ counter pieces, pieces ≠ [] →
    (∀ index bytes, pieces[index]? = some bytes →
      IsPiece sent counter pieces.flatten.length pieces.length index bytes) →
    ∃ output ∈ sent, pieces.flatten = output.payload

/-- A counter is not used again for a packet of the same length and number of fragments. -/
def Distinct (sent : List PacketOutput) : Prop :=
  ∀ a ∈ sent, ∀ b ∈ sent, ∀ s t, transportSegmentation a = .ok (some s) →
    transportSegmentation b = .ok (some t) →
    s.header.counter = t.header.counter → a.payload.length = b.payload.length →
      s.fragmentCount = t.fragmentCount → a = b

theorem Distinct.unmixed {sent : List PacketOutput} (distinct : Distinct sent) : Unmixed sent := by
  intro counter pieces present own
  have first := length_pos_iff.2 present
  obtain ⟨output,member,s,segmented,counted,length,parts,-⟩ := own 0 _ (getElem?_eq_getElem first)
  have same : pieces = (range s.fragmentCount).map (piece output.payload s.maxFragmentPayload) := by
    apply ext_getElem?
    intro index
    rw [getElem?_map]
    cases found : pieces[index]? with
    | none =>
      have outside := getElem?_eq_none_iff.1 found
      rw [getElem?_eq_none (by rw [length_range,parts]; exact outside)]
      rfl
    | some bytes =>
      obtain ⟨other,member',t,segmented',counted',length',parts',rfl⟩ := own index bytes found
      obtain rfl := distinct output member other member' s t segmented segmented'
        (counted.trans counted'.symm)
        (length.trans length'.symm) (parts.trans parts'.symm)
      cases segmented.symm.trans segmented'
      have inside := (List.getElem?_eq_some_iff.1 found).1
      rw [getElem?_range (by rw [parts]; exact inside)]
      rfl
  refine ⟨output,member,?_⟩
  rw [same]
  exact (transportSegmentation_eq_ok segmented).flatten

section Sources

variable {Addr : Type} [LinearOrder Addr] {sent : List PacketOutput}

def keyCounter (k : FragmentKey Addr) : Nat := (ofLex (ofLex k).2).2

/-- Every fragment of a record is a piece of a sent packet that fits the record. -/
structure Sourced (sent : List PacketOutput) (counter : Nat) (r : Reassembly) : Prop where
  counted : r.Counted
  own : ∀ index bytes, r.fragments[index]? = some (some bytes) →
    IsPiece sent counter r.totalLen r.fragments.length index bytes

theorem Sourced.new (sent : List PacketOutput) (counter totalLen count now : Nat) :
    Sourced sent counter (.new totalLen count now) where
  counted := Reassembly.counted_new _ _ _
  own := by
    intro index bytes found
    have empty := mem_of_getElem? found
    cases eq_of_mem_replicate empty

theorem Sourced.insert {counter : Nat} {r : Reassembly} (h : Sourced sent counter r)
    {index : Nat} {bytes : List UInt8}
    (piece : IsPiece sent counter r.totalLen r.fragments.length index bytes)
    (taken : (r.insert index bytes).1 = true) :
    Sourced sent counter (r.insert index bytes).2 ∧
      (r.insert index bytes).2.fragments.length = r.fragments.length := by
  have counted := (h.counted.insert index bytes).resolve_left (by simp [taken])
  rcases r.insert_cases index bytes with refused | ⟨eq,-⟩ | ⟨-,-,eq⟩
  · rw [taken] at refused
    cases refused
  · rw [eq]
    exact ⟨h,rfl⟩
  · rw [eq] at counted ⊢
    refine ⟨⟨counted,?_⟩,length_set⟩
    intro index' bytes' found
    simp only [length_set]
    rw [getElem?_set] at found
    split at found
    · rename_i here
      subst here
      split at found
      · cases found
        exact piece
      · cases found
    · exact h.own index' bytes' found

theorem Sourced.intoPayload {counter : Nat} {r : Reassembly} (h : Sourced sent counter r)
    (unmixed : Unmixed sent) (parts : r.fragments ≠ []) (complete : r.isComplete = true)
    {payload : List UInt8} (out : r.intoPayload = some payload) :
    ∃ output ∈ sent, payload = output.payload := by
  obtain ⟨fragments,same,total,eq⟩ := h.counted.intoPayload complete
  cases out.symm.trans eq
  refine unmixed counter fragments (by rintro rfl; exact parts same) ?_
  intro index bytes found
  have stored : r.fragments[index]? = some (some bytes) := by rw [same,getElem?_map,found]; rfl
  have own := h.own index bytes stored
  rwa [same,length_map,← total] at own

theorem IsFragment.parse {data : List UInt8} (h : IsFragment sent data) : ∃ header,
    parseTransportFragmentHeaderAfterMagic data = some header ∧ validTransportFragmentHeader header = true ∧
      data.length - fragmentHeaderLen ≠ 0 ∧ 1 < header.fragmentCount ∧
      IsPiece sent header.recordId header.totalLen header.fragmentCount header.fragmentIndex
        (data.drop fragmentHeaderLen) := by
  obtain ⟨output,member,segments,segmented,segment,inside,rfl⟩ := h
  unfold transportOutput at segmented
  split at segmented
  · cases segmented
  · cases segmented
  · rename_i s found
    cases segmented
    obtain ⟨index,small,rfl⟩ := mem_map.1 inside
    have small := mem_range.1 small
    have h := transportSegmentation_eq_ok found
    refine ⟨_,h.parse_contiguous small,h.valid_header small,?_,h.several,output,member,s,found,rfl,rfl,rfl,?_⟩
    · have some := (h.length_piece small).1
      rw [h.contiguousPayload_eq small,length_append,length_segmentHeader]
      omega
    · rw [h.contiguousPayload_eq small]
      exact drop_left' (length_segmentHeader _ _ _ _)

def AllSourced (sent : List PacketOutput) (s : Reassembler Addr) : Prop :=
  ∀ k r, s.entries.get? k = some r → Sourced sent (keyCounter k) r

theorem AllSourced.ingest {s : Reassembler Addr} (h : AllSourced sent s) (unmixed : Unmixed sent)
    (pass : Traversal (FragmentKey Addr × Reassembly)) {packet : ReceivedPacket Addr}
    (honest : IsFragment sent packet.data) :
    AllSourced sent (s.ingestFragment pass packet).2 ∧
      ∀ whole, (s.ingestFragment pass packet).1 = .complete whole →
        ∃ output ∈ sent, whole.data = output.payload := by
  obtain ⟨header,parsed,valid,nonempty,several,piece⟩ := honest.parse
  rw [Reassembler.ingest_eq parsed valid nonempty]
  set k : FragmentKey Addr := toLex (packet.transportId,toLex (packet.remoteAddr,header.recordId))
  have kept := Reassembler.keeps_prepare s pass k packet.timestampMs
  set ready := s.prepare pass k packet.timestampMs
  have before : AllSourced sent ready := fun k' r found => h k' r (kept k' r found)
  have erased : AllSourced sent { ready with entries := ready.entries.erase k } := fun k' r found =>
    before k' r (Reassembler.keeps_of_erase ready k k' r found)
  have opened : ∃ entry, ready.openEntry k header packet.timestampMs = entry ∧
      Sourced sent header.recordId entry ∧
      entry.totalLen = header.totalLen ∧ entry.fragments.length = header.fragmentCount := by
    have fresh : (Reassembly.new header.totalLen header.fragmentCount packet.timestampMs).fragments.length =
        header.fragmentCount := length_replicate
    unfold Reassembler.openEntry
    cases found : ready.entries.get? k with
    | none => exact ⟨_,rfl,.new sent _ _ _ _,rfl,fresh⟩
    | some entry =>
      by_cases fits : entry.fits header.totalLen header.fragmentCount = true
      · obtain ⟨total,parts⟩ := of_decide_eq_true fits
        exact ⟨entry,if_pos fits,before k entry found,total,parts⟩
      · exact ⟨_,if_neg fits,.new sent _ _ _ _,rfl,fresh⟩
  obtain ⟨entry,eq,sourced,total,parts⟩ := opened
  rw [← total,← parts] at piece
  have cases := Reassembler.takeFragment_cases ready k header packet
  simp only [eq] at cases
  rcases cases with ⟨out,-⟩ | ⟨taken,-,out⟩ | ⟨payload,taken,complete,joined,out⟩
  · rw [out]
    exact ⟨erased,fun whole dropped => by cases dropped⟩
  · rw [out]
    refine ⟨?_,fun whole pending => by cases pending⟩
    intro k' r found
    rw [OrderedMap.get?_insert] at found
    split at found
    · rename_i here
      subst here
      cases found
      exact (sourced.insert piece taken).1
    · exact before k' r found
  · rw [out]
    refine ⟨erased,?_⟩
    intro whole same
    cases same
    obtain ⟨grown,length⟩ := sourced.insert piece taken
    refine grown.intoPayload unmixed ?_ complete joined
    rw [← length_pos_iff]
    omega

theorem AllSourced.ingestAll {s : Reassembler Addr} (h : AllSourced sent s) (unmixed : Unmixed sent)
    {packets : List (Traversal (FragmentKey Addr × Reassembly) × ReceivedPacket Addr)}
    (honest : ∀ p ∈ packets, IsFragment sent p.2.data) {whole : ReceivedPacket Addr}
    (out : .complete whole ∈ (s.ingestAll packets).1) : ∃ output ∈ sent, whole.data = output.payload := by
  induction packets generalizing s with
  | nil => cases out
  | cons p packets ih =>
    obtain ⟨after,now⟩ := h.ingest unmixed p.1 (honest p mem_cons_self)
    rcases mem_cons.1 out with here | later
    · exact now whole here.symm
    · exact ih after (fun q member => honest q (mem_cons_of_mem _ member)) later

/-- Then nothing but what was sent comes out, on whatever paths the fragments arrive, repeated, delayed or
lost. -/
theorem reassembles_sent (distinct : Distinct sent)
    {packets : List (Traversal (FragmentKey Addr × Reassembly) × ReceivedPacket Addr)}
    (honest : ∀ p ∈ packets, IsFragment sent p.2.data) {whole : ReceivedPacket Addr}
    (out : .complete whole ∈ ((.default : Reassembler Addr).ingestAll packets).1) :
    ∃ output ∈ sent, whole.data = output.payload := by
  have start : AllSourced sent (.default : Reassembler Addr) := nofun
  exact start.ingestAll distinct.unmixed honest out

/-- Two packets whose fragments arrive by turns. -/
theorem reassembles_shortPacket :
    let first := shortPacket 0x08 9
    let second := shortPacket 0x08 200 6
    let fragment (output : PacketOutput) (counter index : Nat) :
        Traversal (FragmentKey Nat × Reassembly) × ReceivedPacket Nat :=
      (.stored,⟨1,7,contiguousPayload output (segmentAt output ⟨⟨counter,12,0x08⟩,10,4⟩ index),0⟩)
    let packets := (range 4).flatMap fun index => [fragment first 5 index,fragment second 6 index]
    ∃ whole, .complete whole ∈ ((.default : Reassembler Nat).ingestAll packets).1 ∧
      ∃ output ∈ [first,second], whole.data = output.payload := by
  intro first second fragment packets
  have five : transportSegmentation first = .ok (some ⟨⟨5,12,0x08⟩,10,4⟩) := by decide +kernel
  have six : transportSegmentation second = .ok (some ⟨⟨6,12,0x08⟩,10,4⟩) := by decide +kernel
  have honest : ∀ p ∈ packets, IsFragment [first,second] p.2.data := by
    intro p member
    simp only [packets,mem_flatMap,mem_cons,not_mem_nil,or_false] at member
    obtain ⟨index,inside,rfl | rfl⟩ := member
    · exact ⟨first,by simp,_,by rw [transportOutput,five],_,mem_map_of_mem inside,rfl⟩
    · exact ⟨second,by simp,_,by rw [transportOutput,six],_,mem_map_of_mem inside,rfl⟩
  have distinct : Distinct [first,second] := by
    intro a ha b hb s t hs ht same _ _
    simp only [mem_cons,not_mem_nil,or_false] at ha hb
    rcases ha with rfl | rfl <;> rcases hb with rfl | rfl
    · rfl
    · cases five.symm.trans hs
      cases six.symm.trans ht
      cases same
    · cases six.symm.trans hs
      cases five.symm.trans ht
      cases same
    · rfl
  have out : .complete ⟨1,7,second.payload,0⟩ ∈ ((.default : Reassembler Nat).ingestAll packets).1 := by
    decide +kernel
  exact ⟨_,out,reassembles_sent distinct honest out⟩

theorem exists_record {counter : Nat} {pieces : List (List UInt8)} (present : pieces ≠ [])
    (own : ∀ index bytes, pieces[index]? = some bytes →
      IsPiece sent counter pieces.flatten.length pieces.length index bytes) :
    ∃ r : Record, r.counter = counter ∧ r.pieces = pieces := by
  have first := length_pos_iff.2 present
  obtain ⟨output,-,s,segmented,counted,length,parts,-⟩ := own 0 _ (getElem?_eq_getElem first)
  have h := transportSegmentation_eq_ok segmented
  refine ⟨⟨counter,pieces,counted ▸ h.counter_lt,parts ▸ h.several,parts ▸ h.few,length ▸ h.short,?_⟩,rfl,rfl⟩
  intro p member
  obtain ⟨index,inside,rfl⟩ := getElem_of_mem member
  obtain ⟨other,-,t,segmented',-,-,parts',eq⟩ := own index _ (getElem?_eq_getElem inside)
  rw [eq]
  exact length_pos_iff.1 ((transportSegmentation_eq_ok segmented').length_piece (parts'.symm ▸ inside)).1

theorem isFragment_of_piece {r : Record}
    (own : ∀ index bytes, r.pieces[index]? = some bytes →
      IsPiece sent r.counter r.pieces.flatten.length r.pieces.length index bytes) {index : Nat}
    (inside : index < r.pieces.length) : IsFragment sent (r.fragment index) := by
  obtain ⟨output,member,s,segmented,counted,length,parts,eq⟩ := own index _ (getElem?_eq_getElem inside)
  have h := transportSegmentation_eq_ok segmented
  have small : index < s.fragmentCount := parts.symm ▸ inside
  refine ⟨output,member,(range s.fragmentCount).map (segmentAt output s),?_,segmentAt output s index,
    mem_map_of_mem (mem_range.2 small),?_⟩
  · rw [transportOutput,segmented]
  · rw [h.contiguousPayload_eq small,Record.fragment,getD_eq_getElem _ _ inside,eq,counted,length,parts]

/-- The fragments of a record come out as its pieces, one after another. -/
theorem complete_mem_ingestAll (transportId : Nat) (remoteAddr : Addr) (r : Record) :
    ∃ packets : List (Traversal (FragmentKey Addr × Reassembly) × ReceivedPacket Addr),
      (∀ p ∈ packets, p.2.transportId = transportId ∧ p.2.remoteAddr = remoteAddr ∧
        ∃ index < r.pieces.length, p.2.data = r.fragment index) ∧
      ∃ whole, .complete whole ∈ ((.default : Reassembler Addr).ingestAll packets).1 ∧
        whole.data = r.pieces.flatten := by
  let parcel : Parcel Addr := ⟨transportId,remoteAddr,r⟩
  let arrivals : List (Arrival Addr) := (range r.pieces.length).map fun index => ⟨parcel,index,0,.stored⟩
  have from_arrivals {a : Arrival Addr} (member : a ∈ arrivals) :
      ∃ index < r.pieces.length, a = ⟨parcel,index,0,.stored⟩ := by
    obtain ⟨index,inside,rfl⟩ := mem_map.1 member
    exact ⟨index,mem_range.1 inside,rfl⟩
  have within : ∀ a ∈ arrivals, a.Within [parcel] 0 := by
    intro a member
    obtain ⟨index,inside,rfl⟩ := from_arrivals member
    exact ⟨mem_singleton.2 rfl,inside,le_rfl,Nat.zero_le _⟩
  have run := (tracks_default [parcel] 0).ingestAll (by simp [maxReassemblyRecords])
    (nodup_singleton _) within
  refine ⟨arrivals.map fun a => (a.pass,a.packet),?_,?_⟩
  · intro p member
    obtain ⟨a,inside,rfl⟩ := mem_map.1 member
    obtain ⟨index,small,rfl⟩ := from_arrivals inside
    exact ⟨rfl,rfl,index,small,rfl⟩
  · have same : ∀ i ∈ arrivals.map Arrival.item, i.key = parcel.key ∧ i.count = r.pieces.length := by
      intro i member
      obtain ⟨a,inside,rfl⟩ := mem_map.1 member
      obtain ⟨index,-,rfl⟩ := from_arrivals inside
      exact ⟨rfl,rfl⟩
    let nothing : FragmentKey Addr → Finset Nat := fun _ => ∅
    have all : ∀ index < r.pieces.length, index ∈ nothing parcel.key ∨
        ∃ i ∈ arrivals.map Arrival.item, i.index = index := by
      intro index inside
      exact .inr ⟨_,mem_map_of_mem (mem_map_of_mem (mem_range.2 inside)),rfl⟩
    have several := r.several
    have present : arrivals.map Arrival.item ≠ [] := by
      rw [← length_pos_iff]
      simp only [arrivals,length_map,length_range]
      omega
    obtain ⟨i,member,out⟩ := complete_mem_expect same all present
    rw [← run] at out
    obtain ⟨a,inside,rfl⟩ := mem_map.1 member
    obtain ⟨index,-,rfl⟩ := from_arrivals inside
    exact ⟨_,out,rfl⟩

/-- What comes out on a path is always one of the packets that were sent on it if and only if their pieces
cannot be mixed. -/
theorem reassembly_unmixed_iff (transportId : Nat) (remoteAddr : Addr) (sent : List PacketOutput) :
    (∀ packets : List (Traversal (FragmentKey Addr × Reassembly) × ReceivedPacket Addr),
      (∀ p ∈ packets, p.2.transportId = transportId ∧ p.2.remoteAddr = remoteAddr ∧
        IsFragment sent p.2.data) →
      ∀ whole, .complete whole ∈ ((.default : Reassembler Addr).ingestAll packets).1 →
        ∃ output ∈ sent, whole.data = output.payload) ↔ Unmixed sent := by
  constructor
  · intro sound counter pieces present own
    obtain ⟨r,rfl,rfl⟩ := exists_record present own
    obtain ⟨packets,made,whole,out,data⟩ := complete_mem_ingestAll transportId remoteAddr r
    rw [← data]
    refine sound packets ?_ whole out
    intro p member
    obtain ⟨transport,remote,index,inside,eq⟩ := made p member
    exact ⟨transport,remote,eq ▸ isFragment_of_piece own inside⟩
  · intro unmixed packets honest whole out
    have start : AllSourced sent (.default : Reassembler Addr) := by
      intro k r found
      cases found
    exact start.ingestAll unmixed (fun p member => (honest p member).2.2) out

end Sources

/-- The counter is used again after a rekey: three fragments of the first packet and the last of the
second make a packet that nobody sent. -/
theorem reassembly_mixed :
    let first := shortPacket 0x08 9
    let second := shortPacket 0x0a 200
    let fragment (output : PacketOutput) (index : Nat) :=
      contiguousPayload output (segmentAt output ⟨⟨5,12,output.payload.getD 1 0⟩,10,4⟩ index)
    let packets : List (Traversal (FragmentKey Nat × Reassembly) × ReceivedPacket Nat) :=
      [(.stored,⟨1,7,fragment first 0,0⟩),(.stored,⟨1,7,fragment first 1,1⟩),
        (.stored,⟨1,7,fragment first 2,2⟩),(.stored,⟨1,7,fragment second 3,1500⟩)]
    (∀ p ∈ packets, p.2.transportId = 1 ∧ p.2.remoteAddr = 7 ∧ IsFragment [first,second] p.2.data) ∧
      ∃ whole, .complete whole ∈ ((.default : Reassembler Nat).ingestAll packets).1 ∧
        ∀ output ∈ [first,second], whole.data ≠ output.payload := by
  intro first second fragment packets
  have sent (output : PacketOutput) (known : output = first ∨ output = second)
      (index : Nat) (inside : index < 4) :
      IsFragment [first,second] (fragment output index) := by
    refine ⟨output,by simpa using known,_,?_,_,mem_map_of_mem (mem_range.2 inside),rfl⟩
    rcases known with rfl | rfl <;> decide +kernel
  refine ⟨?_,⟨1,7,first.payload.take 30 ++ second.payload.drop 30,1500⟩,by decide +kernel,by decide +kernel⟩
  intro p member
  simp only [packets,mem_cons,not_mem_nil,or_false] at member
  rcases member with rfl | rfl | rfl | rfl
  · exact ⟨rfl,rfl,sent first (.inl rfl) 0 (by decide)⟩
  · exact ⟨rfl,rfl,sent first (.inl rfl) 1 (by decide)⟩
  · exact ⟨rfl,rfl,sent first (.inl rfl) 2 (by decide)⟩
  · exact ⟨rfl,rfl,sent second (.inr rfl) 3 (by decide)⟩

end Fips.Dataplane.DirectFsp
