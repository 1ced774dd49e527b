import Fips.Tun.Coalesce

set_option autoImplicit false

/-! Every packet that is written is in one frame. What cannot be coalesced stays in its place. -/

namespace Fips.Tun

open LinuxVnetWritePreparer List Option

namespace LinuxVnetPreparedWriteFrame

def rawIndex : LinuxVnetPreparedWriteFrame → Option Nat
  | rawPacket i => some i
  | vectored _ => none

def vectoredIndex : LinuxVnetPreparedWriteFrame → Option Nat
  | rawPacket _ => none
  | vectored j => some j

def first (frames : List LinuxVnetWriteFrame) : LinuxVnetPreparedWriteFrame → Nat
  | rawPacket i => i
  | vectored j => (frames[j]?.map (·.firstPacketIndex)).getD 0

def indices (frames : List LinuxVnetWriteFrame) : LinuxVnetPreparedWriteFrame → List Nat
  | rawPacket i => [i]
  | vectored j => (frames[j]?.map (·.indices)).getD []

def written (packets : List (List UInt8)) (frames : List LinuxVnetWriteFrame) :
    LinuxVnetPreparedWriteFrame → Option (List UInt8 × List UInt8)
  | rawPacket i => packets[i]?.map fun packet => (replicate linuxVirtioNetHdrLen 0,packet)
  | vectored j => frames[j]?.map fun frame => (frame.virtioHeader,frame.packet packets)

theorem flatMap_indices_perm (vectoredFrames : List LinuxVnetWriteFrame)
    (frames : List LinuxVnetPreparedWriteFrame) :
    (frames.flatMap (indices vectoredFrames)).Perm (frames.filterMap rawIndex ++
      (frames.filterMap vectoredIndex).flatMap fun j => (vectoredFrames[j]?.map (·.indices)).getD []) := by
  induction frames with
  | nil => exact .refl _
  | cons frame frames ih =>
    cases frame with
    | rawPacket i => exact ih.cons i
    | vectored j =>
      exact (ih.append_left _).trans (perm_append_comm_assoc _ _ _)

end LinuxVnetPreparedWriteFrame

open LinuxVnetPreparedWriteFrame

theorem flatMap_range_getElem? {α β : Type} (l : List α) (f : α → List β) :
    (range l.length).flatMap (fun j => (l[j]?.map f).getD []) = l.flatMap f := by
  induction l with
  | nil => rfl
  | cons a l ih =>
    rw [length_cons,range_succ_eq_map,flatMap_cons,flatMap_map,flatMap_cons,← ih]
    rfl

theorem flatMap_set_perm {α β : Type} {l : List α} {j : Nat} {a b : α} {f : α → List β}
    {x : β} (here : l[j]? = some a) (longer : f b = f a ++ [x]) :
    ((l.set j b).flatMap f).Perm (l.flatMap f ++ [x]) := by
  obtain ⟨bound,same⟩ := List.getElem?_eq_some_iff.1 here
  have split : l = l.take j ++ a :: l.drop (j + 1) := by
    rw [← same,← drop_eq_getElem_cons bound,take_append_drop]
  rw [set_eq_take_append_cons_drop,if_pos bound]
  conv => rhs; rw [split]
  simp only [flatMap_append,flatMap_cons,longer,append_assoc]
  exact ((perm_append_comm.append_left _).append_left _)

structure Placed (packets : List (List UInt8)) (n : Nat) (p : LinuxVnetWritePreparer) : Prop where
  grown : ∀ frame ∈ p.vectoredFrames, ∃ state firstSeq before last,
    Grown packets frame state firstSeq before last
  increasing : ∀ frame ∈ p.vectoredFrames, frame.indices.Pairwise (· < ·)
  numbered : p.frames.filterMap vectoredIndex = range p.vectoredFrames.length
  perm : (p.frames.filterMap rawIndex ++ p.vectoredFrames.flatMap (·.indices)).Perm (range n)
  sorted : (p.frames.map (first p.vectoredFrames)).Pairwise (· < ·)
  raw : ∀ i packet, packets[i]? = some packet → i < n →
    (.rawPacket i ∈ p.frames ↔ linuxVnetTcp6GroCandidate packet = none)
  apart : ∀ i, .rawPacket i ∈ p.frames → ∀ frame ∈ p.vectoredFrames, frame.firstPacketIndex < i →
    ∀ x ∈ frame.indices, x < i
  openFlows : ∀ entry ∈ p.openTcp6Flows, ∀ frame, p.vectoredFrames[entry.2]? = some frame →
    ∀ i, .rawPacket i ∈ p.frames → i < frame.firstPacketIndex

namespace Placed

variable {packets : List (List UInt8)} {n : Nat} {p : LinuxVnetWritePreparer} {packet : List UInt8}

section Positions

variable (h : Placed packets n p)
include h

theorem raw_lt {i : Nat} (mem : .rawPacket i ∈ p.frames) : i < n := by
  refine mem_range.1 (h.perm.mem_iff.1 (mem_append_left _ ?_))
  exact mem_filterMap.2 ⟨_,mem,rfl⟩

theorem index_lt {frame : LinuxVnetWriteFrame} (mem : frame ∈ p.vectoredFrames) {x : Nat}
    (inside : x ∈ frame.indices) :
    x < n := by
  refine mem_range.1 (h.perm.mem_iff.1 (mem_append_right _ ?_))
  exact mem_flatMap.2 ⟨frame,mem,inside⟩

theorem vectored_lt {j : Nat} (mem : .vectored j ∈ p.frames) : j < p.vectoredFrames.length := by
  have inside : j ∈ p.frames.filterMap vectoredIndex := mem_filterMap.2 ⟨_,mem,rfl⟩
  rw [h.numbered] at inside
  exact mem_range.1 inside

theorem first_lt {frame : LinuxVnetPreparedWriteFrame} (mem : frame ∈ p.frames) :
    first p.vectoredFrames frame < n := by
  cases frame with
  | rawPacket i => exact h.raw_lt mem
  | vectored j =>
    have bound := h.vectored_lt mem
    rw [first,getElem?_eq_getElem bound]
    exact h.index_lt (getElem_mem bound) mem_cons_self

theorem sorted_push {frame : LinuxVnetPreparedWriteFrame} {vectoredFrames : List LinuxVnetWriteFrame}
    (same : ∀ frame ∈ p.frames, first vectoredFrames frame = first p.vectoredFrames frame)
    (new : first vectoredFrames frame = n) :
    ((p.frames ++ [frame]).map (first vectoredFrames)).Pairwise (· < ·) := by
  rw [map_append,pairwise_append,map_congr_left same]
  refine ⟨h.sorted,pairwise_singleton _ _,fun a mem b last => ?_⟩
  obtain ⟨old,inside,rfl⟩ := mem_map.1 mem
  rw [map_singleton,mem_singleton,new] at last
  rw [last]
  exact h.first_lt inside

theorem raw_candidate (here : packets[n]? = some packet) {c : LinuxVnetTcp6GroCandidate}
    (found : linuxVnetTcp6GroCandidate packet = some c) {i : Nat} {other : List UInt8}
    (at' : packets[i]? = some other) (below : i < n + 1) :
    .rawPacket i ∈ p.frames ↔ linuxVnetTcp6GroCandidate other = none := by
  obtain old | rfl := Nat.lt_succ_iff_lt_or_eq.1 below
  · exact h.raw i other at' old
  · cases here.symm.trans at'
    rw [found]
    exact ⟨fun mem => absurd (h.raw_lt mem) (Nat.lt_irrefl _),nofun⟩

end Positions

theorem empty (packets : List (List UInt8)) : Placed packets 0 {} where
  grown := forall_mem_nil _
  increasing := forall_mem_nil _
  numbered := rfl
  perm := .refl _
  sorted := .nil
  raw _ _ _ none := absurd none (Nat.not_lt_zero _)
  apart _ none := absurd none (not_mem_nil)
  openFlows := forall_mem_nil _

theorem placeRaw (h : Placed packets n p) (here : packets[n]? = some packet)
    (none : linuxVnetTcp6GroCandidate packet = none) :
    Placed packets (n + 1) { p with openTcp6Flows := [], frames := p.frames ++ [.rawPacket n] } where
  grown := h.grown
  increasing := h.increasing
  numbered := by
    rw [filterMap_append,h.numbered]
    exact append_nil _
  perm := by
    rw [filterMap_append,append_assoc,range_succ]
    refine List.Perm.trans (List.Perm.append_left _ perm_append_comm) ?_
    rw [← append_assoc]
    exact h.perm.append_right _
  sorted := h.sorted_push (fun _ _ => rfl) rfl
  raw i other at' below := by
    obtain old | rfl := Nat.lt_succ_iff_lt_or_eq.1 below
    · rw [← h.raw i other at' old]
      simp [Nat.ne_of_lt old]
    · rw [here] at at'
      obtain rfl := some.inj at'
      simp [none]
  apart i mem frame inside _ x isIndex := by
    obtain old | last := mem_append.1 mem
    · exact h.apart i old frame inside ‹_› x isIndex
    · simp only [mem_singleton,rawPacket.injEq] at last
      rw [last]
      exact h.index_lt inside isIndex
  openFlows := forall_mem_nil _

/-- A candidate that begins a frame. -/
theorem start (h : Placed packets n p) (here : packets[n]? = some packet) {c : LinuxVnetTcp6GroCandidate}
    (found : linuxVnetTcp6GroCandidate packet = some c) :
    Placed packets (n + 1) (p.startTcp6WriteFrame n c) := by
  have oldFirst (frame : LinuxVnetPreparedWriteFrame) (mem : frame ∈ p.frames) :
      first (p.startTcp6WriteFrame n c).vectoredFrames frame = first p.vectoredFrames frame := by
    cases frame with
    | rawPacket i => rfl
    | vectored j =>
      simp only [first,startTcp6WriteFrame]
      rw [getElem?_append_left (h.vectored_lt mem)]
  have newFirst : first (p.startTcp6WriteFrame n c).vectoredFrames
      (.vectored p.vectoredFrames.length) = n := by
    simp only [first,startTcp6WriteFrame]
    rw [getElem?_append_right (Nat.le_refl _),Nat.sub_self]
    rfl
  have isRaw (i : Nat) : .rawPacket i ∈ (p.startTcp6WriteFrame n c).frames ↔ .rawPacket i ∈ p.frames := by
    simp [startTcp6WriteFrame]
  obtain ⟨state,grown⟩ := grown_start here found
  refine ⟨forall_mem_append.2 ⟨h.grown,forall_mem_singleton.2 ⟨state,_,_,_,grown⟩⟩,
    forall_mem_append.2 ⟨h.increasing,forall_mem_singleton.2 (pairwise_singleton _ _)⟩,?_,?_,
    h.sorted_push oldFirst newFirst,fun i _ at' below => (isRaw i).trans (h.raw_candidate here found at' below),
    ?_,?_⟩
  · unfold startTcp6WriteFrame
    rw [filterMap_append,h.numbered,length_append,length_singleton,range_succ]
    rfl
  · unfold startTcp6WriteFrame
    rw [filterMap_append,flatMap_append,range_succ]
    simp only [rawIndex,filterMap_cons,filterMap_nil,append_nil]
    rw [← append_assoc]
    exact h.perm.append_right _
  · intro i mem
    rw [isRaw] at mem
    refine forall_mem_append.2 ⟨h.apart i mem,forall_mem_singleton.2 fun before => ?_⟩
    exact absurd (h.raw_lt mem) (Nat.not_lt.2 (Nat.le_of_lt before))
  · intro entry mem frame at' i isRaw'
    rw [isRaw] at isRaw'
    obtain old | new := mem_append.1 mem
    · unfold startTcp6WriteFrame at at'
      by_cases bound : entry.2 < p.vectoredFrames.length
      · rw [getElem?_append_left bound] at at'
        exact h.openFlows entry old frame at' i isRaw'
      · rw [getElem?_append_right (by omega)] at at'
        obtain rfl := mem_singleton.1 (mem_of_getElem? at')
        exact h.raw_lt isRaw'
    · obtain rfl := mem_singleton.1 new
      unfold startTcp6WriteFrame at at'
      rw [getElem?_append_right (Nat.le_refl _),Nat.sub_self] at at'
      obtain rfl := some.inj at'
      exact h.raw_lt isRaw'

/-- A candidate that joins a frame behind the last packet that cannot be coalesced. -/
theorem append (h : Placed packets n p) (here : packets[n]? = some packet) {c : LinuxVnetTcp6GroCandidate}
    (found : linuxVnetTcp6GroCandidate packet = some c) {p' : LinuxVnetWritePreparer}
    (appended : p.tryAppend n c = some p') :
    Placed packets (n + 1) p' := by
  unfold tryAppend at appended
  simp only [Option.bind_eq_bind,Option.bind_eq_some_iff,Option.pure_def,Option.some.injEq] at appended
  obtain ⟨entry,isOpen,frame,held,frame',joined,rfl⟩ := appended
  have opened : entry ∈ p.openTcp6Flows := mem_reverse.1 (mem_of_find?_eq_some isOpen)
  have inside := mem_of_getElem? held
  obtain ⟨state,firstSeq,before,last,grown⟩ := h.grown frame inside
  obtain ⟨⟨state',grown'⟩,sameFirst,indices⟩ := grown.append here found joined
  have members {other : LinuxVnetWriteFrame} (mem : other ∈ p.vectoredFrames.set entry.2 frame') :
      other ∈ p.vectoredFrames ∨ other = frame' := mem_or_eq_of_mem_set mem
  have firsts (prepared : LinuxVnetPreparedWriteFrame) :
      first (p.vectoredFrames.set entry.2 frame') prepared = first p.vectoredFrames prepared := by
    cases prepared with
    | rawPacket i => rfl
    | vectored j =>
      simp only [first]
      rw [getElem?_set]
      split_ifs with same bound
      · rw [← same,held,map_some,map_some,sameFirst]
      · rw [← same,getElem?_eq_none (Nat.le_of_not_lt bound)]
      · rfl
  refine ⟨?_,?_,?_,?_,?_,fun i _ => h.raw_candidate here found,?_,?_⟩
  · intro other mem
    obtain old | rfl := members mem
    · exact h.grown other old
    · exact ⟨state',_,_,_,grown'⟩
  · intro other mem
    obtain old | rfl := members mem
    · exact h.increasing other old
    · rw [indices,pairwise_append]
      refine ⟨h.increasing frame inside,pairwise_singleton _ _,fun a isIndex b new => ?_⟩
      obtain rfl := mem_singleton.1 new
      exact h.index_lt inside isIndex
  · rw [length_set]
    exact h.numbered
  · rw [range_succ]
    refine ((flatMap_set_perm held indices).append_left _).trans ?_
    rw [← append_assoc]
    exact h.perm.append_right _
  · rw [map_congr_left fun prepared _ => firsts prepared]
    exact h.sorted
  · intro i mem other inside' before' x isIndex
    obtain old | rfl := members inside'
    · exact h.apart i mem other old before' x isIndex
    · rw [sameFirst] at before'
      exact absurd (h.openFlows entry opened frame held i mem) (Nat.not_lt.2 (Nat.le_of_lt before'))
  · intro other mem at' isAt i isRaw
    rw [getElem?_set] at isAt
    split_ifs at isAt with same bound
    · cases isAt
      rw [sameFirst]
      exact h.openFlows entry opened frame held i isRaw
    · exact h.openFlows other mem at' isAt i isRaw

theorem place (h : Placed packets n p) (here : packets[n]? = some packet) :
    Placed packets (n + 1) (p.place n packet) := by
  unfold LinuxVnetWritePreparer.place
  cases found : linuxVnetTcp6GroCandidate packet with
  | none => exact h.placeRaw here found
  | some c =>
    simp only
    cases appended : p.tryAppend n c with
    | none => exact h.start here found
    | some p' => exact h.append here found appended

theorem placeFrom (rest : List (List UInt8)) : ∀ (n : Nat) (p : LinuxVnetWritePreparer), Placed packets n p →
    n ≤ packets.length → packets.drop n = rest → Placed packets packets.length (p.placeFrom n rest) := by
  induction rest with
  | nil =>
    intro n p h le none
    have atEnd : n = packets.length := Nat.le_antisymm le (drop_eq_nil_iff.1 none)
    exact atEnd ▸ h
  | cons packet rest ih =>
    intro n p h _ split
    have bound : n < packets.length := by
      by_contra beyond
      rw [drop_of_length_le (Nat.le_of_not_lt beyond)] at split
      cases split
    rw [drop_eq_getElem_cons bound] at split
    obtain ⟨here,split⟩ := cons.inj split
    exact ih (n + 1) _ (h.place ((getElem?_eq_getElem bound).trans (congrArg some here))) bound split

end Placed

section Prepared

variable (ne : ByteOrder)

theorem ByteOrder.fromBytes_toBytes {n : Nat} (small : n < 2^16) : ne.fromBytes (ne.toBytes n) = n := by
  cases ne with
  | big => exact (Bytes.value_ofValue 2 n).trans (Nat.mod_eq_of_lt small)
  | little =>
    exact (Bytes.value_ofValue 2 n).trans (Nat.mod_eq_of_lt small)

theorem LinuxVirtioNetHdr.decode_encode {hdr : LinuxVirtioNetHdr} (hdrLen : hdr.hdrLen < 2^16)
    (gsoSize : hdr.gsoSize < 2^16) (csumStart : hdr.csumStart < 2^16) (csumOffset : hdr.csumOffset < 2^16) :
    decode ne (encode ne hdr) = .ok hdr := by
  have two (n : Nat) : ∃ a b, ne.toBytes n = [a,b] := by
    cases ne <;> exact ⟨_,_,rfl⟩
  have first := ne.fromBytes_toBytes hdrLen
  have second := ne.fromBytes_toBytes gsoSize
  have third := ne.fromBytes_toBytes csumStart
  have fourth := ne.fromBytes_toBytes csumOffset
  obtain ⟨a,b,ab⟩ := two hdr.hdrLen
  obtain ⟨c,d,cd⟩ := two hdr.gsoSize
  obtain ⟨e,f,ef⟩ := two hdr.csumStart
  obtain ⟨g,h,gh⟩ := two hdr.csumOffset
  unfold encode
  rw [ab] at first ⊢
  rw [cd] at second ⊢
  rw [ef] at third ⊢
  rw [gh] at fourth ⊢
  refine congrArg Except.ok ?_
  change LinuxVirtioNetHdr.mk hdr.flags hdr.gsoType (ne.fromBytes [a,b])
    (ne.fromBytes [c,d]) (ne.fromBytes [e,f])
    (ne.fromBytes [g,h]) = hdr
  rw [first,second,third,fourth]

variable (packets : List (List UInt8))

theorem finish_kept (frame : LinuxVnetWriteFrame) :
    (linuxVnetFinishWriteFrame ne packets frame).firstPacketIndex = frame.firstPacketIndex ∧
      (linuxVnetFinishWriteFrame ne packets frame).payloadSegments = frame.payloadSegments := by
  unfold linuxVnetFinishWriteFrame linuxVnetFinishTcp6WriteFrame
  cases frame.tcp6Gro with
  | none => exact ⟨rfl,rfl⟩
  | some state =>
    simp only
    split_ifs <;> exact ⟨rfl,rfl⟩

theorem indices_finish (frame : LinuxVnetWriteFrame) :
    (linuxVnetFinishWriteFrame ne packets frame).indices = frame.indices := by
  obtain ⟨first,segments⟩ := finish_kept ne packets frame
  unfold LinuxVnetWriteFrame.indices
  rw [first,segments]

theorem indices_map_finish (frames : List LinuxVnetWriteFrame)
    (prepared : LinuxVnetPreparedWriteFrame) :
    indices (frames.map (linuxVnetFinishWriteFrame ne packets)) prepared = indices frames prepared := by
  cases prepared with
  | rawPacket i => rfl
  | vectored j =>
    simp only [LinuxVnetPreparedWriteFrame.indices,getElem?_map,Option.map_map]
    congr 2
    funext frame
    exact indices_finish ne packets frame

theorem placed : Placed packets packets.length (placeFrom {} 0 packets) :=
  Placed.placeFrom packets 0 {} (.empty packets) (Nat.zero_le _) rfl

/-- A finished frame of several packets. -/
theorem finished_frame {packets : List (List UInt8)} {frame : LinuxVnetWriteFrame}
    (mem : frame ∈ (prepare ne packets).vectoredFrames) :
    ∃ frame₀ state firstSeq before last, Grown packets frame₀ state firstSeq before last ∧
      frame = linuxVnetFinishWriteFrame ne packets frame₀ ∧ frame.indices = frame₀.indices ∧
      frame.firstPacketIndex = frame₀.firstPacketIndex ∧ frame.payloadSegments = frame₀.payloadSegments ∧
      frame.indices.Pairwise (· < ·) ∧
      (before ≠ [] → frame.packet packets = coalescedPacket packets frame₀ state ∧
        LinuxVirtioNetHdr.decode ne frame.virtioHeader =
          .ok ⟨1,4,40 + state.tcpHeaderLen,state.gsoSize,40,16⟩) := by
  obtain ⟨frame₀,mem₀,rfl⟩ := mem_map.1 mem
  obtain ⟨state,firstSeq,before,last,grown⟩ := (placed packets).grown frame₀ mem₀
  obtain ⟨first,segments⟩ := finish_kept ne packets frame₀
  have same := indices_finish ne packets frame₀
  refine ⟨frame₀,state,firstSeq,before,last,grown,rfl,same,first,segments,same ▸
    (placed packets).increasing frame₀ mem₀,fun multi => ?_⟩
  obtain ⟨header,packet⟩ := grown.finish_multi ne multi
  have short := grown.short multi
  have size := grown.gsoSize
  refine ⟨packet,?_⟩
  rw [header]
  refine LinuxVirtioNetHdr.decode_encode ne ?_ ?_ ?_ ?_
  all_goals simp only
  all_goals omega

/-- A packet that cannot be coalesced stands between the frames of the packets before and after it. -/
theorem Placed.raw_between {packets : List (List UInt8)} {n : Nat} {p : LinuxVnetWritePreparer}
    (h : Placed packets n p) {before after : List LinuxVnetPreparedWriteFrame} {i : Nat}
    (split : p.frames = before ++ .rawPacket i :: after) :
    (∀ x ∈ before.flatMap (indices p.vectoredFrames), x < i) ∧
      ∀ x ∈ after.flatMap (indices p.vectoredFrames), i < x := by
  have sorted := h.sorted
  rw [split,map_append,map_cons,pairwise_append,pairwise_cons] at sorted
  obtain ⟨-,⟨later,-⟩,earlier⟩ := sorted
  have isRaw : .rawPacket i ∈ p.frames := by simp [split]
  constructor
  · intro x mem
    obtain ⟨prepared,inside,isIndex⟩ := mem_flatMap.1 mem
    have less := earlier _ (mem_map_of_mem inside) i (mem_cons_self)
    cases prepared with
    | rawPacket j =>
      obtain rfl := mem_singleton.1 isIndex
      exact less
    | vectored j =>
      have bound := h.vectored_lt (j := j) (by rw [split]; exact mem_append_left _ inside)
      simp only [LinuxVnetPreparedWriteFrame.first,LinuxVnetPreparedWriteFrame.indices,
        getElem?_eq_getElem bound] at less isIndex
      exact h.apart i isRaw _ (getElem_mem bound) less x isIndex
  · intro x mem
    obtain ⟨prepared,inside,isIndex⟩ := mem_flatMap.1 mem
    have more := later _ (mem_map_of_mem inside)
    cases prepared with
    | rawPacket j =>
      obtain rfl := mem_singleton.1 isIndex
      exact more
    | vectored j =>
      have bound := h.vectored_lt (j := j)
        (by rw [split]; exact mem_append_right _ (mem_cons_of_mem _ inside))
      simp only [LinuxVnetPreparedWriteFrame.first,LinuxVnetPreparedWriteFrame.indices,
        getElem?_eq_getElem bound] at more isIndex
      have increasing := h.increasing _ (getElem_mem bound)
      obtain rfl | tail := mem_cons.1 isIndex
      · exact more
      · exact Nat.lt_trans more ((pairwise_cons.1 increasing).1 x tail)

/-- Every packet is in one frame. What cannot be coalesced is written unchanged and in its place. A frame
of one packet is that packet, and a frame of several splits into them, up to the TCP checksum, exactly if
they all have the reserved bits, the window and the urgent pointer of the first. -/
theorem prepare_splits_back_iff :
    ((prepare ne packets).frames.flatMap
      (indices (prepare ne packets).vectoredFrames)).Perm (range packets.length) ∧
    (∀ i packet, packets[i]? = some packet → linuxVnetTcp6GroCandidate packet = none →
      .rawPacket i ∈ (prepare ne packets).frames ∧
      written packets (prepare ne packets).vectoredFrames (.rawPacket i) =
        some (replicate linuxVirtioNetHdrLen 0,packet)) ∧
    (∀ before i after, (prepare ne packets).frames = before ++ .rawPacket i :: after →
      (∀ x ∈ before.flatMap (indices (prepare ne packets).vectoredFrames), x < i) ∧
      ∀ x ∈ after.flatMap (indices (prepare ne packets).vectoredFrames), i < x) ∧
    ∀ frame ∈ (prepare ne packets).vectoredFrames, frame.indices.Pairwise (· < ·) ∧
      (frame.payloadSegments = [] → frame.virtioHeader = replicate linuxVirtioNetHdrLen 0 ∧
        frame.packet packets = packets.getD frame.firstPacketIndex []) ∧
      (frame.payloadSegments ≠ [] → ∃ hdr segments, LinuxVirtioNetHdr.decode ne frame.virtioHeader = .ok hdr ∧
        linuxVnetIpv6GsoSplit (frame.packet packets) hdr linuxVirtioNetHdrGsoTcpv6 = .ok segments ∧
        segments.length = frame.indices.length ∧
        (List.Forall₂ SameButChecksum segments (frame.indices.map fun i => packets.getD i []) ↔
          ∀ index ∈ frame.indices, ∀ i, LostAt i →
            (packets.getD index [])[i]? = (packets.getD frame.firstPacketIndex [])[i]?)) := by
  have h := placed packets
  have same : indices (prepare ne packets).vectoredFrames =
      indices (placeFrom {} 0 packets).vectoredFrames :=
    funext (indices_map_finish ne packets _)
  rw [same]
  refine ⟨?_,fun i packet here none => ?_,fun before i after split => h.raw_between split,fun frame mem => ?_⟩
  · refine (flatMap_indices_perm _ _).trans ?_
    change (filterMap _ (placeFrom {} 0 packets).frames ++
      flatMap _ (filterMap _ (placeFrom {} 0 packets).frames)).Perm _
    rw [h.numbered,flatMap_range_getElem?]
    exact h.perm
  · refine ⟨(h.raw i packet here (List.getElem?_eq_some_iff.1 here).1).2 none,?_⟩
    simp only [written,here,map_some]
  · obtain ⟨frame₀,state,firstSeq,before,last,grown,finished,sameIndices,sameFirst,
        segments,increasing,multi⟩ :=
      finished_frame ne mem
    refine ⟨increasing,fun alone => ?_,fun several => ?_⟩
    · rw [segments] at alone
      obtain ⟨unchanged,packet⟩ := grown.finish_single ne (grown.segments_nil.1 alone)
      rw [sameFirst]
      rw [← finished] at packet unchanged
      refine ⟨?_,packet⟩
      rw [unchanged]
      exact grown.plain.1
    · rw [segments] at several
      have some : before ≠ [] := fun none => several (grown.segments_nil.2 none)
      obtain ⟨packet,decoded⟩ := multi some
      obtain ⟨parts,split,count,iff⟩ := grown.split some
      refine ⟨_,parts,decoded,packet ▸ split,sameIndices ▸ count,?_⟩
      rw [sameIndices,sameFirst]
      exact iff

/-- The device completes the checksum of a coalesced packet to a valid one exactly if the sum of its
pseudo-header is zero. -/
theorem prepare_checksum_valid_iff (frame : LinuxVnetWriteFrame)
    (mem : frame ∈ (prepare ne packets).vectoredFrames) (several : frame.payloadSegments ≠ []) :
    ∃ hdr completed, LinuxVirtioNetHdr.decode ne frame.virtioHeader = .ok hdr ∧
      hdr.flags &&& linuxVirtioNetHdrFNeedsCsum ≠ 0 ∧
      linuxVnetGsoNoneChecksum (frame.packet packets) hdr.csumStart hdr.csumOffset = .ok completed ∧
      (ChecksumValid linuxIpprotoTcp completed ↔
        OnesComplement.wordSum (pseudoHeader linuxIpprotoTcp (frame.packet packets)) % 65535 = 0) := by
  obtain ⟨frame₀,state,firstSeq,before,last,grown,-,-,-,segments,-,multi⟩ := finished_frame ne mem
  rw [segments] at several
  have some : before ≠ [] := fun none => several (grown.segments_nil.2 none)
  obtain ⟨packet,decoded⟩ := multi some
  obtain ⟨completed,made,iff⟩ := grown.completed some
  rw [packet]
  exact ⟨_,completed,decoded,(by decide : (1 : UInt8) &&& linuxVirtioNetHdrFNeedsCsum ≠ 0),made,iff⟩

end Prepared

def tcpByte (seq window byte : UInt8) : List UInt8 :=
  [0x60,0,0,0,0,21,6,64] ++ replicate 16 0xfd ++ replicate 16 0xfe ++
    [0,1,0,2,0,0,0,seq,0,0,0,9,0x50,0x10,0,window,0,0,0,0] ++ [byte]

def windowUpdate : List (List UInt8) := [tcpByte 5 1 65,tcpByte 6 2 66]

/-- Both packets come back with the window of the first. -/
theorem windowUpdate_lost : windowUpdate.map (Bytes.slice · 54 2) = [[0,1],[0,2]] ∧
    (prepare .little windowUpdate).vectoredFrames.map (fun frame => (frame.indices,
      (linuxVnetIpv6GsoSplit (frame.packet windowUpdate) ⟨1,4,60,1,40,16⟩ linuxVirtioNetHdrGsoTcpv6).map
        fun segments =>
        segments.map (Bytes.slice · 54 2))) = [([0,1],.ok [[0,1],[0,1]])] := by
  decide +kernel

/-- The completed packet has a checksum that no receiver accepts. -/
theorem windowUpdate_checksum : (prepare .little windowUpdate).vectoredFrames.map (fun frame =>
    (linuxVnetGsoNoneChecksum (frame.packet windowUpdate) 40 16).map fun completed =>
      decide (ChecksumValid linuxIpprotoTcp completed)) = [.ok false] := by
  decide +kernel

theorem prepare_checksum_valid_iff_windowUpdate :
    ∃ frame ∈ (prepare .little windowUpdate).vectoredFrames,
      ∃ (hdr : LinuxVirtioNetHdr) (completed : List UInt8),
      linuxVnetGsoNoneChecksum (frame.packet windowUpdate) hdr.csumStart hdr.csumOffset = .ok completed ∧
      (ChecksumValid linuxIpprotoTcp completed ↔
        OnesComplement.wordSum (pseudoHeader linuxIpprotoTcp (frame.packet windowUpdate)) % 65535 = 0) := by
  have two : (prepare .little windowUpdate).vectoredFrames.map (·.payloadSegments.length) = [1] := by
    decide +kernel
  obtain ⟨frame,single,several⟩ := map_eq_singleton_iff.1 two
  have mem : frame ∈ (prepare .little windowUpdate).vectoredFrames := by
    rw [single]
    exact mem_singleton_self _
  obtain ⟨hdr,completed,-,-,made,iff⟩ := prepare_checksum_valid_iff .little windowUpdate frame mem
    (fun none => by rw [none] at several; cases several)
  exact ⟨frame,mem,hdr,completed,made,iff⟩

end Fips.Tun
