import Fips.Tun.WritePreparer
import Fips.Tun.Split
import Fips.Lib.Lists

set_option autoImplicit false

/-! A coalesced frame and the packets it was made of. -/

namespace Fips.Tun

open Bytes OnesComplement List

structure IsCandidate (packet : List UInt8) (c : LinuxVnetTcp6GroCandidate) : Prop where
  header : c.tcpHeaderLen = Transport.tcp.headerLen packet
  headerMin : 20 ≤ c.tcpHeaderLen
  headerMax : c.tcpHeaderLen ≤ 60
  length : packet.length = 40 + c.tcpHeaderLen + c.payloadLen
  payload : 1 ≤ c.payloadLen
  payloadMax : c.payloadLen ≤ 0xffff
  payloadLen : value (slice packet 4 2) = packet.length - 40
  seq : c.seq = value (slice packet 44 4)
  flags : packet[53]? = some (if c.pshSet then linuxTcpFlagAck ||| linuxTcpFlagPsh else linuxTcpFlagAck)
  flow : c.flow = linuxVnetTcp6GroFlow packet c.tcpHeaderLen

variable {packet : List UInt8} {c : LinuxVnetTcp6GroCandidate}

theorem isCandidate (found : linuxVnetTcp6GroCandidate packet = some c) : IsCandidate packet c := by
  unfold linuxVnetTcp6GroCandidate at found
  by_cases notTcp : packet.length < 60 ∨ packet.getD 0 0 >>> 4 ≠ 6 ∨ packet.getD 6 0 ≠ linuxIpprotoTcp
  · rw [if_pos notTcp] at found
    cases found
  rw [if_neg notTcp] at found
  by_cases badLen : value (slice packet 4 2) ≠ packet.length - 40 ∨ value (slice packet 4 2) < 20
  · rw [if_pos badLen] at found
    cases found
  rw [if_neg badLen] at found
  generalize header : (packet.getD 52 0 >>> 4).toNat * 4 = headerLen at found
  by_cases badHeader : ¬(20 ≤ headerLen ∧ headerLen ≤ 60) ∨ packet.length < 40 + headerLen
  · rw [if_pos badHeader] at found
    cases found
  rw [if_neg badHeader] at found
  cases flags : groPshSet (packet.getD (40 + linuxTcpFlagsOffset) 0) with
  | none =>
    rw [flags] at found
    cases found
  | some pshSet =>
    rw [flags] at found
    simp only at found
    by_cases badData : packet.length - 40 - headerLen = 0 ∨ 0xffff < packet.length - 40 - headerLen
    · rw [if_pos badData] at found
      cases found
    rw [if_neg badData] at found
    cases found
    have byte : packet[53]? = some (packet.getD 53 0) := by
      rw [getD_eq_getElem?_getD,getElem?_eq_getElem (by omega : 53 < packet.length)]
      rfl
    refine ⟨header.symm,?_,?_,?_,?_,?_,?_,rfl,?_,rfl⟩
    any_goals simp only
    any_goals omega
    unfold groPshSet at flags
    rw [show 40 + linuxTcpFlagsOffset = 53 from rfl] at flags
    rw [byte]
    split_ifs at flags with plain push
    · cases flags
      rw [plain]
      rfl
    · cases flags
      rw [push]
      rfl

variable {i : Nat}

/-- Packets of one flow agree wherever the flow or the length of the header says so. -/
theorem flow_getElem? {a b : List UInt8} {headerLen : Nat} (aFits : 40 + headerLen ≤ a.length)
    (bFits : 40 + headerLen ≤ b.length) (min : 20 ≤ headerLen) (max : headerLen ≤ 60)
    (same : linuxVnetTcp6GroFlow a headerLen = linuxVnetTcp6GroFlow b headerLen) (below : i < 40 + headerLen)
    (known : i < 4 ∨ 6 ≤ i ∧ i < 44 ∨ 48 ≤ i ∧ i < 52 ∨ 60 ≤ i) : a[i]? = b[i]? := by
  unfold linuxVnetTcp6GroFlow at same
  simp only [LinuxVnetTcp6GroFlow.mk.injEq] at same
  obtain ⟨version,next,hop,src,dst,srcPort,dstPort,ack,-,options⟩ := same
  have value {start len : Nat} (fits : start + len ≤ 60)
      (value : value (slice a start len) = value (slice b start len)) :
      slice a start len = slice b start len := by
    refine value_inj ?_ value
    rw [length_slice (by omega),length_slice (by omega)]
  have getD (j : Nat) (inside : j < 60) (here : a.getD j 0 = b.getD j 0) : a[j]? = b[j]? := by
    rw [getD_eq_getElem?_getD,getD_eq_getElem?_getD,getElem?_eq_getElem (by omega : j < a.length),
      getElem?_eq_getElem (by omega : j < b.length)] at here
    rw [getElem?_eq_getElem (by omega : j < a.length),getElem?_eq_getElem (by omega : j < b.length)]
    exact congrArg some here
  have optionBytes : slice a 60 (headerLen - 20) = slice b 60 (headerLen - 20) := by
    refine (append_inj options ?_).1
    rw [length_slice (by omega),length_slice (by omega)]
  by_cases low : i < 4
  · exact getElem?_of_slice version (Nat.zero_le _) (by omega)
  by_cases six : i = 6
  · exact six ▸ getD 6 (by decide) next
  by_cases seven : i = 7
  · exact seven ▸ getD 7 (by decide) hop
  by_cases source : i < 24
  · exact getElem?_of_slice src (by omega) (by omega)
  by_cases target : i < 40
  · exact getElem?_of_slice dst (by omega) (by omega)
  by_cases port : i < 42
  · exact getElem?_of_slice (value (by decide) srcPort) (by omega) (by omega)
  by_cases port' : i < 44
  · exact getElem?_of_slice (value (by decide) dstPort) (by omega) (by omega)
  by_cases acked : i < 52
  · exact getElem?_of_slice (value (by decide) ack) (by omega) (by omega)
  · exact getElem?_of_slice optionBytes (by omega) (by omega)

/-- The frame holds the packets of `before` and of `last`, which can be told from the first and their
place. -/
structure Grown (packets : List (List UInt8)) (frame : LinuxVnetWriteFrame)
    (state : LinuxVnetTcp6GroState) (firstSeq : Nat) (before : List (Nat × LinuxVnetTcp6GroCandidate))
    (last : Nat × LinuxVnetTcp6GroCandidate) : Prop where
  gro : frame.tcp6Gro = some state
  plain : frame.virtioHeader = replicate linuxVirtioNetHdrLen 0 ∧ frame.firstHeader = [] ∧
    frame.firstPayloadOffset = 0
  indices : frame.indices = (before ++ [last]).map (·.1)
  offsets : ∀ segment ∈ frame.payloadSegments, segment.payloadOffset = 40 + state.tcpHeaderLen
  known : ∀ m ∈ before ++ [last], ∃ packet, packets[m.1]? = some packet ∧
    linuxVnetTcp6GroCandidate packet = some m.2
  alike : ∀ m ∈ before ++ [last], m.2.flow = state.flow ∧ m.2.tcpHeaderLen = state.tcpHeaderLen
  seq : ∀ k m, (before ++ [last])[k]? = some m → m.2.seq = (firstSeq + k * state.gsoSize) % 2^32
  full : ∀ m ∈ before, m.2.payloadLen = state.gsoSize ∧ m.2.pshSet = false
  lastLen : last.2.payloadLen ≤ state.gsoSize
  lastPsh : last.2.pshSet = state.pshSet
  payloadLen : state.payloadLen = before.length * state.gsoSize + last.2.payloadLen
  nextSeq : state.nextSeq = (firstSeq + state.payloadLen) % 2^32
  gsoSize : 1 ≤ state.gsoSize ∧ state.gsoSize ≤ 0xffff
  short : before ≠ [] → 40 + state.tcpHeaderLen + state.payloadLen ≤ 0xffff

variable {packets : List (List UInt8)} {frame : LinuxVnetWriteFrame}
  {state : LinuxVnetTcp6GroState} {firstSeq : Nat}
  {before : List (Nat × LinuxVnetTcp6GroCandidate)} {last : Nat × LinuxVnetTcp6GroCandidate}

theorem Grown.lastSome (h : Grown packets frame state firstSeq before last) : 1 ≤ last.2.payloadLen := by
  obtain ⟨p,-,found⟩ := h.known last (by simp)
  exact (isCandidate found).payload

theorem grown_start (here : packets[i]? = some packet) (found : linuxVnetTcp6GroCandidate packet = some c) :
    ∃ state, Grown packets (linuxVnetStartTcp6WriteFrameWithCandidate i c) state c.seq [] (i,c) := by
  have spec := isCandidate found
  have seqLt : c.seq < 2^32 := by
    rw [spec.seq]
    have bound := value_lt (slice packet 44 4)
    have size : (slice packet 44 4).length = 4 :=
      length_slice (by have := spec.length; have := spec.headerMin; omega)
    rw [size] at bound
    exact bound
  refine ⟨_,rfl,⟨rfl,rfl,rfl⟩,rfl,forall_mem_nil _,forall_mem_singleton.2 ⟨packet,here,found⟩,
    forall_mem_singleton.2 ⟨rfl,rfl⟩,fun k m at' => ?_,forall_mem_nil _,
    Nat.le_refl _,rfl,?_,rfl,⟨spec.payload,spec.payloadMax⟩,fun none => absurd rfl none⟩
  · obtain ⟨bound,rfl⟩ := List.getElem?_eq_some_iff.1 at'
    obtain rfl : k = 0 := by simpa using bound
    simp only [Nat.zero_mul]
    exact (Nat.mod_eq_of_lt seqLt).symm
  · simp

/-- An appended packet continues the frame. -/
theorem Grown.append (h : Grown packets frame state firstSeq before last) {frame' : LinuxVnetWriteFrame}
    (here : packets[i]? = some packet) (found : linuxVnetTcp6GroCandidate packet = some c)
    (appended : linuxVnetTryTcp6GroAppendWithCandidate frame i c = some frame') :
    (∃ state', Grown packets frame' state' firstSeq (before ++ [last]) (i,c)) ∧
      frame'.firstPacketIndex = frame.firstPacketIndex ∧
      frame'.indices = frame.indices ++ [i] := by
  unfold linuxVnetTryTcp6GroAppendWithCandidate at appended
  rw [h.gro] at appended
  simp only at appended
  split_ifs at appended with full differs long
  cases appended
  simp only [not_or,not_not,Bool.not_eq_true] at full differs
  obtain ⟨noPsh,whole⟩ := full
  obtain ⟨flow,header,seq,fits⟩ := differs
  have some := h.lastSome
  -- a short packet is always the last one
  have lastFull : last.2.payloadLen = state.gsoSize := by
    have le := h.lastLen
    rw [h.payloadLen,Nat.add_comm,Nat.add_mul_mod_self_right] at whole
    by_contra other
    rw [Nat.mod_eq_of_lt (by omega)] at whole
    omega
  have total : state.payloadLen = (before ++ [last]).length * state.gsoSize := by
    rw [h.payloadLen,lastFull,length_append,length_singleton,Nat.succ_mul]
  refine ⟨⟨_,rfl,h.plain,?_,forall_mem_append.2 ⟨h.offsets,forall_mem_singleton.2 (by rw [header])⟩,
    forall_mem_append.2 ⟨h.known,forall_mem_singleton.2 ⟨packet,here,found⟩⟩,
    forall_mem_append.2 ⟨h.alike,forall_mem_singleton.2 ⟨flow,header⟩⟩,?_,
    forall_mem_append.2 ⟨h.full,forall_mem_singleton.2 ⟨lastFull,h.lastPsh.trans noPsh⟩⟩,
    ?_,?_,?_,?_,h.gsoSize,fun _ => ?_⟩,rfl,?_⟩
  · have before' := h.indices
    unfold LinuxVnetWriteFrame.indices at before' ⊢
    rw [map_append,map_append,← cons_append,before']
    rfl
  · intro k m at'
    obtain inside | outside := Nat.lt_or_ge k (before ++ [last]).length
    · rw [getElem?_append_left inside] at at'
      exact h.seq k m at'
    · rw [getElem?_append_right outside] at at'
      obtain ⟨bound,rfl⟩ := List.getElem?_eq_some_iff.1 at'
      rw [length_singleton] at bound
      obtain rfl : k = (before ++ [last]).length := by omega
      simp only [Nat.sub_self,getElem_cons_zero]
      rw [seq,h.nextSeq,total]
  · exact Nat.le_of_not_lt fits
  · simp only [noPsh,Bool.false_or]
  · rw [← total]
  · simp only
    rw [h.nextSeq]
    omega
  · simp only
    omega
  · simp [LinuxVnetWriteFrame.indices]

structure HeaderOf (first : List UInt8) (state : LinuxVnetTcp6GroState) (header : List UInt8) : Prop where
  length : header.length = 40 + state.tcpHeaderLen
  others : ∀ i < 40 + state.tcpHeaderLen, ¬(4 ≤ i ∧ i < 6) → i ≠ 53 →
    ¬(56 ≤ i ∧ i < 58) → header[i]? = first[i]?
  flags : header[53]? = first[53]?.map fun flags => if state.pshSet then flags ||| linuxTcpFlagPsh else flags
  partialSum : slice header 56 2 = ofValue 2 (0xffff - fold
    (linuxVnetPseudoHeaderSum linuxIpprotoTcp (slice first 8 16) (slice first 24 16)
      ((state.tcpHeaderLen + state.payloadLen) % 2^16)))

theorem coalescedHeader_spec {first : List UInt8} (min : 20 ≤ state.tcpHeaderLen)
    (fits : 40 + state.tcpHeaderLen ≤ first.length) :
    HeaderOf first state (coalescedHeader first state) := by
  unfold coalescedHeader
  simp only [linuxTcpFlagsOffset]
  generalize lenBytes : ofValue 2 (state.tcpHeaderLen + state.payloadLen) = len
  have len2 : len.length = 2 := by rw [← lenBytes,length_ofValue]
  have length₀ : (first.take (40 + state.tcpHeaderLen)).length = 40 + state.tcpHeaderLen := by
    rw [length_take]
    omega
  have get₀ (i : Nat) (below : i < 40 + state.tcpHeaderLen) :
      (first.take (40 + state.tcpHeaderLen))[i]? = first[i]? :=
    getElem?_take_of_lt below
  generalize first.take (40 + state.tcpHeaderLen) = out₀ at length₀ get₀
  have fits₁ : 4 + len.length ≤ out₀.length := by omega
  have length₁ := length_overwrite fits₁
  have get₁ := getElem?_overwrite fits₁
  generalize overwrite out₀ 4 len = out₁ at length₁ get₁
  rw [overwrite_byte_if (· ||| linuxTcpFlagPsh) (by omega : 53 < out₁.length)]
  have flags₂ (f : UInt8 → UInt8) : (out₁.modify 53 f)[53]? = first[53]?.map f := by
    rw [getElem?_modify_eq,get₁,if_neg (by omega),get₀ _ (by omega)]
    rfl
  generalize made : (out₁.modify 53 fun flags => if state.pshSet then flags ||| linuxTcpFlagPsh else flags) =
    out₂
  have length₂ : out₂.length = out₁.length := by rw [← made,length_modify]
  have bytes₂ (i : Nat) (below : i < 40 + state.tcpHeaderLen)
      (notLen : ¬(4 ≤ i ∧ i < 6)) (notFlags : i ≠ 53) :
      out₂[i]? = first[i]? := by
    rw [← made,getElem?_modify_ne _ _ (Ne.symm notFlags),get₁,if_neg (by omega),get₀ i below]
  have addresses (start : Nat) (low : 8 ≤ start) (high : start + 16 ≤ 40) :
      slice out₂ start 16 = slice first start 16 :=
    slice_congr fun i above below => bytes₂ i (by omega) (by omega) (by omega)
  rw [addresses 8 (by decide) (by decide),addresses 24 (by decide) (by decide)]
  generalize isPseudo : linuxVnetPseudoHeaderSum linuxIpprotoTcp (slice first 8 16) (slice first 24 16)
    ((state.tcpHeaderLen + state.payloadLen) % 2^16) = pseudo
  have sum : u16Not (linuxVnetChecksum [] pseudo) = 0xffff - fold pseudo := by
    rw [linuxVnetChecksum_eq]
    rfl
  rw [sum]
  have fits₃ : 56 + (ofValue 2 (0xffff - fold pseudo)).length ≤ out₂.length := by
    rw [length_ofValue]
    omega
  have get₃ := getElem?_overwrite fits₃
  rw [length_ofValue] at get₃
  refine ⟨(length_overwrite fits₃).trans (by omega),fun i below notLen notFlags notSum => ?_,?_,?_⟩
  · rw [get₃,if_neg (by omega)]
    exact bytes₂ i below notLen notFlags
  · rw [get₃,← made]
    exact flags₂ _
  · have written := slice_overwrite fits₃
    rw [isPseudo]
    exact written

def coalescedPacket (packets : List (List UInt8)) (frame : LinuxVnetWriteFrame)
    (state : LinuxVnetTcp6GroState) : List UInt8 :=
  coalescedHeader (packets.getD frame.firstPacketIndex []) state ++
    (frame.indices.map fun i => (packets.getD i []).drop (40 + state.tcpHeaderLen)).flatten

section Finishing

variable (h : Grown packets frame state firstSeq before last)
include h

theorem Grown.segments_nil : frame.payloadSegments = [] ↔ before = [] := by
  have indices := congrArg length h.indices
  simp only [LinuxVnetWriteFrame.indices,length_cons,length_map,length_append,length_nil] at indices
  rw [← length_eq_zero_iff,← length_eq_zero_iff]
  omega

theorem Grown.finish_single (ne : ByteOrder) (single : before = []) :
    linuxVnetFinishWriteFrame ne packets frame = { frame with tcp6Gro := none } ∧
      (linuxVnetFinishWriteFrame ne packets frame).packet packets =
        packets.getD frame.firstPacketIndex [] := by
  obtain ⟨-,header,offset⟩ := h.plain
  have unchanged : linuxVnetFinishWriteFrame ne packets frame = { frame with tcp6Gro := none } := by
    unfold linuxVnetFinishWriteFrame linuxVnetFinishTcp6WriteFrame
    rw [h.gro]
    simp only
    rw [if_pos]
    have le := h.lastLen
    rw [h.payloadLen,single]
    simpa using le
  refine ⟨unchanged,?_⟩
  rw [unchanged]
  simp only [LinuxVnetWriteFrame.packet,header,offset,h.segments_nil.2 single,nil_append,
    drop_zero,flatMap_nil,append_nil]

/-- What is written for a frame of several packets. -/
theorem Grown.finish_multi (ne : ByteOrder) (multi : before ≠ []) :
    (linuxVnetFinishWriteFrame ne packets frame).virtioHeader =
      LinuxVirtioNetHdr.encode ne ⟨1,4,40 + state.tcpHeaderLen,state.gsoSize,40,16⟩ ∧
    (linuxVnetFinishWriteFrame ne packets frame).packet packets = coalescedPacket packets frame state := by
  have some := h.lastSome
  have several : 1 ≤ before.length := length_pos_iff.2 multi
  have more : ¬state.payloadLen ≤ state.gsoSize := by
    have grows := Nat.mul_le_mul_right state.gsoSize several
    rw [h.payloadLen]
    omega
  have finished : linuxVnetFinishWriteFrame ne packets frame = { frame with
      tcp6Gro := none
      firstHeader := coalescedHeader (packets.getD frame.firstPacketIndex []) state
      firstPayloadOffset := 40 + state.tcpHeaderLen
      virtioHeader := LinuxVirtioNetHdr.encode ne ⟨1,4,40 + state.tcpHeaderLen,state.gsoSize,40,16⟩ } := by
    unfold linuxVnetFinishWriteFrame linuxVnetFinishTcp6WriteFrame
    rw [h.gro]
    simp only
    rw [if_neg more]
    rfl
  rw [finished]
  refine ⟨rfl,?_⟩
  simp only [LinuxVnetWriteFrame.packet,coalescedPacket,append_assoc]
  congr 2
  rw [← flatMap_def,flatMap_map]
  exact flatMap_congr fun segment mem => by rw [h.offsets segment mem]

end Finishing

/-- The header bytes that only the first packet of a frame keeps: the reserved bits, the window and the
urgent pointer. -/
def LostAt (i : Nat) : Prop := i = 52 ∨ i = 54 ∨ i = 55 ∨ i = 58 ∨ i = 59

/-- Equal up to the checksum of TCP. -/
def SameButChecksum (a b : List UInt8) : Prop := a.length = b.length ∧ ∀ i, ¬(56 ≤ i ∧ i < 58) → a[i]? = b[i]?

namespace Grown

variable {m : Nat × LinuxVnetTcp6GroCandidate}

section Contents

variable (h : Grown packets frame state firstSeq before last)
include h

theorem member (mem : m ∈ before ++ [last]) : IsCandidate (packets.getD m.1 []) m.2 ∧
    m.2.tcpHeaderLen = state.tcpHeaderLen ∧
      linuxVnetTcp6GroFlow (packets.getD m.1 []) state.tcpHeaderLen = state.flow := by
  obtain ⟨packet,here,found⟩ := h.known m mem
  obtain ⟨flow,header⟩ := h.alike m mem
  have spec := isCandidate found
  rw [getD_eq_getElem?_getD,here,← header]
  exact ⟨spec,rfl,spec.flow.symm.trans flow⟩

theorem first : ∃ c, (before ++ [last])[0]? = some (frame.firstPacketIndex,c) ∧
    IsCandidate (packets.getD frame.firstPacketIndex []) c ∧ c.tcpHeaderLen = state.tcpHeaderLen ∧
      linuxVnetTcp6GroFlow (packets.getD frame.firstPacketIndex []) state.tcpHeaderLen = state.flow := by
  have head := congrArg head? h.indices
  rw [head?_map] at head
  obtain ⟨⟨_,c⟩,here,rfl⟩ := Option.map_eq_some_iff.1 head.symm
  rw [head?_eq_getElem?] at here
  exact ⟨c,here,h.member (mem_of_getElem? here)⟩

theorem payload :
    frame.indices.map (fun i => (packets.getD i []).drop (40 + state.tcpHeaderLen)) =
      before.map (fun m => (packets.getD m.1 []).drop (40 + state.tcpHeaderLen)) ++
        [(packets.getD last.1 []).drop (40 + state.tcpHeaderLen)] ∧
    (∀ piece ∈ before.map (fun m => (packets.getD m.1 []).drop (40 + state.tcpHeaderLen)),
      piece.length = state.gsoSize) ∧
    ((packets.getD last.1 []).drop (40 + state.tcpHeaderLen)).length = last.2.payloadLen := by
  have size {m : Nat × LinuxVnetTcp6GroCandidate} (mem : m ∈ before ++ [last]) :
      ((packets.getD m.1 []).drop (40 + state.tcpHeaderLen)).length = m.2.payloadLen := by
    obtain ⟨spec,header,-⟩ := h.member mem
    have length := spec.length
    rw [length_drop]
    omega
  refine ⟨?_,?_,size (by simp)⟩
  · rw [h.indices,map_map,map_append]
    rfl
  · intro piece mem
    obtain ⟨m,inside,rfl⟩ := mem_map.1 mem
    rw [size (mem_append_left _ inside)]
    exact (h.full m inside).1

theorem header :
    HeaderOf (packets.getD frame.firstPacketIndex []) state
      (coalescedHeader (packets.getD frame.firstPacketIndex []) state) := by
  obtain ⟨c,-,spec,header,-⟩ := h.first
  have min := spec.headerMin
  have length := spec.length
  exact coalescedHeader_spec (by omega) (by omega)

theorem drop_coalescedPacket :
    (coalescedPacket packets frame state).drop (40 + state.tcpHeaderLen) =
      (before.map (fun m => (packets.getD m.1 []).drop (40 + state.tcpHeaderLen)) ++
        [(packets.getD last.1 []).drop (40 + state.tcpHeaderLen)]).flatten := by
  rw [coalescedPacket,drop_left' h.header.length,h.payload.1]

theorem length_coalescedPacket :
    (coalescedPacket packets frame state).length = 40 + state.tcpHeaderLen + state.payloadLen := by
  obtain ⟨split,full,lastLen⟩ := h.payload
  rw [coalescedPacket,length_append,h.header.length,split,flatten_append,length_append,
    Chunks.length_flatten full,flatten_singleton,lastLen,length_map,h.payloadLen]

theorem getElem?_coalescedPacket {i : Nat} (below : i < 40 + state.tcpHeaderLen) :
    (coalescedPacket packets frame state)[i]? =
      (coalescedHeader (packets.getD frame.firstPacketIndex []) state)[i]? := by
  rw [coalescedPacket,getElem?_append_left (by rw [h.header.length]; exact below)]

theorem headerLen_coalescedPacket :
    Transport.tcp.headerLen (coalescedPacket packets frame state) = state.tcpHeaderLen := by
  obtain ⟨c,-,spec,header,-⟩ := h.first
  have min := spec.headerMin
  simp only [Transport.headerLen]
  rw [getD_eq_getElem?_getD,h.getElem?_coalescedPacket (by omega),
    h.header.others 52 (by omega) (by omega) (by omega) (by omega),← getD_eq_getElem?_getD]
  exact spec.header.symm.trans header

theorem gsoPacket (multi : before ≠ []) :
    GsoPacket .tcp ⟨1,4,40 + state.tcpHeaderLen,state.gsoSize,40,16⟩
      (coalescedPacket packets frame state) := by
  obtain ⟨c,-,spec,header,-⟩ := h.first
  have min := spec.headerMin
  have short := h.short multi
  have length := h.length_coalescedPacket
  refine ⟨rfl,rfl,h.gsoSize.1,?_,?_,?_⟩
  · rw [h.headerLen_coalescedPacket,Transport.minHeaderLen]
    omega
  · rw [h.headerLen_coalescedPacket]
    omega
  · omega

end Contents

variable {k : Nat}
variable (h : Grown packets frame state firstSeq before last)
include h

/-- Where a packet of the frame starts, and whether it is the last one. -/
theorem place (found : (before ++ [last])[k]? = some m) :
    min state.gsoSize ((coalescedPacket packets frame state).length -
      (40 + state.tcpHeaderLen + k * state.gsoSize)) =
      m.2.payloadLen ∧
    (40 + state.tcpHeaderLen + (k + 1) * state.gsoSize < (coalescedPacket packets frame state).length →
      m.2.pshSet = false) ∧
    (¬40 + state.tcpHeaderLen + (k + 1) * state.gsoSize < (coalescedPacket packets frame state).length →
      m.2.pshSet = state.pshSet) := by
  have some := h.lastSome
  have lastLen := h.lastLen
  rw [h.length_coalescedPacket,h.payloadLen]
  obtain inside | outside := Nat.lt_or_ge k before.length
  · rw [getElem?_append_left inside] at found
    obtain ⟨size,noPsh⟩ := h.full m (mem_of_getElem? found)
    have fits := Nat.mul_le_mul_right state.gsoSize inside
    rw [Nat.succ_mul] at fits ⊢
    exact ⟨by omega,fun _ => noPsh,fun isLast => absurd (by omega) isLast⟩
  · rw [getElem?_append_right outside] at found
    obtain ⟨bound,rfl⟩ := List.getElem?_eq_some_iff.1 found
    rw [length_singleton] at bound
    obtain rfl : k = before.length := by omega
    simp only [Nat.sub_self,getElem_cons_zero]
    rw [Nat.succ_mul]
    exact ⟨by omega,fun more => absurd more (by omega),fun _ => h.lastPsh⟩

/-- Every byte of a segment is that of its packet or, in a few places, that of the first packet. -/
theorem segment_getElem? (multi : before ≠ []) {segment : List UInt8}
    (found : (before ++ [last])[k]? = some m)
    (spec : IsSegment .tcp state.gsoSize (coalescedPacket packets frame state) k segment) :
    segment.length = (packets.getD m.1 []).length ∧
    (∀ i, ¬(56 ≤ i ∧ i < 58) → ¬LostAt i → segment[i]? = (packets.getD m.1 [])[i]?) ∧
    (∀ i, LostAt i → segment[i]? = (packets.getD frame.firstPacketIndex [])[i]?) := by
  obtain ⟨isC,header,flow⟩ := h.member (mem_of_getElem? found)
  obtain ⟨c₀,found₀,isC₀,header₀,flow₀⟩ := h.first
  obtain ⟨size,notLast,isLast⟩ := h.place found
  have headerSpec := h.header
  generalize same : packets.getD m.1 [] = packet at isC flow ⊢
  generalize same₀ : packets.getD frame.firstPacketIndex [] = packet₀ at isC₀ flow₀ headerSpec ⊢
  have length := isC.length
  have length₀ := isC₀.length
  have min := isC.headerMin
  have max := isC.headerMax
  have payloadLen := spec.payloadLen
  have headerLen := h.headerLen_coalescedPacket
  have specLength := spec.length
  have specPayload := spec.payload
  have specOthers := spec.others
  have specFlags := spec.tcpFlags rfl
  rw [headerLen] at specLength specPayload specOthers specFlags
  have sameLength : segment.length = packet.length := by omega
  have firstPlain : c₀.pshSet = false := by
    rw [getElem?_append_left (length_pos_iff.2 multi)] at found₀
    exact (h.full _ (mem_of_getElem? found₀)).2
  have copied (i : Nat) (below : i < 40 + state.tcpHeaderLen) (notLen : ¬(4 ≤ i ∧ i < 6))
      (notSeq : ¬(44 ≤ i ∧ i < 48))
      (notFlags : i ≠ 53) (notSum : ¬(56 ≤ i ∧ i < 58)) : segment[i]? = packet₀[i]? := by
    rw [specOthers i below ?_,h.getElem?_coalescedPacket below,same₀,
      headerSpec.others i below notLen notFlags notSum]
    simp only [Transport.varies,Transport.fieldAt,Transport.csumOffset]
    omega
  refine ⟨sameLength,fun i notSum notLost => ?_,fun i lost => ?_⟩
  · by_cases payload : 40 + state.tcpHeaderLen ≤ i
    · have piece := (before ++ [last]).getElem?_map
        (f := fun m => (packets.getD m.1 []).drop (40 + state.tcpHeaderLen)) (i := k)
      rw [found,Option.map_some,same,map_append] at piece
      obtain ⟨-,full,lastLen⟩ := h.payload
      have chunk := Chunks.take_drop_flatten full (by rw [lastLen]; exact h.lastLen) k _ piece
      rw [← h.drop_coalescedPacket,drop_drop] at chunk
      rw [slice,chunk] at specPayload
      have here := congrArg (fun l : List UInt8 => l[i - (40 + state.tcpHeaderLen)]?) specPayload
      simp only [getElem?_drop] at here
      rwa [Nat.add_sub_cancel' payload] at here
    by_cases len : 4 ≤ i ∧ i < 6
    · have equal : slice segment 4 2 = slice packet 4 2 := by
        refine value_inj ?_ ?_
        · rw [length_slice (by omega),length_slice (by omega)]
        · rw [payloadLen,isC.payloadLen,sameLength]
      exact getElem?_of_slice equal len.1 len.2
    by_cases seq : 44 ≤ i ∧ i < 48
    · have coalescedSeq : slice (coalescedPacket packets frame state) 44 4 = slice packet₀ 44 4 := by
        refine slice_congr fun j low high => ?_
        rw [h.getElem?_coalescedPacket (by omega),same₀,
          headerSpec.others j (by omega) (by omega) (by omega) (by omega)]
      have firstIs := h.seq 0 _ found₀
      rw [Nat.zero_mul,Nat.add_zero,isC₀.seq] at firstIs
      have equal : slice segment 44 4 = slice packet 44 4 := by
        refine value_inj ?_ ?_
        · rw [length_slice (by omega),length_slice (by omega)]
        · rw [spec.tcpSeq rfl,coalescedSeq,firstIs,← isC.seq,h.seq k m found,Nat.mod_add_mod]
      exact getElem?_of_slice equal seq.1 seq.2
    by_cases flags : i = 53
    · subst flags
      rw [specFlags,h.getElem?_coalescedPacket (by omega),same₀,headerSpec.flags,isC₀.flags,
        isC.flags,firstPlain]
      simp only [Option.map_some]
      by_cases more : 40 + state.tcpHeaderLen + (k + 1) * state.gsoSize <
        (coalescedPacket packets frame state).length
      · rw [if_pos more,notLast more]
        cases state.pshSet <;> rfl
      · rw [if_neg more,isLast more]
        cases state.pshSet <;> rfl
    · unfold LostAt at notLost
      rw [copied i (by omega) len seq flags notSum]
      refine flow_getElem? (by omega) (by omega) (by omega) (by omega) (flow₀.trans flow.symm) (by omega) ?_
      omega
  · unfold LostAt at lost
    exact copied i (by omega) (by omega) (by omega) (by omega) (by omega)

theorem same_iff (multi : before ≠ []) {segment : List UInt8} (found : (before ++ [last])[k]? = some m)
    (spec : IsSegment .tcp state.gsoSize (coalescedPacket packets frame state) k segment) :
    SameButChecksum segment (packets.getD m.1 []) ↔
      ∀ i, LostAt i → (packets.getD m.1 [])[i]? = (packets.getD frame.firstPacketIndex [])[i]? := by
  obtain ⟨length,kept,lost⟩ := h.segment_getElem? multi found spec
  constructor
  · intro same i isLost
    rw [← lost i isLost]
    refine (same.2 i ?_).symm
    unfold LostAt at isLost
    omega
  · intro agree
    refine ⟨length,fun i notSum => ?_⟩
    by_cases isLost : LostAt i
    · rw [lost i isLost,agree i isLost]
    · exact kept i notSum isLost

/-- The device splits the frame into as many packets as it was made of, and into the same packets exactly
if they agree with the first one in what the flow does not hold. -/
theorem split (multi : before ≠ []) :
    ∃ segments, linuxVnetIpv6GsoSplit (coalescedPacket packets frame state)
        ⟨1,4,40 + state.tcpHeaderLen,state.gsoSize,40,16⟩ linuxVirtioNetHdrGsoTcpv6 = .ok segments ∧
      segments.length = frame.indices.length ∧
      (List.Forall₂ SameButChecksum segments (frame.indices.map fun i => packets.getD i []) ↔
        ∀ index ∈ frame.indices, ∀ i, LostAt i →
          (packets.getD index [])[i]? = (packets.getD frame.firstPacketIndex [])[i]?) := by
  have headerLen := h.headerLen_coalescedPacket
  have gso := h.gsoPacket multi
  obtain ⟨segments,made,count,-,specs⟩ := gso.split (by rw [headerLen])
  have some := h.lastSome
  have lastLen := h.lastLen
  have number : segments.length = (before ++ [last]).length := by
    rw [count,h.length_coalescedPacket,h.payloadLen,length_append,length_singleton]
    simp only
    refine Nat.div_eq_of_lt_le ?_ ?_
    · rw [Nat.succ_mul]
      omega
    · rw [Nat.succ_mul,Nat.succ_mul]
      omega
  have indices := h.indices
  refine ⟨segments,made,by rw [number,indices,length_map],?_⟩
  rw [indices,map_map,forall₂_iff_get,forall_mem_map]
  have each {k : Nat} (inside : k < (before ++ [last]).length) (inside' : k < segments.length) :=
    h.same_iff multi (getElem?_eq_getElem inside) (specs k _ (getElem?_eq_getElem inside'))
  constructor
  · rintro ⟨-,same⟩ m mem
    obtain ⟨k,inside,rfl⟩ := mem_iff_getElem.1 mem
    have here := same k (by omega) (by rw [length_map]; exact inside)
    simp only [get_eq_getElem,getElem_map] at here
    exact (each inside (by omega)).1 here
  · intro agree
    refine ⟨by rw [number,length_map],fun k inside' inside => ?_⟩
    rw [length_map] at inside
    simp only [get_eq_getElem,getElem_map]
    exact (each inside inside').2 (agree _ (getElem_mem inside))

end Grown

/-- Completing a partial sum that is the complement of the pseudo-header sum gives a valid checksum only
if that sum is zero. -/
theorem gsoNoneChecksum_complement (long : 60 ≤ packet.length) (short : packet.length ≤ 0xffff)
    (stored : slice packet 56 2 = ofValue 2 (0xffff - fold (wordSum (pseudoHeader linuxIpprotoTcp packet)))) :
    ∃ completed, linuxVnetGsoNoneChecksum packet 40 16 = .ok completed ∧
      (ChecksumValid linuxIpprotoTcp completed ↔
        wordSum (pseudoHeader linuxIpprotoTcp packet) % 65535 = 0) := by
  unfold linuxVnetGsoNoneChecksum
  simp only
  rw [if_neg (by omega),stored,value_ofValue,linuxVnetChecksum_eq]
  refine ⟨_,rfl,?_⟩
  have fits : 40 + 16 + ([0,0] : List UInt8).length ≤ packet.length := by
    simp only [length_cons,length_nil]
    omega
  have cleared := slice_overwrite fits
  have length := length_overwrite fits
  have same : pseudoHeader linuxIpprotoTcp (overwrite packet (40 + 16) [0,0]) =
      pseudoHeader linuxIpprotoTcp packet := by
    rw [pseudoHeader,length,slice_overwrite_of_disjoint fits (.inl (by decide)),pseudoHeader]
  rw [ChecksumValid,u16Not,wordSum_stored _ (by decide) (by omega) cleared (Nat.sub_le _ _),same]
  have positive : 6 ≤ wordSum (pseudoHeader linuxIpprotoTcp packet) := by
    rw [wordSum_pseudoHeader linuxIpprotoTcp (by omega : 40 ≤ packet.length) (by omega)]
    unfold linuxVnetPseudoHeaderSum
    omega
  generalize wordSum (pseudoHeader linuxIpprotoTcp packet) = pseudo at positive
  rw [Nat.mod_eq_of_lt (by omega : 0xffff - fold pseudo < 256^2),Nat.add_assoc]
  exact valid_complemented_iff (by omega) _

theorem Grown.completed (h : Grown packets frame state firstSeq before last) (multi : before ≠ []) :
    ∃ completed, linuxVnetGsoNoneChecksum (coalescedPacket packets frame state) 40 16 = .ok completed ∧
      (ChecksumValid linuxIpprotoTcp completed ↔
        wordSum (pseudoHeader linuxIpprotoTcp (coalescedPacket packets frame state)) % 65535 = 0) := by
  obtain ⟨c,-,spec,header,-⟩ := h.first
  have min := spec.headerMin
  have length := h.length_coalescedPacket
  have short := h.short multi
  have bytes {start len : Nat} (low : 8 ≤ start) (high : start + len ≤ 40) :
      slice (coalescedPacket packets frame state) start len =
        slice (packets.getD frame.firstPacketIndex []) start len := by
    refine slice_congr fun i above below => ?_
    rw [h.getElem?_coalescedPacket (by omega),h.header.others i (by omega) (by omega) (by omega) (by omega)]
  refine gsoNoneChecksum_complement (by omega) (by omega) ?_
  have stored : slice (coalescedPacket packets frame state) 56 2 =
      slice (coalescedHeader (packets.getD frame.firstPacketIndex []) state) 56 2 :=
    slice_congr fun i above below => h.getElem?_coalescedPacket (by omega)
  rw [stored,h.header.partialSum,wordSum_pseudoHeader linuxIpprotoTcp (by omega) (by omega),
    bytes (by decide) (by decide),bytes (by decide) (by decide)]
  congr 4
  omega

end Fips.Tun
