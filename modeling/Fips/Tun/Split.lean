import Fips.Tun.Vnet

set_option autoImplicit false

/-! Frames that are read are split exactly. -/

namespace Fips.Tun

open OnesComplement Bytes GsoSplit List

theorem addChunks_eq (sum : Nat) (bytes : List UInt8) :
    (addChunks sum bytes).1 + wordSum (addChunks sum bytes).2 = sum + wordSum bytes := by
  fun_induction addChunks sum bytes with
  | case1 sum a b c d e f g h rest word ih =>
    have words : word >>> 48 + (word >>> 32 &&& 0xffff) + (word >>> 16 &&& 0xffff) + (word &&& 0xffff) =
        (256 * a.toNat + b.toNat) + (256 * c.toNat + d.toNat) + (256 * e.toNat + f.toNat) +
          (256 * g.toNat + h.toNat) := by
      have low (n : Nat) : n &&& 0xffff = n % 2^16 := Nat.and_two_pow_sub_one_eq_mod n 16
      have := a.toNat_lt
      have := b.toNat_lt
      have := c.toNat_lt
      have := d.toNat_lt
      have := e.toNat_lt
      have := f.toNat_lt
      have := g.toNat_lt
      have := h.toNat_lt
      simp only [low,Nat.shiftRight_eq_div_pow,word,value,foldl_cons,foldl_nil]
      omega
    rw [ih,words]
    simp only [wordSum]
    omega
  | case2 sum rest short => rfl

theorem addPairs_eq (sum : Nat) (bytes : List UInt8) :
    (addPairs sum bytes).1 + wordSum (addPairs sum bytes).2 = sum + wordSum bytes ∧
      (addPairs sum bytes).2.length ≤ 1 := by
  fun_induction addPairs sum bytes with
  | case1 sum a b rest ih =>
    obtain ⟨same,short⟩ := ih
    refine ⟨same.trans ?_,short⟩
    simp only [wordSum,value,foldl_cons,foldl_nil]
    omega
  | case2 sum rest short =>
    refine ⟨rfl,?_⟩
    cases rest with
    | nil => exact Nat.zero_le _
    | cons a more =>
      cases more with
      | nil => exact Nat.le_refl _
      | cons b more => exact absurd rfl (short a b more)

theorem linuxVnetAddWords_eq (sum : Nat) (bytes : List UInt8) :
    linuxVnetAddWords sum bytes = sum + wordSum bytes := by
  unfold linuxVnetAddWords
  have chunks := addChunks_eq sum bytes
  obtain ⟨pairs,short⟩ := addPairs_eq (addChunks sum bytes).1 (addChunks sum bytes).2
  simp only
  cases last : (addPairs (addChunks sum bytes).1 (addChunks sum bytes).2).2 with
  | nil =>
    rw [last,wordSum] at pairs
    simp only
    omega
  | cons byte rest =>
    rw [last,length_cons] at short
    have none : rest = [] := length_eq_zero_iff.1 (by omega)
    rw [last,none,wordSum] at pairs
    simp only [Nat.shiftLeft_eq]
    omega

theorem foldCarries_eq (turns : Nat) : ∀ sum ≤ turns, foldCarries turns sum = fold sum := by
  induction turns with
  | zero =>
    intro sum small
    rw [Nat.le_zero.1 small]
    rfl
  | succ turns ih =>
    intro sum small
    have low : sum &&& 0xffff = sum % 65536 := Nat.and_two_pow_sub_one_eq_mod sum 16
    have high : sum >>> 16 = sum / 65536 := Nat.shiftRight_eq_div_pow sum 16
    unfold foldCarries
    split_ifs with carries
    · rw [low,high,ih _ (by omega),fold_carry]
    · exact (fold_of_le (by omega)).symm

theorem linuxVnetChecksum_eq (bytes : List UInt8) (initial : Nat) :
    linuxVnetChecksum bytes initial = fold (initial + wordSum bytes) := by
  unfold linuxVnetChecksum
  rw [linuxVnetAddWords_eq]
  exact foldCarries_eq _ _ (Nat.le_refl _)

/-- The pseudo-header of an IPv6 packet without extension headers. -/
def pseudoHeader (protocol : UInt8) (packet : List UInt8) : List UInt8 :=
  slice packet 8 32 ++ ofValue 4 (packet.length - 40) ++ [0,0,0,protocol]

def ChecksumValid (protocol : UInt8) (packet : List UInt8) : Prop :=
  Valid (wordSum (pseudoHeader protocol packet ++ packet.drop 40))

instance (protocol : UInt8) (packet : List UInt8) : Decidable (ChecksumValid protocol packet) :=
  inferInstanceAs (Decidable (Valid _))

theorem wordSum_pseudoHeader (protocol : UInt8) {packet : List UInt8} (long : 40 ≤ packet.length)
    (short : packet.length ≤ 0xffff + 40) :
    wordSum (pseudoHeader protocol packet) =
      linuxVnetPseudoHeaderSum protocol (slice packet 8 16) (slice packet 24 16) (packet.length - 40) := by
  have addresses : slice packet 8 32 = slice packet 8 16 ++ slice packet 24 16 := by
    unfold slice
    rw [show (32 : Nat) = 16 + 16 from rfl,take_add,drop_drop]
  have src : (slice packet 8 16).length = 16 := length_slice (by omega)
  have dst : (slice packet 24 16).length = 16 := length_slice (by omega)
  have length : wordSum (ofValue 4 (packet.length - 40)) = packet.length - 40 := by
    simp only [ofValue,nil_append,cons_append,wordSum,Nat.toUInt8,UInt8.toNat_ofNat']
    omega
  unfold pseudoHeader linuxVnetPseudoHeaderSum
  rw [addresses,wordSum_append _ (by simp [src,dst]),wordSum_append _ (by simp [src,dst]),
    wordSum_append _ (by simp [src]),length,linuxVnetAddWords_eq,linuxVnetAddWords_eq]
  simp [wordSum]
  omega

/-- The sum over a packet once the checksum is stored in its cleared word. -/
theorem wordSum_stored (protocol : UInt8) {packet : List UInt8} {offset checksum : Nat}
    (even : offset % 2 = 0) (fits : 40 + offset + 2 ≤ packet.length)
    (clear : slice packet (40 + offset) 2 = [0,0]) (word : checksum ≤ 0xffff) :
    let stored := overwrite packet (40 + offset) (ofValue 2 checksum)
    wordSum (pseudoHeader protocol stored ++ stored.drop 40) =
      wordSum (pseudoHeader protocol packet) + wordSum (packet.drop 40) + checksum := by
  have fits' : 40 + offset + (ofValue 2 checksum).length ≤ packet.length := by rwa [length_ofValue]
  have same : pseudoHeader protocol (overwrite packet (40 + offset) (ofValue 2 checksum)) =
      pseudoHeader protocol packet := by
    rw [pseudoHeader,length_overwrite fits',slice_overwrite_of_disjoint fits' (by omega),pseudoHeader]
  have length : (pseudoHeader protocol packet).length = 40 := by
    simp [pseudoHeader,length_slice (by omega : 8 + 32 ≤ packet.length)]
  have words := wordSum_overwrite even (by rw [length_drop]; omega : offset + 2 ≤
    (packet.drop 40).length) checksum
  rw [slice_drop,clear,Nat.mod_eq_of_lt (by omega)] at words
  intro stored
  rw [wordSum_append _ (by rw [same,length]),same,overwrite_drop fits',Nat.add_assoc]
  exact congrArg _ words

inductive Transport where
  | tcp
  | udp
  deriving DecidableEq

namespace Transport

def protocol : Transport → UInt8
  | tcp => 6
  | udp => 17

def gsoType : Transport → UInt8
  | tcp => 4
  | udp => 5

def csumOffset : Transport → Nat
  | tcp => 16
  | udp => 6

def headerLen : Transport → List UInt8 → Nat
  | tcp,packet => (packet.getD 52 0 >>> 4).toNat * 4
  | udp,_ => 8

def minHeaderLen : Transport → Nat
  | tcp => 20
  | udp => 8

def fieldAt : Transport → Nat → Prop
  | tcp,i => 4 ≤ i ∧ i < 6 ∨ 44 ≤ i ∧ i < 48 ∨ i = 53
  | udp,i => 4 ≤ i ∧ i < 6 ∨ 44 ≤ i ∧ i < 46

def varies (t : Transport) (i : Nat) : Prop := t.fieldAt i ∨ 40 + t.csumOffset ≤ i ∧ i < 40 + t.csumOffset + 2

end Transport

/-- An IPv6 packet without extension headers that is to be split. -/
structure GsoPacket (t : Transport) (hdr : LinuxVirtioNetHdr) (packet : List UInt8) : Prop where
  csumStart : hdr.csumStart = 40
  csumOffset : hdr.csumOffset = t.csumOffset
  gsoSize : 1 ≤ hdr.gsoSize
  header : t.minHeaderLen ≤ t.headerLen packet
  fits : 40 + t.headerLen packet ≤ packet.length
  short : packet.length ≤ 0xffff

structure IsSegment (t : Transport) (gsoSize : Nat) (packet : List UInt8) (k : Nat) (segment : List UInt8) :
    Prop where
  payload : segment.drop (40 + t.headerLen packet) =
    slice packet (40 + t.headerLen packet + k * gsoSize) gsoSize
  length : segment.length = 40 + t.headerLen packet + min gsoSize
    (packet.length - (40 + t.headerLen packet + k * gsoSize))
  payloadLen : value (slice segment 4 2) = segment.length - 40
  others : ∀ i < 40 + t.headerLen packet, ¬t.varies i → segment[i]? = packet[i]?
  tcpSeq : t = .tcp → value (slice segment 44 4) = (value (slice packet 44 4) + k * gsoSize) % 2^32
  tcpFlags : t = .tcp → segment[53]? = packet[53]?.map fun flags =>
    if 40 + t.headerLen packet + (k + 1) * gsoSize < packet.length then
      flags &&& ~~~(linuxTcpFlagFin ||| linuxTcpFlagPsh)
    else flags
  udpLen : t = .udp → value (slice segment 44 2) = segment.length - 40
  checksum : ChecksumValid t.protocol segment
  udpChecksum : t = .udp → value (slice segment 46 2) ≠ 0

namespace GsoSplit

def of (t : Transport) (hdr : LinuxVirtioNetHdr) (packet : List UInt8) : GsoSplit where
  packet := overwrite packet (40 + t.csumOffset) [0,0]
  hdr := hdr
  protocol := t.protocol
  firstTcpSeq := if t = .tcp then value (slice packet 44 4) else 0
  src := slice packet 8 16
  dst := slice packet 24 16

end GsoSplit

variable {t : Transport} {hdr : LinuxVirtioNetHdr} {packet : List UInt8}

theorem GsoPacket.csum_le (h : GsoPacket t hdr packet) :
    40 + t.csumOffset + 2 ≤ 40 + t.headerLen packet ∧ 48 ≤ 40 + t.headerLen packet := by
  have header := h.header
  cases t <;> simp only [Transport.minHeaderLen,Transport.csumOffset] at header ⊢ <;> omega

/-- The checksum of the packet is cleared first. -/
theorem linuxVnetIpv6GsoSplit_eq (h : GsoPacket t hdr packet)
    (hdrLen : hdr.hdrLen = 40 + t.headerLen packet) :
    linuxVnetIpv6GsoSplit packet hdr t.gsoType =
      (of t hdr packet).segments packet.length (40 + t.headerLen packet) 0 := by
  obtain ⟨csum,header⟩ := h.csum_le
  have fits := h.fits
  have size := h.gsoSize
  have zeros : (40 + t.csumOffset) + ([0,0] : List UInt8).length ≤ packet.length := by
    simp only [length_cons,length_nil]
    omega
  have csumAt : (40 + hdr.csumOffset) % 2^16 = 40 + t.csumOffset := by
    rw [h.csumOffset]
    cases t <;> rfl
  have kept (start len : Nat) (before : start + len ≤ 46) :
      slice (overwrite packet (40 + t.csumOffset) [0,0]) start len = slice packet start len := by
    refine slice_overwrite_of_disjoint zeros (.inl ?_)
    cases t <;> simp only [Transport.csumOffset] <;> omega
  unfold linuxVnetIpv6GsoSplit
  simp only [h.csumStart,csumAt,hdrLen]
  rw [if_neg (by omega),if_neg (by simp only [linuxIpv6SrcAddrOffset]; omega),if_neg (by omega),
    length_overwrite zeros]
  unfold of
  rw [kept linuxIpv6SrcAddrOffset 16 (by decide),kept (linuxIpv6SrcAddrOffset + 16) 16 (by decide)]
  cases t with
  | tcp =>
    have seq : slice (overwrite packet (40 + Transport.tcp.csumOffset) [0,0]) 44 4 = slice packet 44 4 :=
      slice_overwrite_of_disjoint zeros (.inl (by decide))
    simp only [Transport.gsoType,linuxVirtioNetHdrGsoTcpv6,if_true,seq]
    rfl
  | udp => rfl

namespace GsoSplit

variable (split : GsoSplit) {out : List UInt8}

structure Fielded (t : Transport) (out : List UInt8) (seq : Nat) (clear : Prop)
    [Decidable clear] (out' : List UInt8) :
    Prop where
  length : out'.length = out.length
  payloadLen : slice out' 4 2 = ofValue 2 (out.length - 40)
  tcpSeq : t = .tcp → slice out' 44 4 = ofValue 4 seq
  tcpFlags : t = .tcp → out'[53]? = out[53]?.map fun flags =>
    if clear then flags &&& ~~~(linuxTcpFlagFin ||| linuxTcpFlagPsh) else flags
  udpLen : t = .udp → slice out' 44 2 = ofValue 2 (out.length - 40)
  others : ∀ i, ¬t.fieldAt i → out'[i]? = out[i]?

theorem fields_tcp (ip : split.hdr.csumStart = 40) (tcp : split.protocol = linuxIpprotoTcp)
    (long : 60 ≤ out.length) (count segmentEnd : Nat) :
    Fielded .tcp out (split.firstTcpSeq + split.hdr.gsoSize * count) (segmentEnd ≠ split.packet.length)
      (split.fields out count segmentEnd) := by
  unfold fields
  simp only [ip,if_pos tcp,linuxTcpFlagsOffset,Nat.reduceAdd]
  generalize lenBytes : ofValue 2 (out.length - 40) = len
  have len2 : len.length = 2 := by rw [← lenBytes,length_ofValue]
  generalize seqBytes : ofValue 4 (split.firstTcpSeq + split.hdr.gsoSize * count) = seq
  have seq4 : seq.length = 4 := by rw [← seqBytes,length_ofValue]
  have fits₁ : 4 + len.length ≤ out.length := by omega
  have length₁ := length_overwrite fits₁
  have get₁ := getElem?_overwrite fits₁
  generalize overwrite out 4 len = out₁ at length₁ get₁
  have fits₂ : 44 + seq.length ≤ out₁.length := by omega
  have length₂ := length_overwrite fits₂
  have get₂ := getElem?_overwrite fits₂
  generalize overwrite out₁ (44) seq = out₂ at length₂ get₂
  rw [overwrite_byte_if (· &&& ~~~(linuxTcpFlagFin ||| linuxTcpFlagPsh)) (by omega : 53 < out₂.length)]
  have others₃ (f : UInt8 → UInt8) {i : Nat} (other : i ≠ 53) : (out₂.modify 53 f)[i]? = out₂[i]? :=
    getElem?_modify_ne f _ (Ne.symm other)
  refine ⟨by rw [length_modify]; omega,?_,fun _ => ?_,fun _ => ?_,nofun,fun i other => ?_⟩
  · rw [lenBytes]
    refine slice_eq len2 fun i inside => ?_
    rw [others₃ _ (by omega),get₂,if_neg (by omega),get₁,if_pos (by omega),Nat.add_sub_cancel_left]
  · rw [seqBytes]
    refine slice_eq seq4 fun i inside => ?_
    rw [others₃ _ (by omega),get₂,if_pos (by omega),Nat.add_sub_cancel_left]
  · rw [getElem?_modify_eq,get₂,if_neg (by omega),get₁,if_neg (by omega)]
    rfl
  · unfold Transport.fieldAt at other
    rw [others₃ _ (by omega),get₂,if_neg (by omega),get₁,if_neg (by omega)]

theorem fields_udp (ip : split.hdr.csumStart = 40) (udp : split.protocol = linuxIpprotoUdp)
    (long : 48 ≤ out.length) (seq count segmentEnd : Nat) (clear : Prop) [Decidable clear] :
    Fielded .udp out seq clear (split.fields out count segmentEnd) := by
  unfold fields
  have notTcp : split.protocol ≠ linuxIpprotoTcp := by
    rw [udp]
    decide
  simp only [ip,if_neg notTcp]
  generalize lenBytes : ofValue 2 (out.length - 40) = len
  have len2 : len.length = 2 := by rw [← lenBytes,length_ofValue]
  have fits₁ : 4 + len.length ≤ out.length := by omega
  have length₁ := length_overwrite fits₁
  have get₁ := getElem?_overwrite fits₁
  generalize overwrite out 4 len = out₁ at length₁ get₁
  have fits₂ : 40 + 4 + len.length ≤ out₁.length := by omega
  have get₂ := getElem?_overwrite fits₂
  refine ⟨(length_overwrite fits₂).trans length₁,?_,nofun,nofun,fun _ => ?_,fun i other => ?_⟩
  · rw [lenBytes]
    refine slice_eq len2 fun i inside => ?_
    rw [get₂,if_neg (by omega),get₁,if_pos (by omega),Nat.add_sub_cancel_left]
  · rw [lenBytes]
    refine slice_eq len2 fun i inside => ?_
    rw [get₂,if_pos (by omega),Nat.add_sub_cancel_left]
  · unfold Transport.fieldAt at other
    rw [get₂,if_neg (by omega),get₁,if_neg (by omega)]

theorem checksum_spec (ip : split.hdr.csumStart = 40) (short : out.length ≤ 0xffff) :
    split.checksum out ≤ 0xffff ∧ (split.protocol = linuxIpprotoUdp → split.checksum out ≠ 0) ∧
      Valid (linuxVnetPseudoHeaderSum split.protocol split.src split.dst (out.length - 40) +
        wordSum (out.drop 40) +
        split.checksum out) := by
  unfold checksum
  simp only [ip,u16Not,linuxVnetChecksum_eq]
  rw [Nat.mod_eq_of_lt (by omega)]
  generalize linuxVnetPseudoHeaderSum split.protocol split.src split.dst (out.length - 40) +
    wordSum (out.drop 40) = sum
  have valid := valid_complement sum
  have le := fold_le sum
  split_ifs with zero
  · refine ⟨Nat.le_refl _,fun _ => by decide,?_⟩
    rw [valid_iff] at valid ⊢
    omega
  · exact ⟨by omega,fun udp none => zero ⟨udp,none⟩,valid⟩

end GsoSplit

section Packets

variable (h : GsoPacket t hdr packet)
include h

theorem GsoPacket.clear_fits : 40 + t.csumOffset + ([0,0] : List UInt8).length ≤ packet.length := by
  obtain ⟨csum,-⟩ := h.csum_le
  have fits := h.fits
  simp only [length_cons,length_nil]
  omega

theorem GsoPacket.length_of : (of t hdr packet).packet.length = packet.length :=
  length_overwrite h.clear_fits

theorem GsoPacket.fields {out : List UInt8} (long : 40 + t.minHeaderLen ≤ out.length)
    (count segmentEnd : Nat) :
    GsoSplit.Fielded t out (value (slice packet 44 4) + hdr.gsoSize * count) (segmentEnd ≠ packet.length)
      ((of t hdr packet).fields out count segmentEnd) := by
  have length := h.length_of
  cases t with
  | tcp =>
    have spec := fields_tcp (.of .tcp hdr packet) h.csumStart rfl long count segmentEnd
    simp only [length] at spec
    exact spec
  | udp => exact fields_udp (.of .udp hdr packet) h.csumStart rfl long _ count segmentEnd _

/-- The header bytes in front of the data. -/
theorem GsoPacket.cut {dataAt len : Nat} (after : 40 + t.headerLen packet ≤ dataAt)
    (inside : dataAt + len ≤ packet.length) :
    ((of t hdr packet).packet.take (40 + t.headerLen packet) ++
        slice (of t hdr packet).packet dataAt len).length = 40 + t.headerLen packet + len ∧
    ((of t hdr packet).packet.take (40 + t.headerLen packet) ++
        slice (of t hdr packet).packet dataAt len).drop (40 + t.headerLen packet) =
      slice packet dataAt len ∧
    ∀ i < 40 + t.headerLen packet, ((of t hdr packet).packet.take (40 + t.headerLen packet) ++
        slice (of t hdr packet).packet dataAt len)[i]? =
      if 40 + t.csumOffset ≤ i ∧ i < 40 + t.csumOffset + 2 then some 0 else packet[i]? := by
  obtain ⟨csum,-⟩ := h.csum_le
  have fits := h.fits
  have clear := h.clear_fits
  have data : slice (of t hdr packet).packet dataAt len = slice packet dataAt len :=
    slice_overwrite_of_disjoint clear (.inr (by simp only [length_cons,length_nil]; omega))
  have size := length_slice inside
  have front : ((of t hdr packet).packet.take (40 + t.headerLen packet)).length =
      40 + t.headerLen packet := by
    rw [length_take,h.length_of]
    omega
  rw [data]
  refine ⟨by rw [length_append,front,size],drop_left' front,fun i below => ?_⟩
  rw [getElem?_append_left (by omega),getElem?_take_of_lt below]
  unfold of
  rw [getElem?_overwrite clear]
  simp only [length_cons,length_nil,Nat.reduceAdd,Nat.zero_add]
  split_ifs with at0
  · obtain first | second : i - (40 + t.csumOffset) = 0 ∨ i - (40 + t.csumOffset) = 1 := by omega
    · rw [first]; rfl
    · rw [second]; rfl
  · rfl

end Packets

structure Assembled (t : Transport) (gsoSize : Nat) (packet : List UInt8) (k : Nat) (out : List UInt8) :
    Prop where
  payload : out.drop (40 + t.headerLen packet) = slice packet (40 + t.headerLen packet + k * gsoSize) gsoSize
  length : out.length = 40 + t.headerLen packet + min gsoSize
    (packet.length - (40 + t.headerLen packet + k * gsoSize))
  payloadLen : slice out 4 2 = ofValue 2 (out.length - 40)
  others : ∀ i < 40 + t.headerLen packet, ¬t.varies i → out[i]? = packet[i]?
  tcpSeq : t = .tcp → slice out 44 4 = ofValue 4 (value (slice packet 44 4) + k * gsoSize)
  tcpFlags : t = .tcp → out[53]? = packet[53]?.map fun flags =>
    if 40 + t.headerLen packet + (k + 1) * gsoSize < packet.length then
      flags &&& ~~~(linuxTcpFlagFin ||| linuxTcpFlagPsh)
    else flags
  udpLen : t = .udp → slice out 44 2 = ofValue 2 (out.length - 40)
  cleared : slice out (40 + t.csumOffset) 2 = [0,0]

theorem Transport.not_fieldAt_csum (t : Transport) {i : Nat} (csum : 40 + t.csumOffset ≤ i)
    (below : i < 40 + t.csumOffset + 2) :
    ¬t.fieldAt i := by
  cases t <;> simp only [csumOffset,fieldAt] at * <;> omega

section Segments

variable (h : GsoPacket t hdr packet)
include h

theorem GsoPacket.not_fieldAt {i : Nat} (after : 40 + t.headerLen packet ≤ i) : ¬t.fieldAt i := by
  have header := h.header
  cases t <;> simp only [Transport.minHeaderLen,Transport.fieldAt] at * <;> omega

theorem GsoPacket.assembled {k len dataAt : Nat} (start : 40 + t.headerLen packet + k * hdr.gsoSize = dataAt)
    (inside : dataAt < packet.length) (size : min (dataAt + hdr.gsoSize) packet.length - dataAt = len) :
    Assembled t hdr.gsoSize packet k ((of t hdr packet).fields
      ((of t hdr packet).packet.take (40 + t.headerLen packet) ++
        slice (of t hdr packet).packet dataAt len) k (min (dataAt + hdr.gsoSize) packet.length)) := by
  obtain ⟨csum,header⟩ := h.csum_le
  have minHeader := h.header
  have next : 40 + t.headerLen packet + (k + 1) * hdr.gsoSize = dataAt + hdr.gsoSize := by
    rw [Nat.succ_mul,← Nat.add_assoc,start]
  obtain ⟨length,payload,bytes⟩ :=
    h.cut (by omega : 40 + t.headerLen packet ≤ dataAt) (by omega : dataAt + len ≤ packet.length)
  generalize (of t hdr packet).packet.take (40 + t.headerLen packet) ++
    slice (of t hdr packet).packet dataAt len = out at length payload bytes
  have fields := h.fields (by omega : 40 + t.minHeaderLen ≤ out.length) k
    (min (dataAt + hdr.gsoSize) packet.length)
  generalize (of t hdr packet).fields out k (min (dataAt + hdr.gsoSize) packet.length) = out' at fields
  have whole : slice packet dataAt len = slice packet dataAt hdr.gsoSize := by
    rw [slice,slice,take_eq_take_iff,length_drop]
    omega
  refine ⟨?_,?_,?_,fun i below same => ?_,fun tcp => ?_,fun tcp => ?_,fun udp => ?_,?_⟩
  · rw [start,← whole,← payload]
    refine ext_getElem? fun i => ?_
    rw [getElem?_drop,getElem?_drop]
    exact fields.others _ (h.not_fieldAt (Nat.le_add_right _ _))
  · rw [start,fields.length,length]
    omega
  · rw [fields.payloadLen,fields.length]
  · unfold Transport.varies at same
    rw [fields.others i (fun field => same (.inl field)),bytes i below,if_neg fun csum => same (.inr csum)]
  · rw [fields.tcpSeq tcp,Nat.mul_comm]
  · subst tcp
    have flags := bytes 53 (by simp only [Transport.minHeaderLen] at minHeader; omega)
    rw [if_neg (by decide)] at flags
    rw [fields.tcpFlags rfl,flags,next]
    have same : (min (dataAt + hdr.gsoSize) packet.length ≠ packet.length) =
        (dataAt + hdr.gsoSize < packet.length) :=
      propext (by omega)
    simp only [same]
  · rw [fields.udpLen udp,fields.length]
  · refine slice_eq rfl fun i below => ?_
    have field := t.not_fieldAt_csum (Nat.le_add_right _ i) (by omega)
    rw [fields.others _ field,bytes _ (by omega),if_pos (by omega)]
    obtain rfl | rfl : i = 0 ∨ i = 1 := by omega
    · rfl
    · rfl

/-- The sum over the segment with its checksum. -/
theorem Assembled.checksumValid {gsoSize k checksum : Nat} {out segment : List UInt8}
    (a : Assembled t gsoSize packet k out) (small : checksum ≤ 0xffff)
    (valid : Valid (linuxVnetPseudoHeaderSum t.protocol (slice packet 8 16) (slice packet 24 16)
      (out.length - 40) + wordSum (out.drop 40) + checksum))
    (written : segment = overwrite out (40 + t.csumOffset) (ofValue 2 checksum)) :
    ChecksumValid t.protocol segment := by
  obtain ⟨csum,header⟩ := h.csum_le
  have fits := h.fits
  have short := h.short
  have size := a.length
  have address (first : Nat) (low : 8 ≤ first) (high : first + 16 ≤ 40) :
      slice out first 16 = slice packet first 16 := by
    refine slice_congr fun i above below => a.others i (by omega) ?_
    cases t <;> simp only [Transport.varies,Transport.fieldAt,Transport.csumOffset] <;> omega
  rw [written,ChecksumValid,wordSum_stored _ (by cases t <;> rfl) (by omega) a.cleared small,
    wordSum_pseudoHeader t.protocol (by omega) (by omega),address 8 (by decide) (by decide),
      address 24 (by decide) (by decide)]
  exact valid

theorem Assembled.segment {k : Nat} {out : List UInt8} (a : Assembled t hdr.gsoSize packet k out) :
    IsSegment t hdr.gsoSize packet k
      (overwrite out (40 + t.csumOffset) (ofValue 2 ((of t hdr packet).checksum out))) := by
  obtain ⟨csum,header⟩ := h.csum_le
  have minHeader := h.header
  have fits := h.fits
  have short := h.short
  have size := a.length
  obtain ⟨small,nonzero,valid⟩ :=
    checksum_spec (.of t hdr packet) h.csumStart (by omega : out.length ≤ 0xffff)
  generalize (of t hdr packet).checksum out = checksum at small nonzero valid
  generalize written : overwrite out (40 + t.csumOffset) (ofValue 2 checksum) = segment
  have fitsC : 40 + t.csumOffset + (ofValue 2 checksum).length ≤ out.length := by
    rw [length_ofValue]
    omega
  have length : segment.length = out.length := by rw [← written,length_overwrite fitsC]
  have apart {first len : Nat} (before : first + len ≤ 40 + t.csumOffset) :
      slice segment first len = slice out first len := by
    rw [← written,slice_overwrite_of_disjoint fitsC (.inl before)]
  have lenValue : value (ofValue 2 (out.length - 40)) = segment.length - 40 := by
    rw [value_ofValue,length,Nat.mod_eq_of_lt (by omega)]
  have early : 46 ≤ 40 + t.csumOffset := by cases t <;> decide
  refine ⟨?_,length.trans a.length,?_,fun i below same => ?_,fun tcp => ?_,fun tcp => ?_,fun udp => ?_,
    a.checksumValid h small valid written.symm,fun udp => ?_⟩
  · rw [← written,drop_overwrite fitsC (by rw [length_ofValue]; omega)]
    exact a.payload
  · rw [apart (by omega),a.payloadLen,lenValue]
  · rw [← a.others i below same,← written,getElem?_overwrite fitsC,if_neg]
    rw [length_ofValue]
    exact fun here => same (.inr here)
  · subst tcp
    rw [apart (by decide),a.tcpSeq rfl,value_ofValue]
    simp only [Nat.reducePow]
  · subst tcp
    rw [← a.tcpFlags rfl,← written,getElem?_overwrite fitsC,if_neg]
    simp only [Transport.csumOffset]
    omega
  · subst udp
    rw [apart (by decide),a.udpLen rfl,lenValue]
  · subst udp
    have here := slice_overwrite fitsC
    rw [length_ofValue,written] at here
    change value (slice segment (40 + Transport.udp.csumOffset) 2) ≠ 0
    rw [here,value_ofValue,Nat.mod_eq_of_lt (by omega)]
    exact nonzero rfl

theorem GsoPacket.segment (hdrLen : hdr.hdrLen = 40 + t.headerLen packet) {k dataAt : Nat}
    (start : 40 + t.headerLen packet + k * hdr.gsoSize = dataAt) (inside : dataAt < packet.length) :
    ∃ segment, (of t hdr packet).segment dataAt k = .ok segment ∧
      IsSegment t hdr.gsoSize packet k segment := by
  obtain ⟨csum,header⟩ := h.csum_le
  have fits := h.fits
  have short := h.short
  have sameHdr : (of t hdr packet).hdr = hdr := rfl
  unfold GsoSplit.segment
  simp only [sameHdr,h.length_of,hdrLen,h.csumStart,h.csumOffset]
  generalize size : min (dataAt + hdr.gsoSize) packet.length - dataAt = len
  rw [if_neg (by omega)]
  have assembled := h.assembled start inside size
  have length := assembled.length
  rw [if_neg (by omega)]
  exact ⟨_,rfl,assembled.segment h⟩

end Segments

theorem segments_left {left gsoSize : Nat} (some : 0 < left) (size : 1 ≤ gsoSize) :
    (left - min gsoSize left + gsoSize - 1) / gsoSize + 1 = (left + gsoSize - 1) / gsoSize := by
  obtain more | last := Nat.le_total gsoSize left
  · rw [Nat.min_eq_left more,Nat.sub_add_cancel more,← Nat.add_div_right _ (by omega)]
    congr 1
    omega
  · rw [Nat.min_eq_right last,Nat.sub_self,Nat.zero_add,Nat.div_eq_of_lt (by omega)]
    exact (Nat.div_eq_of_lt_le (by omega) (by omega)).symm

theorem GsoPacket.segments (h : GsoPacket t hdr packet)
    (hdrLen : hdr.hdrLen = 40 + t.headerLen packet) (turns : Nat) :
    ∀ k dataAt, dataAt = min (40 + t.headerLen packet + k * hdr.gsoSize) packet.length →
      packet.length - dataAt ≤ turns →
      ∃ segments, (of t hdr packet).segments turns dataAt k = .ok segments ∧
        segments.length = (packet.length - dataAt + hdr.gsoSize - 1) / hdr.gsoSize ∧
        segments.flatMap (·.drop (40 + t.headerLen packet)) = packet.drop dataAt ∧
        ∀ j segment, segments[j]? = some segment → IsSegment t hdr.gsoSize packet (k + j) segment := by
  have size := h.gsoSize
  have done (dataAt : Nat) (beyond : packet.length ≤ dataAt) :
      ([] : List (List UInt8)).length = (packet.length - dataAt + hdr.gsoSize - 1) / hdr.gsoSize ∧
        [].flatMap (drop (40 + t.headerLen packet)) = packet.drop dataAt := by
    rw [Nat.sub_eq_zero_of_le beyond,Nat.zero_add,Nat.div_eq_of_lt (by omega),drop_of_length_le beyond]
    exact ⟨rfl,rfl⟩
  induction turns with
  | zero =>
    intro k dataAt _ enough
    obtain ⟨count,payload⟩ := done dataAt (by omega)
    exact ⟨[],rfl,count,payload,nofun⟩
  | succ turns ih =>
    intro k dataAt start enough
    unfold GsoSplit.segments
    rw [h.length_of]
    by_cases inside : dataAt < packet.length
    · have exact' : 40 + t.headerLen packet + k * hdr.gsoSize = dataAt := by omega
      obtain ⟨segment,made,spec⟩ := h.segment hdrLen exact' inside
      have next : min (dataAt + hdr.gsoSize) packet.length =
          min (40 + t.headerLen packet + (k + 1) * hdr.gsoSize) packet.length := by
        rw [Nat.succ_mul,← Nat.add_assoc,exact']
      obtain ⟨later,made',count,payload,specs⟩ := ih (k + 1) _ next (by omega)
      refine ⟨segment :: later,?_,?_,?_,fun j other found => ?_⟩
      · rw [if_pos inside,made]
        change (GsoSplit.segments _ turns (min (dataAt + hdr.gsoSize) packet.length) (k + 1) >>= _) = _
        rw [made']
        rfl
      · have left := segments_left (by omega : 0 < packet.length - dataAt) size
        rw [length_cons,count,← left]
        congr 4
        omega
      · rw [flatMap_cons,payload,spec.payload,exact',slice]
        have cut : packet.drop (min (dataAt + hdr.gsoSize) packet.length) =
            (packet.drop dataAt).drop hdr.gsoSize := by
          rw [drop_drop]
          obtain fits | beyond := Nat.le_total (dataAt + hdr.gsoSize) packet.length
          · rw [Nat.min_eq_left fits]
          · rw [Nat.min_eq_right beyond,drop_of_length_le beyond,drop_of_length_le (Nat.le_refl _)]
        rw [cut,take_append_drop]
      · cases j with
        | zero =>
          cases found
          exact spec
        | succ j =>
          rw [← Nat.add_assoc,Nat.add_right_comm]
          exact specs j other found
    · rw [if_neg inside]
      obtain ⟨count,payload⟩ := done dataAt (by omega)
      exact ⟨[],rfl,count,payload,nofun⟩

theorem GsoPacket.split (h : GsoPacket t hdr packet) (hdrLen : hdr.hdrLen = 40 + t.headerLen packet) :
    ∃ segments, linuxVnetIpv6GsoSplit packet hdr t.gsoType = .ok segments ∧
      segments.length = (packet.length - (40 + t.headerLen packet) + hdr.gsoSize - 1) / hdr.gsoSize ∧
      segments.flatMap (·.drop (40 + t.headerLen packet)) = packet.drop (40 + t.headerLen packet) ∧
      ∀ k segment, segments[k]? = some segment → IsSegment t hdr.gsoSize packet k segment := by
  have fits := h.fits
  obtain ⟨segments,made,count,payload,specs⟩ := h.segments hdrLen packet.length 0 (40 + t.headerLen packet)
    (by rw [Nat.zero_mul]; omega) (Nat.sub_le _ _)
  refine ⟨segments,(linuxVnetIpv6GsoSplit_eq h hdrLen).trans made,count,payload,fun k segment found => ?_⟩
  have spec := specs k segment found
  rwa [Nat.zero_add] at spec

structure GsoFrame (ne : ByteOrder) (t : Transport) (hdr : LinuxVirtioNetHdr) (frame : List UInt8) :
    Prop where
  decoded : LinuxVirtioNetHdr.decode ne frame = .ok hdr
  gsoType : hdr.gsoType = t.gsoType
  version : ((frame.drop linuxVirtioNetHdrLen).head?.map fun byte : UInt8 => byte >>> 4) = some 6
  packet : GsoPacket t hdr (frame.drop linuxVirtioNetHdrLen)

theorem GsoPacket.gsoHeaderLen (h : GsoPacket t hdr packet) :
    gsoHeaderLen packet hdr t.gsoType = .ok (40 + t.headerLen packet) := by
  have header := h.header
  have fits := h.fits
  unfold Fips.Tun.gsoHeaderLen
  rw [h.csumStart,h.csumOffset]
  cases t with
  | udp => rfl
  | tcp =>
    simp only [Transport.minHeaderLen,Transport.headerLen] at header fits ⊢
    have here : packet[40 + 12]? = some (packet.getD 52 0) := by
      rw [getD_eq_getElem?_getD,getElem?_eq_getElem (by omega : 52 < packet.length)]
      rfl
    have nibble : (packet.getD 52 0 >>> 4).toNat < 16 := by
      have byte := (packet.getD 52 0).toNat_lt
      rw [UInt8.toNat_shiftRight]
      simp only [UInt8.reduceToNat,Nat.reduceMod,Nat.shiftRight_eq_div_pow]
      omega
    rw [if_neg (by decide),here]
    simp only
    rw [if_pos (by omega),Nat.min_eq_left (by omega)]

theorem GsoFrame.collect {ne : ByteOrder} {frame : List UInt8} (h : GsoFrame ne t hdr frame) :
    collectLinuxVnetPackets ne frame = linuxVnetIpv6GsoSplit (frame.drop linuxVirtioNetHdrLen)
      { hdr with hdrLen := 40 + t.headerLen (frame.drop linuxVirtioNetHdrLen) } t.gsoType := by
  have size := h.packet.gsoSize
  have plain : t.gsoType &&& ~~~linuxVirtioNetHdrGsoEcn = t.gsoType := by cases t <;> decide
  have noEcn : t.gsoType &&& linuxVirtioNetHdrGsoEcn = 0 := by cases t <;> decide
  have some : t.gsoType ≠ linuxVirtioNetHdrGsoNone := by cases t <;> decide
  have known : ¬(t.gsoType ≠ linuxVirtioNetHdrGsoTcpv6 ∧ t.gsoType ≠ linuxVirtioNetHdrGsoUdpL4) := by
    cases t <;> decide
  unfold collectLinuxVnetPackets
  rw [h.decoded]
  simp only [bind,Except.bind,h.gsoType,plain]
  rw [if_neg some,if_neg (not_not.2 noEcn),if_neg known,if_neg (by omega),if_neg (not_not.2 h.version),
    h.packet.gsoHeaderLen]

/-- Every frame of a TCP or UDP packet is split exactly. -/
theorem collectLinuxVnetPackets_splits (ne : ByteOrder) (t : Transport)
    (hdr : LinuxVirtioNetHdr) (frame : List UInt8) (h : GsoFrame ne t hdr frame) :
    ∃ segments, collectLinuxVnetPackets ne frame = .ok segments ∧
      segments.length =
        ((frame.drop linuxVirtioNetHdrLen).length - (40 + t.headerLen (frame.drop linuxVirtioNetHdrLen)) +
          hdr.gsoSize - 1) /
          hdr.gsoSize ∧
      segments.flatMap (·.drop (40 + t.headerLen (frame.drop linuxVirtioNetHdrLen))) =
        (frame.drop linuxVirtioNetHdrLen).drop (40 + t.headerLen (frame.drop linuxVirtioNetHdrLen)) ∧
      ∀ k segment, segments[k]? = some segment →
        IsSegment t hdr.gsoSize (frame.drop linuxVirtioNetHdrLen) k segment := by
  have packet : GsoPacket t { hdr with hdrLen := 40 + t.headerLen (frame.drop linuxVirtioNetHdrLen) }
      (frame.drop linuxVirtioNetHdrLen) :=
    { h.packet with }
  rw [h.collect]
  exact packet.split rfl

def udpFrame : List UInt8 :=
  [0,5,0,0,2,0,40,0,6,0] ++ ([0x60,0,0,0,0,11,17,64] ++ replicate 32 1) ++ [0,1,0,2,0,11,0,0] ++ [1,2,3]

theorem collectLinuxVnetPackets_splits_udp :
    ∃ segments, collectLinuxVnetPackets .little udpFrame = .ok segments ∧
    segments.length = 2 ∧ segments.flatMap (·.drop 48) = [1,2,3] := by
  obtain ⟨segments,made,count,payload,-⟩ :=
    collectLinuxVnetPackets_splits .little .udp ⟨0,5,0,2,40,6⟩ udpFrame
    ⟨by decide,rfl,by decide,rfl,rfl,by decide,by decide,by decide,by decide⟩
  exact ⟨segments,made,count,payload⟩

end Fips.Tun
