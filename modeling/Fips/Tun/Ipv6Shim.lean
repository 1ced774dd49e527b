import Fips.Lib.Bytes

set_option autoImplicit false

/-! The compression of IPv6 headers between nodes, on fresh vectors and in place. -/

namespace Fips.Tun

open Bytes

abbrev Ipv6Addr := Vector UInt8 16

open List

def compressIpv6 (ipv6Packet : List UInt8) : Option (List UInt8) :=
  if ipv6Packet.length < 40 ∨ ipv6Packet.getD 0 0 >>> 4 ≠ 6 then none
  else some ([0x00] ++ slice ipv6Packet 0 4 ++ [ipv6Packet.getD 6 0] ++
    [ipv6Packet.getD 7 0] ++ ipv6Packet.drop 40)

def compressIpv6WithPortHeaderInPlace (packet : List UInt8) (srcPort dstPort : UInt16) : Bool × List UInt8 :=
  if packet.length < 40 ∨ packet.getD 0 0 >>> 4 ≠ 6 then (false,packet)
  else
    let residual := slice packet 0 4
    let nextHeader := packet.getD 6 0
    let hopLimit := packet.getD 7 0
    let compressedLen := 4 + 1 + 6 + (packet.length - 40)
    let packet := overwrite packet 0 (leBytes 2 srcPort.toNat)
    let packet := overwrite packet 2 (leBytes 2 dstPort.toNat)
    let packet := overwrite packet 4 [0x00]
    let packet := overwrite packet 5 residual
    let packet := overwrite packet 9 [nextHeader]
    let packet := overwrite packet 10 [hopLimit]
    let packet := overwrite packet 11 (packet.drop 40)
    (true,packet.take compressedLen)

def ipv6Header (residual : List UInt8) (upperLen : Nat) (srcIpv6 dstIpv6 : Ipv6Addr) : List UInt8 :=
  [(residual.getD 0 0 &&& 0x0f) ||| 0x60] ++ slice residual 1 3 ++ ofValue 2 upperLen ++
    [residual.getD 4 0] ++ [residual.getD 5 0] ++ srcIpv6.toList ++ dstIpv6.toList

/-- The payload length keeps its low sixteen bits. -/
def decompressIpv6 (shimPayload : List UInt8) (srcIpv6 dstIpv6 : Ipv6Addr) : Option (List UInt8) :=
  if shimPayload.length < 7 then none
  else if shimPayload.getD 0 0 ≠ 0x00 then none
  else
    let upperPayload := shimPayload.drop 7
    some (ipv6Header (slice shimPayload 1 6) upperPayload.length srcIpv6 dstIpv6 ++ upperPayload)

structure PacketBuffer where
  data : List UInt8
  start : Nat
  within : start ≤ data.length

namespace PacketBuffer

def asSlice (p : PacketBuffer) : List UInt8 := p.data.drop p.start

def len (p : PacketBuffer) : Nat := p.data.length - p.start

theorem length_le_overwrite (data : List UInt8) (start : Nat) (new : List UInt8) :
    data.length ≤ (overwrite data start new).length := by
  simp only [overwrite,length_append,length_take,length_drop]
  omega

/-- The bytes of `new` written from `start` on, where the visible bytes begin. -/
def starting (data : List UInt8) (start : Nat) (new : List UInt8) (within : start ≤ data.length) :
    PacketBuffer :=
  ⟨overwrite data start new,start,within.trans (length_le_overwrite data start new)⟩

theorem within_grown (p : PacketBuffer) (grow start : Nat) (tail : List UInt8) :
    p.start ≤ (overwrite (p.data ++ List.replicate grow 0) start tail).length := by
  have longer := length_le_overwrite (p.data ++ List.replicate grow 0) start tail
  rw [length_append] at longer
  exact p.within.trans (Nat.le_of_add_right_le longer)

theorem within_shrunk (p : PacketBuffer) {removeLen : Nat} (enough : ¬ p.len < removeLen) (size start : Nat)
    (tail : List UInt8) :
    p.start ≤ ((overwrite p.data start tail).take (p.data.length - (removeLen - size))).length := by
  have within := p.within
  have longer := length_le_overwrite p.data start tail
  unfold len at enough
  rw [length_take]
  omega

/-- What the buffer grows by holds nothing yet. -/
def replaceVisiblePrefix (p : PacketBuffer) (removeLen : Nat) (new : List UInt8) : Bool × PacketBuffer :=
  if short : p.len < removeLen then (false,p)
  else
    let tail := slice p.data (p.start + removeLen) (p.len - removeLen)
    if removeLen ≤ new.length then
      let grow := new.length - removeLen
      if 0 < grow ∧ grow ≤ p.start then
        (true,starting p.data (p.start - grow) new (Nat.le_trans (Nat.sub_le _ _) p.within))
      else if 0 < grow then
        (true,starting (overwrite (p.data ++ List.replicate grow 0) (p.start + new.length) tail) p.start new
          (p.within_grown grow _ tail))
      else (true,starting p.data p.start new p.within)
    else
      let shrink := removeLen - new.length
      (true,starting ((overwrite p.data (p.start + new.length) tail).take (p.data.length - shrink))
        p.start new
        (p.within_shrunk short new.length _ tail))

theorem asSlice_starting {data : List UInt8} {start : Nat} (new : List UInt8) (within : start ≤ data.length) :
    (starting data start new within).asSlice = new ++ data.drop (start + new.length) :=
  drop_overwrite_start within new

theorem replaceVisiblePrefix_spec (p : PacketBuffer) {removeLen : Nat} (new : List UInt8)
    (fits : removeLen ≤ p.len) :
    (p.replaceVisiblePrefix removeLen new).1 = true ∧
      (p.replaceVisiblePrefix removeLen new).2.asSlice = new ++ p.asSlice.drop removeLen := by
  have within := p.within
  have tail : slice p.data (p.start + removeLen) (p.len - removeLen) = p.asSlice.drop removeLen := by
    rw [slice,asSlice,drop_drop,take_of_length_le]
    rw [length_drop,len]
    omega
  have tailLength : (p.asSlice.drop removeLen).length = p.len - removeLen := by
    rw [length_drop,asSlice,length_drop,len]
  have short : ¬ p.len < removeLen := Nat.not_lt.2 fits
  simp only [replaceVisiblePrefix,tail]
  unfold len at fits tailLength
  split_ifs
  · refine ⟨rfl,?_⟩
    rw [asSlice_starting,asSlice,drop_drop]
    congr 2
    omega
  · refine ⟨rfl,?_⟩
    have all : (p.data ++ List.replicate (new.length - removeLen) 0).length =
        p.start + new.length + (p.asSlice.drop removeLen).length := by
      rw [length_append,length_replicate]
      omega
    rw [asSlice_starting,drop_overwrite_start (by omega),drop_eq_nil_of_le (Nat.le_of_eq all),
      append_nil]
  · refine ⟨rfl,?_⟩
    rw [asSlice_starting,asSlice,drop_drop]
    congr 2
    omega
  · refine ⟨rfl,?_⟩
    rw [asSlice_starting,drop_take,drop_overwrite_start (by omega),
      take_append_of_le_length (by omega),take_of_length_le (by omega)]

end PacketBuffer

def decompressIpv6PacketBuffer (packet : PacketBuffer) (shimOffset : Nat) (srcIpv6 dstIpv6 : Ipv6Addr) :
    Bool × PacketBuffer :=
  let prefixLen := shimOffset + 7
  if packet.len < prefixLen then (false,packet)
  else
    let visible := packet.asSlice
    if visible.getD shimOffset 0 ≠ 0x00 then (false,packet)
    else
      let upperLen := visible.length - prefixLen
      if 65535 < upperLen then (false,packet)
      else packet.replaceVisiblePrefix prefixLen
        (ipv6Header (slice visible (shimOffset + 1) 6) upperLen srcIpv6 dstIpv6)

/-- What was done in place: the bytes are there, or nothing has changed. -/
def InPlace {α : Type} (view : α → List UInt8) (before : α) (result : Bool × α) : Option (List UInt8) → Prop
  | some bytes => result.1 = true ∧ view result.2 = bytes
  | none => result = (false,before)

def DecompressesInPlace (packet : PacketBuffer) (shimOffset : Nat) (srcIpv6 dstIpv6 : Ipv6Addr) : Prop :=
  let shim := packet.asSlice.drop shimOffset
  InPlace PacketBuffer.asSlice packet (decompressIpv6PacketBuffer packet shimOffset srcIpv6 dstIpv6)
    (if shim.length ≤ 65535 + 7 then decompressIpv6 shim srcIpv6 dstIpv6 else none)

theorem decompressesInPlace (packet : PacketBuffer) (shimOffset : Nat) (srcIpv6 dstIpv6 : Ipv6Addr) :
    DecompressesInPlace packet shimOffset srcIpv6 dstIpv6 := by
  unfold DecompressesInPlace
  intro shim
  have length : packet.len = packet.asSlice.length := by
    rw [PacketBuffer.len,PacketBuffer.asSlice,length_drop]
  have shimLength : shim.length = packet.asSlice.length - shimOffset := length_drop
  have first : shim.getD 0 0 = packet.asSlice.getD shimOffset 0 := by simp [shim]
  have residual : slice shim 1 6 = slice packet.asSlice (shimOffset + 1) 6 := slice_drop _ _ _ _
  have upper : shim.drop 7 = packet.asSlice.drop (shimOffset + 7) := drop_drop
  simp only [decompressIpv6,decompressIpv6PacketBuffer,length,first,residual,upper,
    shimLength,length_drop]
  by_cases short : packet.asSlice.length < shimOffset + 7
  · have none : packet.asSlice.length - shimOffset < 7 := by omega
    simp only [if_pos short,if_pos none,ite_self]
    rfl
  have long : ¬ packet.asSlice.length - shimOffset < 7 := by omega
  by_cases format : packet.asSlice.getD shimOffset 0 ≠ 0
  · simp only [if_pos format,ite_self]
    rfl
  by_cases big : 65535 < packet.asSlice.length - (shimOffset + 7)
  · have beyond : ¬ packet.asSlice.length - shimOffset ≤ 65535 + 7 := by omega
    simp only [if_neg short,if_neg format,if_pos big,if_neg beyond]
    rfl
  · have bound : packet.asSlice.length - shimOffset ≤ 65535 + 7 := by omega
    simp only [if_neg short,if_neg long,if_neg format,if_neg big,if_pos bound]
    exact packet.replaceVisiblePrefix_spec _ (by omega)

def CompressesInPlace (packet : List UInt8) (srcPort dstPort : UInt16) : Prop :=
  InPlace (fun bytes => bytes) packet (compressIpv6WithPortHeaderInPlace packet srcPort dstPort)
    ((compressIpv6 packet).map fun out => leBytes 2 srcPort.toNat ++ leBytes 2 dstPort.toNat ++ out)

theorem payload_moved {header : List UInt8} (front : header.length = 11) (packet : List UInt8) :
    (overwrite (header ++ packet.drop 11) 11 ((header ++ packet.drop 11).drop 40)).take
      (11 + (packet.length - 40)) =
      header ++ packet.drop 40 := by
  have moved : (header ++ packet.drop 11).drop 40 = packet.drop 40 := by
    rw [drop_append,drop_eq_nil_of_le (by omega),front,drop_drop,nil_append]
  rw [moved,overwrite_append front,take_left']
  rw [length_append,length_drop,front]

theorem compressesInPlace (packet : List UInt8) (srcPort dstPort : UInt16) :
    CompressesInPlace packet srcPort dstPort := by
  unfold CompressesInPlace compressIpv6WithPortHeaderInPlace compressIpv6
  split_ifs with bad
  · rfl
  · have whole : (slice packet 0 4).length = 4 := length_slice (by omega)
    have first : overwrite packet 0 (leBytes 2 srcPort.toNat) = leBytes 2 srcPort.toNat ++ packet.drop 2 := by
      simp [overwrite]
    simp only [first]
    rw [overwrite_append (by simp),overwrite_append (by simp),overwrite_append (by simp),
      overwrite_append (by simp [whole]),overwrite_append (by simp [whole])]
    simp only [length_leBytes,length_singleton,whole,drop_drop]
    rw [payload_moved (by simp [whole])]
    simp only [InPlace,Option.map_some,append_assoc,and_self]

/-- The length field of an IPv6 packet tells its payload. -/
structure WellFormed (packet : List UInt8) : Prop where
  long : 40 ≤ packet.length
  version : packet.getD 0 0 >>> 4 = 6
  payload : value (slice packet 4 2) = packet.length - 40
  short : packet.length - 40 ≤ 65535

theorem version_restored (byte : UInt8) (six : byte >>> 4 = 6) : (byte &&& 0x0f) ||| 0x60 = byte := by
  have all : ∀ n : Fin 256, UInt8.ofNat n >>> 4 = 6 → (UInt8.ofNat n &&& 0x0f) ||| 0x60 = UInt8.ofNat n := by
    decide +kernel
  have this := all ⟨byte.toNat,byte.toNat_lt⟩
  rw [UInt8.ofNat_toNat] at this
  exact this six

theorem decompressIpv6_compressIpv6 {packet : List UInt8} (h : WellFormed packet) {srcIpv6 dstIpv6 : Ipv6Addr}
    (src : srcIpv6.toList = slice packet 8 16) (dst : dstIpv6.toList = slice packet 24 16) :
    (compressIpv6 packet).bind (decompressIpv6 · srcIpv6 dstIpv6) = some packet := by
  obtain ⟨long,version,payload,short⟩ := h
  match packet with
  | b0 :: b1 :: b2 :: b3 :: b4 :: b5 :: b6 :: b7 :: rest =>
    simp at long version payload short src dst
    have length : ofValue 2 (rest.length - 32) = [b4,b5] := payload ▸ ofValue_value [b4,b5]
    have split : rest.take 16 ++ ((rest.drop 16).take 16 ++ rest.drop 32) = rest := by
      rw [show rest.drop 32 = (rest.drop 16).drop 16 by rw [drop_drop],take_append_drop,
        take_append_drop]
    have long' : ¬ rest.length + 8 < 40 := by omega
    simp [compressIpv6,decompressIpv6,ipv6Header,slice,src,dst,version,long',
      version_restored b0 version,length,split]

/-- The shim does the same in place, and its two directions together give back every well-formed packet. -/
theorem shim_refines :
    (∀ packet srcPort dstPort, CompressesInPlace packet srcPort dstPort) ∧
    (∀ packet shimOffset srcIpv6 dstIpv6, DecompressesInPlace packet shimOffset srcIpv6 dstIpv6) ∧
    ∀ packet (srcIpv6 dstIpv6 : Ipv6Addr), WellFormed packet → srcIpv6.toList = slice packet 8 16 →
      dstIpv6.toList = slice packet 24 16 →
      (compressIpv6 packet).bind (decompressIpv6 · srcIpv6 dstIpv6) = some packet :=
  ⟨compressesInPlace,decompressesInPlace,fun _ _ _ h => decompressIpv6_compressIpv6 h⟩

end Fips.Tun
