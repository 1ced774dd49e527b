import Fips.Tun.Split

set_option autoImplicit false

/-! The clamping of the MSS option of TCP SYN packets. An index or a range outside of the packet is `none`. -/

namespace Fips.Tun

open OnesComplement Bytes Option

def isTcpSyn (tcpHeader : List UInt8) : Option Bool :=
  if tcpHeader.length < 20 then some false
  else do return (← tcpHeader[13]?) &&& 0x02 != 0

def getTcpDataOffset (tcpHeader : List UInt8) : Option Nat :=
  if tcpHeader.length < 20 then some 0
  else do return ((← tcpHeader[12]?) >>> 4).toNat * 4

section Clamping

variable (ipv6Packet : List UInt8)

def recalculateTcpChecksum (tcpStart : Nat) : Option (List UInt8) :=
  let zeroed := overwrite ipv6Packet (tcpStart + 16) [0,0]
  let payloadLen := value (slice zeroed 4 2)
  if tcpStart + payloadLen ≤ zeroed.length then
    let sum := wordSum (slice zeroed 8 16) + wordSum (slice zeroed 24 16) + payloadLen + 6 +
      wordSum (slice zeroed tcpStart payloadLen)
    some (overwrite zeroed (tcpStart + 16) (ofValue 2 (u16Not (foldCarries sum sum))))
  else none

def clampOption (maxMss : UInt16) (i : Nat) : Option (Bool × List UInt8) := do
  let currentMss := value [← ipv6Packet[i + 2]?,← ipv6Packet[i + 3]?]
  if maxMss.toNat < currentMss then
    return (true,← recalculateTcpChecksum (overwrite ipv6Packet (i + 2) (ofValue 2 maxMss.toNat)) 40)
  return (false,ipv6Packet)

/-- The turns of the loop of `clampTcpMss`. -/
def clampOptions (ipv6Packet : List UInt8) (maxMss : UInt16) (optionsEnd : Nat) :
    Nat → Nat → Option (Bool × List UInt8)
  | 0,_ => some (false,ipv6Packet)
  | turns + 1,i =>
    if i < optionsEnd then do
      let kind ← ipv6Packet[i]?
      if kind = 0 then some (false,ipv6Packet)
      else if kind = 1 then clampOptions ipv6Packet maxMss optionsEnd turns (i + 1)
      else if optionsEnd ≤ i + 1 then some (false,ipv6Packet)
      else do
        let length ← ipv6Packet[i + 1]?
        if length.toNat < 2 ∨ optionsEnd < i + length.toNat then some (false,ipv6Packet)
        else if kind = 2 ∧ length = 4 then clampOption ipv6Packet maxMss i
        else clampOptions ipv6Packet maxMss optionsEnd turns (i + length.toNat)
    else some (false,ipv6Packet)

def tcpOptionsEnd : Option (Option Nat) := do
  if ipv6Packet.length < 40 then return none
  let first : UInt8 ← ipv6Packet[0]?
  if first >>> 4 ≠ 6 then return none
  let nextHeader : UInt8 ← ipv6Packet[6]?
  if nextHeader ≠ 6 then return none
  if ipv6Packet.length < 60 then return none
  let tcpHeader := ipv6Packet.drop 40
  if !(← isTcpSyn tcpHeader) then return none
  let tcpHeaderLen ← getTcpDataOffset tcpHeader
  if tcpHeaderLen < 20 ∨ tcpHeader.length < tcpHeaderLen then return none
  if ipv6Packet.length < 40 + tcpHeaderLen then return none
  return some (40 + tcpHeaderLen)

/-- The answer, and the packet as it is left. -/
def clampTcpMss (maxMss : UInt16) : Option (Bool × List UInt8) := do
  match ← tcpOptionsEnd ipv6Packet with
  | none => return (false,ipv6Packet)
  | some optionsEnd => clampOptions ipv6Packet maxMss optionsEnd (optionsEnd - 60) 60

end Clamping

/-- A TCP SYN over IPv6 whose header ends at `stop`. -/
@[mk_iff] structure IsSyn (packet : List UInt8) (stop : Nat) : Prop where
  version : packet[0]?.map (fun byte : UInt8 => byte >>> 4) = some 6
  tcp : packet[6]? = some 6
  syn : packet[53]?.map (· &&& 2 != 0) = some true
  offset : packet[52]?.map (fun byte : UInt8 => 40 + (byte >>> 4).toNat * 4) = some stop
  low : 60 ≤ stop
  high : stop ≤ packet.length

def IsMss (packet : List UInt8) (stop i : Nat) : Prop :=
  i + 4 ≤ stop ∧ packet[i]? = some 2 ∧ packet[i + 1]? = some 4

/-- The first MSS option from the one place on is at the other. -/
@[mk_iff] inductive FirstMss (packet : List UInt8) (stop : Nat) : Nat → Nat → Prop where
  | here {i : Nat} : IsMss packet stop i → FirstMss packet stop i i
  | nop {i j : Nat} : i < stop → packet[i]? = some 1 → FirstMss packet stop (i + 1) j →
    FirstMss packet stop i j
  | other {i j : Nat} {kind length : UInt8} : packet[i]? = some kind → kind ≠ 0 → kind ≠ 1 →
    packet[i + 1]? = some length → 2 ≤ length.toNat →
      i + length.toNat ≤ stop → ¬ IsMss packet stop i → FirstMss packet stop (i + length.toNat) j →
        FirstMss packet stop i j

/-- The first MSS option of a TCP SYN is at `i`. -/
def MssAt (packet : List UInt8) (i : Nat) : Prop := ∃ stop, IsSyn packet stop ∧ FirstMss packet stop 60 i

def mss (packet : List UInt8) (i : Nat) : Nat := value (slice packet (i + 2) 2)

def payloadLength (packet : List UInt8) : Nat := value (slice packet 4 2)

structure Clamped (packet : List UInt8) (maxMss : UInt16) (changed : Bool) (result : List UInt8) : Prop where
  length : result.length = packet.length
  others : ∀ j, (∀ i, MssAt packet i → ¬ (i + 2 ≤ j ∧ j < i + 4)) →
    ¬ (56 ≤ j ∧ j < 58) → result[j]? = packet[j]?
  unchanged : changed = false → result = packet
  value : ∀ i, MssAt packet i → mss result i = min (mss packet i) maxMss.toNat
  answer : changed = true ↔ ∃ i, MssAt packet i ∧ mss result i ≠ mss packet i
  checksum : changed = true → payloadLength packet = packet.length - 40 → ChecksumValid 6 result

variable {packet : List UInt8}

theorem byte_at {i : Nat} (inside : i < packet.length) : ∃ byte, packet[i]? = some byte :=
  ⟨_,List.getElem?_eq_getElem inside⟩

theorem tcpOptionsEnd_spec (packet : List UInt8) :
    ∃ result, tcpOptionsEnd packet = some result ∧ ∀ stop, result = some stop ↔ IsSyn packet stop := by
  by_cases long : 60 ≤ packet.length
  · obtain ⟨first,h0⟩ := byte_at (by omega : 0 < packet.length)
    obtain ⟨nextHeader,h6⟩ := byte_at (by omega : 6 < packet.length)
    obtain ⟨offset,h52⟩ := byte_at (by omega : 52 < packet.length)
    obtain ⟨flags,h53⟩ := byte_at (by omega : 53 < packet.length)
    have whole : ¬ packet.length < 40 ∧ ¬ packet.length < 60 ∧ ¬ packet.length - 40 < 20 := by omega
    simp only [tcpOptionsEnd,isTcpSyn,getTcpDataOffset,isSyn_iff,h0,h6,List.getElem?_drop,
      h52,h53,List.length_drop,bind_eq_bind,bind_some,pure_def,whole,if_false]
    split_ifs
    all_goals grind
  · have none : ∀ stop, ¬ IsSyn packet stop := fun stop syn => long (Nat.le_trans syn.low syn.high)
    by_cases header : packet.length < 40
    · simp [tcpOptionsEnd,header,none]
    · obtain ⟨first,h0⟩ := byte_at (by omega : 0 < packet.length)
      obtain ⟨nextHeader,h6⟩ := byte_at (by omega : 6 < packet.length)
      simp [tcpOptionsEnd,header,h0,h6,Nat.lt_of_not_le long,none]

theorem recalculateTcpChecksum_spec (long : 60 ≤ packet.length) :
    (recalculateTcpChecksum packet 40 = none ↔ packet.length < 40 + payloadLength packet) ∧
      ∀ result, recalculateTcpChecksum packet 40 = some result →
        result.length = packet.length ∧ (∀ j, ¬ (56 ≤ j ∧ j < 58) → result[j]? = packet[j]?) ∧
        (payloadLength packet = packet.length - 40 → ChecksumValid 6 result) := by
  have fits : 40 + 16 + [(0 : UInt8),0].length ≤ packet.length := by
    simp only [List.length_cons,List.length_nil]
    omega
  have length := length_overwrite fits
  have same := getElem?_overwrite fits
  have clear := slice_overwrite fits
  have payload : slice (overwrite packet (40 + 16) [0,0]) 4 2 = slice packet 4 2 :=
    slice_overwrite_of_disjoint fits (by omega)
  simp only [recalculateTcpChecksum,payload]
  generalize overwrite packet (40 + 16) [0,0] = zeroed at *
  rw [← payloadLength]
  split_ifs with inside
  · refine ⟨by simp only [false_iff]; omega,fun result done => ?_⟩
    cases done
    generalize sumEq : wordSum (slice zeroed 8 16) + wordSum (slice zeroed 24 16) + payloadLength packet + 6 +
      wordSum (slice zeroed 40 (payloadLength packet)) = sum
    have word : u16Not (foldCarries sum sum) = 65535 - fold sum := by
      rw [foldCarries_eq sum sum (Nat.le_refl _),u16Not]
    rw [word]
    have fits' : 40 + 16 + (ofValue 2 (65535 - fold sum)).length ≤ zeroed.length := by
      rw [length_ofValue]
      omega
    refine ⟨(length_overwrite fits').trans length,fun j outside => ?_,fun whole => ?_⟩
    · rw [getElem?_overwrite fits',if_neg (by simpa using outside),same,if_neg (by simpa using outside)]
    · have bound := value_lt (slice packet 4 2)
      rw [← payloadLength,length_slice (by omega)] at bound
      have all : slice zeroed 40 (payloadLength packet) = zeroed.drop 40 := by
        rw [slice,List.take_of_length_le]
        rw [List.length_drop]
        omega
      rw [all,whole,← length] at sumEq
      rw [ChecksumValid,wordSum_stored _ (by decide) (by omega) clear (Nat.sub_le _ _),
        wordSum_pseudoHeader 6 (by omega) (by omega),linuxVnetPseudoHeaderSum,linuxVnetAddWords_eq,
          linuxVnetAddWords_eq]
      simp only [UInt8.reduceToNat,Nat.zero_add]
      rw [Nat.add_right_comm _ 6,sumEq]
      exact valid_complement sum
  · refine ⟨by simp only [true_iff]; omega,fun result done => ?_⟩
    cases done

variable {maxMss : UInt16} {stop i : Nat}

theorem clampOption_cases (within : stop ≤ packet.length) (found : IsMss packet stop i) :
    mss packet i ≤ maxMss.toNat ∧ clampOption packet maxMss i = some (false,packet) ∨
      maxMss.toNat < mss packet i ∧ clampOption packet maxMss i =
        (recalculateTcpChecksum (overwrite packet (i + 2) (ofValue 2 maxMss.toNat)) 40).map (true,·) := by
  have inside := found.1
  obtain ⟨high,h2⟩ := byte_at (by omega : i + 2 < packet.length)
  obtain ⟨low,h3⟩ := byte_at (by omega : i + 3 < packet.length)
  have bytes : slice packet (i + 2) 2 = [high,low] := by
    refine slice_eq rfl fun j small => ?_
    match j,small with
    | 0,_ => exact h2
    | 1,_ => exact h3
  simp only [clampOption,h2,h3,mss,bytes]
  by_cases above : maxMss.toNat < value [high,low]
  · right
    simp [above,map_eq_bind]
  · left
    simp [above]
    omega

theorem not_firstMss_of_le (short : stop ≤ i + 1) (other : i < stop → packet[i]? ≠ some 1) (j : Nat) :
    ¬ FirstMss packet stop i j := by
  rw [firstMss_iff,IsMss]
  grind

/-- The walk leaves the packet as it is, or it clamps the first MSS option. -/
theorem clampOptions_cases (within : stop ≤ packet.length) (turns : Nat) : ∀ i, stop ≤ i + turns →
    (clampOptions packet maxMss stop turns i = some (false,packet) ∧ ∀ j, ¬ FirstMss packet stop i j) ∨
      ∃ k, IsMss packet stop k ∧ (∀ j, FirstMss packet stop i j ↔ j = k) ∧
        clampOptions packet maxMss stop turns i = clampOption packet maxMss k := by
  induction turns with
  | zero => exact fun i enough => Or.inl ⟨rfl,not_firstMss_of_le (by omega) (by omega)⟩
  | succ turns ih =>
    intro i enough
    by_cases inside : i < stop
    · obtain ⟨kind,atKind⟩ := byte_at (by omega : i < packet.length)
      simp only [clampOptions,atKind,bind_eq_bind,bind_some]
      split_ifs with zero one last
      · refine Or.inl ⟨rfl,fun j => ?_⟩
        rw [firstMss_iff,IsMss]
        grind
      · have step (j : Nat) : FirstMss packet stop i j ↔ FirstMss packet stop (i + 1) j := by
          rw [firstMss_iff,IsMss]
          grind
        simp only [step]
        exact ih _ (by omega)
      · exact Or.inl ⟨rfl,not_firstMss_of_le last (by grind)⟩
      · obtain ⟨length,atLength⟩ := byte_at (by omega : i + 1 < packet.length)
        have four : length = 4 → length.toNat = 4 := fun h => h ▸ rfl
        simp only [atLength,bind_some]
        split_ifs with bad isMss
        · refine Or.inl ⟨rfl,fun j => ?_⟩
          rw [firstMss_iff,IsMss]
          grind
        · have here : IsMss packet stop i := by
            rw [IsMss]
            grind
          refine Or.inr ⟨i,here,fun j => ?_,rfl⟩
          rw [firstMss_iff]
          grind
        · have step (j : Nat) : FirstMss packet stop i j ↔ FirstMss packet stop (i + length.toNat) j := by
            rw [firstMss_iff,IsMss]
            grind
          simp only [step]
          exact ih _ (by omega)
    · rw [clampOptions,if_neg inside]
      exact Or.inl ⟨rfl,not_firstMss_of_le (by omega) (by omega)⟩

theorem FirstMss.le {j : Nat} (first : FirstMss packet stop i j) : i ≤ j := by
  induction first <;> omega

theorem clampTcpMss_cases (packet : List UInt8) (maxMss : UInt16) :
    (clampTcpMss packet maxMss = some (false,packet) ∧ ∀ i, MssAt packet i → mss packet i ≤ maxMss.toNat) ∨
      ∃ k, (∀ i, MssAt packet i ↔ i = k) ∧ 60 ≤ k ∧ k + 4 ≤ packet.length ∧ maxMss.toNat < mss packet k ∧
        clampTcpMss packet maxMss =
          (recalculateTcpChecksum (overwrite packet (k + 2) (ofValue 2 maxMss.toNat)) 40).map (true,·) := by
  obtain ⟨result,header,isSyn⟩ := tcpOptionsEnd_spec packet
  simp only [clampTcpMss,header,bind_eq_bind,bind_some]
  cases result with
  | none =>
    refine Or.inl ⟨rfl,?_⟩
    rintro i ⟨stop,syn,_⟩
    cases (isSyn stop).2 syn
  | some stop =>
    have mssAt (i : Nat) : MssAt packet i ↔ FirstMss packet stop 60 i := by simp [MssAt,← isSyn]
    have within := ((isSyn stop).1 rfl).high
    rcases clampOptions_cases within (stop - 60) 60 (by omega) with ⟨kept,never⟩ | ⟨k,found,only,done⟩
    · exact Or.inl ⟨kept,fun i here => absurd ((mssAt i).1 here) (never i)⟩
    · have low := ((only k).2 rfl).le
      have high := found.1
      simp only [done,mssAt,only]
      rcases @clampOption_cases _ maxMss _ _ within found with ⟨small,kept⟩ | ⟨above,clamped⟩
      · exact Or.inl ⟨kept,fun i here => here ▸ small⟩
      · exact Or.inr ⟨k,fun _ => Iff.rfl,low,by omega,above,clamped⟩

/-- The clamping panics on exactly those SYN packets whose option must be clamped and whose payload length
reaches past their end. -/
theorem clampTcpMss_clamped_iff (packet : List UInt8) (maxMss : UInt16) :
    (∃ changed result, clampTcpMss packet maxMss = some (changed,result) ∧
      Clamped packet maxMss changed result) ↔
      ¬ ∃ i, MssAt packet i ∧ maxMss.toNat < mss packet i ∧ packet.length < 40 + payloadLength packet := by
  rcases clampTcpMss_cases packet maxMss with ⟨kept,small⟩ | ⟨k,only,low,high,above,clamped⟩
  · refine iff_of_true ⟨false,packet,kept,?_⟩ ?_
    · exact ⟨rfl,fun _ _ _ => rfl,fun _ => rfl,fun i here => (Nat.min_eq_left (small i here)).symm,
        by simp,by simp⟩
    · rintro ⟨i,here,above,_⟩
      exact absurd (small i here) (by omega)
  · have fits : k + 2 + (ofValue 2 maxMss.toNat).length ≤ packet.length := by
      rw [length_ofValue]
      omega
    have length := length_overwrite fits
    have others := getElem?_overwrite fits
    have value := slice_overwrite fits
    have payload : payloadLength (overwrite packet (k + 2) (ofValue 2 maxMss.toNat)) =
        payloadLength packet := by
      rw [payloadLength,slice_overwrite_of_disjoint fits (by omega),payloadLength]
    rw [length_ofValue] at others value
    obtain ⟨panics,spec⟩ := recalculateTcpChecksum_spec
      (by omega : 60 ≤ (overwrite packet (k + 2) (ofValue 2 maxMss.toNat)).length)
    rw [clamped]
    generalize overwrite packet (k + 2) (ofValue 2 maxMss.toNat) = written at *
    rw [length,payload] at panics
    cases done : recalculateTcpChecksum written 40 with
    | none =>
      refine iff_of_false (by simp) (not_not.2 ⟨k,(only k).2 rfl,above,panics.1 done⟩)
    | some result =>
      obtain ⟨sameLength,same,checksum⟩ := spec result done
      have set : mss result k = maxMss.toNat := by
        rw [mss,slice_congr fun i _ _ => same i (by omega),value,value_ofValue]
        exact Nat.mod_eq_of_lt maxMss.toNat_lt
      refine iff_of_true ⟨true,result,rfl,?_⟩ ?_
      · refine ⟨sameLength.trans length,fun j outside untouched => ?_,by simp,fun i here => ?_,
          ?_,fun _ whole => ?_⟩
        · have apart := outside k ((only k).2 rfl)
          rw [same j untouched,others,if_neg (by omega)]
        · rw [(only i).1 here,set,Nat.min_eq_right (by omega)]
        · exact iff_of_true rfl ⟨k,(only k).2 rfl,by omega⟩
        · exact checksum (by omega)
      · rintro ⟨i,_,_,short⟩
        rw [panics.2 short] at done
        cases done

/-- A SYN of 64 bytes that announces a payload of 100 bytes and an MSS of 1460. -/
theorem clampTcpMss_overrun : let packet : List UInt8 :=
      [0x60,0,0,0,0,100,6,64] ++ List.replicate 44 0 ++ [0x60,2] ++ List.replicate 6 0 ++ [2,4,5,180]
    packet.length = 64 ∧ clampTcpMss packet 1220 = none := by
  decide +kernel

end Fips.Tun
