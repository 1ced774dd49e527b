import Fips.Dataplane.Types
import Fips.Lib.Bytes
import Fips.Lib.OrderedMap
import Fips.Lib.Traversal

set_option autoImplicit false

/-! Session packets sent directly over a transport: their fragments and the table that puts them
together again. -/

namespace Fips.Dataplane

open Bytes List

inductive WirePreflightError where
  | tooShort
  | wrongVersion
  | wrongPhase
  | plaintextFsp
  | badFspCoords
  deriving DecidableEq

structure FspWireHeader where
  counter : Nat
  ciphertextOffset : Nat
  flags : UInt8
  deriving DecidableEq

def fspHeaderSize : Nat := 12
def fspFlagCp : UInt8 := 0x01
def fspFlagU : UInt8 := 0x04
def fspFlagDirectTransport : UInt8 := 0x08

/-- The bytes that `decode_optional_coords` consumes; a count above zero always makes a coordinate. -/
def optionalCoordsLen (data : List UInt8) : Option Nat :=
  if data.length < 2 then none
  else
    let needed := 2 + leValue (data.take 2) * 16
    if data.length < needed then none else some needed

/-- The bytes that `parse_encrypted_coords` consumes. -/
def encryptedCoordsLen (data : List UInt8) : Option Nat := do
  let source ← optionalCoordsLen data
  let dest ← optionalCoordsLen (data.drop source)
  return source + dest

def FspWireHeader.parse (data : List UInt8) : Except WirePreflightError FspWireHeader :=
  if data.length < fspHeaderSize then .error .tooShort
  else if data.getD 0 0 >>> 4 ≠ 0 then .error .wrongVersion
  else if data.getD 0 0 &&& 0x0f ≠ 0 then .error .wrongPhase
  else
    let flags := data.getD 1 0
    if flags &&& fspFlagU ≠ 0 then .error .plaintextFsp
    else
      let coords := if flags &&& fspFlagCp ≠ 0 then encryptedCoordsLen (data.drop fspHeaderSize) else some 0
      match coords with
      | none => .error .badFspCoords
      | some coordsLen =>
        let ciphertextOffset := fspHeaderSize + coordsLen
        if ciphertextOffset > 65535 then .error .badFspCoords
        else .ok ⟨leValue (slice data 4 8),ciphertextOffset,flags⟩

theorem FspWireHeader.parse_eq_ok {data : List UInt8} {header : FspWireHeader}
    (h : FspWireHeader.parse data = .ok header) :
    header.counter = leValue (slice data 4 8) ∧ fspHeaderSize ≤ data.length := by
  unfold FspWireHeader.parse at h
  by_cases short : data.length < fspHeaderSize
  · simp [short] at h
  · refine ⟨?_,not_lt.1 short⟩
    rw [if_neg short] at h
    split at h
    · cases h
    · split at h
      · cases h
      · simp only at h
        split at h
        · cases h
        · split at h
          · cases h
          · split at h
            · cases h
            · cases h
              rfl

namespace DirectFsp

inductive OutputTarget where
  | transport
  | sessionIngress (localAddr : NodeAddr)
  | sessionPayload (localAddr : NodeAddr)
  deriving DecidableEq

structure PacketOutput where
  protocol : PacketProtocol
  target : OutputTarget
  payload : List UInt8
  pathMtu : Nat
  deriving DecidableEq

def fragmentMagic : List UInt8 := [0x44,0x46,0x50,0x31]
def fragmentHeaderLen : Nat := 20
def reassemblyTtlMs : Nat := 2000
def reassemblyPruneIntervalMs : Nat := reassemblyTtlMs / 4
def maxReassemblyRecords : Nat := 512
def maxReassembledLen : Nat := 72 * 1024
def maxFragments : Nat := 128

structure Segmentation where
  header : FspWireHeader
  maxFragmentPayload : Nat
  fragmentCount : Nat
  deriving DecidableEq

structure Segment where
  header : List UInt8
  start : Nat
  stop : Nat
  deriving DecidableEq

inductive TransportOutput where
  | whole (output : PacketOutput)
  | segments (output : PacketOutput) (segments : List Segment)
  | mtuExceeded (output : PacketOutput)
  deriving DecidableEq

section Segments

variable (output : PacketOutput)

def transportHeader : Option FspWireHeader :=
  if output.protocol ≠ .fsp ∨ output.target ≠ .transport then none
  else match FspWireHeader.parse output.payload with
    | .error _ => none
    | .ok header => if header.flags &&& fspFlagDirectTransport ≠ 0 then some header else none

/-- An error stands for a packet that no number of fragments can carry. -/
def transportSegmentation : Except Unit (Option Segmentation) :=
  match transportHeader output with
  | none => .ok none
  | some header =>
    if output.payload.length ≤ output.pathMtu then .ok none
    else if output.payload.length > maxReassembledLen then .error ()
    else
      let maxFragmentPayload := output.pathMtu - fragmentHeaderLen
      if maxFragmentPayload = 0 then .error ()
      else
        let fragmentCount := (output.payload.length + maxFragmentPayload - 1) / maxFragmentPayload
        if fragmentCount ≤ 1 ∨ fragmentCount > 65535 ∨ fragmentCount > maxFragments then .error ()
        else .ok (some ⟨header,maxFragmentPayload,fragmentCount⟩)

def segmentHeader (counter totalLen index count : Nat) : List UInt8 :=
  fragmentMagic ++ leBytes 8 counter ++ leBytes 4 totalLen ++ leBytes 2 index ++ leBytes 2 count

def segmentAt (s : Segmentation) (index : Nat) : Segment :=
  let start := index * s.maxFragmentPayload
  { header := segmentHeader s.header.counter output.payload.length index s.fragmentCount
    start := start
    stop := min (start + s.maxFragmentPayload) output.payload.length }

def transportOutput : TransportOutput :=
  match transportSegmentation output with
  | .error () => .mtuExceeded output
  | .ok none => .whole output
  | .ok (some s) => .segments output ((range s.fragmentCount).map (segmentAt output s))

def contiguousPayload (segment : Segment) : List UInt8 :=
  segment.header ++ slice output.payload segment.start (segment.stop - segment.start)

end Segments

structure FragmentHeader where
  recordId : Nat
  totalLen : Nat
  fragmentIndex : Nat
  fragmentCount : Nat
  deriving DecidableEq

def transportFragmentIsFragment (data : List UInt8) : Bool :=
  data.length ≥ fragmentMagic.length ∧ data.take fragmentMagic.length = fragmentMagic

def parseTransportFragmentHeaderAfterMagic (data : List UInt8) : Option FragmentHeader :=
  if data.length < fragmentHeaderLen then none
  else some
    { recordId := leValue (slice data 4 8)
      totalLen := leValue (slice data 12 4)
      fragmentIndex := leValue (slice data 16 2)
      fragmentCount := leValue (slice data 18 2) }

def validTransportFragmentHeader (header : FragmentHeader) : Bool :=
  header.totalLen > 0 ∧ header.totalLen ≤ maxReassembledLen ∧ header.fragmentCount > 1 ∧
    header.fragmentCount ≤ maxFragments ∧ header.fragmentCount ≤ header.totalLen ∧
    header.fragmentIndex < header.fragmentCount

def validateTransportFragment (data : List UInt8) : Bool :=
  match parseTransportFragmentHeaderAfterMagic data with
  | none => false
  | some header =>
    transportFragmentIsFragment data && validTransportFragmentHeader header &&
      decide (data.length > fragmentHeaderLen) &&
      decide (data.length - fragmentHeaderLen ≤ header.totalLen)

/-- A received packet; an address is anything that can be compared. -/
structure ReceivedPacket (Addr : Type) where
  transportId : Nat
  remoteAddr : Addr
  data : List UInt8
  timestampMs : Nat
  deriving DecidableEq

abbrev FragmentKey (Addr : Type) := Nat ×ₗ Addr ×ₗ Nat

structure Reassembly where
  createdAtMs : Nat
  totalLen : Nat
  receivedBytes : Nat
  receivedCount : Nat
  fragments : List (Option (List UInt8))
  deriving DecidableEq

namespace Reassembly

def new (totalLen fragmentCount createdAtMs : Nat) : Reassembly :=
  ⟨createdAtMs,totalLen,0,0,replicate fragmentCount none⟩

def fits (r : Reassembly) (totalLen fragmentCount : Nat) : Bool :=
  r.totalLen = totalLen ∧ r.fragments.length = fragmentCount

/-- Returns whether the fragment could be taken; one that is already there is. -/
def insert (r : Reassembly) (index : Nat) (payload : List UInt8) : Bool × Reassembly :=
  match r.fragments[index]? with
  | none => (false,r)
  | some (some _) => (true,r)
  | some none =>
    if r.receivedBytes + payload.length > r.totalLen then (false,r)
    else (true,{ r with
      receivedBytes := r.receivedBytes + payload.length
      receivedCount := r.receivedCount + 1
      fragments := r.fragments.set index (some payload) })

def isComplete (r : Reassembly) : Bool := r.receivedCount = r.fragments.length ∧ r.receivedBytes = r.totalLen

def intoPayload (r : Reassembly) : Option (List UInt8) :=
  if ¬ r.isComplete then none
  else match r.fragments.mapM id with
    | none => none
    | some fragments => if fragments.flatten.length = r.totalLen then some fragments.flatten else none

end Reassembly

structure Reassembler (Addr : Type) [LinearOrder Addr] where
  entries : OrderedMap (FragmentKey Addr) Reassembly
  nextPruneAtMs : Nat

inductive ReassemblyResult (Addr : Type) where
  | pending
  | complete (packet : ReceivedPacket Addr)
  | dropped
  deriving DecidableEq

namespace Reassembler

variable {Addr : Type} [LinearOrder Addr]

def default : Reassembler Addr := ⟨∅,0⟩

def entryIsExpired (entry : Reassembly) (nowMs : Nat) : Bool := nowMs - entry.createdAtMs > reassemblyTtlMs

variable (s : Reassembler Addr)

def scheduleNextPrune (nowMs : Nat) : Reassembler Addr :=
  { s with nextPruneAtMs := min (nowMs + reassemblyPruneIntervalMs) u64Max }

def pruneExpired (nowMs : Nat) : Reassembler Addr :=
  { s with entries := s.entries.filterValues fun entry => ¬ entryIsExpired entry nowMs }

def pruneExpiredIfDue (nowMs : Nat) : Reassembler Addr :=
  if s.entries.size = 0 then s.scheduleNextPrune nowMs
  else if nowMs < s.nextPruneAtMs then s
  else (s.pruneExpired nowMs).scheduleNextPrune nowMs

def removeExpiredEntry (key : FragmentKey Addr) (nowMs : Nat) : Reassembler Addr :=
  if (s.entries.get? key).any fun entry => entryIsExpired entry nowMs then
    { s with entries := s.entries.erase key } else s

def removeOldest (pass : Traversal (FragmentKey Addr × Reassembly)) : Reassembler Addr :=
  match Traversal.minByKey (fun e => e.2.createdAtMs) (pass.order s.entries.entries) with
  | none => s
  | some oldest => { s with entries := s.entries.erase oldest.1 }

def reserveCapacityForNewRecord (pass : Traversal (FragmentKey Addr × Reassembly)) (nowMs : Nat) :
    Reassembler Addr :=
  if s.entries.size < maxReassemblyRecords then s
  else
    let s := (s.pruneExpired nowMs).scheduleNextPrune nowMs
    if s.entries.size ≥ maxReassemblyRecords then s.removeOldest pass else s

/-- The record a fragment belongs to: the one that is open and fits, or a new one. -/
def openEntry (key : FragmentKey Addr) (header : FragmentHeader) (nowMs : Nat) : Reassembly :=
  match s.entries.get? key with
  | some entry =>
    if entry.fits header.totalLen header.fragmentCount then entry
    else .new header.totalLen header.fragmentCount nowMs
  | none => .new header.totalLen header.fragmentCount nowMs

/-- The end of `ingest_fragment`, when there is room for the record. -/
def takeFragment (key : FragmentKey Addr) (header : FragmentHeader) (packet : ReceivedPacket Addr) :
    ReassemblyResult Addr × Reassembler Addr :=
  let (taken,entry) := (s.openEntry key header packet.timestampMs).insert header.fragmentIndex
    (packet.data.drop fragmentHeaderLen)
  if ¬ taken then (.dropped,{ s with entries := s.entries.erase key })
  else if ¬ entry.isComplete then (.pending,{ s with entries := s.entries.insert key entry })
  else
    let s := { s with entries := s.entries.erase key }
    match entry.intoPayload with
    | none => (.dropped,s)
    | some payload => (.complete { packet with data := payload },s)

def ingestFragment (pass : Traversal (FragmentKey Addr × Reassembly)) (packet : ReceivedPacket Addr) :
    ReassemblyResult Addr × Reassembler Addr :=
  match parseTransportFragmentHeaderAfterMagic packet.data with
  | none => (.dropped,s)
  | some header =>
    if ¬ validTransportFragmentHeader header then (.dropped,s)
    else
      let key : FragmentKey Addr := toLex (packet.transportId,toLex (packet.remoteAddr,header.recordId))
      let s := (s.pruneExpiredIfDue packet.timestampMs).removeExpiredEntry key packet.timestampMs
      if packet.data.length - fragmentHeaderLen = 0 then (.dropped,s)
      else
        let s := if s.entries.contains key then s else s.reserveCapacityForNewRecord pass packet.timestampMs
        s.takeFragment key header packet

end Reassembler

def piece (payload : List UInt8) (size index : Nat) : List UInt8 := (payload.drop (index * size)).take size

theorem flatten_pieces (payload : List UInt8) (size count : Nat) :
    ((range count).map (piece payload size)).flatten = payload.take (count * size) := by
  induction count with
  | zero => simp
  | succ count ih =>
    rw [range_succ,map_append,flatten_append,ih,Nat.succ_mul,take_add]
    simp [piece]

structure Segmented (output : PacketOutput) (s : Segmentation) : Prop where
  header : transportHeader output = some s.header
  long : output.pathMtu < output.payload.length
  short : output.payload.length ≤ maxReassembledLen
  size : s.maxFragmentPayload = output.pathMtu - fragmentHeaderLen
  positive : 0 < s.maxFragmentPayload
  count : s.fragmentCount = (output.payload.length + s.maxFragmentPayload - 1) / s.maxFragmentPayload
  several : 1 < s.fragmentCount
  few : s.fragmentCount ≤ maxFragments

theorem transportSegmentation_eq_ok {output : PacketOutput} {s : Segmentation}
    (h : transportSegmentation output = .ok (some s)) : Segmented output s := by
  unfold transportSegmentation at h
  cases found : transportHeader output with
  | none => simp [found] at h
  | some header =>
    simp only [found] at h
    by_cases fits : output.payload.length ≤ output.pathMtu
    · simp [fits] at h
    · by_cases long : output.payload.length > maxReassembledLen
      · simp [fits,long] at h
      · by_cases room : output.pathMtu - fragmentHeaderLen = 0
        · simp [fits,room] at h
        · rw [if_neg fits,if_neg long,if_neg room] at h
          split at h
          · cases h
          · rename_i bounds
            rw [not_or,not_or,not_le,not_lt,not_lt] at bounds
            cases h
            exact ⟨found,not_le.1 fits,not_lt.1 long,rfl,Nat.pos_of_ne_zero room,rfl,bounds.1,bounds.2.2⟩

theorem transportOutput_eq_segments {output output' : PacketOutput} {segments : List Segment}
    (h : transportOutput output = .segments output' segments) :
    ∃ s, Segmented output s ∧ output' = output ∧
      segments = (range s.fragmentCount).map (segmentAt output s) := by
  unfold transportOutput at h
  split at h
  · cases h
  · cases h
  · rename_i s found
    cases h
    exact ⟨s,transportSegmentation_eq_ok found,rfl,rfl⟩

theorem length_segmentHeader (counter totalLen index count : Nat) :
    (segmentHeader counter totalLen index count).length = fragmentHeaderLen := by
  simp [segmentHeader,fragmentMagic,fragmentHeaderLen]

/-- The header that a fragment carries is read back as it was written. -/
theorem parse_segment {counter totalLen index count : Nat} (payload : List UInt8) (id : counter < 256^8)
    (len : totalLen < 256^4) (at_ : index < 256^2) (parts : count < 256^2) :
    parseTransportFragmentHeaderAfterMagic (segmentHeader counter totalLen index count ++ payload) =
      some ⟨counter,totalLen,index,count⟩ := by
  have long : ¬ (segmentHeader counter totalLen index count ++ payload).length < fragmentHeaderLen := by
    rw [length_append,length_segmentHeader]
    omega
  have first : segmentHeader counter totalLen index count ++ payload = fragmentMagic ++ (leBytes 8 counter ++
      (leBytes 4 totalLen ++ (leBytes 2 index ++ (leBytes 2 count ++ payload)))) := by
    simp only [segmentHeader,append_assoc]
  have second : segmentHeader counter totalLen index count ++ payload =
      (fragmentMagic ++ leBytes 8 counter) ++
      (leBytes 4 totalLen ++ (leBytes 2 index ++ (leBytes 2 count ++ payload))) := by
    simp only [segmentHeader,append_assoc]
  have third : segmentHeader counter totalLen index count ++ payload = (fragmentMagic ++ leBytes 8 counter ++
      leBytes 4 totalLen) ++ (leBytes 2 index ++ (leBytes 2 count ++ payload)) := by
    simp only [segmentHeader,append_assoc]
  have fourth : segmentHeader counter totalLen index count ++ payload = (fragmentMagic ++ leBytes 8 counter ++
      leBytes 4 totalLen ++ leBytes 2 index) ++ (leBytes 2 count ++ payload) := by
    simp only [segmentHeader,append_assoc]
  have idField : slice (segmentHeader counter totalLen index count ++ payload) 4 8 = leBytes 8 counter := by
    rw [first]
    exact slice_append rfl (length_leBytes _ _)
  have lenField : slice (segmentHeader counter totalLen index count ++ payload) 12 4 =
      leBytes 4 totalLen := by
    rw [second]
    exact slice_append (by simp [fragmentMagic]) (length_leBytes _ _)
  have indexField : slice (segmentHeader counter totalLen index count ++ payload) 16 2 = leBytes 2 index := by
    rw [third]
    exact slice_append (by simp [fragmentMagic]) (length_leBytes _ _)
  have countField : slice (segmentHeader counter totalLen index count ++ payload) 18 2 = leBytes 2 count := by
    rw [fourth]
    exact slice_append (by simp [fragmentMagic]) (length_leBytes _ _)
  rw [parseTransportFragmentHeaderAfterMagic,if_neg long,idField,lenField,indexField,countField,
    leValue_leBytes id,leValue_leBytes len,leValue_leBytes at_,leValue_leBytes parts]

namespace Segmented

variable {output : PacketOutput} {s : Segmentation}
variable (h : Segmented output s)
include h

theorem counter_lt : s.header.counter < 256^8 := by
  have found := h.header
  unfold transportHeader at found
  split at found
  · cases found
  · split at found
    · cases found
    · rename_i header parsed
      obtain ⟨counter,long⟩ := FspWireHeader.parse_eq_ok parsed
      obtain rfl := Option.some.inj (Option.ite_none_right_eq_some.1 found).2
      have bound := leValue_lt (slice output.payload 4 8)
      rw [length_slice (by simp only [fspHeaderSize] at long; omega)] at bound
      rw [counter]
      exact bound

theorem start_lt {index : Nat} (inside : index < s.fragmentCount) :
    index * s.maxFragmentPayload < output.payload.length := by
  have positive := h.positive
  rw [h.count] at inside
  have below := Nat.mul_le_of_le_div _ _ _ (Nat.succ_le_of_lt inside)
  rw [Nat.succ_mul] at below
  omega

theorem length_le : output.payload.length ≤ s.fragmentCount * s.maxFragmentPayload := by
  have positive := h.positive
  have above := Nat.lt_div_mul_add positive (a := output.payload.length + s.maxFragmentPayload - 1)
  rw [← h.count] at above
  omega

theorem flatten :
    ((range s.fragmentCount).map (piece output.payload s.maxFragmentPayload)).flatten = output.payload := by
  rw [flatten_pieces,take_of_length_le h.length_le]

theorem contiguousPayload_eq {index : Nat} (inside : index < s.fragmentCount) :
    contiguousPayload output (segmentAt output s index) =
      segmentHeader s.header.counter output.payload.length index s.fragmentCount ++
        piece output.payload s.maxFragmentPayload index := by
  have start := h.start_lt inside
  simp only [contiguousPayload,segmentAt,slice,piece]
  congr 1
  rw [take_eq_take_iff,length_drop]
  omega

theorem length_piece {index : Nat} (inside : index < s.fragmentCount) :
    0 < (piece output.payload s.maxFragmentPayload index).length ∧
      (piece output.payload s.maxFragmentPayload index).length ≤ s.maxFragmentPayload ∧
      (piece output.payload s.maxFragmentPayload index).length ≤ output.payload.length := by
  have start := h.start_lt inside
  have positive := h.positive
  rw [piece,length_take,length_drop]
  omega

theorem parse_contiguous {index : Nat} (inside : index < s.fragmentCount) :
    parseTransportFragmentHeaderAfterMagic (contiguousPayload output (segmentAt output s index)) =
      some ⟨s.header.counter,output.payload.length,index,s.fragmentCount⟩ := by
  have few := h.few
  have short := h.short
  simp only [maxFragments,maxReassembledLen] at few short
  exact parse_segment _ h.counter_lt (by omega) (by omega) (by omega)

theorem valid_header {index : Nat} (inside : index < s.fragmentCount) :
    validTransportFragmentHeader ⟨s.header.counter,output.payload.length,index,s.fragmentCount⟩ = true := by
  have several := h.several
  have last : (s.fragmentCount - 1) * s.maxFragmentPayload < output.payload.length := h.start_lt (by omega)
  have positive := h.positive
  have counted : s.fragmentCount ≤ output.payload.length := by
    have spread : s.fragmentCount - 1 ≤ (s.fragmentCount - 1) * s.maxFragmentPayload :=
      Nat.le_mul_of_pos_right _ positive
    omega
  have some : 0 < output.payload.length := by omega
  exact decide_eq_true ⟨some,h.short,several,h.few,counted,inside⟩

/-- A segment fits the path and is accepted as a fragment. -/
theorem segment_ok {index : Nat} (inside : index < s.fragmentCount) :
    (contiguousPayload output (segmentAt output s index)).length ≤ output.pathMtu ∧
      validateTransportFragment (contiguousPayload output (segmentAt output s index)) = true := by
  obtain ⟨nonempty,small,inner⟩ := h.length_piece inside
  have size := h.size
  have length : (contiguousPayload output (segmentAt output s index)).length =
      fragmentHeaderLen + (piece output.payload s.maxFragmentPayload index).length := by
    rw [h.contiguousPayload_eq inside,length_append,length_segmentHeader]
  have magic : transportFragmentIsFragment (contiguousPayload output (segmentAt output s index)) = true := by
    rw [h.contiguousPayload_eq inside]
    refine decide_eq_true ⟨?_,?_⟩
    · rw [length_append,length_segmentHeader]
      simp only [fragmentMagic,fragmentHeaderLen,length_cons,length_nil]
      omega
    · exact take_left
  unfold validateTransportFragment
  rw [h.parse_contiguous inside]
  simp only [magic,h.valid_header inside,Bool.true_and,Bool.and_eq_true,decide_eq_true_eq]
  omega

end Segmented

end DirectFsp

end Fips.Dataplane
