import Fips.Bloom.Filter

set_option autoImplicit false

namespace Fips.Bloom

/-- The errors of encoding and decoding an announcement. -/
inductive ProtocolError where
  | messageTooShort (expected got : Nat)
  | malformed (reason : String)
  deriving Repr, DecidableEq

structure FilterAnnounce where
  filter : BloomFilter
  sequence : UInt64
  hashCount : UInt8
  sizeClass : UInt8
  deriving DecidableEq

namespace FilterAnnounce

def messageType : UInt8 := 0x20

def minPayloadSize : Nat := 10

def maxSizeClass : UInt8 := 3

def new (filter : BloomFilter) (sequence : UInt64) : FilterAnnounce :=
  ⟨filter,sequence,filter.hashCount,v1SizeClass⟩

def filterSizeBytes (a : FilterAnnounce) : Nat := 512 <<< a.sizeClass.toNat

def isValid (a : FilterAnnounce) : Bool :=
  a.filter.numBytes = a.filterSizeBytes ∧ a.filter.hashCount = a.hashCount

def isV1Compliant (a : FilterAnnounce) : Bool := a.sizeClass = v1SizeClass

def encode (a : FilterAnnounce) : Except ProtocolError (List UInt8) :=
  if !a.isValid then .error (.malformed "filter size does not match size_class")
  else .ok (messageType :: (u64ToLeBytes a.sequence ++ a.hashCount :: a.sizeClass :: a.filter.bits))

/-- The payload comes without its message type. -/
def decode (payload : List UInt8) : Except ProtocolError FilterAnnounce :=
  if payload.length < minPayloadSize then .error (.messageTooShort minPayloadSize payload.length)
  else
    let sequence := u64FromLeBytes (payload.take 8)
    let hashCount := payload.getD 8 0
    let sizeClass := payload.getD 9 0
    if sizeClass > maxSizeClass then
      .error (.malformed ("invalid size_class: " ++ toString sizeClass ++ " (max " ++
        toString maxSizeClass ++ ")"))
    else if sizeClass ≠ v1SizeClass then
      .error (.malformed
        ("unsupported size_class: " ++ toString sizeClass ++ " (v1 requires " ++ toString v1SizeClass ++ ")"))
    else
      let expectedFilterBytes := 512 <<< sizeClass.toNat
      if payload.length - minPayloadSize ≠ expectedFilterBytes then
        .error (.messageTooShort (minPayloadSize + expectedFilterBytes) payload.length)
      else
        match BloomFilter.fromBytes (payload.drop minPayloadSize) hashCount with
        | .error e => .error (.malformed ("invalid bloom filter: " ++ e.message))
        | .ok filter => .ok ⟨filter,sequence,hashCount,sizeClass⟩

theorem fromBytes_eq_ok {bytes : List UInt8} {hashCount : UInt8} {f : BloomFilter} :
    BloomFilter.fromBytes bytes hashCount = .ok f ↔ f.bits = bytes ∧ f.hashCount = hashCount := by
  constructor
  · intro h
    unfold BloomFilter.fromBytes at h
    split at h
    · cases h
    · split at h
      · cases h
      · cases h
        exact ⟨rfl,rfl⟩
  · rintro ⟨rfl,rfl⟩
    exact f.fromBytes_bits

/-- What decoding accepts: one kilobyte of bits after the header, any hash count but zero. -/
theorem decode_eq_ok {payload : List UInt8} {a : FilterAnnounce} :
    decode payload = .ok a ↔
      payload.length = minPayloadSize + 1024 ∧ a.sequence = u64FromLeBytes (payload.take 8) ∧
        a.hashCount = payload.getD 8 0 ∧ a.sizeClass = payload.getD 9 0 ∧ a.sizeClass = v1SizeClass ∧
        a.filter.bits = payload.drop minPayloadSize ∧ a.filter.hashCount = a.hashCount := by
  constructor
  · intro h
    simp only [decode] at h
    split at h
    · cases h
    split at h
    · cases h
    split at h
    · cases h
    rename_i v1
    split at h
    · cases h
    cases made : BloomFilter.fromBytes (payload.drop minPayloadSize) (payload.getD 8 0) with
    | error e =>
      rw [made] at h
      cases h
    | ok filter =>
      rw [made] at h
      cases h
      obtain ⟨bits,count⟩ := fromBytes_eq_ok.1 made
      have sizeClass : payload.getD 9 0 = v1SizeClass := not_not.1 v1
      have expected : 512 <<< (payload.getD 9 0).toNat = 1024 := by rw [sizeClass]; rfl
      exact ⟨by omega,rfl,rfl,rfl,sizeClass,bits,count⟩
  · rintro ⟨length,sequence,hashCount,sizeClass,v1,bits,count⟩
    have expected : 512 <<< (payload.getD 9 0).toNat = 1024 := by rw [← sizeClass,v1]; rfl
    have made : BloomFilter.fromBytes (payload.drop minPayloadSize) (payload.getD 8 0) = .ok a.filter :=
      fromBytes_eq_ok.2 ⟨bits,count.trans hashCount⟩
    simp only [decode]
    rw [if_neg (by omega),if_neg (by rw [← sizeClass,v1]; decide),if_neg (by rw [← sizeClass,v1]; decide),
      if_neg (by omega),made,← sequence,← hashCount,← sizeClass]

theorem decode_encode {a : FilterAnnounce} (v1 : a.isV1Compliant = true) {message : List UInt8}
    (h : a.encode = .ok message) : decode message.tail = .ok a := by
  have valid : a.isValid = true := by
    unfold encode at h
    cases valid : a.isValid with
    | true => rfl
    | false => simp [valid] at h
  simp only [encode,valid,Bool.not_true,Bool.false_eq_true,if_false,Except.ok.injEq] at h
  subst h
  simp only [isValid,isV1Compliant,decide_eq_true_eq] at valid v1
  have sequence := length_u64ToLeBytes a.sequence
  have size : a.filter.bits.length = 1024 := by
    rw [← BloomFilter.numBytes,valid.1,filterSizeBytes,v1]
    rfl
  rw [List.tail_cons,decode_eq_ok]
  refine ⟨?_,?_,?_,?_,v1,?_,valid.2⟩
  · simp [sequence,size,minPayloadSize]
  · rw [List.take_left' sequence,u64FromLeBytes_toLeBytes]
  · simp [sequence]
  · simp [List.getElem?_append_right,sequence]
  · simp [sequence,minPayloadSize,List.drop_append]

/-- The messages that are accepted are those that are sent, and an announcement has one encoding. -/
theorem decode_iff_encode (payload : List UInt8) (a : FilterAnnounce) :
    decode payload = .ok a ↔ a.isV1Compliant = true ∧ a.encode = .ok (messageType :: payload) := by
  constructor
  · intro h
    obtain ⟨length,sequence,hashCount,sizeClass,v1,bits,count⟩ := decode_eq_ok.1 h
    have valid : a.isValid = true := by
      simp [isValid,BloomFilter.numBytes,filterSizeBytes,bits,length,v1,v1SizeClass,count]
    have rest : payload.drop 8 = a.hashCount :: a.sizeClass :: a.filter.bits := by
      rw [hashCount,sizeClass,bits,List.getD_eq_getElem _ _ (by omega),List.getD_eq_getElem _ _ (by omega)]
      simp [minPayloadSize]
    refine ⟨decide_eq_true v1,?_⟩
    rw [encode,valid,sequence,u64ToLeBytes_fromLeBytes (by simp; omega),← rest,List.take_append_drop]
    rfl
  · rintro ⟨v1,h⟩
    exact decode_encode v1 h

end FilterAnnounce

end Fips.Bloom
