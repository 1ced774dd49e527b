import Fips.Basic
import Fips.Lib.PackedBits

set_option autoImplicit false

namespace Fips.Bloom

def defaultFilterSizeBits : Nat := 8192

def defaultHashCount : UInt8 := 5

def v1SizeClass : UInt8 := 1

inductive BloomError where
  | invalidSize (expected got : Nat)
  | sizeNotByteAligned (numBits : Nat)
  | zeroHashCount
  deriving Repr, DecidableEq

def BloomError.message : BloomError → String
  | .invalidSize expected got => "invalid filter size: expected " ++ toString expected ++
      " bits, got " ++ toString got
  | .sizeNotByteAligned numBits => "filter size must be a multiple of 8, got " ++ toString numBits
  | .zeroHashCount => "hash count must be positive"

structure BloomFilter where
  bits : List UInt8
  numBits : Nat
  hashCount : UInt8
  numBits_eq : numBits = 8 * bits.length
  numBits_pos : 0 < numBits
  hashCount_ne : hashCount ≠ 0
  deriving DecidableEq

namespace BloomFilter

def withParams (numBits : Nat) (hashCount : UInt8) : Except BloomError BloomFilter :=
  if aligned : numBits = 0 ∨ numBits % 8 ≠ 0 then .error (.sizeNotByteAligned numBits)
  else if zero : hashCount = 0 then .error .zeroHashCount
  else .ok ⟨List.replicate (numBits / 8) 0,numBits,hashCount,by simp; omega,by omega,zero⟩

/-- The unwrapped result of `withParams`, see `withParams_default`. -/
def new : BloomFilter :=
  ⟨List.replicate (defaultFilterSizeBits / 8) 0,defaultFilterSizeBits,defaultHashCount,by
    rw [List.length_replicate]; rfl,by decide,by decide⟩

def fromBytes (bytes : List UInt8) (hashCount : UInt8) : Except BloomError BloomFilter :=
  if zero : hashCount = 0 then .error .zeroHashCount
  else if empty : bytes = [] then .error (.sizeNotByteAligned 0)
  else .ok ⟨bytes,8 * bytes.length,hashCount,rfl,by have := List.length_pos_iff.2 empty; omega,zero⟩

section Bits

variable (f : BloomFilter)

def numBytes : Nat := f.bits.length

def getBit (index : Nat) : Bool := PackedBits.bitAt f.bits index

def setBit (index : Nat) : BloomFilter :=
  { f with bits := PackedBits.setBit f.bits index, numBits_eq := by simpa using f.numBits_eq }

def countOnes : Nat :=
  (f.bits.map fun byte => (List.range 8).countP (PackedBits.bit byte)).sum

/-- Double hashing, index `k` -/
def hashFromPair (pair : UInt64 × UInt64) (k : UInt8) : Nat :=
  (pair.1 + k.toUInt64 * pair.2).toNat % f.numBits

def probes (pair : UInt64 × UInt64) : List Nat :=
  (List.range f.hashCount.toNat).map fun i => f.hashFromPair pair i.toUInt8

/-- The loop of `insert`; the indices depend on the parameters alone. -/
def insertHashPair (pair : UInt64 × UInt64) : BloomFilter := (f.probes pair).foldl setBit f

def containsHashPair (pair : UInt64 × UInt64) : Bool := (f.probes pair).all f.getBit

end Bits

/-- Bitwise or; an error leaves the filter as it was. -/
def merge (f other : BloomFilter) : Except BloomError BloomFilter :=
  if size : f.numBits ≠ other.numBits then .error (.invalidSize f.numBits other.numBits)
  else .ok { f with
    bits := List.zipWith (· ||| ·) f.bits other.bits
    numBits_eq := by
      have left := f.numBits_eq
      have right := other.numBits_eq
      simp
      omega }

section Hashing
-- SHA-256, of which the first sixteen bytes are used
variable (sha256 : List UInt8 → List UInt8)

def hashPair (data : List UInt8) : UInt64 × UInt64 :=
  let hash := sha256 data
  (u64FromLeBytes (hash.take 8),u64FromLeBytes ((hash.drop 8).take 8))

def insert (f : BloomFilter) (a : NodeAddr) : BloomFilter := f.insertHashPair (hashPair sha256 a.asBytes)

def contains (f : BloomFilter) (a : NodeAddr) : Bool := f.containsHashPair (hashPair sha256 a.asBytes)

end Hashing

theorem withParams_default : withParams defaultFilterSizeBits defaultHashCount = .ok new := by
  rfl

theorem length_bits_eq_iff (f g : BloomFilter) : f.bits.length = g.bits.length ↔ f.numBits = g.numBits := by
  rw [f.numBits_eq,g.numBits_eq]
  omega

theorem getBit_new (index : Nat) : new.getBit index = false := PackedBits.bitAt_replicate _ _

variable (f : BloomFilter)

section Pairs

variable (pair : UInt64 × UInt64)

theorem hashFromPair_lt (k : UInt8) :
    f.hashFromPair pair k < f.numBits := Nat.mod_lt _ f.numBits_pos

theorem lt_of_mem_probes {f : BloomFilter} {pair : UInt64 × UInt64} {index : Nat}
    (h : index ∈ f.probes pair) :
    index < f.numBits := by
  obtain ⟨i,-,rfl⟩ := List.mem_map.1 h
  exact f.hashFromPair_lt pair _

theorem ext_getBit {f g : BloomFilter} (size : f.numBits = g.numBits) (count : f.hashCount = g.hashCount)
    (bits : ∀ index, f.getBit index = g.getBit index) : f = g := by
  obtain ⟨fBits,fNum,fCount,fEq,fPos,fNe⟩ := f
  obtain ⟨gBits,gNum,gCount,gEq,gPos,gNe⟩ := g
  simp only at size count
  subst size count
  have same : fBits = gBits := PackedBits.ext (by omega) bits
  subst same
  rfl

theorem getBit_setBit {index : Nat} (stored : index < f.numBits) (tested : Nat) :
    (f.setBit index).getBit tested = (f.getBit tested || decide (tested = index)) :=
  PackedBits.bitAt_setBit (f.numBits_eq ▸ stored) tested

theorem foldl_setBit (indices : List Nat) (f : BloomFilter) (stored : ∀ index ∈ indices, index < f.numBits) :
    (indices.foldl setBit f).numBits = f.numBits ∧ (indices.foldl setBit f).hashCount = f.hashCount ∧
      ∀ tested, (indices.foldl setBit f).getBit tested = (f.getBit tested || decide (tested ∈ indices)) := by
  induction indices generalizing f with
  | nil => simp
  | cons index indices ih =>
    obtain ⟨size,count,bits⟩ := ih (f.setBit index) (fun i mem => stored i (List.mem_cons_of_mem _ mem))
    refine ⟨size,count,?_⟩
    intro tested
    rw [List.foldl_cons,bits,getBit_setBit f (stored index List.mem_cons_self)]
    simp [Bool.or_assoc]

@[simp] theorem numBits_insertHashPair :
    (f.insertHashPair pair).numBits = f.numBits := (foldl_setBit _ f fun _ => lt_of_mem_probes).1

@[simp] theorem hashCount_insertHashPair :
    (f.insertHashPair pair).hashCount = f.hashCount := (foldl_setBit _ f fun _ => lt_of_mem_probes).2.1

theorem getBit_insertHashPair (tested : Nat) :
    (f.insertHashPair pair).getBit tested = (f.getBit tested || decide (tested ∈ f.probes pair)) :=
  (foldl_setBit _ f fun _ => lt_of_mem_probes).2.2 tested

theorem containsHashPair_iff :
    f.containsHashPair pair = true ↔
      ∀ i < f.hashCount.toNat, f.getBit (f.hashFromPair pair i.toUInt8) = true := by
  simp [containsHashPair,probes]

end Pairs

/-- What merging leaves: the union if the sizes agree, otherwise the filter itself. -/
def mergeOrSkip (f other : BloomFilter) : BloomFilter := (f.merge other).toOption.getD f

@[simp] theorem numBits_mergeOrSkip (f other : BloomFilter) : (f.mergeOrSkip other).numBits = f.numBits := by
  unfold mergeOrSkip merge
  split <;> rfl

@[simp] theorem hashCount_mergeOrSkip (f other : BloomFilter) :
    (f.mergeOrSkip other).hashCount = f.hashCount := by
  unfold mergeOrSkip merge
  split <;> rfl

theorem getBit_mergeOrSkip (f other : BloomFilter) (index : Nat) :
    (f.mergeOrSkip other).getBit index =
      (f.getBit index || (decide (other.numBits = f.numBits) && other.getBit index)) := by
  unfold mergeOrSkip merge
  by_cases size : f.numBits = other.numBits
  · have length := (f.length_bits_eq_iff other).2 size
    simp only [size,ne_eq,not_true_eq_false,dite_false,Except.toOption,Option.getD_some,
      decide_true,Bool.true_and]
    exact PackedBits.bitAt_zipWith _ _ rfl (fun a b _ low => PackedBits.bit_or a b low) length index
  · simp [size,Ne.symm size,Except.toOption]

theorem bits_hashCount_inj (f g : BloomFilter) : f.bits = g.bits ∧ f.hashCount = g.hashCount ↔ f = g := by
  constructor
  · rintro ⟨bits,count⟩
    apply ext_getBit _ count
    · simp [getBit,bits]
    · rw [f.numBits_eq,g.numBits_eq,bits]
  · rintro rfl
    exact ⟨rfl,rfl⟩

theorem fromBytes_bits : fromBytes f.bits f.hashCount = .ok f := by
  have nonempty : f.bits ≠ [] := by
    intro empty
    have positive := f.numBits_pos
    rw [f.numBits_eq,empty] at positive
    simp at positive
  obtain ⟨bits,numBits,hashCount,rfl,positive,ne⟩ := f
  simp [fromBytes,ne,nonempty]

end BloomFilter

end Fips.Bloom
