import Fips.Basic
import Fips.Lib.EState
import Fips.Noise.Primitives

set_option autoImplicit false

namespace Fips.Noise

inductive NoiseError where
  | handshakeNotComplete
  | wrongState (expected got : String)
  | invalidPublicKey
  | decryptionFailed
  | messageTooLarge (size max : Nat)
  | messageTooShort (expected got : Nat)
  | nonceOverflow
  deriving Repr, DecidableEq

/-- A method returns an error or panics in an `expect`. -/
inductive Fault where
  | error (e : NoiseError)
  | panic (message : String)
  deriving Repr, DecidableEq

/-- `cipher` is present exactly when `has_key` is set. -/
structure CipherState where
  key : Option Bytes
  nonce : Nat
  deriving Repr, DecidableEq

namespace CipherState

def new (key : Bytes) : CipherState := ⟨some key,0⟩

def empty : CipherState := ⟨none,0⟩

def initializeKey (_ : CipherState) (key : Bytes) : CipherState := ⟨some key,0⟩

def advanceNonce : EStateM Fault CipherState Nat := fun c =>
  if c.nonce = u64Max then .error (.error .nonceOverflow) c
  else .ok c.nonce { c with nonce := c.nonce + 1 }

variable {SecretKey PublicKey : Type} (P : Primitives SecretKey PublicKey)

def encrypt (plaintext : Bytes) : EStateM Fault CipherState Bytes := fun c =>
  match c.key with
  | none => .ok plaintext c
  | some key =>
    if maxMessageSize - tagSize < plaintext.length then
      .error (.error (.messageTooLarge plaintext.length (maxMessageSize - tagSize))) c
    else match advanceNonce c with
      | .error e c => .error e c
      | .ok counter c => .ok (P.aeadSeal key counter [] plaintext) c

def decrypt (ciphertext : Bytes) : EStateM Fault CipherState Bytes := fun c =>
  match c.key with
  | none => .ok ciphertext c
  | some key =>
    if ciphertext.length < tagSize then
      .error (.error (.messageTooShort tagSize ciphertext.length)) c
    else match advanceNonce c with
      | .error e c => .error e c
      | .ok counter c =>
        match P.aeadOpen key counter [] ciphertext with
        | none => .error (.error .decryptionFailed) c
        | some plaintext => .ok plaintext c

end CipherState

/-- A call of the key schedule or of the AEAD, with the ciphertext sealed or opened. -/
inductive Call where
  | mixKey (ikm : Bytes)
  | sealed (key : Bytes) (counter : Nat) (aad ciphertext : Bytes)
  | opened (key : Bytes) (counter : Nat) (aad ciphertext : Bytes)
  deriving Repr, DecidableEq

/-- `calls` is not a field of the source: it lists the calls made so far, so that
statements about them can be made. No operation reads it. -/
structure SymmetricState where
  ck : Bytes
  h : Bytes
  cipher : CipherState
  calls : List Call
  deriving Repr, DecidableEq

namespace SymmetricState
variable {SecretKey PublicKey : Type} (P : Primitives SecretKey PublicKey)

/-- `initialize`: a name of at most 32 bytes is padded, a longer one is hashed. -/
def initializeWith (protocolName : Bytes) : SymmetricState :=
  let h := if protocolName.length ≤ 32
    then protocolName ++ List.replicate (32 - protocolName.length) 0
    else P.sha256 protocolName
  ⟨h,h,.empty,[]⟩

section Operations

variable (s : SymmetricState)

def mixHash (data : Bytes) : SymmetricState :=
  { s with h := P.sha256 (s.h ++ data) }

def mixKey (ikm : Bytes) : SymmetricState :=
  let output := P.hkdf s.ck ikm
  { s with
    ck := output.1
    cipher := s.cipher.initializeKey output.2
    calls := s.calls ++ [.mixKey ikm] }

def encryptAndHash (plaintext : Bytes) : EStateM Fault SymmetricState Bytes := fun s =>
  match s.cipher.encrypt P plaintext with
  | .error e cipher => .error e { s with cipher := cipher }
  | .ok ciphertext cipher =>
    let calls := match s.cipher.key with
      | none => s.calls
      | some key => s.calls ++ [.sealed key s.cipher.nonce [] ciphertext]
    .ok ciphertext (mixHash P { s with cipher := cipher, calls := calls } ciphertext)

def decryptAndHash (ciphertext : Bytes) : EStateM Fault SymmetricState Bytes := fun s =>
  match s.cipher.decrypt P ciphertext with
  | .error e cipher => .error e { s with cipher := cipher }
  | .ok plaintext cipher =>
    let calls := match s.cipher.key with
      | none => s.calls
      | some key => s.calls ++ [.opened key s.cipher.nonce [] ciphertext]
    .ok plaintext (mixHash P { s with cipher := cipher, calls := calls } ciphertext)

def split : CipherState × CipherState :=
  let output := P.hkdf s.ck []
  (.new output.1,.new output.2)

def handshakeHash : Bytes := s.h

def key : Bytes := s.cipher.key.getD []

end Operations

/-- The state after a keyed cipher has sealed or opened a ciphertext. -/
def afterAead (mark : Bytes → Nat → Bytes → Bytes → Call) (s : SymmetricState)
    (ciphertext : Bytes) : SymmetricState :=
  mixHash P { s with
    cipher := { s.cipher with nonce := s.cipher.nonce + 1 }
    calls := s.calls ++ [mark s.key s.cipher.nonce [] ciphertext] } ciphertext

structure Keyed (s : SymmetricState) : Prop where
  hasKey : s.cipher.key.isSome
  room : s.cipher.nonce < u64Max

variable {P}

section Mixing

variable (s : SymmetricState)
include s

@[simp] theorem mixHash_h (data : Bytes) : (mixHash P s data).h = P.sha256 (s.h ++ data) := rfl

@[simp] theorem mixHash_ck (data : Bytes) : (mixHash P s data).ck = s.ck := rfl

@[simp] theorem mixHash_cipher (data : Bytes) : (mixHash P s data).cipher = s.cipher := rfl

@[simp] theorem mixHash_calls (data : Bytes) : (mixHash P s data).calls = s.calls := rfl

@[simp] theorem mixKey_h (ikm : Bytes) : (mixKey P s ikm).h = s.h := rfl

@[simp] theorem mixKey_ck (ikm : Bytes) : (mixKey P s ikm).ck = (P.hkdf s.ck ikm).1 := rfl

@[simp] theorem mixKey_cipher (ikm : Bytes) : (mixKey P s ikm).cipher = ⟨some (P.hkdf s.ck ikm).2,0⟩ := rfl

@[simp] theorem mixKey_calls (ikm : Bytes) : (mixKey P s ikm).calls = s.calls ++ [.mixKey ikm] := rfl

@[simp] theorem key_mixKey (ikm : Bytes) : (mixKey P s ikm).key = (P.hkdf s.ck ikm).2 := rfl

end Mixing

section Aead

variable (mark : Bytes → Nat → Bytes → Bytes → Call)
include mark

variable (s : SymmetricState)
variable (ciphertext : Bytes)

@[simp] theorem afterAead_ck : (afterAead P mark s ciphertext).ck = s.ck := rfl

@[simp] theorem afterAead_h :
    (afterAead P mark s ciphertext).h = P.sha256 (s.h ++ ciphertext) := rfl

@[simp] theorem afterAead_key :
    (afterAead P mark s ciphertext).key = s.key := rfl

@[simp] theorem afterAead_nonce :
    (afterAead P mark s ciphertext).cipher.nonce = s.cipher.nonce + 1 := rfl

@[simp] theorem afterAead_calls :
    (afterAead P mark s ciphertext).calls = s.calls ++ [mark s.key s.cipher.nonce [] ciphertext] := rfl

end Aead

@[simp] theorem keyed_mixKey (s : SymmetricState) (ikm : Bytes) : Keyed (mixKey P s ikm) :=
  ⟨rfl,by simp [u64Max]⟩

theorem keyed_afterAead {s : SymmetricState} {ikm ciphertext : Bytes}
    {mark : Bytes → Nat → Bytes → Bytes → Call} : Keyed (afterAead P mark (mixKey P s ikm) ciphertext) :=
  ⟨rfl,by simp [u64Max]⟩

@[simp] theorem Keyed.encryptAndHash_eq_ok {s t : SymmetricState} {plaintext ciphertext : Bytes}
    (keyed : Keyed s) (fits : plaintext.length ≤ maxMessageSize - tagSize) :
    encryptAndHash P plaintext s = .ok ciphertext t ↔
      ciphertext = P.aeadSeal s.key s.cipher.nonce [] plaintext ∧
        t = afterAead P .sealed s ciphertext := by
  obtain ⟨hasKey,room⟩ := keyed
  obtain ⟨key,present⟩ := Option.isSome_iff_exists.1 hasKey
  have small : ¬ maxMessageSize - tagSize < plaintext.length := by omega
  have left : s.cipher.nonce ≠ u64Max := by omega
  simp only [encryptAndHash,CipherState.encrypt,CipherState.advanceNonce,present,small,if_false,left,
    SymmetricState.key,SymmetricState.afterAead,EStateM.Result.ok.injEq]
  constructor
  · intro h
    obtain ⟨rfl,rfl⟩ := h
    exact ⟨rfl,rfl⟩
  · intro h
    obtain ⟨rfl,rfl⟩ := h
    exact ⟨rfl,rfl⟩

@[simp] theorem Keyed.decryptAndHash_eq_ok {s t : SymmetricState} {plaintext ciphertext : Bytes}
    (keyed : Keyed s) :
    decryptAndHash P ciphertext s = .ok plaintext t ↔
      tagSize ≤ ciphertext.length ∧
        P.aeadOpen s.key s.cipher.nonce [] ciphertext = some plaintext ∧
        t = afterAead P .opened s ciphertext := by
  obtain ⟨hasKey,room⟩ := keyed
  obtain ⟨key,present⟩ := Option.isSome_iff_exists.1 hasKey
  have left : s.cipher.nonce ≠ u64Max := by omega
  simp only [decryptAndHash,CipherState.decrypt,CipherState.advanceNonce,present,if_false,left,
    SymmetricState.key,SymmetricState.afterAead,Option.getD_some]
  by_cases short : ciphertext.length < tagSize
  · simp [short]
  · cases opened : P.aeadOpen key s.cipher.nonce [] ciphertext with
    | none => simp [short]
    | some m => simp [short,Nat.not_lt.1 short,eq_comm]

end SymmetricState

end Fips.Noise
