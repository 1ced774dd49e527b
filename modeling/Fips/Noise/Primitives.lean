import Mathlib

set_option autoImplicit false

/-! The third-party operations under the Noise layer, and what the development
assumes of them: secp256k1, SHA-256, HKDF and ChaCha20-Poly1305. -/

namespace Fips.Noise

abbrev Bytes := List UInt8

def maxMessageSize : Nat := 65535

def tagSize : Nat := 16

def pubkeySize : Nat := 33

def epochSize : Nat := 8

def epochEncryptedSize : Nat := epochSize + tagSize

abbrev Epoch := Vector UInt8 8

/-- The library calls the handshake makes. `sharedSecretPoint` returns the two
coordinates of the shared point, 64 bytes; `hkdf` returns the two 32-byte halves of
one 64-byte expansion with empty info. -/
structure Primitives (SecretKey PublicKey : Type) where
  publicKey : SecretKey → PublicKey
  serialize : PublicKey → Bytes
  fromSlice : Bytes → Option PublicKey
  sharedSecretPoint : PublicKey → SecretKey → Bytes
  sha256 : Bytes → Bytes
  hkdf : (salt ikm : Bytes) → Bytes × Bytes
  aeadSeal : (key : Bytes) → (counter : Nat) → (aad plaintext : Bytes) → Bytes
  aeadOpen : (key : Bytes) → (counter : Nat) → (aad ciphertext : Bytes) → Option Bytes

namespace Primitives
variable {SecretKey PublicKey : Type} (P : Primitives SecretKey PublicKey)

def sharedX (theirPublic : PublicKey) (ourSecret : SecretKey) : Bytes :=
  (P.sharedSecretPoint theirPublic ourSecret).take 32

/-- `HandshakeState::ecdh`: only the x coordinate is hashed. -/
def ecdh (ourSecret : SecretKey) (theirPublic : PublicKey) : Bytes :=
  P.sha256 (P.sharedX theirPublic ourSecret)

/-- A compressed key is 33 bytes and parses back to itself. The sign of the secret
only moves the parity byte. -/
structure EncodingLaws [Neg SecretKey] : Prop where
  serialize_length : ∀ key, (P.serialize key).length = pubkeySize
  fromSlice_serialize : ∀ key, P.fromSlice (P.serialize key) = some key
  serialize_neg_tail : ∀ a, (P.serialize (P.publicKey (-a))).tail =
    (P.serialize (P.publicKey a)).tail

/-- The x coordinate of a shared point depends neither on who computes it nor on
the parity of the public key. -/
structure EcdhLaws [Neg SecretKey] : Prop where
  comm : ∀ a b, P.sharedX (P.publicKey a) b = P.sharedX (P.publicKey b) a
  neg : ∀ a b, P.sharedX (P.publicKey (-a)) b = P.sharedX (P.publicKey a) b

structure AeadLaws : Prop where
  open_seal : ∀ key counter aad plaintext,
    P.aeadOpen key counter aad (P.aeadSeal key counter aad plaintext) = some plaintext
  seal_length : ∀ key counter aad plaintext,
    (P.aeadSeal key counter aad plaintext).length = plaintext.length + tagSize

/-- The group of secp256k1: every public key has a secret key, and shared points have
one x coordinate exactly when the products of the secrets agree up to sign. -/
structure CurveLaws [CommGroup SecretKey] [HasDistribNeg SecretKey] : Prop where
  publicKey_surjective : Function.Surjective P.publicKey
  sharedX_eq_iff : ∀ a b c d, P.sharedX (P.publicKey a) b = P.sharedX (P.publicKey c) d ↔
    a * b = c * d ∨ a * b = -(c * d)

/-- The 33-byte encoding is canonical, and its first byte tells a key from the key of
the opposite parity. -/
structure CanonicalLaws [Neg SecretKey] : Prop where
  serialize_of_fromSlice : ∀ bytes key, bytes.length = pubkeySize →
    P.fromSlice bytes = some key → P.serialize key = bytes
  parity : ∀ a, (P.serialize (P.publicKey (-a))).head? = (P.serialize (P.publicKey a)).head? →
    P.publicKey (-a) = P.publicKey a

/-- The digest of a protocol name, and every first half that HKDF makes of such a key: all of
one length, so that HMAC pads no two of them alike. -/
inductive ChainingKey (names : List Bytes) : Bytes → Prop
  | start {name : Bytes} (known : name ∈ names) : ChainingKey names (P.sha256 name)
  | mixKey {ck : Bytes} (earlier : ChainingKey names ck) (ikm : Bytes) : ChainingKey names (P.hkdf ck ikm).1

/-- HKDF is collision free on chaining keys, and never comes back to the digest of a protocol
name. -/
structure HkdfLaws (names : List Bytes) : Prop where
  fst_injective : ∀ ck ck' ikm ikm', P.ChainingKey names ck → P.ChainingKey names ck' →
    (P.hkdf ck ikm).1 = (P.hkdf ck' ikm').1 → ck = ck' ∧ ikm = ikm'
  snd_injective : ∀ ck ck' ikm ikm', P.ChainingKey names ck → P.ChainingKey names ck' →
    (P.hkdf ck ikm).2 = (P.hkdf ck' ikm').2 → ck = ck' ∧ ikm = ikm'
  fst_ne_start : ∀ name ∈ names, ∀ ck ikm, P.ChainingKey names ck → (P.hkdf ck ikm).1 ≠ P.sha256 name

variable {P}

theorem EcdhLaws.ecdh_comm [Neg SecretKey] (law : P.EcdhLaws) (a b : SecretKey) :
    P.ecdh a (P.publicKey b) = P.ecdh b (P.publicKey a) := by
  simp [ecdh,law.comm b a]

theorem EcdhLaws.ecdh_neg [Neg SecretKey] (law : P.EcdhLaws) (a b : SecretKey) :
    P.ecdh a (P.publicKey (-b)) = P.ecdh a (P.publicKey b) := by
  simp [ecdh,law.neg]

theorem CurveLaws.ecdhLaws [CommGroup SecretKey] [HasDistribNeg SecretKey]
    (law : P.CurveLaws) : P.EcdhLaws where
  comm a b := (law.sharedX_eq_iff a b b a).2 (.inl (mul_comm a b))
  neg a b := (law.sharedX_eq_iff (-a) b a b).2 (.inr (by simp))

theorem CurveLaws.ecdh_eq_iff [CommGroup SecretKey] [HasDistribNeg SecretKey]
    (law : P.CurveLaws) (injective : Function.Injective P.sha256) (a b c d : SecretKey) :
    P.ecdh b (P.publicKey a) = P.ecdh d (P.publicKey c) ↔ a * b = c * d ∨ a * b = -(c * d) := by
  rw [ecdh,ecdh,injective.eq_iff,law.sharedX_eq_iff]

end Primitives

end Fips.Noise
