import Fips.Noise.Agreement

set_option autoImplicit false

/-! An active network: the handshake hash against the bytes each side accepted. -/

-- equality up to sign in a commutative group with a distributive negation, such as the units of a ring
namespace UpToSign
variable {G : Type} [CommGroup G] [HasDistribNeg G]

def Same (a b : G) : Prop := a = b ∨ a = -b

theorem Same.refl (a : G) : Same a a := .inl rfl

theorem Same.symm {a b : G} (h : Same a b) : Same b a := by
  cases h with
  | inl eq => exact .inl eq.symm
  | inr eq => exact .inr (by simp [eq])

theorem Same.mul {a b c d : G} (h : Same a b) (h' : Same c d) : Same (a * c) (b * d) := by
  cases h with
  | inl eq =>
    cases h' with
    | inl eq' => exact .inl (by rw [eq,eq'])
    | inr eq' => exact .inr (by rw [eq,eq',mul_neg])
  | inr eq =>
    cases h' with
    | inl eq' => exact .inr (by rw [eq,eq',neg_mul])
    | inr eq' => exact .inl (by rw [eq,eq',neg_mul_neg])

theorem Same.cancel {a b c d : G} (h : Same (a * c) (b * d)) (h' : Same c d) : Same a b := by
  have inverse : Same c⁻¹ d⁻¹ := by
    cases h' with
    | inl eq => exact .inl (by rw [eq])
    | inr eq => exact .inr (by rw [eq,inv_neg])
  have product := h.mul inverse
  rwa [mul_inv_cancel_right,mul_inv_cancel_right] at product

end UpToSign

namespace Fips.Noise
open EStateM HandshakeState UpToSign List

variable {SecretKey PublicKey : Type} {P : Primitives SecretKey PublicKey}

/-- An opened ciphertext was sealed under that key, counter and associated data. -/
def Call.Justified (calls : List Call) : Call → Prop
  | .opened key counter aad ciphertext => .sealed key counter aad ciphertext ∈ calls
  | _ => True

instance (calls : List Call) : DecidablePred (Call.Justified calls)
  | .opened key counter aad ciphertext =>
      inferInstanceAs (Decidable (.sealed key counter aad ciphertext ∈ calls))
  | .sealed _ _ _ _ => isTrue trivial
  | .mixKey _ => isTrue trivial

/-- The AEAD opens only what one of the two parties has sealed. -/
def AeadIdeal (x : Exchange SecretKey PublicKey) : Prop :=
  ∀ call ∈ x.initiator.symmetric.calls ++ x.responder.symmetric.calls,
    call.Justified (x.initiator.symmetric.calls ++ x.responder.symmetric.calls)

instance (x : Exchange SecretKey PublicKey) : Decidable (AeadIdeal x) :=
  inferInstanceAs (Decidable (∀ call ∈ _, _))

/-- The first byte of messages 1 and 2, which encodes the parity of the ephemeral key
they carry, arrived as it was sent. -/
def ParityKept (x : Exchange SecretKey PublicKey) : Prop :=
  (x.delivered.take 2).map List.head? = (x.sent.take 2).map List.head?

theorem head?_append_of_size {e : Bytes} (rest : Bytes) (size : e.length = pubkeySize) :
    (e ++ rest).head? = e.head? := by
  cases e with
  | nil => simp [pubkeySize] at size
  | cons b e => rfl

section Sizes
variable {st t : HandshakeState SecretKey PublicKey} {u : Unit} {message : Bytes}

theorem size_of_guarded {role : HandshakeRole} {progress : HandshakeProgress} {size : Nat}
    {rest : Method SecretKey PublicKey Unit}
    (h : (do requireRole role; requireProgress progress; requireSize size message; rest) st = .ok u t) :
    message.length = size := by
  simp only [bind_eq_ok,requireSize_eq_ok] at h
  obtain ⟨_,_,_,_,_,_,_,_,h,_⟩ := h
  exact h.1

theorem readMessage1_split (h : readMessage1 P message st = .ok u t) :
    ∃ e c1 c2, message = e ++ c1 ++ c2 ∧ e.length = pubkeySize ∧
      c1.length = pubkeySize + tagSize ∧ c2.length = epochEncryptedSize := by
  have size : message.length = pubkeySize + pubkeySize + tagSize + epochEncryptedSize :=
    size_of_guarded h
  refine ⟨message.take pubkeySize,(message.drop pubkeySize).take (pubkeySize + tagSize),
    (message.drop pubkeySize).drop (pubkeySize + tagSize),?_,?_,?_,?_⟩
  · simp
  · rw [length_take]; omega
  · rw [length_take,length_drop]; omega
  · rw [length_drop,length_drop]; omega

theorem split_epoch_message (size : message.length = pubkeySize + epochEncryptedSize) :
    ∃ e c, message = e ++ c ∧ e.length = pubkeySize ∧ c.length = epochEncryptedSize :=
  ⟨message.take pubkeySize,message.drop pubkeySize,by simp,by rw [length_take]; omega,
    by rw [length_drop]; omega⟩

theorem readXkMessage3_split (h : readXkMessage3 P message st = .ok u t) :
    ∃ c1 c2, message = c1 ++ c2 ∧ c1.length = pubkeySize + tagSize ∧
      c2.length = epochEncryptedSize := by
  have size : message.length = pubkeySize + tagSize + epochEncryptedSize :=
    size_of_guarded (restoring_eq_ok.1 h)
  refine ⟨message.take (pubkeySize + tagSize),message.drop (pubkeySize + tagSize),?_,?_,?_⟩
  · simp
  · rw [length_take]; omega
  · rw [length_drop]; omega

end Sizes

def protocolNames : List Bytes := [protocolNameIk,protocolNameXk]

theorem ck_eq_of_matchingKeys (kdf : P.HkdfLaws protocolNames) {i r : HandshakeState SecretKey PublicKey}
    {a b : NoiseSession PublicKey} (hi : i.role = .initiator) (hr : r.role = .responder)
    (chained : P.ChainingKey protocolNames i.symmetric.ck)
    (chained' : P.ChainingKey protocolNames r.symmetric.ck) (ha : intoSession P i = .ok a)
    (hb : intoSession P r = .ok b) (keys : MatchingKeys a b) :
    i.symmetric.ck = r.symmetric.ck := by
  obtain ⟨-,_,_,_,_,rfl⟩ := intoSession_eq_ok.1 ha
  obtain ⟨-,_,_,_,_,rfl⟩ := intoSession_eq_ok.1 hb
  have first := keys.1
  simp only [hi,hr,SymmetricState.split,CipherState.new,CipherState.mk.injEq,Option.some.injEq,
    and_true] at first
  exact (kdf.fst_injective _ _ _ _ chained chained' first).1

theorem hash_eq_of_intoSession {st : HandshakeState SecretKey PublicKey} {a : NoiseSession PublicKey}
    (h : intoSession P st = .ok a) : a.handshakeHash = st.symmetric.h := by
  obtain ⟨-,_,_,_,_,rfl⟩ := intoSession_eq_ok.1 h
  rfl

theorem mix_eq_iff (injective : Function.Injective P.sha256) {h h' data data' : Bytes}
    (size : data.length = data'.length) :
    P.sha256 (h ++ data) = P.sha256 (h' ++ data') ↔ h = h' ∧ data = data' := by
  rw [injective.eq_iff]
  exact ⟨fun same => append_inj' same size,fun same => by rw [same.1,same.2]⟩

theorem static_of_opened [Neg SecretKey] (enc : P.EncodingLaws) (aead : P.AeadLaws) {key m : Bytes}
    {counter : Nat} {static rs : PublicKey}
    (opened : P.aeadOpen key counter [] (P.aeadSeal key counter [] (P.serialize static)) = some m)
    (parsed : P.fromSlice m = some rs) : rs = static := by
  rw [aead.open_seal,Option.some.injEq] at opened
  rw [← opened,enc.fromSlice_serialize,Option.some.injEq] at parsed
  exact parsed.symm

/-- The second key of a handshake is none of its later ones. -/
theorem hkdf_key_ne (kdf : P.HkdfLaws protocolNames) {name ck : Bytes} (known : name ∈ protocolNames)
    (chained : P.ChainingKey protocolNames ck) (a b c d e : Bytes) :
    (P.hkdf (P.hkdf (P.sha256 name) a).1 b).2 ≠ (P.hkdf (P.hkdf (P.hkdf ck c).1 d).1 e).2 := by
  intro same
  have start := Primitives.ChainingKey.start (P := P) known
  obtain ⟨same,-⟩ := kdf.snd_injective _ _ _ _ (start.mixKey a) ((chained.mixKey c).mixKey d) same
  obtain ⟨same,-⟩ := kdf.fst_injective _ _ _ _ start (chained.mixKey c) same
  exact kdf.fst_ne_start name known ck c chained same.symm

variable (P) in
def premessage (name : Bytes) (responderStatic : PublicKey) : SymmetricState :=
  (SymmetricState.initializeWith P name).mixHash P (normalizeForPremessage P responderStatic)

section Curve
variable [CommGroup SecretKey] [HasDistribNeg SecretKey]

theorem encoding_eq_iff_head (canonical : P.CanonicalLaws) {bytes : Bytes}
    {a b : SecretKey} (size : bytes.length = pubkeySize)
    (parsed : P.fromSlice bytes = some (P.publicKey a)) (same : Same a b) :
    P.serialize (P.publicKey b) = bytes ↔ (P.serialize (P.publicKey b)).head? = bytes.head? := by
  have bytes_eq := canonical.serialize_of_fromSlice bytes _ size parsed
  constructor
  · intro h
    rw [h]
  · intro h
    cases same with
    | inl eq => rw [← eq,bytes_eq]
    | inr eq =>
      subst eq
      rw [← bytes_eq] at h
      rw [← bytes_eq,canonical.parity b h.symm]

theorem premessage_h_same (enc : P.EncodingLaws) (name : Bytes) {a b : SecretKey} (same : Same a b) :
    (premessage P name (P.publicKey a)).h = (premessage P name (P.publicKey b)).h := by
  cases same with
  | inl eq => rw [eq]
  | inr eq => simp [premessage,normalizeForPremessage,eq,enc.serialize_neg_tail]

theorem ecdh_same_remote (curve : P.CurveLaws) (injective : Function.Injective P.sha256) {a b c d : SecretKey}
    (h : P.ecdh a (P.publicKey b) = P.ecdh c (P.publicKey d)) (same : Same a d) : Same b c := by
  have product : Same (b * a) (d * c) := (curve.ecdh_eq_iff injective b a d c).1 h
  rw [mul_comm d] at product
  exact product.cancel same

theorem ecdh_same_secret (curve : P.CurveLaws) (injective : Function.Injective P.sha256) {a b c d : SecretKey}
    (h : P.ecdh a (P.publicKey b) = P.ecdh c (P.publicKey d)) (same : Same b c) : Same a d := by
  have product : Same (b * a) (d * c) := (curve.ecdh_eq_iff injective b a d c).1 h
  rw [mul_comm b] at product
  exact product.cancel same

/-- The public keys a completed run has used are the right ones up to parity. -/
structure KeysSame (k : Setup SecretKey PublicKey) (r a b : SecretKey) : Prop where
  static : Same r k.responderStatic
  initiator : Same a k.initiatorEphemeral
  responder : Same b k.responderEphemeral

/-- Up to parity the two encodings that arrived are those that were sent. -/
theorem KeysSame.parityKept_iff (enc : P.EncodingLaws) (canonical : P.CanonicalLaws)
    {k : Setup SecretKey PublicKey} {x : Exchange SecretKey PublicKey} {r a b : SecretKey}
    (same : KeysSame k r a b) {e1 e2 c1 c2 c1' c2' : Bytes} {rest rest' : List Bytes}
    (sent : x.sent = (P.serialize (P.publicKey k.initiatorEphemeral) ++ c1) ::
      (P.serialize (P.publicKey k.responderEphemeral) ++ c2) :: rest)
    (delivered : x.delivered = (e1 ++ c1') :: (e2 ++ c2') :: rest') (h1 : e1.length = pubkeySize)
    (h2 : e2.length = pubkeySize) (parsed1 : P.fromSlice e1 = some (P.publicKey a))
    (parsed2 : P.fromSlice e2 = some (P.publicKey b)) :
    ParityKept x ↔ P.serialize (P.publicKey k.initiatorEphemeral) = e1 ∧
      e2 = P.serialize (P.publicKey k.responderEphemeral) := by
  rw [encoding_eq_iff_head canonical h1 parsed1 same.initiator,eq_comm (a := e2),
    encoding_eq_iff_head canonical h2 parsed2 same.responder]
  simp [ParityKept,sent,delivered,head?_append_of_size,enc.serialize_length,h1,h2,eq_comm,-List.head?_append]

end Curve

end Fips.Noise
