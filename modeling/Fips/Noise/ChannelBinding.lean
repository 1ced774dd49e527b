import Fips.Noise.TranscriptIk
import Fips.Noise.TranscriptXk

set_option autoImplicit false

/-! What the handshake hash binds when the two sides share their transport keys. -/

namespace Fips.Noise
open HandshakeState SmallGroup

section Binding
variable {SecretKey PublicKey : Type} {P : Primitives SecretKey PublicKey}
  [CommGroup SecretKey] [HasDistribNeg SecretKey]

/-- Two completed parties with the same transport keys have the same handshake hash
exactly when the parity bytes of both ephemeral keys arrived unchanged: every other byte
is bound by the keys. -/
theorem channel_binding_iff (pattern : NoisePattern) (net : Network)
    (k : Setup SecretKey PublicKey) (enc : P.EncodingLaws) (canonical : P.CanonicalLaws)
    (curve : P.CurveLaws) (injective : Function.Injective P.sha256)
    (kdf : P.HkdfLaws protocolNames) (aead : P.AeadLaws)
    {x : Exchange SecretKey PublicKey} {a b : NoiseSession PublicKey}
    (ran : handshakeRun P pattern net k = .ok x) (ideal : AeadIdeal x)
    (ha : intoSession P x.initiator = .ok a) (hb : intoSession P x.responder = .ok b)
    (keys : MatchingKeys a b) :
    a.handshakeHash = b.handshakeHash ↔ ParityKept x := by
  rw [hash_eq_of_intoSession ha,hash_eq_of_intoSession hb]
  cases pattern with
  | ik =>
    obtain ⟨t⟩ := ikRun_trace enc aead ran
    have ck := ck_eq_of_matchingKeys kdf t.initiator_role t.responder_role t.chained.1 t.chained.2 ha hb keys
    exact t.h_eq_iff enc aead curve injective kdf ck ideal canonical
  | xk =>
    obtain ⟨t⟩ := xkRun_trace enc ran
    have ck := ck_eq_of_matchingKeys kdf t.initiator_role t.responder_role t.chained.1 t.chained.2 ha hb keys
    exact t.h_eq_iff enc aead curve injective kdf ck ideal canonical

end Binding

def flipParity : Network
  | 1, first :: rest => (first ^^^ 1) :: rest
  | _, message => message

def sessions {SecretKey PublicKey : Type} (P : Primitives SecretKey PublicKey)
    (ran : Except Fault (Exchange SecretKey PublicKey)) :
    Option (NoiseSession PublicKey × NoiseSession PublicKey) :=
  match ran with
  | .error _ => none
  | .ok x =>
    match intoSession P x.initiator, intoSession P x.responder with
    | .ok a, .ok b => if AeadIdeal x then some (a,b) else none
    | _, _ => none

theorem exists_of_sessions {SecretKey PublicKey : Type} {P : Primitives SecretKey PublicKey}
    {ran : Except Fault (Exchange SecretKey PublicKey)}
    {p : NoiseSession PublicKey × NoiseSession PublicKey → Bool}
    (h : (sessions P ran).any p = true) :
    ∃ x a b, ran = .ok x ∧ AeadIdeal x ∧ intoSession P x.initiator = .ok a ∧
      intoSession P x.responder = .ok b ∧ p (a,b) = true := by
  unfold sessions at h
  cases ran with
  | error e => simp at h
  | ok x =>
    cases ha : intoSession P x.initiator with
    | error e => simp [ha] at h
    | ok a =>
      cases hb : intoSession P x.responder with
      | error e => simp [hb] at h
      | ok b =>
        by_cases ideal : AeadIdeal x
        · simp only [ha,hb,ideal] at h
          exact ⟨x,a,b,rfl,ideal,ha,hb,h⟩
        · simp [ha,hb,ideal] at h

theorem small_xk_channel_binding : ∃ x a b,
    handshakeRun primitives .xk honest smallSetup = .ok x ∧ AeadIdeal x ∧
      intoSession primitives x.initiator = .ok a ∧
      intoSession primitives x.responder = .ok b ∧ MatchingKeys a b ∧
      (a.handshakeHash = b.handshakeHash ↔ ParityKept x) := by
  have h : (sessions primitives (handshakeRun primitives .xk honest smallSetup)).any
      (fun s => decide (MatchingKeys s.1 s.2)) = true := by decide +kernel
  obtain ⟨x,a,b,ran,ideal,ha,hb,keys⟩ := exists_of_sessions h
  have keys := of_decide_eq_true keys
  exact ⟨x,a,b,ran,ideal,ha,hb,keys,channel_binding_iff .xk honest smallSetup encodingLaws
    canonicalLaws curveLaws sha256_injective (hkdfLaws _) aeadLaws ran ideal ha hb keys⟩

/-- One flipped parity byte leaves the keys alone and splits the hash. -/
theorem flipParity_splits_hash : ∃ x a b,
    handshakeRun primitives .ik flipParity smallSetup = .ok x ∧ AeadIdeal x ∧
      intoSession primitives x.initiator = .ok a ∧
      intoSession primitives x.responder = .ok b ∧
      MatchingKeys a b ∧ a.handshakeHash ≠ b.handshakeHash := by
  have h : (sessions primitives
      (handshakeRun primitives .ik flipParity smallSetup)).any
      (fun s => decide (MatchingKeys s.1 s.2 ∧ s.1.handshakeHash ≠ s.2.handshakeHash)) = true := by
    decide +kernel
  obtain ⟨x,a,b,ran,ideal,ha,hb,split⟩ := exists_of_sessions h
  obtain ⟨keys,differ⟩ := of_decide_eq_true split
  exact ⟨x,a,b,ran,ideal,ha,hb,keys,differ⟩

end Fips.Noise
