import Fips.Noise.Exchange
import Fips.Noise.SmallGroup

set_option autoImplicit false

/-! Honest delivery: both parties complete with one chaining key and one hash. -/

namespace Fips.Noise
open EStateM HandshakeState SmallGroup

variable {SecretKey PublicKey : Type} (P : Primitives SecretKey PublicKey)

def dhInputs (s : SymmetricState) : List Bytes :=
  s.calls.filterMap fun
    | .mixKey ikm => some ikm
    | _ => none

/-- The initiator knows the responder's static key, perhaps with the wrong parity. -/
def KnowsResponder [Neg SecretKey] (k : Setup SecretKey PublicKey) : Prop :=
  k.remoteStatic = P.publicKey k.responderStatic ∨ k.remoteStatic = P.publicKey (-k.responderStatic)

/-- Both parties are complete, agree on the symmetric state and have mixed `inputs`. -/
structure Completed (k : Setup SecretKey PublicKey) (inputs : List Bytes)
    (x : Exchange SecretKey PublicKey) : Prop where
  initiator_role : x.initiator.role = .initiator
  responder_role : x.responder.role = .responder
  initiator_complete : x.initiator.progress = .complete
  responder_complete : x.responder.progress = .complete
  ck_eq : x.initiator.symmetric.ck = x.responder.symmetric.ck
  h_eq : x.initiator.symmetric.h = x.responder.symmetric.h
  initiator_remoteStatic : x.initiator.remoteStatic = some k.remoteStatic
  responder_remoteStatic : x.responder.remoteStatic = some (P.publicKey k.initiatorStatic)
  initiator_remoteEpoch : x.initiator.remoteEpoch = some k.responderEpoch
  responder_remoteEpoch : x.responder.remoteEpoch = some k.initiatorEpoch
  initiator_inputs : dhInputs x.initiator.symmetric = inputs
  responder_inputs : dhInputs x.responder.symmetric = inputs

/-- What the two sessions of one handshake have in common, and what each knows of the
other party. -/
structure Agreement [Neg SecretKey] (k : Setup SecretKey PublicKey)
    (initiator responder : NoiseSession PublicKey) : Prop where
  handshakeHash_eq : initiator.handshakeHash = responder.handshakeHash
  matchingKeys : MatchingKeys initiator responder
  halves : ∃ ck, initiator.sendCipher.key = some (P.hkdf ck []).1 ∧
    initiator.recvCipher.key = some (P.hkdf ck []).2
  initiator_remoteStatic : initiator.remoteStatic = P.publicKey k.responderStatic ∨
    initiator.remoteStatic = P.publicKey (-k.responderStatic)
  responder_remoteStatic : responder.remoteStatic = P.publicKey k.initiatorStatic
  initiator_remoteEpoch : initiator.remoteEpoch = k.responderEpoch
  responder_remoteEpoch : responder.remoteEpoch = k.initiatorEpoch

variable {P}

theorem epochOfBytes_toList (epoch : Epoch) : epochOfBytes epoch.toList = some epoch := by
  simp [epochOfBytes,Vector.toList]

/-- Two symmetric states that differ at most in which ciphertexts were sealed. -/
structure InStep (s t : SymmetricState) : Prop where
  ck : s.ck = t.ck
  h : s.h = t.h
  cipher : s.cipher = t.cipher
  inputs : dhInputs s = dhInputs t

@[simp] theorem dhInputs_mixKey (s : SymmetricState) (ikm : Bytes) :
    dhInputs (s.mixKey P ikm) = dhInputs s ++ [ikm] := by
  simp [dhInputs]

@[simp] theorem dhInputs_sealed (s : SymmetricState) (c : Bytes) :
    dhInputs (s.afterAead P .sealed c) = dhInputs s := by
  simp [dhInputs]

@[simp] theorem dhInputs_opened (s : SymmetricState) (c : Bytes) :
    dhInputs (s.afterAead P .opened c) = dhInputs s := by
  simp [dhInputs]

variable {s t : SymmetricState}

section Steps

variable (sync : InStep s t)
include sync

theorem InStep.mixHash (data : Bytes) : InStep (s.mixHash P data) (t.mixHash P data) :=
  ⟨sync.ck,by simp [sync.h],sync.cipher,sync.inputs⟩

theorem InStep.mixKey {ikm ikm' : Bytes} (same : ikm = ikm') : InStep (s.mixKey P ikm) (t.mixKey P ikm') :=
  ⟨by simp [sync.ck,same],sync.h,by simp [sync.ck,same],by simp [sync.inputs,same]⟩

theorem InStep.delivered (c : Bytes) : InStep (s.afterAead P .sealed c) (t.afterAead P .opened c) :=
  ⟨sync.ck,by simp [sync.h],by simp [SymmetricState.afterAead,sync.cipher],by simp [sync.inputs]⟩

theorem InStep.symm : InStep t s :=
  ⟨sync.ck.symm,sync.h.symm,sync.cipher.symm,sync.inputs.symm⟩

theorem InStep.open_seal (aead : P.AeadLaws) {counter : Nat} {m : Bytes} :
    P.aeadOpen t.key counter [] (P.aeadSeal s.key counter [] m) = some m := by
  rw [SymmetricState.key,SymmetricState.key,sync.cipher,aead.open_seal]

variable {es es' ss ss' ee ee' se se' : Bytes}

theorem InStep.ikStatic (e : Bytes) (same : es = es') : InStep (ikStatic P s e es) (ikStatic P t e es') :=
  (sync.mixHash e).mixKey same

theorem InStep.ikEpoch1 (e : Bytes) (sameEs : es = es') (c : Bytes) (sameSs : ss = ss') :
    InStep (ikEpoch1 P .sealed s e es c ss) (ikEpoch1 P .opened t e es' c ss') :=
  ((sync.ikStatic e sameEs).delivered c).mixKey sameSs

theorem InStep.ikEpoch2 (e : Bytes) (sameEe : ee = ee') (sameSe : se = se') :
    InStep (ikEpoch2 P s e ee se) (ikEpoch2 P t e ee' se') :=
  ((sync.mixHash e).mixKey sameEe).mixKey sameSe

theorem InStep.xkEpoch3 (c : Bytes) (same : se = se') :
    InStep (xkEpoch3 P .sealed s c se) (xkEpoch3 P .opened t c se') :=
  (sync.delivered c).mixKey same

end Steps

theorem sealed_static_length [Neg SecretKey] (enc : P.EncodingLaws) (aead : P.AeadLaws) (key : Bytes)
    (counter : Nat) (pubkey : PublicKey) :
    (P.aeadSeal key counter [] (P.serialize pubkey)).length = pubkeySize + tagSize := by
  rw [aead.seal_length,enc.serialize_length]

theorem sealed_epoch_length (aead : P.AeadLaws) (key : Bytes) (counter : Nat) (epoch : Epoch) :
    (P.aeadSeal key counter [] epoch.toList).length = epochEncryptedSize := by
  rw [aead.seal_length]
  simp [epochEncryptedSize,epochSize]

section Honest
variable [Neg SecretKey] {k : Setup SecretKey PublicKey}

theorem KnowsResponder.ecdh_eq (known : KnowsResponder P k) (dh : P.EcdhLaws) (a : SecretKey) :
    P.ecdh a k.remoteStatic = P.ecdh k.responderStatic (P.publicKey a) := by
  cases known with
  | inl same => rw [same,dh.ecdh_comm]
  | inr opposite => rw [opposite,dh.ecdh_neg,dh.ecdh_comm]

theorem KnowsResponder.normalize_eq (known : KnowsResponder P k) (enc : P.EncodingLaws) :
    normalizeForPremessage P k.remoteStatic =
      normalizeForPremessage P (P.publicKey k.responderStatic) := by
  cases known with
  | inl same => rw [same]
  | inr opposite => rw [opposite,normalizeForPremessage,enc.serialize_neg_tail,normalizeForPremessage]

theorem premessage_inStep (known : KnowsResponder P k) (enc : P.EncodingLaws) (name : Bytes) :
    InStep ((SymmetricState.initializeWith P name).mixHash P (normalizeForPremessage P k.remoteStatic))
      ((SymmetricState.initializeWith P name).mixHash P
        (normalizeForPremessage P (P.publicKey k.responderStatic))) := by
  rw [known.normalize_eq enc]
  exact ⟨rfl,rfl,rfl,rfl⟩

theorem ikRun_completed (enc : P.EncodingLaws) (dh : P.EcdhLaws) (aead : P.AeadLaws)
    (known : KnowsResponder P k) :
    ∃ x, ikRun P honest k = .ok x ∧ Completed P k
      [P.ecdh k.responderStatic (P.publicKey k.initiatorEphemeral),
       P.ecdh k.responderStatic (P.publicKey k.initiatorStatic),
       P.ecdh k.responderEphemeral (P.publicKey k.initiatorEphemeral),
       P.ecdh k.responderStatic (P.publicKey k.initiatorEphemeral)] x := by
  have es := known.ecdh_eq dh k.initiatorEphemeral
  have ss := known.ecdh_eq dh k.initiatorStatic
  have ee := dh.ecdh_comm k.responderEphemeral k.initiatorEphemeral
  have start := premessage_inStep known enc protocolNameIk
  have inStatic := start.ikStatic (P := P) (P.serialize (P.publicKey k.initiatorEphemeral)) es
  have inEpoch1 (c : Bytes) :=
    start.ikEpoch1 (P := P) (P.serialize (P.publicKey k.initiatorEphemeral)) es c ss
  have inEpoch2 (c c' : Bytes) := ((inEpoch1 c).delivered (P := P) c').symm.ikEpoch2 (P := P)
    (P.serialize (P.publicKey k.responderEphemeral)) ee es.symm
  have sync (c c' c'' : Bytes) := (inEpoch2 c c').delivered (P := P) c''
  refine ⟨_,ikRun_eq_ok.2 ⟨_,_,(writeMessage1_eq_ok enc).2 ⟨rfl,rfl,_,rfl,_,rfl,_,rfl,_,rfl,rfl,rfl⟩,_,
    (readMessage1_eq_ok (enc.serialize_length _) (sealed_static_length enc aead _ _ _)
      (sealed_epoch_length aead _ _ _)).2
      ⟨rfl,rfl,_,enc.fromSlice_serialize _,_,_,inStatic.open_seal aead,enc.fromSlice_serialize _,_,
        (inEpoch1 _).open_seal aead,_,epochOfBytes_toList _,rfl⟩,
    _,_,writeMessage2_eq_ok.2 ⟨rfl,rfl,_,rfl,_,rfl,_,rfl,rfl,rfl⟩,_,
    (readMessage2_eq_ok (enc.serialize_length _) (sealed_epoch_length aead _ _ _)).2
      ⟨rfl,rfl,_,enc.fromSlice_serialize _,_,rfl,_,rfl,_,(inEpoch2 _ _).open_seal aead,_,
        epochOfBytes_toList _,rfl⟩,rfl⟩,?_⟩
  exact ⟨rfl,rfl,rfl,rfl,(sync _ _ _).ck.symm,(sync _ _ _).h.symm,rfl,rfl,rfl,rfl,
    (sync _ _ _).inputs.symm.trans (by simp; rfl),by simp; rfl⟩

theorem xkRun_completed (enc : P.EncodingLaws) (dh : P.EcdhLaws) (aead : P.AeadLaws)
    (known : KnowsResponder P k) :
    ∃ x, xkRun P honest k = .ok x ∧ Completed P k
      [P.ecdh k.responderStatic (P.publicKey k.initiatorEphemeral),
       P.ecdh k.responderEphemeral (P.publicKey k.initiatorEphemeral),
       P.ecdh k.responderEphemeral (P.publicKey k.initiatorStatic)] x := by
  have es := known.ecdh_eq dh k.initiatorEphemeral
  have ee := dh.ecdh_comm k.responderEphemeral k.initiatorEphemeral
  have se := dh.ecdh_comm k.initiatorStatic k.responderEphemeral
  have inEpoch := ((((premessage_inStep known enc protocolNameXk).mixHash (P := P)
    (P.serialize (P.publicKey k.initiatorEphemeral))).mixKey (P := P) es).symm.mixHash (P := P)
      (P.serialize (P.publicKey k.responderEphemeral))).mixKey (P := P) ee
  have inStatic (c : Bytes) := (inEpoch.delivered (P := P) c).symm
  have inEpoch3 (c c' : Bytes) := (inStatic c).xkEpoch3 (P := P) c' se
  have sync (c c' c'' : Bytes) := (inEpoch3 c c').delivered (P := P) c''
  refine ⟨_,xkRun_eq_ok.2 ⟨_,_,writeXkMessage1_eq_ok.2 ⟨rfl,rfl,_,rfl,rfl,rfl⟩,_,
    (readXkMessage1_eq_ok (enc.serialize_length _)).2 ⟨rfl,rfl,_,enc.fromSlice_serialize _,rfl⟩,
    _,_,writeXkMessage2_eq_ok.2 ⟨rfl,rfl,_,rfl,_,rfl,_,rfl,rfl,rfl⟩,_,
    (readXkMessage2_eq_ok (enc.serialize_length _) (sealed_epoch_length aead _ _ _)).2
      ⟨rfl,rfl,_,enc.fromSlice_serialize _,_,rfl,_,inEpoch.open_seal aead,_,epochOfBytes_toList _,rfl⟩,
    _,_,(writeXkMessage3_eq_ok enc SymmetricState.keyed_afterAead).2 ⟨rfl,rfl,_,rfl,_,rfl,_,rfl,_,rfl,rfl,rfl⟩,_,
    (readXkMessage3_eq_ok SymmetricState.keyed_afterAead (sealed_static_length enc aead _ _ _)
      (sealed_epoch_length aead _ _ _)).2
      ⟨rfl,rfl,_,_,(inStatic _).open_seal aead,enc.fromSlice_serialize _,_,rfl,_,
        (inEpoch3 _ _).open_seal aead,_,epochOfBytes_toList _,rfl⟩,rfl⟩,?_⟩
  exact ⟨rfl,rfl,rfl,rfl,(sync _ _ _).ck,(sync _ _ _).h,rfl,rfl,rfl,rfl,
    (sync _ _ _).inputs.trans (by simp; rfl),by simp; rfl⟩

theorem Completed.agreement {inputs : List Bytes} {x : Exchange SecretKey PublicKey}
    (completed : Completed P k inputs x) (known : KnowsResponder P k) :
    ∃ a b, intoSession P x.initiator = .ok a ∧ intoSession P x.responder = .ok b ∧
      Agreement P k a b := by
  refine ⟨_,_,intoSession_eq_ok.2 ⟨completed.initiator_complete,_,completed.initiator_remoteStatic,_,
      completed.initiator_remoteEpoch,rfl⟩,
    intoSession_eq_ok.2 ⟨completed.responder_complete,_,completed.responder_remoteStatic,_,
      completed.responder_remoteEpoch,rfl⟩,?_⟩
  constructor
  · exact completed.h_eq
  · simp [MatchingKeys,completed.initiator_role,completed.responder_role,SymmetricState.split,
      completed.ck_eq]
  · exact ⟨x.initiator.symmetric.ck,by simp [completed.initiator_role,SymmetricState.split,
      CipherState.new]⟩
  · exact known
  · rfl
  · rfl
  · rfl

/-- With every message delivered as sent, both parties complete and agree, whichever
parity of the responder's static key the initiator holds. -/
theorem honest_run_agrees (pattern : NoisePattern) (k : Setup SecretKey PublicKey)
    (enc : P.EncodingLaws) (dh : P.EcdhLaws) (aead : P.AeadLaws) (known : KnowsResponder P k) :
    ∃ x a b, handshakeRun P pattern honest k = .ok x ∧
      x.initiator.isComplete ∧ x.responder.isComplete ∧
      intoSession P x.initiator = .ok a ∧ intoSession P x.responder = .ok b ∧
      Agreement P k a b := by
  have run : ∃ x inputs, handshakeRun P pattern honest k = .ok x ∧ Completed P k inputs x := by
    cases pattern with
    | ik =>
      obtain ⟨x,ran,completed⟩ := ikRun_completed enc dh aead known
      exact ⟨x,_,ran,completed⟩
    | xk =>
      obtain ⟨x,ran,completed⟩ := xkRun_completed enc dh aead known
      exact ⟨x,_,ran,completed⟩
  obtain ⟨x,inputs,ran,completed⟩ := run
  obtain ⟨a,b,initiator,responder,agreement⟩ := completed.agreement known
  exact ⟨x,a,b,ran,by simp [isComplete,completed.initiator_complete],
    by simp [isComplete,completed.responder_complete],initiator,responder,agreement⟩

end Honest

/-- Keys of the small group; the initiator holds the responder's key with the wrong
parity. -/
def smallSetup : Setup SmallGroup.Key SmallGroup.Key where
  initiatorStatic := two
  responderStatic := 1
  initiatorEphemeral := 1
  responderEphemeral := -1
  remoteStatic := -1
  initiatorEpoch := #v[1,2,3,4,5,6,7,8]
  responderEpoch := #v[8,7,6,5,4,3,2,1]

theorem honest_run_agrees_small :
    (∃ x a b, handshakeRun primitives .ik honest smallSetup = .ok x ∧
      x.initiator.isComplete ∧ x.responder.isComplete ∧
      intoSession primitives x.initiator = .ok a ∧
      intoSession primitives x.responder = .ok b ∧
      Agreement primitives smallSetup a b) ∧
    ∃ x a b, handshakeRun primitives .xk honest smallSetup = .ok x ∧
      x.initiator.isComplete ∧ x.responder.isComplete ∧
      intoSession primitives x.initiator = .ok a ∧
      intoSession primitives x.responder = .ok b ∧
      Agreement primitives smallSetup a b :=
  ⟨honest_run_agrees .ik smallSetup encodingLaws curveLaws.ecdhLaws
      aeadLaws (.inr rfl),
    honest_run_agrees .xk smallSetup encodingLaws curveLaws.ecdhLaws
      aeadLaws (.inr rfl)⟩

end Fips.Noise
