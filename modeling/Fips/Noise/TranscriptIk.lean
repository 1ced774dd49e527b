import Fips.Noise.Transcript

set_option autoImplicit false

/-! Completed IK runs under an active network. -/

namespace Fips.Noise
open EStateM HandshakeState UpToSign

variable {SecretKey PublicKey : Type} {P : Primitives SecretKey PublicKey}

variable (P) in
/-- A completed IK run: ciphertexts as sent, all parts as delivered, and the symmetric
state of each side in terms of them. -/
structure IkTrace (k : Setup SecretKey PublicKey) (x : Exchange SecretKey PublicKey) where
  (c1 c2 c3 e1' c1' c2' e2' c3' m : Bytes)
  (re1 rs re2 : PublicKey)
  sent : x.sent = [P.serialize (P.publicKey k.initiatorEphemeral) ++ c1 ++ c2,
    P.serialize (P.publicKey k.responderEphemeral) ++ c3]
  delivered : x.delivered = [e1' ++ c1' ++ c2',e2' ++ c3']
  e1'_length : e1'.length = pubkeySize
  c1'_length : c1'.length = pubkeySize + tagSize
  c2'_length : c2'.length = epochEncryptedSize
  e2'_length : e2'.length = pubkeySize
  c3'_length : c3'.length = epochEncryptedSize
  c1_eq : c1 = P.aeadSeal (P.hkdf (P.sha256 protocolNameIk)
    (P.ecdh k.initiatorEphemeral k.remoteStatic)).2 0 [] (P.serialize (P.publicKey k.initiatorStatic))
  c2_length : c2.length = epochEncryptedSize
  c3_length : c3.length = epochEncryptedSize
  parsed1 : P.fromSlice e1' = some re1
  opened1 : P.aeadOpen (P.hkdf (P.sha256 protocolNameIk) (P.ecdh k.responderStatic re1)).2 0 [] c1' =
    some m
  parsedStatic : P.fromSlice m = some rs
  parsed2 : P.fromSlice e2' = some re2
  initiator_role : x.initiator.role = .initiator
  responder_role : x.responder.role = .responder
  initiator_symmetric : x.initiator.symmetric =
    (ikEpoch2 P ((ikEpoch1 P .sealed (premessage P protocolNameIk k.remoteStatic)
        (P.serialize (P.publicKey k.initiatorEphemeral)) (P.ecdh k.initiatorEphemeral k.remoteStatic) c1
        (P.ecdh k.initiatorStatic k.remoteStatic)).afterAead P .sealed c2) e2'
      (P.ecdh k.initiatorEphemeral re2) (P.ecdh k.initiatorEphemeral k.remoteStatic)).afterAead P .opened c3'
  responder_symmetric : x.responder.symmetric =
    (ikEpoch2 P ((ikEpoch1 P .opened (premessage P protocolNameIk (P.publicKey k.responderStatic)) e1'
        (P.ecdh k.responderStatic re1) c1' (P.ecdh k.responderStatic rs)).afterAead P .opened c2')
      (P.serialize (P.publicKey k.responderEphemeral)) (P.ecdh k.responderEphemeral re1)
      (P.ecdh k.responderStatic re1)).afterAead P .sealed c3

variable {k : Setup SecretKey PublicKey} {x : Exchange SecretKey PublicKey}

theorem ikRun_trace [Neg SecretKey] (enc : P.EncodingLaws) (aead : P.AeadLaws) {net : Network}
    (ran : ikRun P net k = .ok x) : Nonempty (IkTrace P k x) := by
  obtain ⟨m1,i1,write1,r1,read1,m2,r2,write2,i2,read2,rfl⟩ := ikRun_eq_ok.1 ran
  obtain ⟨e1',c1',c2',split1,he1,hc1,hc2⟩ := readMessage1_split read1
  obtain ⟨e2',c3',split2,he2,hc3⟩ := split_epoch_message (size_of_guarded read2)
  rw [split1] at read1
  rw [split2] at read2
  obtain ⟨-,-,rs0,knows,epoch,started,c1,hseal1,c2,hseal2,rfl,rfl⟩ := (writeMessage1_eq_ok enc).1 write1
  obtain ⟨-,-,re1,parsed1,rs,p1,opened1,parsedStatic,p2,opened2,ep,-,rfl⟩ :=
    (readMessage1_eq_ok he1 hc1 hc2).1 read1
  obtain ⟨-,-,re1',same1,epoch',started',c3,hseal3,rfl,rfl⟩ := writeMessage2_eq_ok.1 write2
  obtain ⟨-,-,re2,parsed2,e,hasE,rs1,knows',p3,opened3,ep',-,rfl⟩ := (readMessage2_eq_ok he2 hc3).1 read2
  cases knows
  cases same1
  cases hasE
  cases knows'
  exact ⟨{
    c1, c2, c3, e1', c1', c2', e2', c3', m := p1, re1, rs, re2, parsed1, parsedStatic, parsed2
    sent := rfl
    delivered := by rw [split1,split2]
    e1'_length := he1
    c1'_length := hc1
    c2'_length := hc2
    e2'_length := he2
    c3'_length := hc3
    c1_eq := by
      rw [hseal1]
      rfl
    c2_length := by rw [hseal2]; exact sealed_epoch_length aead _ _ _
    c3_length := by rw [hseal3]; exact sealed_epoch_length aead _ _ _
    opened1 := by
      rw [← opened1]
      rfl
    initiator_role := rfl
    responder_role := rfl
    initiator_symmetric := rfl
    responder_symmetric := rfl }⟩

theorem IkTrace.chained (t : IkTrace P k x) : P.ChainingKey protocolNames x.initiator.symmetric.ck ∧
    P.ChainingKey protocolNames x.responder.symmetric.ck := by
  have start : P.ChainingKey protocolNames (P.sha256 protocolNameIk) := .start (by decide)
  rw [t.initiator_symmetric,t.responder_symmetric]
  exact ⟨(((start.mixKey _).mixKey _).mixKey _).mixKey _,(((start.mixKey _).mixKey _).mixKey _).mixKey _⟩

theorem IkTrace.inputs_eq (kdf : P.HkdfLaws protocolNames) (t : IkTrace P k x)
    (ck : x.initiator.symmetric.ck = x.responder.symmetric.ck) :
    P.ecdh k.initiatorEphemeral k.remoteStatic = P.ecdh k.responderStatic t.re1 ∧
    P.ecdh k.initiatorStatic k.remoteStatic = P.ecdh k.responderStatic t.rs ∧
    P.ecdh k.initiatorEphemeral t.re2 = P.ecdh k.responderEphemeral t.re1 := by
  have start : P.ChainingKey protocolNames (P.sha256 protocolNameIk) := .start (by decide)
  rw [t.initiator_symmetric,t.responder_symmetric] at ck
  obtain ⟨ck,-⟩ := kdf.fst_injective _ _ _ _ (((start.mixKey _).mixKey _).mixKey _)
    (((start.mixKey _).mixKey _).mixKey _) ck
  obtain ⟨ck,ee⟩ := kdf.fst_injective _ _ _ _ ((start.mixKey _).mixKey _) ((start.mixKey _).mixKey _) ck
  obtain ⟨ck,ss⟩ := kdf.fst_injective _ _ _ _ (start.mixKey _) (start.mixKey _) ck
  obtain ⟨-,es⟩ := kdf.fst_injective _ _ _ _ start start ck
  exact ⟨es,ss,ee⟩

theorem AeadIdeal.ik_ciphertexts (ideal : AeadIdeal x) {es ss ee k1 k2 k3 c1 c2 c3 c1' c2' c3' : Bytes}
    (initiator : x.initiator.symmetric.calls = [.mixKey es,.sealed k1 0 [] c1,
      .mixKey ss, .sealed k2 0 [] c2, .mixKey ee,.mixKey es,.opened k3 0 [] c3'])
    (responder : x.responder.symmetric.calls = [.mixKey es,
      .opened k1 0 [] c1', .mixKey ss, .opened k2 0 [] c2',.mixKey ee,.mixKey es,.sealed k3 0 [] c3])
    (apart : k2 ≠ k3) (h12 : c1'.length ≠ c2.length) (h13 : c1'.length ≠ c3.length)
    (h21 : c2'.length ≠ c1.length) (h31 : c3'.length ≠ c1.length) :
    c1' = c1 ∧ c2' = c2 ∧ c3' = c3 := by
  have first := ideal (.opened k1 0 [] c1') (by simp [initiator,responder])
  have second := ideal (.opened k2 0 [] c2') (by simp [initiator,responder])
  have third := ideal (.opened k3 0 [] c3') (by simp [initiator,responder])
  simp only [Call.Justified,initiator,responder,List.cons_append,List.nil_append,
    List.mem_cons,List.not_mem_nil,reduceCtorEq,Call.sealed.injEq,true_and,or_false,
      false_or] at first second third
  refine ⟨?_,?_,?_⟩ <;> grind

theorem IkTrace.ciphertexts_eq [Neg SecretKey] (enc : P.EncodingLaws) (aead : P.AeadLaws)
    (kdf : P.HkdfLaws protocolNames) (t : IkTrace P k x)
    (ck : x.initiator.symmetric.ck = x.responder.symmetric.ck) (ideal : AeadIdeal x) :
    t.c1' = t.c1 ∧ t.c2' = t.c2 ∧ t.c3' = t.c3 := by
  obtain ⟨es,ss,ee⟩ := t.inputs_eq kdf ck
  have c1_length : t.c1.length = pubkeySize + tagSize := by
    rw [t.c1_eq,sealed_static_length enc aead]
  have short : epochEncryptedSize ≠ pubkeySize + tagSize := by decide
  have initiator := congrArg SymmetricState.calls t.initiator_symmetric
  have responder := congrArg SymmetricState.calls t.responder_symmetric
  rw [es,ss,ee] at initiator
  have c1'_length := t.c1'_length
  have c2'_length := t.c2'_length
  have c3'_length := t.c3'_length
  have c2_length := t.c2_length
  have c3_length := t.c3_length
  have known : protocolNameIk ∈ protocolNames := by decide
  exact ideal.ik_ciphertexts initiator responder
    (hkdf_key_ne kdf known (.mixKey (.start known) _) _ _ _ _ _)
    (by omega) (by omega) (by omega) (by omega)

section Curve
variable [CommGroup SecretKey] [HasDistribNeg SecretKey] (enc : P.EncodingLaws) (aead : P.AeadLaws)
  (curve : P.CurveLaws) (injective : Function.Injective P.sha256) (kdf : P.HkdfLaws protocolNames)
  (t : IkTrace P k x)
include enc aead

theorem IkTrace.static_eq
    (es : P.ecdh k.initiatorEphemeral k.remoteStatic = P.ecdh k.responderStatic t.re1) (c1 : t.c1' = t.c1) :
    t.rs = P.publicKey k.initiatorStatic := by
  have opened := t.opened1
  rw [c1,t.c1_eq,es] at opened
  exact static_of_opened enc aead opened t.parsedStatic

variable (ck : x.initiator.symmetric.ck = x.responder.symmetric.ck) (ideal : AeadIdeal x)
include curve injective kdf t ck ideal

theorem IkTrace.keysSame :
    ∃ r a b, P.publicKey r = k.remoteStatic ∧ P.publicKey a = t.re1 ∧ P.publicKey b = t.re2 ∧
      KeysSame k r a b := by
  obtain ⟨r,hr⟩ := curve.publicKey_surjective k.remoteStatic
  obtain ⟨a,ha⟩ := curve.publicKey_surjective t.re1
  obtain ⟨b,hb⟩ := curve.publicKey_surjective t.re2
  obtain ⟨es,ss,ee⟩ := t.inputs_eq kdf ck
  obtain ⟨c1,-,-⟩ := t.ciphertexts_eq enc aead kdf ck ideal
  have rs := t.static_eq enc aead es c1
  rw [← hr,← ha] at es
  rw [← hr,rs] at ss
  rw [← ha,← hb] at ee
  -- ss fixes the responder's static key, then es and ee the two ephemeral keys
  have static : Same r k.responderStatic := ecdh_same_remote curve injective ss (.refl _)
  have initiator : Same k.initiatorEphemeral a := ecdh_same_secret curve injective es static
  have responder : Same b k.responderEphemeral := ecdh_same_remote curve injective ee initiator
  exact ⟨r,a,b,hr,ha,hb,static,initiator.symm,responder⟩

theorem IkTrace.h_eq_iff (canonical : P.CanonicalLaws) :
    x.initiator.symmetric.h = x.responder.symmetric.h ↔ ParityKept x := by
  obtain ⟨r,a,b,hr,ha,hb,same⟩ := t.keysSame enc aead curve injective kdf ck ideal
  obtain ⟨c1,c2,c3⟩ := t.ciphertexts_eq enc aead kdf ck ideal
  have premessage := premessage_h_same enc protocolNameIk same.static
  have size1 : (P.serialize (P.publicKey k.initiatorEphemeral)).length = t.e1'.length := by
    rw [enc.serialize_length,t.e1'_length]
  have size2 : t.e2'.length = (P.serialize (P.publicKey k.responderEphemeral)).length := by
    rw [enc.serialize_length,t.e2'_length]
  have sent := t.sent
  have delivered := t.delivered
  rw [List.append_assoc] at sent delivered
  rw [t.initiator_symmetric,t.responder_symmetric,← hr,same.parityKept_iff enc canonical sent delivered
    t.e1'_length t.e2'_length (ha ▸ t.parsed1) (hb ▸ t.parsed2)]
  simp only [SymmetricState.afterAead_h,ikEpoch2_h,ikEpoch1_h,c1,c2,c3,premessage,
    mix_eq_iff injective size1,mix_eq_iff injective size2,mix_eq_iff injective rfl,true_and,and_true]

end Curve

end Fips.Noise
