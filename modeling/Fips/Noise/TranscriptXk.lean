import Fips.Noise.Transcript

set_option autoImplicit false

/-! Completed XK runs under an active network. -/

namespace Fips.Noise
open EStateM HandshakeState UpToSign

variable {SecretKey PublicKey : Type} {P : Primitives SecretKey PublicKey}

variable (P) in
/-- A completed XK run. The static key is sealed under the key of message 2 with counter 1. -/
structure XkTrace (k : Setup SecretKey PublicKey) (x : Exchange SecretKey PublicKey) where
  (c1 c2 c3 e1' e2' c1' c2' c3' m : Bytes)
  (re1 rs re2 : PublicKey)
  sent : x.sent = [P.serialize (P.publicKey k.initiatorEphemeral),
    P.serialize (P.publicKey k.responderEphemeral) ++ c1,c2 ++ c3]
  delivered : x.delivered = [e1',e2' ++ c1',c2' ++ c3']
  e1'_length : e1'.length = pubkeySize
  e2'_length : e2'.length = pubkeySize
  c2_eq : c2 = P.aeadSeal (P.hkdf (P.hkdf (P.sha256 protocolNameXk)
    (P.ecdh k.initiatorEphemeral k.remoteStatic)).1 (P.ecdh k.initiatorEphemeral re2)).2 1 []
    (P.serialize (P.publicKey k.initiatorStatic))
  parsed1 : P.fromSlice e1' = some re1
  parsed2 : P.fromSlice e2' = some re2
  opened2 : P.aeadOpen (P.hkdf (P.hkdf (P.sha256 protocolNameXk)
    (P.ecdh k.responderStatic re1)).1 (P.ecdh k.responderEphemeral re1)).2 1 [] c2' = some m
  parsedStatic : P.fromSlice m = some rs
  initiator_role : x.initiator.role = .initiator
  responder_role : x.responder.role = .responder
  initiator_symmetric : x.initiator.symmetric =
    (xkEpoch3 P .sealed (((((premessage P protocolNameXk k.remoteStatic).mixHash P
        (P.serialize (P.publicKey k.initiatorEphemeral))).mixKey P
          (P.ecdh k.initiatorEphemeral k.remoteStatic)).mixHash P e2').mixKey P
            (P.ecdh k.initiatorEphemeral re2) |>.afterAead P .opened c1')
      c2 (P.ecdh k.initiatorStatic re2)).afterAead P .sealed c3
  responder_symmetric : x.responder.symmetric =
    (xkEpoch3 P .opened (((((premessage P protocolNameXk (P.publicKey k.responderStatic)).mixHash P
        e1').mixKey P (P.ecdh k.responderStatic re1)).mixHash P
          (P.serialize (P.publicKey k.responderEphemeral))).mixKey P
            (P.ecdh k.responderEphemeral re1) |>.afterAead P .sealed c1)
      c2' (P.ecdh k.responderEphemeral rs)).afterAead P .opened c3'

variable {x : Exchange SecretKey PublicKey} {k : Setup SecretKey PublicKey}

theorem xkRun_trace [Neg SecretKey] (enc : P.EncodingLaws) {net : Network}
    (ran : xkRun P net k = .ok x) :
    Nonempty (XkTrace P k x) := by
  obtain ⟨m1,i1,write1,r1,read1,m2,r2,write2,i2,read2,m3,i3,write3,r3,read3,rfl⟩ := xkRun_eq_ok.1 ran
  have he1 : (net 1 m1).length = pubkeySize := size_of_guarded read1
  obtain ⟨e2',c1',split2,he2,hc1⟩ := split_epoch_message (size_of_guarded read2)
  obtain ⟨c2',c3',split3,hc2,hc3⟩ := readXkMessage3_split read3
  rw [split2] at read2
  rw [split3] at read3
  obtain ⟨-,-,rs0,knows,rfl,rfl⟩ := writeXkMessage1_eq_ok.1 write1
  obtain ⟨-,-,re1,parsed1,rfl⟩ := (readXkMessage1_eq_ok he1).1 read1
  obtain ⟨-,-,re1',same1,epoch,started,c1,hseal1,rfl,rfl⟩ := writeXkMessage2_eq_ok.1 write2
  obtain ⟨-,-,re2,parsed2,e,hasE,p1,opened1,ep,-,rfl⟩ := (readXkMessage2_eq_ok he2 hc1).1 read2
  obtain ⟨-,-,re2',same2,epoch',started',c2,hseal2,c3,hseal3,rfl,rfl⟩ :=
    (writeXkMessage3_eq_ok enc SymmetricState.keyed_afterAead).1 write3
  obtain ⟨-,-,rs,p2,opened2,parsedStatic,e',hasE',p3,opened3,ep',-,rfl⟩ :=
    (readXkMessage3_eq_ok SymmetricState.keyed_afterAead hc2 hc3).1 read3
  cases knows
  cases same1
  cases hasE
  cases same2
  cases hasE'
  exact ⟨{
    c1, c2, c3, e1' := net 1 _, e2', c1', c2', c3', m := p2, re1, rs, re2, parsed1, parsed2, parsedStatic
    sent := rfl
    delivered := by rw [split2,split3]
    e1'_length := he1
    e2'_length := he2
    c2_eq := by
      rw [hseal2]
      rfl
    opened2 := by
      rw [← opened2]
      rfl
    initiator_role := rfl
    responder_role := rfl
    initiator_symmetric := rfl
    responder_symmetric := rfl }⟩

theorem XkTrace.chained (t : XkTrace P k x) : P.ChainingKey protocolNames x.initiator.symmetric.ck ∧
    P.ChainingKey protocolNames x.responder.symmetric.ck := by
  have start : P.ChainingKey protocolNames (P.sha256 protocolNameXk) := .start (by decide)
  rw [t.initiator_symmetric,t.responder_symmetric]
  exact ⟨((start.mixKey _).mixKey _).mixKey _,((start.mixKey _).mixKey _).mixKey _⟩

theorem XkTrace.inputs_eq (kdf : P.HkdfLaws protocolNames) (t : XkTrace P k x)
    (ck : x.initiator.symmetric.ck = x.responder.symmetric.ck) :
    P.ecdh k.initiatorEphemeral k.remoteStatic = P.ecdh k.responderStatic t.re1 ∧
    P.ecdh k.initiatorEphemeral t.re2 = P.ecdh k.responderEphemeral t.re1 ∧
    P.ecdh k.initiatorStatic t.re2 = P.ecdh k.responderEphemeral t.rs := by
  have start : P.ChainingKey protocolNames (P.sha256 protocolNameXk) := .start (by decide)
  rw [t.initiator_symmetric,t.responder_symmetric] at ck
  obtain ⟨ck,se⟩ := kdf.fst_injective _ _ _ _ ((start.mixKey _).mixKey _) ((start.mixKey _).mixKey _) ck
  obtain ⟨ck,ee⟩ := kdf.fst_injective _ _ _ _ (start.mixKey _) (start.mixKey _) ck
  obtain ⟨-,es⟩ := kdf.fst_injective _ _ _ _ start start ck
  exact ⟨es,ee,se⟩

theorem AeadIdeal.xk_ciphertexts (ideal : AeadIdeal x) {k1 k2 es ee se c1 c2 c3 c1' c2' c3' : Bytes}
    (initiator : x.initiator.symmetric.calls = [.mixKey es,.mixKey ee,
      .opened k1 0 [] c1', .sealed k1 1 [] c2, .mixKey se,.sealed k2 0 [] c3])
    (responder : x.responder.symmetric.calls = [.mixKey es,.mixKey ee,
      .sealed k1 0 [] c1, .opened k1 1 [] c2', .mixKey se,.opened k2 0 [] c3']) (apart : k1 ≠ k2) :
    c1' = c1 ∧ c2' = c2 ∧ c3' = c3 := by
  have first := ideal (.opened k1 0 [] c1') (by simp [initiator,responder])
  have second := ideal (.opened k1 1 [] c2') (by simp [initiator,responder])
  have third := ideal (.opened k2 0 [] c3') (by simp [initiator,responder])
  simp only [Call.Justified,initiator,responder,List.cons_append,List.nil_append,
    List.mem_cons,List.not_mem_nil,reduceCtorEq,Call.sealed.injEq,true_and,or_false,
      false_or] at first second third
  refine ⟨?_,?_,?_⟩ <;> grind

theorem XkTrace.ciphertexts_eq (kdf : P.HkdfLaws protocolNames) (t : XkTrace P k x)
    (ck : x.initiator.symmetric.ck = x.responder.symmetric.ck) (ideal : AeadIdeal x) :
    t.c1' = t.c1 ∧ t.c2' = t.c2 ∧ t.c3' = t.c3 := by
  obtain ⟨es,ee,se⟩ := t.inputs_eq kdf ck
  have initiator := congrArg SymmetricState.calls t.initiator_symmetric
  have responder := congrArg SymmetricState.calls t.responder_symmetric
  rw [es,ee,se] at initiator
  have known : protocolNameXk ∈ protocolNames := by decide
  exact ideal.xk_ciphertexts initiator responder (hkdf_key_ne kdf known (.start known) _ _ _ _ _)

section Curve
variable [CommGroup SecretKey] [HasDistribNeg SecretKey] (enc : P.EncodingLaws) (aead : P.AeadLaws)
  (curve : P.CurveLaws) (injective : Function.Injective P.sha256) (kdf : P.HkdfLaws protocolNames)
  (t : XkTrace P k x)
include enc aead

theorem XkTrace.static_eq
    (es : P.ecdh k.initiatorEphemeral k.remoteStatic = P.ecdh k.responderStatic t.re1)
    (ee : P.ecdh k.initiatorEphemeral t.re2 = P.ecdh k.responderEphemeral t.re1)
    (c2 : t.c2' = t.c2) : t.rs = P.publicKey k.initiatorStatic := by
  have opened := t.opened2
  rw [c2,t.c2_eq,es,ee] at opened
  exact static_of_opened enc aead opened t.parsedStatic

variable (ck : x.initiator.symmetric.ck = x.responder.symmetric.ck) (ideal : AeadIdeal x)
include curve injective kdf t ck ideal

theorem XkTrace.keysSame :
    ∃ r a b, P.publicKey r = k.remoteStatic ∧ P.publicKey a = t.re1 ∧ P.publicKey b = t.re2 ∧
      KeysSame k r a b := by
  obtain ⟨r,hr⟩ := curve.publicKey_surjective k.remoteStatic
  obtain ⟨a,ha⟩ := curve.publicKey_surjective t.re1
  obtain ⟨b,hb⟩ := curve.publicKey_surjective t.re2
  obtain ⟨es,ee,se⟩ := t.inputs_eq kdf ck
  obtain ⟨-,c2,-⟩ := t.ciphertexts_eq kdf ck ideal
  have rs := t.static_eq enc aead es ee c2
  rw [← hr,← ha] at es
  rw [← ha,← hb] at ee
  rw [← hb,rs] at se
  -- se fixes the responder's ephemeral key, then ee the initiator's, then es the static key
  have responder : Same b k.responderEphemeral := ecdh_same_remote curve injective se (.refl _)
  have initiator : Same k.initiatorEphemeral a := ecdh_same_secret curve injective ee responder
  have static : Same r k.responderStatic := ecdh_same_remote curve injective es initiator
  exact ⟨r,a,b,hr,ha,hb,static,initiator.symm,responder⟩

theorem XkTrace.h_eq_iff (canonical : P.CanonicalLaws) :
    x.initiator.symmetric.h = x.responder.symmetric.h ↔ ParityKept x := by
  obtain ⟨r,a,b,hr,ha,hb,same⟩ := t.keysSame enc aead curve injective kdf ck ideal
  obtain ⟨c1,c2,c3⟩ := t.ciphertexts_eq kdf ck ideal
  have premessage := premessage_h_same enc protocolNameXk same.static
  have size1 : (P.serialize (P.publicKey k.initiatorEphemeral)).length = t.e1'.length := by
    rw [enc.serialize_length,t.e1'_length]
  have size2 : t.e2'.length = (P.serialize (P.publicKey k.responderEphemeral)).length := by
    rw [enc.serialize_length,t.e2'_length]
  have sent := t.sent
  have delivered := t.delivered
  rw [← List.append_nil (P.serialize (P.publicKey k.initiatorEphemeral))] at sent
  rw [← List.append_nil t.e1'] at delivered
  rw [t.initiator_symmetric,t.responder_symmetric,← hr,same.parityKept_iff enc canonical sent delivered
    t.e1'_length t.e2'_length (ha ▸ t.parsed1) (hb ▸ t.parsed2)]
  simp only [SymmetricState.afterAead_h,SymmetricState.mixKey_h,SymmetricState.mixHash_h,xkEpoch3_h,
    c1,c2,c3,premessage,mix_eq_iff injective size1,mix_eq_iff injective size2,
    mix_eq_iff injective rfl,true_and,and_true]

end Curve

end Fips.Noise
