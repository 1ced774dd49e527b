import Fips.Noise.Agreement

set_option autoImplicit false

/-! The documented message patterns, and the inputs of `mix_key` compared with them. -/

namespace Fips.Noise

open SmallGroup

inductive Token where
  | e
  | s
  | es
  | ss
  | ee
  | se
  deriving Repr, DecidableEq

def NoisePattern.messages : NoisePattern → List (List Token)
  | .ik => [[.e,.es,.s,.ss],[.e,.ee,.se]]
  | .xk => [[.e,.es],[.e,.ee],[.s,.se]]

variable {SecretKey PublicKey : Type} (P : Primitives SecretKey PublicKey)

/-- The shared secret a token stands for: the first letter names the initiator's key,
the second the responder's. -/
def Token.dh (k : Setup SecretKey PublicKey) : Token → Option Bytes
  | .e => none
  | .s => none
  | .es => some (P.ecdh k.initiatorEphemeral (P.publicKey k.responderStatic))
  | .ss => some (P.ecdh k.initiatorStatic (P.publicKey k.responderStatic))
  | .ee => some (P.ecdh k.initiatorEphemeral (P.publicKey k.responderEphemeral))
  | .se => some (P.ecdh k.initiatorStatic (P.publicKey k.responderEphemeral))

def referenceInputs (k : Setup SecretKey PublicKey) (pattern : NoisePattern) : List Bytes :=
  pattern.messages.flatten.filterMap (Token.dh P k)

/-- Both parties of an honest run mix exactly the secrets of the pattern. -/
def Conforms (k : Setup SecretKey PublicKey) (pattern : NoisePattern) : Prop :=
  ∃ x, handshakeRun P pattern honest k = .ok x ∧
    dhInputs x.initiator.symmetric = referenceInputs P k pattern ∧
    dhInputs x.responder.symmetric = referenceInputs P k pattern

variable {P} {k : Setup SecretKey PublicKey}

theorem referenceInputs_ik : referenceInputs P k .ik =
    [P.ecdh k.initiatorEphemeral (P.publicKey k.responderStatic),
     P.ecdh k.initiatorStatic (P.publicKey k.responderStatic),
     P.ecdh k.initiatorEphemeral (P.publicKey k.responderEphemeral),
     P.ecdh k.initiatorStatic (P.publicKey k.responderEphemeral)] := rfl

theorem referenceInputs_xk : referenceInputs P k .xk =
    [P.ecdh k.initiatorEphemeral (P.publicKey k.responderStatic),
     P.ecdh k.initiatorEphemeral (P.publicKey k.responderEphemeral),
     P.ecdh k.initiatorStatic (P.publicKey k.responderEphemeral)] := rfl

theorem Completed.conforms_iff {pattern : NoisePattern} {inputs : List Bytes}
    {x : Exchange SecretKey PublicKey} (completed : Completed P k inputs x)
    (ran : handshakeRun P pattern honest k = .ok x) :
    Conforms P k pattern ↔ inputs = referenceInputs P k pattern := by
  constructor
  · intro conforms
    obtain ⟨y,ran',initiator,_⟩ := conforms
    rw [ran,Except.ok.injEq] at ran'
    rw [← completed.initiator_inputs,ran',initiator]
  · intro same
    exact ⟨x,ran,completed.initiator_inputs.trans same,completed.responder_inputs.trans same⟩

section Laws
variable [CommGroup SecretKey] [HasDistribNeg SecretKey]

theorem ik_conforms_iff (enc : P.EncodingLaws) (curve : P.CurveLaws) (injective : Function.Injective P.sha256)
    (aead : P.AeadLaws) (known : KnowsResponder P k) :
    Conforms P k .ik ↔
      k.initiatorEphemeral * k.responderStatic = k.initiatorStatic * k.responderEphemeral ∨
      k.initiatorEphemeral * k.responderStatic = -(k.initiatorStatic * k.responderEphemeral) := by
  have dh := curve.ecdhLaws
  obtain ⟨x,ran,completed⟩ := ikRun_completed enc dh aead known
  have ran' : handshakeRun P .ik honest k = .ok x := ran
  rw [completed.conforms_iff ran',referenceInputs_ik]
  simp only [List.cons.injEq,dh.ecdh_comm k.responderStatic,dh.ecdh_comm k.responderEphemeral,true_and,
    and_true]
  rw [dh.ecdh_comm k.initiatorEphemeral,dh.ecdh_comm k.initiatorStatic,curve.ecdh_eq_iff injective]

theorem xk_conforms (enc : P.EncodingLaws) (dh : P.EcdhLaws) (aead : P.AeadLaws)
    (known : KnowsResponder P k) : Conforms P k .xk := by
  obtain ⟨x,ran,completed⟩ := xkRun_completed enc dh aead known
  have ran' : handshakeRun P .xk honest k = .ok x := ran
  rw [completed.conforms_iff ran',referenceInputs_xk,dh.ecdh_comm k.responderStatic,
    dh.ecdh_comm k.responderEphemeral,dh.ecdh_comm k.responderEphemeral]

/-- Both patterns are followed exactly when the products that stand for `es` and `se`
are the same up to sign. -/
theorem patterns_followed_iff (enc : P.EncodingLaws) (curve : P.CurveLaws)
    (injective : Function.Injective P.sha256) (aead : P.AeadLaws) (known : KnowsResponder P k) :
    (∀ pattern, Conforms P k pattern) ↔
      k.initiatorEphemeral * k.responderStatic = k.initiatorStatic * k.responderEphemeral ∨
      k.initiatorEphemeral * k.responderStatic = -(k.initiatorStatic * k.responderEphemeral) := by
  rw [← ik_conforms_iff enc curve injective aead known]
  constructor
  · intro all
    exact all .ik
  · intro ik pattern
    cases pattern with
    | ik => exact ik
    | xk => exact xk_conforms enc curve.ecdhLaws aead known

end Laws

theorem patterns_followed_iff_small :
    Conforms primitives { smallSetup with responderEphemeral := two } .ik ∧
    Conforms primitives { smallSetup with responderEphemeral := two } .xk := by
  have followed := (patterns_followed_iff encodingLaws curveLaws sha256_injective aeadLaws
    (k := { smallSetup with responderEphemeral := two }) (.inr rfl)).2 (by decide)
  exact ⟨followed .ik,followed .xk⟩

theorem smallSetup_ik_deviates : ¬ ∀ pattern, Conforms primitives smallSetup pattern := by
  intro all
  have same := (ik_conforms_iff encodingLaws curveLaws sha256_injective aeadLaws (.inr rfl)).1 (all .ik)
  revert same
  decide

end Fips.Noise
