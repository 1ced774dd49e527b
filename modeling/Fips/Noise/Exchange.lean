import Fips.Noise.Steps

set_option autoImplicit false

/-! The two parties of a handshake and the network between them. -/

namespace Fips.Noise
open EStateM HandshakeState

/-- The keys and epochs of the two parties. `remoteStatic` is the responder's static key
as the initiator holds it. -/
structure Setup (SecretKey PublicKey : Type) where
  initiatorStatic : SecretKey
  responderStatic : SecretKey
  initiatorEphemeral : SecretKey
  responderEphemeral : SecretKey
  remoteStatic : PublicKey
  initiatorEpoch : Epoch
  responderEpoch : Epoch

/-- Both parties after the last message, with the messages as they were sent and as
they were delivered. -/
structure Exchange (SecretKey PublicKey : Type) where
  initiator : HandshakeState SecretKey PublicKey
  responder : HandshakeState SecretKey PublicKey
  sent : List Bytes
  delivered : List Bytes

/-- What the network delivers in place of the message of a given number. -/
abbrev Network := Nat → Bytes → Bytes

def honest : Network := fun _ message => message

variable {SecretKey PublicKey : Type} (P : Primitives SecretKey PublicKey)

def ikRun (net : Network) (k : Setup SecretKey PublicKey) :
    Except Fault (Exchange SecretKey PublicKey) := do
  let i ← outcome (writeMessage1 P k.initiatorEphemeral)
    ((newInitiator P k.initiatorStatic k.remoteStatic).setLocalEpoch k.initiatorEpoch)
  let r ← outcome (readMessage1 P (net 1 i.1))
    ((newResponder P k.responderStatic).setLocalEpoch k.responderEpoch)
  let r' ← outcome (writeMessage2 P k.responderEphemeral) r.2
  let i' ← outcome (readMessage2 P (net 2 r'.1)) i.2
  return ⟨i'.2,r'.2,[i.1,r'.1],[net 1 i.1,net 2 r'.1]⟩

def xkRun (net : Network) (k : Setup SecretKey PublicKey) :
    Except Fault (Exchange SecretKey PublicKey) := do
  let i ← outcome (writeXkMessage1 P k.initiatorEphemeral)
    ((newXkInitiator P k.initiatorStatic k.remoteStatic).setLocalEpoch k.initiatorEpoch)
  let r ← outcome (readXkMessage1 P (net 1 i.1))
    ((newXkResponder P k.responderStatic).setLocalEpoch k.responderEpoch)
  let r' ← outcome (writeXkMessage2 P k.responderEphemeral) r.2
  let i' ← outcome (readXkMessage2 P (net 2 r'.1)) i.2
  let i'' ← outcome (writeXkMessage3 P) i'.2
  let r'' ← outcome (readXkMessage3 P (net 3 i''.1)) r'.2
  return ⟨i''.2,r''.2,[i.1,r'.1,i''.1],[net 1 i.1,net 2 r'.1,net 3 i''.1]⟩

def handshakeRun (pattern : NoisePattern) (net : Network) (k : Setup SecretKey PublicKey) :
    Except Fault (Exchange SecretKey PublicKey) :=
  match pattern with
  | .ik => ikRun P net k
  | .xk => xkRun P net k

def MatchingKeys (initiator responder : NoiseSession PublicKey) : Prop :=
  initiator.sendCipher = responder.recvCipher ∧ responder.sendCipher = initiator.recvCipher

instance (a b : NoiseSession PublicKey) : Decidable (MatchingKeys a b) :=
  inferInstanceAs (Decidable (_ ∧ _))

variable {P}

theorem ikRun_eq_ok {net : Network} {k : Setup SecretKey PublicKey}
    {x : Exchange SecretKey PublicKey} :
    ikRun P net k = .ok x ↔ ∃ m1 i1, writeMessage1 P k.initiatorEphemeral
        ((newInitiator P k.initiatorStatic k.remoteStatic).setLocalEpoch k.initiatorEpoch) = .ok m1 i1 ∧
      ∃ r1, readMessage1 P (net 1 m1)
        ((newResponder P k.responderStatic).setLocalEpoch k.responderEpoch) = .ok () r1 ∧
      ∃ m2 r2, writeMessage2 P k.responderEphemeral r1 = .ok m2 r2 ∧
      ∃ i2, readMessage2 P (net 2 m2) i1 = .ok () i2 ∧
      x = ⟨i2,r2,[m1,m2],[net 1 m1,net 2 m2]⟩ := by
  simp only [ikRun,except_bind_eq_ok,except_pure_eq_ok,outcome_eq_ok,Prod.exists,
    Unique.exists_iff]

theorem xkRun_eq_ok {net : Network} {k : Setup SecretKey PublicKey}
    {x : Exchange SecretKey PublicKey} :
    xkRun P net k = .ok x ↔ ∃ m1 i1, writeXkMessage1 P k.initiatorEphemeral
        ((newXkInitiator P k.initiatorStatic k.remoteStatic).setLocalEpoch k.initiatorEpoch) = .ok m1 i1 ∧
      ∃ r1, readXkMessage1 P (net 1 m1)
        ((newXkResponder P k.responderStatic).setLocalEpoch k.responderEpoch) = .ok () r1 ∧
      ∃ m2 r2, writeXkMessage2 P k.responderEphemeral r1 = .ok m2 r2 ∧
      ∃ i2, readXkMessage2 P (net 2 m2) i1 = .ok () i2 ∧
      ∃ m3 i3, writeXkMessage3 P i2 = .ok m3 i3 ∧
      ∃ r3, readXkMessage3 P (net 3 m3) r2 = .ok () r3 ∧
      x = ⟨i3,r3,[m1,m2,m3],[net 1 m1,net 2 m2,net 3 m3]⟩ := by
  simp only [xkRun,except_bind_eq_ok,except_pure_eq_ok,outcome_eq_ok,Prod.exists,
    Unique.exists_iff]

section SymmetricViews
variable (mark : Bytes → Nat → Bytes → Bytes → Call) (s : SymmetricState) (e es ss ee se c : Bytes)

@[simp] theorem ikStatic_key : (ikStatic P s e es).key = (P.hkdf s.ck es).2 := rfl

@[simp] theorem ikEpoch1_key :
    (ikEpoch1 P mark s e es c ss).key = (P.hkdf (P.hkdf s.ck es).1 ss).2 := rfl

@[simp] theorem ikEpoch1_ck :
    (ikEpoch1 P mark s e es c ss).ck = (P.hkdf (P.hkdf s.ck es).1 ss).1 := rfl

@[simp] theorem ikEpoch1_h :
    (ikEpoch1 P mark s e es c ss).h = P.sha256 (P.sha256 (s.h ++ e) ++ c) := rfl

@[simp] theorem ikEpoch1_nonce : (ikEpoch1 P mark s e es c ss).cipher.nonce = 0 := rfl

@[simp] theorem ikEpoch2_key :
    (ikEpoch2 P s e ee se).key = (P.hkdf (P.hkdf s.ck ee).1 se).2 := rfl

@[simp] theorem ikEpoch2_ck :
    (ikEpoch2 P s e ee se).ck = (P.hkdf (P.hkdf s.ck ee).1 se).1 := rfl

@[simp] theorem ikEpoch2_h : (ikEpoch2 P s e ee se).h = P.sha256 (s.h ++ e) := rfl

@[simp] theorem ikEpoch2_nonce : (ikEpoch2 P s e ee se).cipher.nonce = 0 := rfl

@[simp] theorem xkEpoch3_key : (xkEpoch3 P mark s c se).key = (P.hkdf s.ck se).2 := rfl

@[simp] theorem xkEpoch3_ck : (xkEpoch3 P mark s c se).ck = (P.hkdf s.ck se).1 := rfl

@[simp] theorem xkEpoch3_h : (xkEpoch3 P mark s c se).h = P.sha256 (s.h ++ c) := rfl

@[simp] theorem xkEpoch3_nonce : (xkEpoch3 P mark s c se).cipher.nonce = 0 := rfl

end SymmetricViews

/-- What a completed handshake hands over. -/
theorem intoSession_eq_ok {st : HandshakeState SecretKey PublicKey} {session : NoiseSession PublicKey} :
    intoSession P st = .ok session ↔ st.progress = .complete ∧
      ∃ rs, st.remoteStatic = some rs ∧ ∃ epoch, st.remoteEpoch = some epoch ∧
      session = {
        role := st.role
        sendCipher := match st.role with
          | .initiator => (st.symmetric.split P).1
          | .responder => (st.symmetric.split P).2
        sendCounter := 0
        recvCipher := match st.role with
          | .initiator => (st.symmetric.split P).2
          | .responder => (st.symmetric.split P).1
        handshakeHash := st.symmetric.h
        remoteStatic := rs
        remoteEpoch := epoch
        replayWindow := ReplayWindow.new } := by
  unfold intoSession isComplete
  by_cases complete : st.progress = .complete
  · cases known : st.remoteStatic with
    | none => simp [complete]
    | some rs =>
      cases started : st.remoteEpoch with
      | none => simp [complete]
      | some epoch =>
        cases role : st.role with
        | initiator =>
          simp [complete,handshakeHash,SymmetricState.handshakeHash,SymmetricState.split,
            CipherState.new,eq_comm]
        | responder =>
          simp [complete,handshakeHash,SymmetricState.handshakeHash,SymmetricState.split,
            CipherState.new,eq_comm]
  · simp [complete]

end Fips.Noise
