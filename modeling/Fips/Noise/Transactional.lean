import Fips.Noise.Agreement

set_option autoImplicit false

/-! A handshake message that is rejected leaves no trace. -/

namespace Fips.Noise
open EStateM HandshakeState SmallGroup

variable {SecretKey PublicKey : Type} (P : Primitives SecretKey PublicKey)

inductive Reader where
  | message2
  | xkMessage2
  | xkMessage3
  deriving DecidableEq

def Reader.read : Reader → Bytes → Method SecretKey PublicKey Unit
  | .message2 => tryReadMessage2 P
  | .xkMessage2 => tryReadXkMessage2 P
  | .xkMessage3 => readXkMessage3 P

variable {P}

section Frames

variable {inv : HandshakeState SecretKey PublicKey → Prop}

/-- The checks that every reader starts with. -/
theorem preserves_guarded {role : HandshakeRole} {progress : HandshakeProgress} {size : Nat} {message : Bytes}
    {rest : HandshakeState SecretKey PublicKey → Method SecretKey PublicKey Unit}
    (next : ∀ st, Preserves inv (rest st)) :
    Preserves inv (do requireRole role; requireProgress progress; requireSize size message
                      rest (← get)) :=
  (preserves_get.bind fun _ => preserves_guardOrThrow _ _).bind fun _ =>
    (preserves_get.bind fun _ => preserves_guardOrThrow _ _).bind fun _ =>
      (preserves_guardOrThrow _ _).bind fun _ => preserves_get.bind next

variable (symmetric : ∀ st s, inv st → inv (st.setSymmetric s))
include symmetric

theorem preserves_mixHash (data : Bytes) : Preserves inv (mixHash P data) :=
  preserves_modify fun st holds => symmetric st _ holds

theorem preserves_mixKey (ikm : Bytes) : Preserves inv (mixKey P ikm) :=
  preserves_modify fun st holds => symmetric st _ holds

theorem preserves_readEphemeral (ephemeral : ∀ st re, inv st → inv { st with remoteEphemeral := some re })
    (bytes : Bytes) :
    Preserves inv (readEphemeral P bytes) :=
  (preserves_getOrThrow _ _).bind fun _ =>
    (preserves_modify fun st holds => ephemeral st _ holds).bind fun _ =>
      (preserves_mixHash symmetric _).bind fun _ => preserves_pure _

theorem preserves_readStatic (static : ∀ st rs, inv st → inv { st with remoteStatic := some rs })
    (ciphertext : Bytes) :
    Preserves inv (readStatic P ciphertext) :=
  (preserves_zoom symmetric _).bind fun _ =>
    (preserves_getOrThrow _ _).bind fun _ =>
      (preserves_modify fun st holds => static st _ holds).bind fun _ => preserves_pure _

theorem preserves_readEpoch (started : ∀ st epoch, inv st → inv { st with remoteEpoch := some epoch })
    (ciphertext : Bytes) : Preserves inv (readEpoch P ciphertext) :=
  (preserves_zoom symmetric _).bind fun _ =>
    (preserves_getOrThrow _ _).bind fun _ => preserves_modify fun st holds => started st _ holds

end Frames

theorem readMessage2_restored (st : HandshakeState SecretKey PublicKey) (message : Bytes) :
    Preserves (fun t => restoreMessage2 st t = st) (readMessage2 P message) := by
  refine preserves_guarded fun _ => ?_
  refine (preserves_readEphemeral (fun _ _ => id) (fun _ _ => id) _).bind fun _ =>
    (preserves_getOrThrow _ _).bind fun _ => ?_
  refine (preserves_mixKey (fun _ _ => id) _).bind fun _ => (preserves_getOrThrow _ _).bind fun _ => ?_
  refine (preserves_mixKey (fun _ _ => id) _).bind fun _ => ?_
  exact (preserves_readEpoch (fun _ _ => id) (fun _ _ => id) _).bind fun _ =>
    preserves_modify fun _ => id

theorem readXkMessage2_restored (st : HandshakeState SecretKey PublicKey) (message : Bytes) :
    Preserves (fun t => restoreMessage2 st t = st) (readXkMessage2 P message) := by
  refine preserves_guarded fun _ => ?_
  refine (preserves_readEphemeral (fun _ _ => id) (fun _ _ => id) _).bind fun _ =>
    (preserves_getOrThrow _ _).bind fun _ => ?_
  refine (preserves_mixKey (fun _ _ => id) _).bind fun _ => ?_
  exact (preserves_readEpoch (fun _ _ => id) (fun _ _ => id) _).bind fun _ =>
    preserves_modify fun _ => id

theorem readXkMessage3InPlace_restored (st : HandshakeState SecretKey PublicKey) (message : Bytes) :
    Preserves (fun t => restoreMessage3 st t = st) (readXkMessage3InPlace P message) := by
  refine preserves_guarded fun _ => ?_
  refine (preserves_readStatic (fun _ _ => id) (fun _ _ => id) _).bind fun _ =>
    (preserves_getOrThrow _ _).bind fun _ => ?_
  refine (preserves_mixKey (fun _ _ => id) _).bind fun _ => ?_
  exact (preserves_readEpoch (fun _ _ => id) (fun _ _ => id) _).bind fun _ =>
    preserves_modify fun _ => id

theorem Reader.read_eq_error {reader : Reader} {message : Bytes}
    {st t : HandshakeState SecretKey PublicKey} {e : Fault} (failed : reader.read P message st = .error e t) :
    t = st := by
  cases reader with
  | message2 => exact restoring_eq_error (readMessage2_restored st message) rfl failed
  | xkMessage2 => exact restoring_eq_error (readXkMessage2_restored st message) rfl failed
  | xkMessage3 => exact restoring_eq_error (readXkMessage3InPlace_restored st message) rfl failed

variable (P)

def Reader.feed (reader : Reader) (messages : List Bytes) (st : HandshakeState SecretKey PublicKey) :
    HandshakeState SecretKey PublicKey :=
  messages.foldl (fun st message => finalState (reader.read P message) st) st

def Reader.Rejected (reader : Reader) : List Bytes → HandshakeState SecretKey PublicKey → Prop
  | [], _ => True
  | message :: messages, st =>
    (∃ e t, reader.read P message st = .error (.error e) t) ∧
      Rejected reader messages (finalState (reader.read P message) st)

/-- What the reader's side ends with: an initiator of XK still writes message 3. -/
def Reader.finish : Reader → HandshakeState SecretKey PublicKey → Except Fault (NoiseSession PublicKey)
  | .xkMessage2, st => do
    let r ← outcome (writeXkMessage3 P) st
    intoSession P r.2
  | _, st => intoSession P st

/-- The reader is in the state, and the message is the one, of a handshake between honest parties. -/
inductive Genuine [Neg SecretKey] : Reader → HandshakeState SecretKey PublicKey → Bytes → Prop
  | message2 {k : Setup SecretKey PublicKey} {m1 m2 : Bytes} {i1 r1 r2 : HandshakeState SecretKey PublicKey}
      (known : KnowsResponder P k)
      (write1 : writeMessage1 P k.initiatorEphemeral
        ((newInitiator P k.initiatorStatic k.remoteStatic).setLocalEpoch k.initiatorEpoch) = .ok m1 i1)
      (read1 : readMessage1 P m1 ((newResponder P k.responderStatic).setLocalEpoch k.responderEpoch) =
        .ok () r1)
      (write2 : writeMessage2 P k.responderEphemeral r1 = .ok m2 r2) : Genuine .message2 i1 m2
  | xkMessage2 {k : Setup SecretKey PublicKey} {m1 m2 : Bytes} {i1 r1 r2 : HandshakeState SecretKey PublicKey}
      (known : KnowsResponder P k)
      (write1 : writeXkMessage1 P k.initiatorEphemeral
        ((newXkInitiator P k.initiatorStatic k.remoteStatic).setLocalEpoch k.initiatorEpoch) = .ok m1 i1)
      (read1 : readXkMessage1 P m1 ((newXkResponder P k.responderStatic).setLocalEpoch k.responderEpoch) =
        .ok () r1)
      (write2 : writeXkMessage2 P k.responderEphemeral r1 = .ok m2 r2) : Genuine .xkMessage2 i1 m2
  | xkMessage3 {k : Setup SecretKey PublicKey} {m1 m2 m3 : Bytes}
    {i1 i2 i3 r1 r2 : HandshakeState SecretKey PublicKey}
      (known : KnowsResponder P k)
      (write1 : writeXkMessage1 P k.initiatorEphemeral
        ((newXkInitiator P k.initiatorStatic k.remoteStatic).setLocalEpoch k.initiatorEpoch) = .ok m1 i1)
      (read1 : readXkMessage1 P m1 ((newXkResponder P k.responderStatic).setLocalEpoch k.responderEpoch) =
        .ok () r1)
      (write2 : writeXkMessage2 P k.responderEphemeral r1 = .ok m2 r2)
      (read2 : tryReadXkMessage2 P m2 i1 = .ok () i2)
      (write3 : writeXkMessage3 P i2 = .ok m3 i3) : Genuine .xkMessage3 r2 m3

variable {P}

theorem Reader.feed_rejected {reader : Reader} {messages : List Bytes}
    {st : HandshakeState SecretKey PublicKey} (rejected : reader.Rejected P messages st) :
    reader.feed P messages st = st := by
  induction messages with
  | nil => rfl
  | cons message messages ih =>
    obtain ⟨⟨e,t,failed⟩,rest⟩ := rejected
    have same : finalState (reader.read P message) st = st := by
      unfold finalState
      rw [failed]
      exact Reader.read_eq_error failed
    rw [same] at rest
    rw [Reader.feed,List.foldl_cons,same]
    exact ih rest

section Accepted

variable [Neg SecretKey] (enc : P.EncodingLaws) (dh : P.EcdhLaws) (aead : P.AeadLaws)
include enc dh aead

/-- A genuine message is accepted and leads to a session. -/
theorem Genuine.accepted {reader : Reader} {st : HandshakeState SecretKey PublicKey} {message : Bytes}
    (genuine : Genuine P reader st message) :
    ∃ t session, reader.read P message st = .ok () t ∧ reader.finish P t = .ok session := by
  cases genuine with
  | message2 known write1 read1 write2 =>
    obtain ⟨x,run,completed⟩ := ikRun_completed enc dh aead known
    obtain ⟨a,-,session,-⟩ := completed.agreement known
    obtain ⟨m1,i1,write1',r1,read1',m2,r2,write2',i2,read2,rfl⟩ := ikRun_eq_ok.1 run
    cases write1.symm.trans write1'
    cases read1.symm.trans read1'
    cases write2.symm.trans write2'
    exact ⟨i2,a,restoring_eq_ok.2 read2,session⟩
  | xkMessage2 known write1 read1 write2 =>
    obtain ⟨x,run,completed⟩ := xkRun_completed enc dh aead known
    obtain ⟨a,-,session,-⟩ := completed.agreement known
    obtain ⟨m1,i1,write1',r1,read1',m2,r2,write2',i2,read2,m3,i3,write3,r3,-,rfl⟩ := xkRun_eq_ok.1 run
    cases write1.symm.trans write1'
    cases read1.symm.trans read1'
    cases write2.symm.trans write2'
    refine ⟨i2,a,restoring_eq_ok.2 read2,?_⟩
    exact except_bind_eq_ok.2 ⟨(m3,i3),outcome_eq_ok.2 write3,session⟩
  | xkMessage3 known write1 read1 write2 read2 write3 =>
    obtain ⟨x,run,completed⟩ := xkRun_completed enc dh aead known
    obtain ⟨-,b,-,session,-⟩ := completed.agreement known
    obtain ⟨m1,i1,write1',r1,read1',m2,r2,write2',i2,read2',m3,i3,write3',r3,read3,rfl⟩ := xkRun_eq_ok.1 run
    cases write1.symm.trans write1'
    cases read1.symm.trans read1'
    cases write2.symm.trans write2'
    cases (restoring_eq_ok.1 read2).symm.trans read2'
    cases write3.symm.trans write3'
    exact ⟨r3,b,read3,session⟩

end Accepted

/-- A read that returns an error leaves the state as it was. After any rejected messages a message is read
as if they had never arrived, and the genuine one is accepted and gives the same session. -/
theorem rejected_reads_leave_no_trace [Neg SecretKey] (P : Primitives SecretKey PublicKey) :
    (∀ (reader : Reader) (st t : HandshakeState SecretKey PublicKey) (message : Bytes) (e : NoiseError),
      reader.read P message st = .error (.error e) t → t = st) ∧
    (∀ (reader : Reader) (st : HandshakeState SecretKey PublicKey) (rejected : List Bytes),
      reader.Rejected P rejected st →
        ∀ message, reader.read P message (reader.feed P rejected st) = reader.read P message st) ∧
    (P.EncodingLaws → P.EcdhLaws → P.AeadLaws →
      ∀ (reader : Reader) (st : HandshakeState SecretKey PublicKey) (message : Bytes),
        Genuine P reader st message →
        ∃ t session, reader.read P message st = .ok () t ∧ reader.finish P t = .ok session ∧
          ∀ rejected, reader.Rejected P rejected st →
            ∃ t', reader.read P message (reader.feed P rejected st) = .ok () t' ∧
              reader.finish P t' = .ok session) := by
  refine ⟨fun reader st t message e failed => Reader.read_eq_error failed,?_,?_⟩
  · intro reader st rejected all message
    rw [Reader.feed_rejected all]
  · intro enc dh aead reader st message genuine
    obtain ⟨t,session,accepted,finished⟩ := genuine.accepted enc dh aead
    refine ⟨t,session,accepted,finished,?_⟩
    intro rejected all
    rw [Reader.feed_rejected all]
    exact ⟨t,accepted,finished⟩

theorem eq_ok_finalState {σ α : Type} [DecidableEq α] {x : EStateM Fault σ α} {s : σ} {a : α}
    (ran : (outcome x s).toOption.map Prod.fst = some a) : x s = .ok a (finalState x s) := by
  unfold outcome at ran
  unfold finalState
  cases h : x s with
  | error e t => simp [h,Except.toOption] at ran
  | ok b t =>
    obtain rfl : b = a := by simpa [h,Except.toOption] using ran
    rfl

/-- A message with a wrong tag, which only fails after the in-place reader has taken its ephemeral key, is
rejected before the genuine one. -/
theorem rejected_reads_small : ∃ st message forged, Genuine primitives .message2 st message ∧
    (finalState (readMessage2 primitives forged) st).remoteEphemeral ≠ st.remoteEphemeral ∧
    Reader.message2.Rejected primitives [[],forged] st ∧
    ∃ t session, Reader.message2.read primitives message
        (Reader.message2.feed primitives [[],forged] st) = .ok () t ∧
      Reader.message2.finish primitives t = .ok session := by
  let initiator := (newInitiator primitives smallSetup.initiatorStatic smallSetup.remoteStatic).setLocalEpoch
    smallSetup.initiatorEpoch
  let responder := (newResponder primitives smallSetup.responderStatic).setLocalEpoch
    smallSetup.responderEpoch
  let tag : Bytes := List.replicate tagSize 0
  let m1 := serialize 1 ++ (serialize two ++ tag) ++ (smallSetup.initiatorEpoch.toList ++ tag)
  let m2 := serialize (-1) ++ (smallSetup.responderEpoch.toList ++ tag)
  let st := finalState (writeMessage1 primitives smallSetup.initiatorEphemeral) initiator
  let r1 := finalState (readMessage1 primitives m1) responder
  have wrote1 : writeMessage1 primitives smallSetup.initiatorEphemeral initiator = .ok m1 st :=
    eq_ok_finalState (by decide +kernel)
  have read1 : readMessage1 primitives m1 responder = .ok () r1 := eq_ok_finalState (by decide +kernel)
  have wrote2 : writeMessage2 primitives smallSetup.responderEphemeral r1 =
      .ok m2 (finalState (writeMessage2 primitives smallSetup.responderEphemeral) r1) :=
    eq_ok_finalState (by decide +kernel)
  have genuine : Genuine primitives .message2 st m2 := .message2 (.inr rfl) wrote1 read1 wrote2
  have rejected : Reader.message2.Rejected primitives [[],m2.take 56 ++ [1]] st :=
    ⟨⟨_,_,rfl⟩,⟨_,_,rfl⟩,trivial⟩
  obtain ⟨-,session,-,-,later⟩ := (rejected_reads_leave_no_trace primitives).2.2 encodingLaws
    curveLaws.ecdhLaws aeadLaws .message2 st m2 genuine
  obtain ⟨t,accepted,finished⟩ := later _ rejected
  exact ⟨st,m2,_,genuine,by decide +kernel,rejected,t,session,accepted,finished⟩

end Fips.Noise
