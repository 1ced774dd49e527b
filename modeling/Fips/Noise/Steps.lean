import Fips.Noise.Handshake

set_option autoImplicit false

/-! What each handshake method does when it succeeds. -/

namespace Fips.Noise
open EStateM SymmetricState List

namespace HandshakeState
variable {SecretKey PublicKey : Type} {P : Primitives SecretKey PublicKey}
  {st t : HandshakeState SecretKey PublicKey}

variable {u : Unit}

@[simp] theorem requireRole_eq_ok {role : HandshakeRole} :
    requireRole role st = .ok u t ↔ st.role = role ∧ t = st := by
  simp [requireRole,and_comm]

@[simp] theorem requireProgress_eq_ok {progress : HandshakeProgress} :
    requireProgress progress st = .ok u t ↔ st.progress = progress ∧ t = st := by
  simp [requireProgress,and_comm]

variable {message : Bytes}

@[simp] theorem requireSize_eq_ok {size : Nat} :
    requireSize size message st = .ok u t ↔ message.length = size ∧ t = st :=
  guardOrThrow_eq_ok

@[simp] theorem expect_eq_ok {α : Type} {text : String} {o : Option α} {a : α} :
    expect text o st = .ok a t ↔ o = some a ∧ t = st :=
  getOrThrow_eq_ok

@[simp] theorem mixKey_eq_ok {ikm : Bytes} :
    mixKey P ikm st = .ok u t ↔ t = st.setSymmetric (st.symmetric.mixKey P ikm) :=
  modify_eq_ok

@[simp] theorem setProgress_eq_ok {progress : HandshakeProgress} :
    setProgress progress st = .ok u t ↔ t = { st with progress := progress } :=
  modify_eq_ok

variable {ephemeral : SecretKey}

@[simp] theorem writeEphemeral_eq_ok :
    writeEphemeral P ephemeral st = .ok message t ↔
      message = P.serialize (P.publicKey ephemeral) ∧
      t = { st with
        ephemeralKeypair := some ephemeral
        symmetric := st.symmetric.mixHash P (P.serialize (P.publicKey ephemeral)) } := by
  simp [writeEphemeral,mixHash,setSymmetric]

@[simp] theorem readEphemeral_eq_ok {bytes : Bytes} {re : PublicKey} :
    readEphemeral P bytes st = .ok re t ↔ P.fromSlice bytes = some re ∧
      t = { st with
        remoteEphemeral := some re
        symmetric := st.symmetric.mixHash P bytes } := by
  simp [readEphemeral,mixHash,setSymmetric]

variable {ciphertext : Bytes}

@[simp] theorem encryptAndHash_eq_ok {plaintext : Bytes} :
    encryptAndHash P plaintext st = .ok ciphertext t ↔
      ∃ s, SymmetricState.encryptAndHash P plaintext st.symmetric = .ok ciphertext s ∧
        t = st.setSymmetric s :=
  zoom_eq_ok

@[simp] theorem decryptAndHash_eq_ok {plaintext : Bytes} :
    decryptAndHash P ciphertext st = .ok plaintext t ↔
      ∃ s, SymmetricState.decryptAndHash P ciphertext st.symmetric = .ok plaintext s ∧
        t = st.setSymmetric s :=
  zoom_eq_ok

@[simp] theorem readStatic_eq_ok {rs : PublicKey} :
    readStatic P ciphertext st = .ok rs t ↔
      ∃ plaintext s, SymmetricState.decryptAndHash P ciphertext st.symmetric = .ok plaintext s ∧
        P.fromSlice plaintext = some rs ∧
        t = { st with remoteStatic := some rs, symmetric := s } := by
  simp [readStatic,setSymmetric]

@[simp] theorem readEpoch_eq_ok :
    readEpoch P ciphertext st = .ok u t ↔
      ∃ plaintext s epoch,
        SymmetricState.decryptAndHash P ciphertext st.symmetric = .ok plaintext s ∧
        epochOfBytes plaintext = some epoch ∧
        t = { st with remoteEpoch := some epoch, symmetric := s } := by
  simp [readEpoch,setSymmetric]

/-! The symmetric state along the messages. `mark` says whether the ciphertexts were
sealed or opened; the other arguments are the bytes hashed and mixed, in their order. -/

section Tokens

variable (P : Primitives SecretKey PublicKey)

def ikStatic (s : SymmetricState) (e es : Bytes) :
    SymmetricState :=
  (s.mixHash P e).mixKey P es

def ikEpoch1 (mark : Bytes → Nat → Bytes → Bytes → Call)
    (s : SymmetricState) (e es c ss : Bytes) : SymmetricState :=
  ((ikStatic P s e es).afterAead P mark c).mixKey P ss

def ikEpoch2 (s : SymmetricState) (e ee se : Bytes) :
    SymmetricState :=
  ((s.mixHash P e).mixKey P ee).mixKey P se

def xkEpoch3 (mark : Bytes → Nat → Bytes → Bytes → Call)
    (s : SymmetricState) (c se : Bytes) : SymmetricState :=
  (s.afterAead P mark c).mixKey P se

end Tokens

theorem serialize_fits [Neg SecretKey] (enc : P.EncodingLaws) (key : PublicKey) :
    (P.serialize key).length ≤ maxMessageSize - tagSize := by
  rw [enc.serialize_length]
  decide

@[simp] theorem epoch_fits : 8 ≤ maxMessageSize - tagSize := by decide

theorem writeMessage1_eq_ok [Neg SecretKey] (enc : P.EncodingLaws) :
    writeMessage1 P ephemeral st = .ok message t ↔
      st.role = .initiator ∧ st.progress = .initial ∧
      ∃ rs, st.remoteStatic = some rs ∧ ∃ epoch, st.localEpoch = some epoch ∧
      ∃ c1, c1 = P.aeadSeal (ikStatic P st.symmetric (P.serialize (P.publicKey ephemeral))
          (P.ecdh ephemeral rs)).key 0 [] (P.serialize (P.publicKey st.staticKeypair)) ∧
      ∃ c2, c2 = P.aeadSeal (ikEpoch1 P .sealed st.symmetric (P.serialize (P.publicKey ephemeral))
          (P.ecdh ephemeral rs) c1 (P.ecdh st.staticKeypair rs)).key 0 [] epoch.toList ∧
      message = P.serialize (P.publicKey ephemeral) ++ c1 ++ c2 ∧
      t = { st with
        progress := .message1Done
        ephemeralKeypair := some ephemeral
        symmetric := (ikEpoch1 P .sealed st.symmetric (P.serialize (P.publicKey ephemeral))
          (P.ecdh ephemeral rs) c1 (P.ecdh st.staticKeypair rs)).afterAead P .sealed c2 } := by
  simp [writeMessage1,serialize_fits enc,ikStatic,ikEpoch1,setSymmetric]

variable {e : Bytes}

theorem readMessage1_eq_ok {c1 c2 : Bytes} (he : e.length = pubkeySize)
    (h1 : c1.length = pubkeySize + tagSize) (h2 : c2.length = epochEncryptedSize) :
    readMessage1 P (e ++ c1 ++ c2) st = .ok u t ↔
      st.role = .responder ∧ st.progress = .initial ∧
      ∃ re, P.fromSlice e = some re ∧ ∃ rs m1,
      P.aeadOpen (ikStatic P st.symmetric e (P.ecdh st.staticKeypair re)).key 0 [] c1 = some m1 ∧
      P.fromSlice m1 = some rs ∧ ∃ m2,
      P.aeadOpen (ikEpoch1 P .opened st.symmetric e (P.ecdh st.staticKeypair re) c1
        (P.ecdh st.staticKeypair rs)).key 0 [] c2 = some m2 ∧ ∃ epoch,
      epochOfBytes m2 = some epoch ∧
      t = { st with
        progress := .message1Done
        remoteEphemeral := some re
        remoteStatic := some rs
        remoteEpoch := some epoch
        symmetric := (ikEpoch1 P .opened st.symmetric e (P.ecdh st.staticKeypair re) c1
          (P.ecdh st.staticKeypair rs)).afterAead P .opened c2 } := by
  have size : e.length + (c1.length + c2.length) = handshakeMsg1Size := by rw [he,h1,h2]; rfl
  have first : (e ++ c1 ++ c2).take pubkeySize = e := by
    rw [append_assoc,take_left' he]
  have second : ((e ++ c1 ++ c2).drop pubkeySize).take (pubkeySize + tagSize) = c1 := by
    rw [append_assoc,drop_left' he,take_left' h1]
  have third : (e ++ c1 ++ c2).drop (pubkeySize + (pubkeySize + tagSize)) = c2 :=
    drop_left' (by simp [he,h1])
  have long1 : tagSize ≤ c1.length := by omega
  have long2 : tagSize ≤ c2.length := by simp [h2,epochEncryptedSize]
  simp only [readMessage1,first,second,third]
  simp [size,long1,long2,ikStatic,ikEpoch1,setSymmetric,and_assoc]

theorem writeMessage2_eq_ok :
    writeMessage2 P ephemeral st = .ok message t ↔
      st.role = .responder ∧ st.progress = .message1Done ∧
      ∃ re, st.remoteEphemeral = some re ∧ ∃ epoch, st.localEpoch = some epoch ∧
      ∃ c, c = P.aeadSeal (ikEpoch2 P st.symmetric (P.serialize (P.publicKey ephemeral))
          (P.ecdh ephemeral re) (P.ecdh st.staticKeypair re)).key 0 [] epoch.toList ∧
      message = P.serialize (P.publicKey ephemeral) ++ c ∧
      t = { st with
        progress := .complete
        ephemeralKeypair := some ephemeral
        symmetric := (ikEpoch2 P st.symmetric (P.serialize (P.publicKey ephemeral))
          (P.ecdh ephemeral re) (P.ecdh st.staticKeypair re)).afterAead P .sealed c } := by
  simp [writeMessage2,ikEpoch2,setSymmetric]

theorem readMessage2_eq_ok {c : Bytes} (he : e.length = pubkeySize) (hc : c.length = epochEncryptedSize) :
    readMessage2 P (e ++ c) st = .ok u t ↔
      st.role = .initiator ∧ st.progress = .message1Done ∧
      ∃ re, P.fromSlice e = some re ∧ ∃ ephemeral, st.ephemeralKeypair = some ephemeral ∧
      ∃ rs, st.remoteStatic = some rs ∧ ∃ m,
      P.aeadOpen (ikEpoch2 P st.symmetric e (P.ecdh ephemeral re) (P.ecdh ephemeral rs)).key 0 [] c =
        some m ∧ ∃ epoch, epochOfBytes m = some epoch ∧
      t = { st with
        progress := .complete
        remoteEphemeral := some re
        remoteEpoch := some epoch
        symmetric := (ikEpoch2 P st.symmetric e (P.ecdh ephemeral re) (P.ecdh ephemeral rs)).afterAead
          P .opened c } := by
  have size : e.length + c.length = handshakeMsg2Size := by rw [he,hc]; rfl
  have first : (e ++ c).take pubkeySize = e := take_left' he
  have second : (e ++ c).drop pubkeySize = c := drop_left' he
  have long : tagSize ≤ c.length := by simp [hc,epochEncryptedSize]
  simp only [readMessage2,first,second]
  simp [size,long,ikEpoch2,setSymmetric,and_assoc]

theorem writeXkMessage1_eq_ok :
    writeXkMessage1 P ephemeral st = .ok message t ↔
      st.role = .initiator ∧ st.progress = .initial ∧
      ∃ rs, st.remoteStatic = some rs ∧
      message = P.serialize (P.publicKey ephemeral) ∧
      t = { st with
        progress := .message1Done
        ephemeralKeypair := some ephemeral
        symmetric := (st.symmetric.mixHash P (P.serialize (P.publicKey ephemeral))).mixKey P
          (P.ecdh ephemeral rs) } := by
  simp [writeXkMessage1,setSymmetric]

theorem readXkMessage1_eq_ok (he : e.length = pubkeySize) :
    readXkMessage1 P e st = .ok u t ↔
      st.role = .responder ∧ st.progress = .initial ∧
      ∃ re, P.fromSlice e = some re ∧
      t = { st with
        progress := .message1Done
        remoteEphemeral := some re
        symmetric := (st.symmetric.mixHash P e).mixKey P (P.ecdh st.staticKeypair re) } := by
  have size : e.length = xkHandshakeMsg1Size := he
  have whole : e.take pubkeySize = e := take_of_length_le (by omega)
  simp [readXkMessage1,size,whole,setSymmetric]

theorem writeXkMessage2_eq_ok :
    writeXkMessage2 P ephemeral st = .ok message t ↔
      st.role = .responder ∧ st.progress = .message1Done ∧
      ∃ re, st.remoteEphemeral = some re ∧ ∃ epoch, st.localEpoch = some epoch ∧
      ∃ c, c = P.aeadSeal ((st.symmetric.mixHash P (P.serialize (P.publicKey ephemeral))).mixKey P
          (P.ecdh ephemeral re)).key 0 [] epoch.toList ∧
      message = P.serialize (P.publicKey ephemeral) ++ c ∧
      t = { st with
        progress := .message2Done
        ephemeralKeypair := some ephemeral
        symmetric := ((st.symmetric.mixHash P (P.serialize (P.publicKey ephemeral))).mixKey P
          (P.ecdh ephemeral re)).afterAead P .sealed c } := by
  simp [writeXkMessage2,setSymmetric]

theorem readXkMessage2_eq_ok {c : Bytes} (he : e.length = pubkeySize) (hc : c.length = epochEncryptedSize) :
    readXkMessage2 P (e ++ c) st = .ok u t ↔
      st.role = .initiator ∧ st.progress = .message1Done ∧
      ∃ re, P.fromSlice e = some re ∧ ∃ ephemeral, st.ephemeralKeypair = some ephemeral ∧ ∃ m,
      P.aeadOpen ((st.symmetric.mixHash P e).mixKey P (P.ecdh ephemeral re)).key 0 [] c = some m ∧
      ∃ epoch, epochOfBytes m = some epoch ∧
      t = { st with
        progress := .message2Done
        remoteEphemeral := some re
        remoteEpoch := some epoch
        symmetric := ((st.symmetric.mixHash P e).mixKey P (P.ecdh ephemeral re)).afterAead
          P .opened c } := by
  have size : e.length + c.length = xkHandshakeMsg2Size := by rw [he,hc]; rfl
  have first : (e ++ c).take pubkeySize = e := take_left' he
  have second : (e ++ c).drop pubkeySize = c := drop_left' he
  have long : tagSize ≤ c.length := by simp [hc,epochEncryptedSize]
  simp only [readXkMessage2,first,second]
  simp [size,long,setSymmetric,and_assoc]

/-- The static key is sealed under the key of message 2, with the next counter. -/
theorem writeXkMessage3_eq_ok [Neg SecretKey] (enc : P.EncodingLaws) (keyed : st.symmetric.Keyed) :
    writeXkMessage3 P st = .ok message t ↔
      st.role = .initiator ∧ st.progress = .message2Done ∧
      ∃ re, st.remoteEphemeral = some re ∧ ∃ epoch, st.localEpoch = some epoch ∧
      ∃ c1, c1 = P.aeadSeal st.symmetric.key st.symmetric.cipher.nonce []
          (P.serialize (P.publicKey st.staticKeypair)) ∧
      ∃ c2, c2 = P.aeadSeal (xkEpoch3 P .sealed st.symmetric c1 (P.ecdh st.staticKeypair re)).key 0 []
          epoch.toList ∧
      message = c1 ++ c2 ∧
      t = { st with
        progress := .complete
        symmetric := (xkEpoch3 P .sealed st.symmetric c1 (P.ecdh st.staticKeypair re)).afterAead
          P .sealed c2 } := by
  simp [writeXkMessage3,keyed,serialize_fits enc,xkEpoch3,setSymmetric]

theorem readXkMessage3_eq_ok (keyed : st.symmetric.Keyed) {c1 c2 : Bytes}
    (h1 : c1.length = pubkeySize + tagSize) (h2 : c2.length = epochEncryptedSize) :
    readXkMessage3 P (c1 ++ c2) st = .ok u t ↔
      st.role = .responder ∧ st.progress = .message2Done ∧ ∃ rs m1,
      P.aeadOpen st.symmetric.key st.symmetric.cipher.nonce [] c1 = some m1 ∧
      P.fromSlice m1 = some rs ∧ ∃ ephemeral, st.ephemeralKeypair = some ephemeral ∧ ∃ m2,
      P.aeadOpen (xkEpoch3 P .opened st.symmetric c1 (P.ecdh ephemeral rs)).key 0 [] c2 = some m2 ∧
      ∃ epoch, epochOfBytes m2 = some epoch ∧
      t = { st with
        progress := .complete
        remoteStatic := some rs
        remoteEpoch := some epoch
        symmetric := (xkEpoch3 P .opened st.symmetric c1 (P.ecdh ephemeral rs)).afterAead
          P .opened c2 } := by
  have size : c1.length + c2.length = xkHandshakeMsg3Size := by rw [h1,h2]; rfl
  have first : (c1 ++ c2).take (pubkeySize + tagSize) = c1 := take_left' h1
  have second : (c1 ++ c2).drop (pubkeySize + tagSize) = c2 := drop_left' h1
  have long1 : tagSize ≤ c1.length := by omega
  have long2 : tagSize ≤ c2.length := by simp [h2,epochEncryptedSize]
  rw [readXkMessage3,restoring_eq_ok]
  simp only [readXkMessage3InPlace,first,second]
  simp [keyed,size,long1,long2,xkEpoch3,setSymmetric,and_assoc]

end HandshakeState

end Fips.Noise
