import Fips.Noise.Replay
import Fips.Noise.Symmetric

set_option autoImplicit false

namespace Fips.Noise

inductive HandshakeRole where
  | initiator
  | responder
  deriving Repr, DecidableEq

def HandshakeRole.toString : HandshakeRole → String
  | .initiator => "initiator"
  | .responder => "responder"

inductive NoisePattern where
  | ik
  | xk
  deriving Repr, DecidableEq

inductive HandshakeProgress where
  | initial
  | message1Done
  | message2Done
  | complete
  deriving Repr, DecidableEq

def HandshakeProgress.toString : HandshakeProgress → String
  | .initial => "initial"
  | .message1Done => "message1_done"
  | .message2Done => "message2_done"
  | .complete => "complete"

def handshakeMsg1Size : Nat := pubkeySize + pubkeySize + tagSize + epochEncryptedSize
def handshakeMsg2Size : Nat := pubkeySize + epochEncryptedSize
def xkHandshakeMsg1Size : Nat := pubkeySize
def xkHandshakeMsg2Size : Nat := pubkeySize + epochEncryptedSize
def xkHandshakeMsg3Size : Nat := pubkeySize + tagSize + epochEncryptedSize

def asciiBytes (text : String) : Bytes := text.toList.map (fun c => c.toNat.toUInt8)

def protocolNameIk : Bytes := asciiBytes "Noise_IK_secp256k1_ChaChaPoly_SHA256"
def protocolNameXk : Bytes := asciiBytes "Noise_XK_secp256k1_ChaChaPoly_SHA256"

/-- A keypair is given by its secret key. -/
structure HandshakeState (SecretKey PublicKey : Type) where
  pattern : NoisePattern
  role : HandshakeRole
  progress : HandshakeProgress
  symmetric : SymmetricState
  staticKeypair : SecretKey
  ephemeralKeypair : Option SecretKey
  remoteStatic : Option PublicKey
  remoteEphemeral : Option PublicKey
  localEpoch : Option Epoch
  remoteEpoch : Option Epoch

structure NoiseSession (PublicKey : Type) where
  role : HandshakeRole
  sendCipher : CipherState
  sendCounter : Nat
  recvCipher : CipherState
  handshakeHash : Bytes
  remoteStatic : PublicKey
  remoteEpoch : Epoch
  replayWindow : ReplayWindow

namespace HandshakeState
variable {SecretKey PublicKey : Type} (P : Primitives SecretKey PublicKey)

/-- A method on `&mut self`: what it has changed before failing stays changed. -/
abbrev Method (SecretKey PublicKey α : Type) := EStateM Fault (HandshakeState SecretKey PublicKey) α

def normalizeForPremessage (pubkey : PublicKey) : Bytes := 0x02 :: (P.serialize pubkey).tail

/-- The common part of the four constructors: the responder's static key, normalized,
is mixed into the hash before any message. -/
def start (pattern : NoisePattern) (role : HandshakeRole) (protocolName : Bytes)
    (staticKeypair : SecretKey) (remoteStatic : Option PublicKey) (responderStatic : PublicKey) :
    HandshakeState SecretKey PublicKey where
  pattern := pattern
  role := role
  progress := .initial
  symmetric := (SymmetricState.initializeWith P protocolName).mixHash P
    (normalizeForPremessage P responderStatic)
  staticKeypair := staticKeypair
  ephemeralKeypair := none
  remoteStatic := remoteStatic
  remoteEphemeral := none
  localEpoch := none
  remoteEpoch := none

section Roles

variable (staticKeypair : SecretKey)

def newInitiator (remoteStatic : PublicKey) :
    HandshakeState SecretKey PublicKey :=
  start P .ik .initiator protocolNameIk staticKeypair (some remoteStatic) remoteStatic

def newResponder : HandshakeState SecretKey PublicKey :=
  start P .ik .responder protocolNameIk staticKeypair none (P.publicKey staticKeypair)

def newXkInitiator (remoteStatic : PublicKey) :
    HandshakeState SecretKey PublicKey :=
  start P .xk .initiator protocolNameXk staticKeypair (some remoteStatic) remoteStatic

def newXkResponder : HandshakeState SecretKey PublicKey :=
  start P .xk .responder protocolNameXk staticKeypair none (P.publicKey staticKeypair)

end Roles

variable (st : HandshakeState SecretKey PublicKey)

def isComplete : Bool := st.progress = .complete

def setLocalEpoch (epoch : Epoch) :
    HandshakeState SecretKey PublicKey := { st with localEpoch := some epoch }

def handshakeHash : Bytes := st.symmetric.handshakeHash

def setSymmetric (s : SymmetricState) :
    HandshakeState SecretKey PublicKey := { st with symmetric := s }

def onSymmetric {α : Type} (x : EStateM Fault SymmetricState α) : Method SecretKey PublicKey α :=
  EStateM.zoom HandshakeState.symmetric setSymmetric x

def mixHash (data : Bytes) : Method SecretKey PublicKey Unit :=
  modify fun st => st.setSymmetric (st.symmetric.mixHash P data)

def mixKey (ikm : Bytes) : Method SecretKey PublicKey Unit :=
  modify fun st => st.setSymmetric (st.symmetric.mixKey P ikm)

def encryptAndHash (plaintext : Bytes) : Method SecretKey PublicKey Bytes :=
  onSymmetric (SymmetricState.encryptAndHash P plaintext)

def decryptAndHash (ciphertext : Bytes) : Method SecretKey PublicKey Bytes :=
  onSymmetric (SymmetricState.decryptAndHash P ciphertext)

def expect {α : Type} (message : String) : Option α → Method SecretKey PublicKey α :=
  EStateM.getOrThrow (.panic message)

def requireRole (role : HandshakeRole) : Method SecretKey PublicKey Unit := do
  let st ← get
  EStateM.guardOrThrow (st.role = role) (.error (.wrongState role.toString st.role.toString))

def requireProgress (progress : HandshakeProgress) : Method SecretKey PublicKey Unit := do
  let st ← get
  EStateM.guardOrThrow (st.progress = progress)
    (.error (.wrongState progress.toString st.progress.toString))

def requireSize (size : Nat) (message : Bytes) : Method SecretKey PublicKey Unit :=
  EStateM.guardOrThrow (message.length = size) (.error (.messageTooShort size message.length))

/-- The `e` token on the sending side; the random secret is an argument. -/
def writeEphemeral (ephemeral : SecretKey) : Method SecretKey PublicKey Bytes := do
  modify fun st => { st with ephemeralKeypair := some ephemeral }
  let ePub := P.serialize (P.publicKey ephemeral)
  mixHash P ePub
  return ePub

def readEphemeral (bytes : Bytes) : Method SecretKey PublicKey PublicKey := do
  let re ← EStateM.getOrThrow (.error .invalidPublicKey) (P.fromSlice bytes)
  modify fun st => { st with remoteEphemeral := some re }
  mixHash P bytes
  return re

def readStatic (encryptedStatic : Bytes) : Method SecretKey PublicKey PublicKey := do
  let decryptedStatic ← decryptAndHash P encryptedStatic
  let rs ← EStateM.getOrThrow (.error .invalidPublicKey) (P.fromSlice decryptedStatic)
  modify fun st => { st with remoteStatic := some rs }
  return rs

/-- `copy_from_slice` into `[u8; EPOCH_SIZE]` panics on any other length. -/
def epochOfBytes (bytes : Bytes) : Option Epoch :=
  if h : bytes.length = 8 then some ⟨bytes.toArray,by simpa using h⟩ else none

def readEpoch (encryptedEpoch : Bytes) : Method SecretKey PublicKey Unit := do
  let decryptedEpoch ← decryptAndHash P encryptedEpoch
  let epoch ← expect "source slice length does not match destination slice length"
    (epochOfBytes decryptedEpoch)
  modify fun st => { st with remoteEpoch := some epoch }

def setProgress (progress : HandshakeProgress) : Method SecretKey PublicKey Unit :=
  modify fun st => { st with progress := progress }

def writeMessage1 (ephemeral : SecretKey) : Method SecretKey PublicKey Bytes := do
  requireRole .initiator
  requireProgress .initial
  let st ← get
  let remoteStatic ← expect "initiator must have remote static" st.remoteStatic
  let epoch ← expect "local epoch must be set before write_message_1" st.localEpoch
  let ePub ← writeEphemeral P ephemeral
  -- es
  mixKey P (P.ecdh ephemeral remoteStatic)
  let encryptedStatic ← encryptAndHash P (P.serialize (P.publicKey st.staticKeypair))
  -- ss
  mixKey P (P.ecdh st.staticKeypair remoteStatic)
  let encryptedEpoch ← encryptAndHash P epoch.toList
  setProgress .message1Done
  return ePub ++ encryptedStatic ++ encryptedEpoch

section Messages

variable (message : Bytes)

def readMessage1 : Method SecretKey PublicKey Unit := do
  requireRole .responder
  requireProgress .initial
  requireSize handshakeMsg1Size message
  let st ← get
  let re ← readEphemeral P (message.take pubkeySize)
  -- es
  mixKey P (P.ecdh st.staticKeypair re)
  let rs ← readStatic P ((message.drop pubkeySize).take (pubkeySize + tagSize))
  -- ss
  mixKey P (P.ecdh st.staticKeypair rs)
  readEpoch P (message.drop (pubkeySize + (pubkeySize + tagSize)))
  setProgress .message1Done

def writeMessage2 (ephemeral : SecretKey) : Method SecretKey PublicKey Bytes := do
  requireRole .responder
  requireProgress .message1Done
  let st ← get
  let re ← expect "should have remote ephemeral" st.remoteEphemeral
  let epoch ← expect "local epoch must be set before write_message_2" st.localEpoch
  let ePub ← writeEphemeral P ephemeral
  -- ee
  mixKey P (P.ecdh ephemeral re)
  -- the source names this one se
  mixKey P (P.ecdh st.staticKeypair re)
  let encryptedEpoch ← encryptAndHash P epoch.toList
  setProgress .complete
  return ePub ++ encryptedEpoch

def readMessage2 : Method SecretKey PublicKey Unit := do
  requireRole .initiator
  requireProgress .message1Done
  requireSize handshakeMsg2Size message
  let st ← get
  let re ← readEphemeral P (message.take pubkeySize)
  let ephemeral ← expect "called `Option::unwrap()` on a `None` value" st.ephemeralKeypair
  -- ee
  mixKey P (P.ecdh ephemeral re)
  let rs ← expect "initiator has remote static" st.remoteStatic
  -- the source names this one se
  mixKey P (P.ecdh ephemeral rs)
  readEpoch P (message.drop pubkeySize)
  setProgress .complete

/-- The fields that `try_read_message_2` and `try_read_xk_message_2` put back. -/
def restoreMessage2 (before after : HandshakeState SecretKey PublicKey) :
    HandshakeState SecretKey PublicKey :=
  { after with
    symmetric := before.symmetric
    remoteEphemeral := before.remoteEphemeral
    remoteEpoch := before.remoteEpoch
    progress := before.progress }

def tryReadMessage2 : Method SecretKey PublicKey Unit :=
  EStateM.restoring restoreMessage2 (readMessage2 P message)

def writeXkMessage1 (ephemeral : SecretKey) : Method SecretKey PublicKey Bytes := do
  requireRole .initiator
  requireProgress .initial
  let st ← get
  let remoteStatic ← expect "initiator must have remote static" st.remoteStatic
  let ePub ← writeEphemeral P ephemeral
  -- es
  mixKey P (P.ecdh ephemeral remoteStatic)
  setProgress .message1Done
  return ePub

def readXkMessage1 : Method SecretKey PublicKey Unit := do
  requireRole .responder
  requireProgress .initial
  requireSize xkHandshakeMsg1Size message
  let st ← get
  let re ← readEphemeral P (message.take pubkeySize)
  -- es
  mixKey P (P.ecdh st.staticKeypair re)
  setProgress .message1Done

def writeXkMessage2 (ephemeral : SecretKey) : Method SecretKey PublicKey Bytes := do
  requireRole .responder
  requireProgress .message1Done
  let st ← get
  let re ← expect "should have remote ephemeral" st.remoteEphemeral
  let epoch ← expect "local epoch must be set before write_xk_message_2" st.localEpoch
  let ePub ← writeEphemeral P ephemeral
  -- ee
  mixKey P (P.ecdh ephemeral re)
  let encryptedEpoch ← encryptAndHash P epoch.toList
  setProgress .message2Done
  return ePub ++ encryptedEpoch

def readXkMessage2 : Method SecretKey PublicKey Unit := do
  requireRole .initiator
  requireProgress .message1Done
  requireSize xkHandshakeMsg2Size message
  let st ← get
  let re ← readEphemeral P (message.take pubkeySize)
  let ephemeral ← expect "called `Option::unwrap()` on a `None` value" st.ephemeralKeypair
  -- ee
  mixKey P (P.ecdh ephemeral re)
  readEpoch P (message.drop pubkeySize)
  setProgress .message2Done

def tryReadXkMessage2 : Method SecretKey PublicKey Unit :=
  EStateM.restoring restoreMessage2 (readXkMessage2 P message)

def writeXkMessage3 : Method SecretKey PublicKey Bytes := do
  requireRole .initiator
  requireProgress .message2Done
  let st ← get
  let re ← expect "should have remote ephemeral after msg2" st.remoteEphemeral
  let epoch ← expect "local epoch must be set before write_xk_message_3" st.localEpoch
  let encryptedStatic ← encryptAndHash P (P.serialize (P.publicKey st.staticKeypair))
  -- se
  mixKey P (P.ecdh st.staticKeypair re)
  let encryptedEpoch ← encryptAndHash P epoch.toList
  setProgress .complete
  return encryptedStatic ++ encryptedEpoch

def readXkMessage3InPlace : Method SecretKey PublicKey Unit := do
  requireRole .responder
  requireProgress .message2Done
  requireSize xkHandshakeMsg3Size message
  let st ← get
  let rs ← readStatic P (message.take (pubkeySize + tagSize))
  let ephemeral ← expect "should have ephemeral after msg2" st.ephemeralKeypair
  -- se
  mixKey P (P.ecdh ephemeral rs)
  readEpoch P (message.drop (pubkeySize + tagSize))
  setProgress .complete

/-- The fields that `read_xk_message_3` puts back. -/
def restoreMessage3 (before after : HandshakeState SecretKey PublicKey) :
    HandshakeState SecretKey PublicKey :=
  { after with
    symmetric := before.symmetric
    progress := before.progress
    remoteStatic := before.remoteStatic
    remoteEpoch := before.remoteEpoch }

def readXkMessage3 : Method SecretKey PublicKey Unit :=
  EStateM.restoring restoreMessage3 (readXkMessage3InPlace P message)

end Messages

def intoSession : Except Fault (NoiseSession PublicKey) :=
  if st.isComplete then
    let ciphers := st.symmetric.split P
    match st.remoteStatic, st.remoteEpoch with
    | none, _ => .error (.panic "remote static must be known after handshake")
    | some _, none => .error (.panic "remote epoch must be known after handshake")
    | some remoteStatic, some remoteEpoch =>
      let (sendCipher,recvCipher) := match st.role with
        | .initiator => (ciphers.1,ciphers.2)
        | .responder => (ciphers.2,ciphers.1)
      .ok {
        role := st.role
        sendCipher := sendCipher
        sendCounter := sendCipher.nonce
        recvCipher := recvCipher
        handshakeHash := st.handshakeHash
        remoteStatic := remoteStatic
        remoteEpoch := remoteEpoch
        replayWindow := ReplayWindow.new }
  else .error (.error .handshakeNotComplete)

end HandshakeState

end Fips.Noise
