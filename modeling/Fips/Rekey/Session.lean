import Fips.Basic
import Fips.Lib.Rollover

set_option autoImplicit false

namespace Fips.Rekey
open Rollover

/-- A Noise session is known by the two ephemeral keys it was made from. -/
abbrev NoiseSession := Rollover.Session

/-- An XK handshake under way. -/
abbrev HandshakeState := Rollover.Armed

/-- Message 2 opens only for the ephemeral key it answers. -/
def tryReadXkMessage2 : HandshakeState → NoiseSession → Option NoiseSession
  | .initiator e,session => if session.initiator = e then some session else none
  | .responder _,_ => none

/-- Message 3 opens only in the handshake it ends. -/
def readXkMessage3 : HandshakeState → NoiseSession → Option NoiseSession
  | .responder own,session => if session = own then some session else none
  | .initiator _,_ => none

/-- An established entry. Its payloads are the messages they encode and times are
milliseconds; what only decides when a routine rekey is due is left out. -/
structure SessionEntry where
  current : NoiseSession
  isInitiator : Bool
  handshakePayload : Option Message
  resendCount : Nat
  nextResendAtMs : Nat
  currentKBit : Bool
  drainStartedMs : Nat
  rekeyState : Option HandshakeState
  pendingNewSession : Option NoiseSession
  rekeyHandshakeInitiator : Bool
  pendingRekeyInitiator : Bool
  rekeyCompletedMs : Nat
  rekeyProbeLastMs : Nat
  rekeyMsg3Payload : Option Message
  rekeyMsg3NextResendMs : Nat
  rekeyMsg3ResendCount : Nat
  deriving DecidableEq

namespace SessionEntry

def established (session : NoiseSession) (isInitiator : Bool) (payload : Option Message)
    (nextResendAtMs : Nat) :
    SessionEntry where
  current := session
  isInitiator := isInitiator
  handshakePayload := payload
  resendCount := 0
  nextResendAtMs := nextResendAtMs
  currentKBit := false
  drainStartedMs := 0
  rekeyState := none
  pendingNewSession := none
  rekeyHandshakeInitiator := false
  pendingRekeyInitiator := false
  rekeyCompletedMs := 0
  rekeyProbeLastMs := 0
  rekeyMsg3Payload := none
  rekeyMsg3NextResendMs := 0
  rekeyMsg3ResendCount := 0

variable (s : SessionEntry)

def hasRekeyInProgress : Bool := s.rekeyState.isSome

def setHandshakePayload (payload : Message) (nextResendAtMs : Nat) : SessionEntry :=
  { s with handshakePayload := some payload, resendCount := 0, nextResendAtMs }

def clearHandshakePayload : SessionEntry :=
  { s with handshakePayload := none, nextResendAtMs := 0 }

def stopHandshakeRetransmit : SessionEntry := { s with nextResendAtMs := 0 }

def recordResend (nextResendAtMs : Nat) : SessionEntry :=
  { s with resendCount := s.resendCount + 1, nextResendAtMs }

def setRekeyCompletedMs (ms : Nat) : SessionEntry :=
  { s with rekeyCompletedMs := ms, rekeyProbeLastMs := 0 }

def rekeyProbeDue (nowMs initialDelayMs intervalMs : Nat) : Bool :=
  initialDelayMs ≤ nowMs - s.rekeyCompletedMs ∧
    (s.rekeyProbeLastMs = 0 ∨ intervalMs ≤ nowMs - s.rekeyProbeLastMs)

def recordRekeyProbe (nowMs : Nat) : SessionEntry := { s with rekeyProbeLastMs := nowMs }

def setRekeyMsg3Payload (payload : Message) (nextResendAtMs : Nat) : SessionEntry :=
  { s with
    rekeyMsg3Payload := some payload
    rekeyMsg3NextResendMs := nextResendAtMs
    rekeyMsg3ResendCount := 0 }

def recordRekeyMsg3Resend (nextResendAtMs : Nat) : SessionEntry :=
  { s with rekeyMsg3ResendCount := s.rekeyMsg3ResendCount + 1, rekeyMsg3NextResendMs := nextResendAtMs }

def clearRekeyMsg3Payload : SessionEntry :=
  { s with rekeyMsg3Payload := none, rekeyMsg3NextResendMs := 0, rekeyMsg3ResendCount := 0 }

def stopRekeyMsg3Retransmit : SessionEntry :=
  let s := s.clearRekeyMsg3Payload
  if s.pendingNewSession.isNone then { s with rekeyCompletedMs := 0, rekeyProbeLastMs := 0 } else s

def clearDataplaneConfirmedFspRetransmits : SessionEntry :=
  let s := if s.rekeyMsg3Payload.isSome && s.pendingNewSession.isNone then s.clearRekeyMsg3Payload else s
  if s.handshakePayload.isSome && s.pendingNewSession.isNone && !s.hasRekeyInProgress then
    s.clearHandshakePayload
  else s

def setPendingSession (session : NoiseSession) : SessionEntry :=
  { s with
    pendingNewSession := some session
    pendingRekeyInitiator := s.rekeyHandshakeInitiator
    rekeyState := none
    rekeyHandshakeInitiator := false }.clearRekeyMsg3Payload

def setRekeyState (state : HandshakeState) (isInitiator : Bool) : SessionEntry :=
  { s with rekeyState := some state, rekeyHandshakeInitiator := isInitiator }

def promotePending (nowMs : Nat) : SessionEntry :=
  match s.pendingNewSession with
  | none => s
  | some newSession =>
    { s with
      pendingNewSession := none
      drainStartedMs := nowMs
      current := newSession
      currentKBit := !s.currentKBit
      rekeyState := none
      rekeyHandshakeInitiator := false
      pendingRekeyInitiator := false
      rekeyCompletedMs := 0
      rekeyProbeLastMs := 0 }.clearHandshakePayload

/-- Nothing unless a pending session was received under the other K bit. -/
def cutoverToAuthenticatedPendingEpoch (nowMs : Nat) (receivedKBit : Bool) : Option SessionEntry :=
  if s.pendingNewSession.isNone || receivedKBit == s.currentKBit then none
  else some (s.promotePending nowMs).clearRekeyMsg3Payload

def isDraining : Bool := 0 < s.drainStartedMs

def drainExpired (nowMs drainMs : Nat) : Bool :=
  s.drainStartedMs ≠ 0 ∧ drainMs ≤ nowMs - s.drainStartedMs

def completeDrain : SessionEntry := { s with drainStartedMs := 0 }

def pendingStale (nowMs staleMs : Nat) : Bool :=
  s.pendingNewSession.isSome ∧ s.rekeyCompletedMs ≠ 0 ∧ staleMs < nowMs - s.rekeyCompletedMs

def abandonHandshake : SessionEntry :=
  { s.clearHandshakePayload with rekeyState := none, rekeyHandshakeInitiator := false }

def pendingRekeyOutranksSetup (nowMs staleMs : Nat) : Bool :=
  s.pendingNewSession.isSome && !s.pendingStale nowMs staleMs

def duplicateRekeyResponderAck : Option Message :=
  if s.hasRekeyInProgress && !s.rekeyHandshakeInitiator then s.handshakePayload else none

/-- A rekey may start beside a completed pending session. -/
def prepareSessionRekeyInitiation : Bool := !(s.hasRekeyInProgress || s.isDraining)

def installRekeyInitiatorPendingSession (session : NoiseSession) (msg3 : Message)
    (nowMs resendIntervalMs : Nat) : SessionEntry :=
  ((((s.setPendingSession session).setRekeyCompletedMs nowMs).clearHandshakePayload).setRekeyMsg3Payload msg3
    (nowMs + resendIntervalMs))

def installRekeyResponderPendingSession (session : NoiseSession) (nowMs : Nat) : SessionEntry :=
  ((s.setPendingSession session).setRekeyCompletedMs nowMs).clearHandshakePayload

end SessionEntry

end Fips.Rekey
