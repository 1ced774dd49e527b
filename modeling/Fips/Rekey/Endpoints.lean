import Fips.Rekey.Session

set_option autoImplicit false

namespace Fips.Rekey
open Rollover

structure Config where
  addr : Side → NodeAddr
  staleMs : Nat
  drainMs : Nat
  probeDelayMs : Nat
  probeIntervalMs : Nat
  resendIntervalMs : Nat
  maxResends : Nat

/-- One side: its entry for the other, the sessions it has left (latest first), the
ephemeral keys it has drawn and all it has ever sent. -/
structure Endpoint where
  entry : SessionEntry
  past : List NoiseSession
  drawn : Nat
  sent : List Message

namespace Endpoint

/-- A send that fails locally is a message that the network loses. -/
def send (p : Endpoint) (m : Message) : Endpoint := { p with sent := m :: p.sent }

def mapEntry (p : Endpoint) (f : SessionEntry → SessionEntry) : Endpoint := { p with entry := f p.entry }

section Handlers
variable (c : Config) (x : Side)
variable (nowMs : Nat) (p : Endpoint)

def initiateSessionRekey : Endpoint :=
  if p.entry.prepareSessionRekeyInitiation then
    let e : Ephemeral := ⟨x,p.drawn⟩
    { p with
      entry := (p.entry.setRekeyState (.initiator e) true).setHandshakePayload (.setup e)
        (nowMs + c.resendIntervalMs)
      drawn := p.drawn + 1 }.send (.setup e)
  else p

/-- `install_rekey_responder_awaiting_msg3` and the answer -/
def armResponder (e : Ephemeral) (p : Endpoint) : Endpoint :=
  let session : NoiseSession := ⟨e,⟨x,p.drawn⟩⟩
  { p with
    entry := (p.entry.setRekeyState (.responder session) false).setHandshakePayload (.ack session)
      (nowMs + c.resendIntervalMs)
    drawn := p.drawn + 1 }.send (.ack session)

def handleSessionSetup (e : Ephemeral) (p : Endpoint) : Endpoint :=
  if p.entry.isDraining then p
  else if p.entry.isInitiator && !p.entry.hasRekeyInProgress && p.entry.pendingNewSession.isNone &&
      p.entry.handshakePayload.isSome then p
  else if p.entry.hasRekeyInProgress then
    match p.entry.duplicateRekeyResponderAck with
    | some payload => (p.send payload).mapEntry fun entry => entry.recordResend (nowMs + c.resendIntervalMs)
    | none =>
      if c.addr x < c.addr x.other then p
      else (p.mapEntry SessionEntry.abandonHandshake).armResponder c x nowMs e
  else if p.entry.pendingRekeyOutranksSetup nowMs c.staleMs then p
  else p.armResponder c x nowMs e

def handleSessionAck (session : NoiseSession) (p : Endpoint) : Endpoint :=
  if p.entry.hasRekeyInProgress && p.entry.rekeyHandshakeInitiator then
    match p.entry.rekeyState with
    | none => p
    | some handshake =>
      match tryReadXkMessage2 handshake session with
      | none => p.mapEntry fun entry => entry.setRekeyState handshake true
      | some session =>
        (p.mapEntry fun entry => entry.installRekeyInitiatorPendingSession session (.msg3 session) nowMs
          c.resendIntervalMs).send (.msg3 session)
  else
    match p.entry.handshakePayload with
    | some payload => p.send payload
    | none => p

def handleSessionMsg3 (session : NoiseSession) (p : Endpoint) : Endpoint :=
  if p.entry.hasRekeyInProgress && !p.entry.rekeyHandshakeInitiator then
    match p.entry.rekeyState with
    | none => p
    | some handshake =>
      match readXkMessage3 handshake session with
      | none => p.mapEntry SessionEntry.abandonHandshake
      | some session => p.mapEntry fun entry => entry.installRekeyResponderPendingSession session nowMs
  else p

/-- `promote_dataplane_authenticated_pending_fsp_epoch`; a frame of another session
leaves the entry alone. -/
def receiveFrame (session : NoiseSession) (receivedKBit : Bool) (p : Endpoint) : Endpoint :=
  if p.entry.pendingNewSession = some session then
    match p.entry.cutoverToAuthenticatedPendingEpoch nowMs receivedKBit with
    | some entry => { p with entry, past := p.entry.current :: p.past }
    | none => p
  else p

def receive : Message → Endpoint
  | .setup e => p.handleSessionSetup c x nowMs e
  | .ack session => p.handleSessionAck c nowMs session
  | .msg3 session => p.handleSessionMsg3 nowMs session
  | .frame session kBit => p.receiveFrame nowMs session kBit

/-- The probe branch of the rekey tick. -/
def probePendingEpoch : Endpoint :=
  match p.entry.pendingNewSession with
  | none => p
  | some session =>
    if !p.entry.isDraining && !p.entry.hasRekeyInProgress && p.entry.pendingRekeyInitiator &&
        p.entry.rekeyProbeDue nowMs c.probeDelayMs c.probeIntervalMs then
      (p.mapEntry fun entry => entry.recordRekeyProbe nowMs).send (.frame session (!p.entry.currentKBit))
    else p

def sendData : Endpoint := p.send (.frame p.entry.current p.entry.currentKBit)

def completeDueSessionRekeyDrain : Endpoint :=
  if p.entry.isDraining && p.entry.drainExpired nowMs c.drainMs then
    p.mapEntry SessionEntry.completeDrain else p

/-- A due handshake message is repeated; the next time comes from a backoff. -/
def resendHandshake (nowMs nextMs : Nat) (p : Endpoint) : Endpoint :=
  match p.entry.handshakePayload with
  | none => p
  | some payload =>
    if p.entry.resendCount < c.maxResends ∧ 0 < p.entry.nextResendAtMs ∧ p.entry.nextResendAtMs ≤ nowMs then
      (p.send payload).mapEntry fun entry => entry.recordResend nextMs
    else p

def exhaustEstablishedHandshakeResendBudget : Endpoint :=
  if p.entry.handshakePayload.isSome ∧ 0 < p.entry.nextResendAtMs ∧ p.entry.nextResendAtMs ≤ nowMs ∧
      c.maxResends ≤ p.entry.resendCount then
    p.mapEntry fun entry =>
      if entry.hasRekeyInProgress then entry.abandonHandshake else entry.stopHandshakeRetransmit
  else p

def resendRekeyMsg3 (nowMs nextMs : Nat) (p : Endpoint) : Endpoint :=
  match p.entry.rekeyMsg3Payload with
  | none => p
  | some payload =>
    if 0 < p.entry.rekeyMsg3NextResendMs ∧ p.entry.rekeyMsg3NextResendMs ≤ nowMs ∧
        p.entry.rekeyMsg3ResendCount < c.maxResends then
      (p.send payload).mapEntry fun entry => entry.recordRekeyMsg3Resend nextMs
    else p

def exhaustDueRekeyMsg3ResendBudget : Endpoint :=
  if p.entry.rekeyMsg3Payload.isSome ∧ 0 < p.entry.rekeyMsg3NextResendMs ∧
    p.entry.rekeyMsg3NextResendMs ≤ nowMs ∧
      c.maxResends ≤ p.entry.rekeyMsg3ResendCount then
    p.mapEntry SessionEntry.stopRekeyMsg3Retransmit
  else p

end Handlers

end Endpoint

/-- What one side can do next; a delivery names any message the other has sent. -/
inductive Action where
  | initiate (nowMs : Nat)
  | deliver (index nowMs : Nat)
  | data
  | probe (nowMs : Nat)
  | drain (nowMs : Nat)
  | resendHandshake (nowMs nextMs : Nat)
  | exhaustHandshake (nowMs : Nat)
  | resendMsg3 (nowMs nextMs : Nat)
  | exhaustMsg3 (nowMs : Nat)
  | confirmRetransmits
  deriving Repr, DecidableEq

def act (c : Config) (x : Side) (received : List Message) (p : Endpoint) : Action → Endpoint
  | .initiate nowMs => p.initiateSessionRekey c x nowMs
  | .deliver index nowMs =>
    match received[index]? with
    | some m => p.receive c x nowMs m
    | none => p
  | .data => p.sendData
  | .probe nowMs => p.probePendingEpoch c nowMs
  | .drain nowMs => p.completeDueSessionRekeyDrain c nowMs
  | .resendHandshake nowMs nextMs => p.resendHandshake c nowMs nextMs
  | .exhaustHandshake nowMs => p.exhaustEstablishedHandshakeResendBudget c nowMs
  | .resendMsg3 nowMs nextMs => p.resendRekeyMsg3 c nowMs nextMs
  | .exhaustMsg3 nowMs => p.exhaustDueRekeyMsg3ResendBudget c nowMs
  | .confirmRetransmits => p.mapEntry SessionEntry.clearDataplaneConfirmedFspRetransmits

structure Endpoints where
  a : Endpoint
  b : Endpoint

namespace Endpoints

def step (c : Config) (s : Endpoints) : Side × Action → Endpoints
  | (.a,action) => { s with a := act c .a s.b.sent s.a action }
  | (.b,action) => { s with b := act c .b s.a.sent s.b action }

def run (c : Config) (s : Endpoints) (ops : List (Side × Action)) : Endpoints := ops.foldl (step c) s

/-- Both sides hold the session that `initiator` set up; either may still keep the
last message it sent for that. -/
def start (initiator : Side) (payloads : Side → Bool) (nextResendAtMs : Nat) : Endpoints :=
  let session : NoiseSession := ⟨⟨initiator,0⟩,⟨initiator.other,0⟩⟩
  let first : Endpoint :=
    ⟨.established session true (if payloads initiator then some (.msg3 session) else none)
      nextResendAtMs,[],1,[.msg3 session,.setup session.initiator]⟩
  let second : Endpoint :=
    ⟨.established session false (if payloads initiator.other then some (.ack session) else none)
      nextResendAtMs,[],1,[.ack session]⟩
  match initiator with
  | .a => ⟨first,second⟩
  | .b => ⟨second,first⟩

end Endpoints

end Fips.Rekey
