import Fips.Basic
import Fips.Lib.OrderedMap

set_option autoImplicit false

/-! The FMP sessions of an active peer and the receive indices they own. -/

namespace Fips.Peer

abbrev TransportId := Nat

abbrev SessionIndex := Nat

/-- The key under which a received frame finds its peer. -/
abbrev SessionKey := TransportId ×ₗ SessionIndex

/-- What the lifecycle asks of a Noise handshake. A rejected message leaves the handshake as it was. -/
structure Exchange (H S : Type) where
  tryReadMessage2 : H → List UInt8 → Option H
  intoSession : H → Option S

structure ActivePeer (S H : Type) where
  transportId : Option TransportId
  currentAddr : Option (List UInt8)
  noiseSession : Option S
  ourIndex : Option SessionIndex
  theirIndex : Option SessionIndex
  currentKBit : Bool
  previousSession : Option S
  previousKBit : Option Bool
  previousOurIndex : Option SessionIndex
  previousTransportId : Option TransportId
  drainStarted : Option Nat
  pendingNewSession : Option S
  pendingOurIndex : Option SessionIndex
  pendingTheirIndex : Option SessionIndex
  pendingRekeyInitiator : Bool
  pendingRekeyCompletedAt : Option Nat
  rekeyInProgress : Bool
  rekeyHandshake : Option H
  rekeyOurIndex : Option SessionIndex
  rekeyMsg1 : Option (List UInt8)
  rekeyMsg1NextResend : Nat
  rekeyMsg1ResendCount : Nat
  deriving DecidableEq

inductive PeerSessionIndexKind where
  | current
  | rekey
  | pending
  | previous
  deriving DecidableEq, Repr

structure PeerSessionIndex where
  kind : PeerSessionIndexKind
  key : SessionKey
  index : SessionIndex
  deriving DecidableEq

namespace ActivePeer

variable {S H : Type}

def withSession (session : S) (ourIndex theirIndex : SessionIndex) (transportId : TransportId)
    (currentAddr : List UInt8) : ActivePeer S H where
  transportId := some transportId
  currentAddr := some currentAddr
  noiseSession := some session
  ourIndex := some ourIndex
  theirIndex := some theirIndex
  currentKBit := false
  previousSession := none
  previousKBit := none
  previousOurIndex := none
  previousTransportId := none
  drainStarted := none
  pendingNewSession := none
  pendingOurIndex := none
  pendingTheirIndex := none
  pendingRekeyInitiator := false
  pendingRekeyCompletedAt := none
  rekeyInProgress := false
  rekeyHandshake := none
  rekeyOurIndex := none
  rekeyMsg1 := none
  rekeyMsg1NextResend := 0
  rekeyMsg1ResendCount := 0

variable (p : ActivePeer S H)

def unconfirmedRekeyExpired (now timeout : Nat) : Bool :=
  !p.pendingRekeyInitiator && p.pendingNewSession.isSome &&
    p.pendingRekeyCompletedAt.any fun completed => timeout ≤ now - completed

def pendingRekeyCutoverDue (now delay : Nat) : Bool :=
  p.pendingRekeyInitiator && p.pendingRekeyCompletedAt.any fun completed => delay ≤ now - completed

def setPendingSession (session : S) (ourIndex theirIndex : SessionIndex)
    (initiatedByLocal : Bool) (now : Nat) : ActivePeer S H :=
  { p with
    pendingNewSession := some session
    pendingOurIndex := some ourIndex
    pendingTheirIndex := some theirIndex
    pendingRekeyInitiator := initiatedByLocal
    pendingRekeyCompletedAt := some now
    rekeyInProgress := false
    -- the index now lives in the pending session
    rekeyOurIndex := none
    rekeyHandshake := none
    rekeyMsg1 := none
    rekeyMsg1NextResend := 0
    rekeyMsg1ResendCount := 0 }

def confirmPendingSession (receivedKBit : Bool) (now : Nat) : Option (ActivePeer S H) :=
  match p.pendingNewSession with
  | none => none
  | some session => some
    { p with
      pendingNewSession := none
      pendingOurIndex := none
      pendingTheirIndex := none
      previousSession := p.noiseSession
      previousKBit := some p.currentKBit
      previousOurIndex := p.ourIndex
      previousTransportId := p.transportId
      drainStarted := some now
      noiseSession := some session
      ourIndex := p.pendingOurIndex
      theirIndex := p.pendingTheirIndex
      pendingRekeyInitiator := false
      pendingRekeyCompletedAt := none
      currentKBit := receivedKBit
      rekeyInProgress := false
      rekeyMsg1ResendCount := 0 }

def drainExpired (now drain : Nat) : Bool :=
  p.drainStarted.any fun started => drain ≤ now - started

def isDraining : Bool := p.drainStarted.isSome

def completeDrain : Option SessionIndex × ActivePeer S H :=
  (p.previousOurIndex,
    { p with
      previousSession := none
      previousKBit := none
      drainStarted := none
      previousTransportId := none
      previousOurIndex := none })

/-- Both indices are taken; one of them is given to the caller. -/
def abandonRekey : Option SessionIndex × ActivePeer S H :=
  (p.rekeyOurIndex.or p.pendingOurIndex,
    { p with
      rekeyHandshake := none
      rekeyMsg1 := none
      rekeyMsg1NextResend := 0
      rekeyMsg1ResendCount := 0
      rekeyInProgress := false
      pendingNewSession := none
      pendingTheirIndex := none
      pendingRekeyInitiator := false
      pendingRekeyCompletedAt := none
      rekeyOurIndex := none
      pendingOurIndex := none })

def setRekeyState (handshake : H) (ourIndex : SessionIndex) (wireMsg1 : List UInt8)
    (nextResend : Nat) : ActivePeer S H :=
  { p with
    rekeyHandshake := some handshake
    rekeyOurIndex := some ourIndex
    rekeyMsg1 := some wireMsg1
    rekeyMsg1NextResend := nextResend
    rekeyMsg1ResendCount := 0
    rekeyInProgress := true }

def completeRekeyMsg2 (exchange : Exchange H S) (p : ActivePeer S H) (msg2 : List UInt8) :
    Option S × ActivePeer S H :=
  match p.rekeyHandshake with
  | none => (none,p)
  | some handshake =>
    match exchange.tryReadMessage2 handshake msg2 with
    | none => (none,p)
    | some handshake =>
      match exchange.intoSession handshake with
      | none => (none,{ p with rekeyHandshake := none })
      | some session =>
        (some session,
          { p with
            rekeyHandshake := none
            rekeyMsg1 := none
            rekeyMsg1NextResend := 0
            rekeyMsg1ResendCount := 0 })

def hasRekeyHandshake : Bool := p.rekeyHandshake.isSome

def needsMsg1Resend (now : Nat) : Bool :=
  p.rekeyInProgress && p.rekeyMsg1.isSome && p.rekeyMsg1NextResend ≤ now

def recordRekeyMsg1Resend (next : Nat) : ActivePeer S H :=
  { p with
    rekeyMsg1ResendCount := min (p.rekeyMsg1ResendCount + 1) (2^32 - 1)
    rekeyMsg1NextResend := next }

def replaceSession (session : S) (ourIndex theirIndex : SessionIndex) (now : Nat) :
    ActivePeer S H :=
  let p := p.abandonRekey.2
  let previousOurIndex := p.ourIndex.filter fun old => old ≠ ourIndex
  { p with
    previousOurIndex := previousOurIndex
    previousSession := previousOurIndex.bind fun _ => p.noiseSession
    previousKBit := previousOurIndex.map fun _ => p.currentKBit
    currentKBit := false
    previousTransportId := previousOurIndex.bind fun _ => p.transportId
    drainStarted := previousOurIndex.map fun _ => now
    noiseSession := some session
    ourIndex := some ourIndex
    theirIndex := some theirIndex
    rekeyInProgress := false
    rekeyMsg1ResendCount := 0 }

def setCurrentAddr (transportId : TransportId) (addr : List UInt8) : ActivePeer S H :=
  { p with transportId := some transportId, currentAddr := some addr }

def currentSessionIndex : Option PeerSessionIndex := do
  let transportId ← p.transportId
  let index ← p.ourIndex
  return ⟨.current,toLex (transportId,index),index⟩

/-- A key that is already listed is not listed again. -/
def pushIndex (indices : List PeerSessionIndex) (kind : PeerSessionIndexKind) (transportId : TransportId)
    (index : Option SessionIndex) : List PeerSessionIndex :=
  match index with
  | none => indices
  | some index =>
    let key := toLex (transportId,index)
    if indices.any fun existing => existing.key = key then indices else indices ++ [⟨kind,key,index⟩]

def sessionIndices : List PeerSessionIndex :=
  match p.transportId with
  | none => []
  | some transportId =>
    let indices := p.currentSessionIndex.toList
    let indices := pushIndex indices .rekey transportId p.rekeyOurIndex
    let indices := pushIndex indices .pending transportId p.pendingOurIndex
    pushIndex indices .previous (p.previousTransportId.getD transportId) p.previousOurIndex

def indices : List SessionIndex :=
  p.ourIndex.toList ++ p.rekeyOurIndex.toList ++ p.pendingOurIndex.toList ++ p.previousOurIndex.toList

/-- The keys of the current, pending and previous sessions, each on the transport it was established on. -/
def dispatchKeys : List SessionKey :=
  (p.transportId.toList.flatMap fun transportId =>
    (p.ourIndex.toList ++ p.pendingOurIndex.toList).map fun index => toLex (transportId,index)) ++
  p.previousTransportId.toList.flatMap fun transportId =>
    p.previousOurIndex.toList.map fun index => toLex (transportId,index)

end ActivePeer

end Fips.Peer
