import Fips.Dataplane.OwnerReplay
import Fips.Dataplane.Types
import Fips.Lib.U64

set_option autoImplicit false

/-! One owner of the dataplane: what it reserves, in which key epoch, and what it retires. An owner uses
only the fields of its own protocol, so each pair `fmp_..`, `fsp_..` of the source is one field here. -/

namespace Fips.Dataplane

/-- A cipher is known by its key. -/
structure AeadKey where
  key : Nat
  deriving DecidableEq

structure OwnerCryptoKeys where
  openKey : AeadKey
  sealKey : AeadKey
  deriving DecidableEq

/-- A handle to a shared counter. Clones are the same handle. -/
structure SendCounterAuthority where
  session : Nat
  deriving DecidableEq

abbrev SendCounters := SendCounterAuthority → Nat

namespace SendCounterAuthority

def current (a : SendCounterAuthority) (counters : SendCounters) : Nat := counters a

def reserve (a : SendCounterAuthority) (counters : SendCounters) : Option (Nat × SendCounters) :=
  if counters a = u64Max then none else some (counters a,Function.update counters a (counters a + 1))

end SendCounterAuthority

structure FmpSendHeaders where
  receiverIdx : UInt32
  flags : UInt8
  deriving DecidableEq

structure OwnerConfig where
  generation : Nat
  inFlightLimit : Nat
  nextSendCounter : Nat := 0
  sendCounterAuthority : Option SendCounterAuthority := none
  fmpSendHeaders : Option FmpSendHeaders := none
  currentKBit : Option Bool := none
  previousDrainingKBit : Option Bool := none
  deriving DecidableEq

inductive OwnerReserveError where
  | sourcePolicy
  | replay
  | inFlightFull
  | staleGeneration
  | missingKeys
  | counterExhausted
  deriving DecidableEq

inductive OwnerReserveBlockReason where
  | totalInFlight
  | bulkLane
  deriving DecidableEq

/-- A pending epoch is told from earlier ones by its instance. -/
abbrev ReceiveEpochIdentity := DataplaneReceiveEpoch × Nat

structure OwnerReservation where
  owner : OwnerId
  generation : Nat
  order : Nat
  ingressSeq : Nat
  counter : Nat
  packetClass : PacketClass
  lane : Lane
  sourcePath : Option Nat
  wireFlags : UInt8
  receiveEpoch : Option ReceiveEpochIdentity
  sendEpoch : OutboundSendEpoch
  deriving DecidableEq

/-- `endpointData` says that the opened payload is endpoint data for a session of this node. -/
inductive CryptoResult where
  | opened (endpointData : Bool)
  | sealed
  | outbound
  | failed
  deriving DecidableEq

structure CryptoCompletion where
  reservation : OwnerReservation
  result : CryptoResult
  deriving DecidableEq

/-- Workers fill in the results of a whole run and then publish it. -/
inductive SlotItems where
  | running (items : List OwnerReservation)
  | ready (items : List CryptoCompletion)
  deriving DecidableEq

structure OwnerRetireSlot where
  generation : Nat
  lane : Lane
  order : Nat
  items : SlotItems
  deriving DecidableEq

namespace OwnerRetireSlot

def reservations (slot : OwnerRetireSlot) : List OwnerReservation :=
  match slot.items with
  | .running items => items
  | .ready items => items.map (·.reservation)

def isReady (slot : OwnerRetireSlot) : Bool :=
  match slot.items with
  | .running _ => false
  | .ready _ => true

def remaining (slot : OwnerRetireSlot) : Nat := slot.reservations.length

def complete (slot : OwnerRetireSlot) (results : OwnerReservation → CryptoResult) : OwnerRetireSlot :=
  match slot.items with
  | .running items => { slot with items := .ready (items.map fun r => ⟨r,results r⟩) }
  | .ready _ => slot

end OwnerRetireSlot

inductive PacketDropReason where
  | replay
  | staleCompletionGeneration
  | cryptoFailed
  deriving DecidableEq

inductive Retired where
  | output (reservation : OwnerReservation)
  | outbound (reservation : OwnerReservation)
  | endpointData (reservation : OwnerReservation)
  | drop (reservation : OwnerReservation) (reason : PacketDropReason)
  deriving DecidableEq

def Retired.reservation : Retired → OwnerReservation
  | .output r | .outbound r | .endpointData r | .drop r _ => r

structure OwnerState where
  owner : OwnerId
  generation : Nat
  inFlightLimit : Nat
  inFlight : Nat := 0
  bulkInFlight : Nat := 0
  backgroundInFlight : Nat := 0
  nextOrder : Nat := 0
  nextRetire : Nat := 0
  nextSendCounter : Nat
  sendCounterAuthority : Option SendCounterAuthority
  cryptoKeys : Option OwnerCryptoKeys := none
  previousOpen : Option AeadKey := none
  /-- the earlier generation and the pending instance that its cutover promoted -/
  drainingGeneration : Option (Nat × Option Nat) := none
  pendingOpen : Option AeadKey := none
  pendingSeal : Option AeadKey := none
  pendingSendCounterAuthority : Option SendCounterAuthority := none
  pendingKBit : Option Bool := none
  pendingAuthenticatedKBit : Option Bool := none
  pendingReplayWindow : Option ReplayWindow := none
  fmpSendHeaders : Option FmpSendHeaders
  currentKBit : Bool
  previousDrainingKBit : Option Bool
  replayWindow : ReplayWindow := .default
  pendingReceiveEpochInstance : Nat := 0
  pendingReplayCounters : List (ReceiveEpochIdentity × Nat) := []
  previousReplayWindow : Option ReplayWindow := none
  pending : List OwnerRetireSlot := []
  deriving DecidableEq

namespace OwnerState

def new (owner : OwnerId) (config : OwnerConfig) : OwnerState where
  owner := owner
  generation := config.generation
  inFlightLimit := config.inFlightLimit
  nextSendCounter := config.nextSendCounter
  sendCounterAuthority := config.sendCounterAuthority
  fmpSendHeaders := config.fmpSendHeaders
  currentKBit := config.currentKBit.getD false
  previousDrainingKBit := config.previousDrainingKBit

variable (s : OwnerState)

def rekey (generation : Nat) : OwnerState :=
  { s with
    generation := generation
    replayWindow := .default
    pendingReplayCounters := []
    nextSendCounter := 0
    sendCounterAuthority := none
    cryptoKeys := none
    previousOpen := none
    drainingGeneration := none
    pendingOpen := none
    pendingSeal := none
    pendingSendCounterAuthority := none
    pendingKBit := none
    pendingAuthenticatedKBit := none
    pendingReplayWindow := none
    fmpSendHeaders := none
    currentKBit := false
    previousDrainingKBit := none
    previousReplayWindow := none }

def advancePendingReceiveEpoch : OwnerState :=
  { s with
    pendingReceiveEpochInstance := U64.wrappingAdd s.pendingReceiveEpochInstance 1
    pendingReplayCounters := s.pendingReplayCounters.filter fun e => e.1.1 ≠ .pending }

def withoutPending : OwnerState :=
  { s with
    pendingOpen := none
    pendingSeal := none
    pendingSendCounterAuthority := none
    pendingKBit := none
    pendingAuthenticatedKBit := none
    pendingReplayWindow := none }

def withoutPrevious : OwnerState :=
  { s with previousOpen := none, previousReplayWindow := none, drainingGeneration := none }

section Sessions

variable (protocol : PacketProtocol)

/-- `clear_fmp_pending_receive_epoch` and `clear_fsp_pending_receive_epoch` -/
def clearPendingReceiveEpoch : Bool × OwnerState :=
  if s.owner.protocol = protocol then (true,s.advancePendingReceiveEpoch.withoutPending) else (false,s)

/-- `set_fmp_epoch` and `set_fsp_epoch` -/
def setEpoch (currentKBit : Bool) (previousDrainingKBit : Option Bool) : Bool × OwnerState :=
  if s.owner.protocol = protocol then
    let s := { s with currentKBit := currentKBit, previousDrainingKBit := previousDrainingKBit }
    let s := if previousDrainingKBit = none then s.withoutPrevious else s
    (true,if s.pendingKBit = some currentKBit then s.advancePendingReceiveEpoch.withoutPending else s)
  else (false,s)

def isPendingSession (current : Option SendCounterAuthority) : Bool :=
  current.isSome && current = s.pendingSendCounterAuthority

def setSendCounterAuthority (counters : SendCounters) (authority : SendCounterAuthority) : OwnerState :=
  { s with nextSendCounter := authority.current counters, sendCounterAuthority := some authority }

def applyLiveConfig (counters : SendCounters) (config : OwnerConfig) : OwnerState :=
  let s := if config.generation ≠ s.generation then s.rekey config.generation else s
  let s := match config.sendCounterAuthority with
    | some authority => s.setSendCounterAuthority counters authority
    | none => s
  let s := match config.fmpSendHeaders with
    | some headers => { s with fmpSendHeaders := some headers }
    | none => s
  match config.currentKBit with
  | some currentKBit => (s.setEpoch s.owner.protocol currentKBit config.previousDrainingKBit).2
  | none => s

/-- Work keeps its key while the current epoch becomes the previous one and the promoted pending epoch the
current one. -/
def remapDrainingReceiveEpoch : ReceiveEpochIdentity → Option ReceiveEpochIdentity
  | (.current,_) => some (.previous,0)
  | (.pending,inst) => if s.drainingGeneration.any (·.2 = some inst) then some (.current,0) else none
  | (.previous,_) => none

/-- `install_fmp_session` and `install_fsp_session` -/
def installSession (counters : SendCounters) (config : OwnerConfig) (keys : OwnerCryptoKeys) :
    Bool × OwnerState :=
  if s.owner.protocol ≠ protocol then (false,s)
  else
    let generationChanged := config.generation ≠ s.generation
    let previousEpoch := generationChanged ∧ config.previousDrainingKBit.isSome
    let promotedPendingReplay :=
      if generationChanged ∧ s.isPendingSession config.sendCounterAuthority then
        s.pendingReplayWindow else none
    let previousOpen := if previousEpoch then s.cryptoKeys.map (·.openKey) else none
    let installed := { s.applyLiveConfig counters config with cryptoKeys := some keys }
    let installed := match promotedPendingReplay with
      | some replay => { installed with replayWindow := replay }.withoutPending
      | none => installed
    match previousOpen with
    | some openKey =>
      let draining := { installed with
        previousOpen := some openKey
        previousReplayWindow := some s.replayWindow
        drainingGeneration := some (s.generation,promotedPendingReplay.map fun _ =>
          s.pendingReceiveEpochInstance) }
      (true,{ draining with
        pendingReplayCounters := s.pendingReplayCounters.filterMap fun e =>
          (draining.remapDrainingReceiveEpoch e.1).map fun epoch => (epoch,e.2) })
    | none => (true,if installed.previousDrainingKBit = none then installed.withoutPrevious else installed)

/-- `install_fmp_pending_receive_epoch`, and the FSP pair that also holds a sealing key. -/
def installPendingEpoch (pendingKBit : Bool) (openKey : AeadKey) (sealKey : Option AeadKey)
    (authority : Option SendCounterAuthority) : Bool × OwnerState :=
  if s.owner.protocol ≠ protocol ∨ pendingKBit = s.currentKBit then (false,s)
  else (true,{ s.advancePendingReceiveEpoch with
    pendingOpen := some openKey
    pendingSeal := sealKey
    pendingSendCounterAuthority := authority
    pendingKBit := some pendingKBit
    pendingAuthenticatedKBit := none
    pendingReplayWindow := some .default })

def hasPendingReceiveEpoch (receivedKBit : Bool) : Bool :=
  s.owner.protocol = protocol && s.pendingKBit = some receivedKBit && s.pendingOpen.isSome &&
    s.pendingReplayWindow.isSome

end Sessions

def confirmFmpPendingReceiveEpoch (receivedKBit : Bool) : Bool × OwnerState :=
  if s.pendingAuthenticatedKBit ≠ some receivedKBit then (false,s)
  else
    let s := { s with pendingKBit := some receivedKBit }
    (s.hasPendingReceiveEpoch .fmp receivedKBit,s)

def sealKey : OutboundSendEpoch → Option AeadKey
  | .current => s.cryptoKeys.map (·.sealKey)
  | .pending => if s.owner.protocol = .fsp then s.pendingSeal else none

def openKey : DataplaneReceiveEpoch → Option AeadKey
  | .previous => s.previousOpen
  | .pending => s.pendingOpen
  | .current => s.cryptoKeys.map (·.openKey)

def retainsDrainingGeneration (generation : Nat) : Bool :=
  s.drainingGeneration.any (·.1 = generation) && s.previousOpen.isSome

def replayWindowForEpoch : DataplaneReceiveEpoch → Option ReplayWindow
  | .current => some s.replayWindow
  | .pending => s.pendingReplayWindow
  | .previous => s.previousReplayWindow

def setReplayWindow (window : ReplayWindow) : DataplaneReceiveEpoch → OwnerState
  | .current => { s with replayWindow := window }
  | .pending => { s with pendingReplayWindow := some window }
  | .previous => { s with previousReplayWindow := some window }

def completeReplayReservation (reservation : OwnerReservation) (authenticated : Bool) : Bool × OwnerState :=
  match reservation.receiveEpoch with
  | none => (true,s)
  | some epoch =>
    let epoch :=
      if reservation.generation ≠ s.generation then
        if s.retainsDrainingGeneration reservation.generation then s.remapDrainingReceiveEpoch epoch else none
      else some epoch
    match epoch with
    | none => (false,s)
    | some (receiveEpoch,inst) =>
      let entry := ((receiveEpoch,inst),reservation.counter)
      let wasPending : Bool := entry ∈ s.pendingReplayCounters
      let s := { s with pendingReplayCounters := s.pendingReplayCounters.filter (· ≠ entry) }
      if authenticated = false then (true,s)
      else if receiveEpoch = .pending ∧ inst ≠ s.pendingReceiveEpochInstance then (false,s)
      else match wasPending,s.replayWindowForEpoch receiveEpoch with
        | true,some window =>
          let (accepted,window) := window.accept reservation.counter
          let s := s.setReplayWindow window receiveEpoch
          (accepted,if accepted ∧ s.owner.protocol = .fmp ∧ receiveEpoch = .pending ∧
            s.pendingAuthenticatedKBit = none then
            { s with pendingAuthenticatedKBit := some (reservation.wireFlags &&& flagKeyEpoch ≠ 0) } else s)
        | _,_ => (false,s)

def bulkLaneInFlightLimit : Nat := max (s.inFlightLimit - if 1 < s.inFlightLimit then 1 else 0) 1

def reserveBlockReason (packetClass : PacketClass) : Option OwnerReserveBlockReason :=
  if s.inFlightLimit ≤ s.inFlight then some .totalInFlight
  else if packetClass.lane = .background ∧ 1 ≤ s.backgroundInFlight then some .bulkLane
  else if packetClass.lane ≠ .priority ∧ s.bulkLaneInFlightLimit ≤ s.bulkInFlight then some .bulkLane
  else none

def canReserveClass (packetClass : PacketClass) : Bool := (s.reserveBlockReason packetClass).isNone

def reserveClass (packetClass : PacketClass) : OwnerState :=
  { s with
    inFlight := s.inFlight + 1
    bulkInFlight := if packetClass.lane ≠ .priority then s.bulkInFlight + 1 else s.bulkInFlight
    backgroundInFlight := if packetClass.lane = .background then s.backgroundInFlight + 1
      else s.backgroundInFlight }

/-- The end of a reservation: the next order token is taken. -/
def takeOrder : OwnerState := { s with nextOrder := U64.wrappingAdd s.nextOrder 1 }

/-- The FMP epoch is the one the receiver index belongs to, the FSP epoch follows from the K bit. -/
def receiveEpochOf (packet : SocketPacket) (receiveEpoch : DataplaneReceiveEpoch) : DataplaneReceiveEpoch :=
  let previous := s.previousOpen.isSome ∧ s.previousReplayWindow.isSome
  let pending := s.pendingOpen.isSome ∧ s.pendingReplayWindow.isSome
  match s.owner.protocol with
  | .fmp =>
    if receiveEpoch = .previous ∧ previous then .previous
    else if receiveEpoch = .pending ∧ pending then .pending
    else .current
  | .fsp =>
    let receivedKBit : Bool := packet.wireFlags &&& fspFlagK ≠ 0
    if s.previousDrainingKBit = some receivedKBit ∧ receivedKBit ≠ s.currentKBit ∧ previous then .previous
    else if s.pendingKBit = some receivedKBit ∧ receivedKBit ≠ s.currentKBit ∧ pending then .pending
    else .current

/-- A packet of the generation that drains is taken over, an FMP packet under the epoch its key has now. -/
def packetReceiveEpoch (packet : SocketPacket) : Option DataplaneReceiveEpoch :=
  if packet.generation = s.generation then some packet.receiveEpoch
  else if s.retainsDrainingGeneration packet.generation = false then none
  else if s.owner.protocol = .fmp then
    let inst := (s.drainingGeneration.bind (·.2)).getD 0
    (s.remapDrainingReceiveEpoch (packet.receiveEpoch,inst)).map (·.1)
  else some packet.receiveEpoch

def receiveEpochIdentity (receiveEpoch : DataplaneReceiveEpoch) : ReceiveEpochIdentity :=
  (receiveEpoch,if receiveEpoch = .pending then s.pendingReceiveEpochInstance else 0)

def reserve (packet : SocketPacket) (ingressSeq : Nat) :
    Except OwnerReserveError ((OwnerReservation × DataplaneReceiveEpoch) × OwnerState) :=
  match s.packetReceiveEpoch packet with
  | none => .error .staleGeneration
  | some receiveEpoch =>
    let receiveEpoch := s.receiveEpochOf packet receiveEpoch
    if s.canReserveClass packet.packetClass = false then .error .inFlightFull
    else match s.replayWindowForEpoch receiveEpoch with
      | none => .error .replay -- the epoch has a window
      | some window =>
        if window.canAccept packet.counter = false then .error .replay
        else
          let identity := s.receiveEpochIdentity receiveEpoch
          if (identity,packet.counter) ∈ s.pendingReplayCounters then .error .replay
          else
            let reserved := { s with pendingReplayCounters :=
              (identity,packet.counter) :: s.pendingReplayCounters }
            .ok ((⟨s.owner,s.generation,s.nextOrder,ingressSeq,packet.counter,packet.packetClass,packet.lane,
              packet.sourcePath,packet.wireFlags,some identity,.current⟩,receiveEpoch),
              (reserved.reserveClass packet.packetClass).takeOrder)

def reserveSendCounter (counters : SendCounters) (sendEpoch : OutboundSendEpoch) :
    Except OwnerReserveError (Nat × OwnerState × SendCounters) :=
  match sendEpoch with
  | .pending => match if s.owner.protocol = .fsp then s.pendingSendCounterAuthority else none with
    | none => .error .missingKeys
    | some authority => match authority.reserve counters with
      | none => .error .counterExhausted
      | some (counter,counters) => .ok (counter,s,counters)
  | .current => match s.sendCounterAuthority with
    | some authority => match authority.reserve counters with
      | none => .error .counterExhausted
      | some (counter,counters) =>
        .ok (counter,{ s with nextSendCounter := authority.current counters },counters)
    | none =>
      .ok (s.nextSendCounter,{ s with nextSendCounter := U64.wrappingAdd s.nextSendCounter 1 },counters)

/-- A packet of the generation that drains is sent in the current epoch. -/
def refreshOutbound (packet : OutboundPacket) : Option OutboundPacket :=
  if packet.generation = s.generation then some packet
  else if s.retainsDrainingGeneration packet.generation = false ∨
      packet.sendEpoch = .pending ∧ (s.drainingGeneration.bind (·.2)).isNone then none
  else
    let packet := { packet with generation := s.generation, sendEpoch := .current }
    match packet.wire with
    | .fmp _ flags => s.fmpSendHeaders.map fun headers =>
      { packet with
        wire := .fmp headers.receiverIdx (flags &&& ~~~flagKeyEpoch ||| headers.flags &&& flagKeyEpoch) }
    | .fsp flags =>
      let cleared := flags &&& ~~~fspFlagK
      some { packet with wire := .fsp (if s.currentKBit then cleared ||| fspFlagK else cleared) }

def reserveOutbound (counters : SendCounters) (packet : OutboundPacket) (ingressSeq : Nat) :
    Except OwnerReserveError ((OwnerReservation × OutboundPacket) × OwnerState × SendCounters) :=
  match s.refreshOutbound packet with
  | none => .error .staleGeneration
  | some packet =>
    if s.canReserveClass packet.packetClass = false then .error .inFlightFull
    else if packet.sourceRefuses then .error .sourcePolicy
    else match s.reserveSendCounter counters packet.sendEpoch with
      | .error error => .error error
      | .ok (counter,reserved,counters) =>
        .ok ((⟨s.owner,s.generation,s.nextOrder,ingressSeq,counter,packet.packetClass,packet.lane,none,0,none,
          packet.sendEpoch⟩,packet),(reserved.reserveClass packet.packetClass).takeOrder,counters)

/-- The slot goes behind the slots of smaller order. The order of a slot is never used twice. -/
def stageRetireSlot (slot : OwnerRetireSlot) : Option (Bool × OwnerState) :=
  let wasEmpty := s.pending.isEmpty
  if s.pending.getLast?.all (·.order < slot.order) then
    some (wasEmpty,{ s with pending := s.pending ++ [slot] })
  else
    let index := (s.pending.takeWhile (·.order < slot.order)).length
    if s.pending[index]?.any (·.order = slot.order) then none
    else some (wasEmpty,{ s with pending := s.pending.insertIdx index slot })

variable (compactEndpointData : Bool)

/-- A completion of a generation that is still known. Endpoint data may be collected in batches. -/
def retireReadyCompletion (completion : CryptoCompletion) : Retired × OwnerState :=
  let reservation := completion.reservation
  match completion.result with
  | .opened endpointData =>
    let (accepted,s) := s.completeReplayReservation reservation true
    if accepted = false then (.drop reservation .replay,s)
    else (if compactEndpointData ∧ endpointData then .endpointData reservation else .output reservation,s)
  | .sealed => (.output reservation,(s.completeReplayReservation reservation false).2)
  | .outbound => (.outbound reservation,(s.completeReplayReservation reservation false).2)
  | .failed => (.drop reservation .cryptoFailed,(s.completeReplayReservation reservation false).2)

def retireReadyCompletions (compactEndpointData : Bool) :
    OwnerState → List CryptoCompletion → List Retired × OwnerState
  | s,[] => ([],s)
  | s,completion :: rest =>
    let (retired,s) := s.retireReadyCompletion compactEndpointData completion
    let (later,s) := retireReadyCompletions compactEndpointData s rest
    (retired :: later,s)

def countRetired (lane : Lane) (drained : Nat) : OwnerState :=
  { s with
    nextRetire := U64.wrappingAdd s.nextRetire drained
    inFlight := s.inFlight - drained
    bulkInFlight := if lane ≠ .priority then s.bulkInFlight - drained else s.bulkInFlight
    backgroundInFlight := if lane = .background then s.backgroundInFlight - drained
      else s.backgroundInFlight }

/-- The results of a slot. Session payloads of the current generation have a path of their own that does
the same packet by packet. -/
def retireDrained (generation : Nat) (drained : List CryptoCompletion) :
    List Retired × OwnerState :=
  if generation ≠ s.generation ∧ s.retainsDrainingGeneration generation = false then
    (drained.map fun completion => .drop completion.reservation .staleCompletionGeneration,s)
  else retireReadyCompletions compactEndpointData s drained

/-- What is left of a slot goes back to the front. -/
def putBackSlot (slot : OwnerRetireSlot) (drained : Nat) (left : List CryptoCompletion) : OwnerState :=
  if left.isEmpty then s
  else { s with
    pending := { slot with order := U64.wrappingAdd slot.order drained, items := .ready left } :: s.pending }

/-- One turn of the retirement loop, for the first slot and what may still be drained. -/
def drainSlot (limit : Nat) (slot : OwnerRetireSlot) (items : List CryptoCompletion)
    (rest : List OwnerRetireSlot) : List Retired × OwnerState :=
  let drained := items.take limit
  let (retired,after) := { s with pending := rest }.retireDrained compactEndpointData slot.generation drained
  (retired,(after.countRetired slot.lane drained.length).putBackSlot slot drained.length (items.drop limit))

/-- The turns of `retire_ready_slots_into`. A slot that is not emptied uses up the limit. -/
def retireReadySlotsFrom (compactEndpointData : Bool) : Nat → Nat → OwnerState → List Retired × OwnerState
  | 0,_,s => ([],s)
  | turns + 1,limit,s => match s.pending with
    | [] => ([],s)
    | slot :: rest =>
      if limit = 0 ∨ slot.order ≠ s.nextRetire then ([],s)
      else match slot.items with
        | .running _ => ([],s)
        | .ready items =>
          let (retired,s) := s.drainSlot compactEndpointData limit slot items rest
          let (later,s) := retireReadySlotsFrom compactEndpointData turns (limit - retired.length) s
          (retired ++ later,s)

def retireReadySlots (limit : Nat) : List Retired × OwnerState :=
  retireReadySlotsFrom compactEndpointData s.pending.length limit s

end OwnerState

end Fips.Dataplane
