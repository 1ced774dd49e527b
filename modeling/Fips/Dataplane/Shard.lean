import Fips.Dataplane.Admission
import Fips.Dataplane.Flight

set_option autoImplicit false

/-! A shard of owners: packets wait in its queues, are reserved and grouped into crypto runs, and retire. -/

namespace Fips.Dataplane

def aeadJobPackets : Nat := 128

def outboundOwnerFairnessPackets : Nat := 8

structure CryptoWork where
  reservation : OwnerReservation
  receiveEpoch : Option DataplaneReceiveEpoch
  sessionPayload : Bool
  key : Option AeadKey
  deriving DecidableEq

/-- The slot of a crypto run. A packet without a key has a slot of its own that has failed. -/
structure CryptoReadySlot where
  owner : OwnerId
  key : Option AeadKey
  slot : OwnerRetireSlot
  deriving DecidableEq

namespace CryptoWork

def continues (first last work : CryptoWork) : Bool :=
  first.receiveEpoch = work.receiveEpoch &&
  first.reservation.owner = work.reservation.owner &&
  first.reservation.generation = work.reservation.generation &&
  first.reservation.lane = work.reservation.lane &&
  work.reservation.order = U64.wrappingAdd last.reservation.order 1 &&
  first.reservation.sendEpoch = work.reservation.sendEpoch &&
  first.reservation.sourcePath = work.reservation.sourcePath &&
  first.sessionPayload = work.sessionPayload

def joins (run : List CryptoWork) (work : CryptoWork) : Bool :=
  match run.head?,run.getLast? with
  | some first,some last => run.length < aeadJobPackets && continues first last work
  | _,_ => false

def slotOf (run : List CryptoWork) : List CryptoReadySlot :=
  match run with
  | [] => []
  | first :: _ =>
    let r := first.reservation
    [⟨r.owner,first.key,⟨r.generation,r.lane,r.order,.running (run.map (·.reservation))⟩⟩]

def failedSlot (work : CryptoWork) : CryptoReadySlot :=
  let r := work.reservation
  ⟨r.owner,none,⟨r.generation,r.lane,r.order,.ready [⟨r,.failed⟩]⟩⟩

/-- The slots of packets without a key, and the runs, for works that follow the open run. -/
def group : List CryptoWork → List CryptoWork → List CryptoReadySlot × List CryptoReadySlot
  | run,[] => ([],slotOf run)
  | run,work :: rest =>
    if joins run work then group (run ++ [work]) rest
    else if work.key.isSome then
      let (failed,runs) := group [work] rest
      (failed,slotOf run ++ runs)
    else
      let (failed,runs) := group [] rest
      (failedSlot work :: failed,slotOf run ++ runs)

end CryptoWork

/-- What happened to a packet of a queue. -/
inductive Handled (P : Type) where
  | dispatched (owner : OwnerId) (lane : Lane) (queued : QueuedAdmission P) (work : CryptoWork)
  | unknownOwner (owner : OwnerId) (lane : Lane) (queued : QueuedAdmission P)
  | refused (owner : OwnerId) (lane : Lane) (queued : QueuedAdmission P) (error : OwnerReserveError)

namespace Handled

variable {P : Type}

def owner : Handled P → OwnerId
  | .dispatched owner _ _ _ | .unknownOwner owner _ _ | .refused owner _ _ _ => owner

def lane : Handled P → Lane
  | .dispatched _ lane _ _ | .unknownOwner _ lane _ | .refused _ lane _ _ => lane

def queued : Handled P → QueuedAdmission P
  | .dispatched _ _ queued _ | .unknownOwner _ _ queued | .refused _ _ queued _ => queued

def work? : Handled P → Option CryptoWork
  | .dispatched _ _ _ work => some work
  | _ => none

end Handled

/-- What the two dispatch loops do differently. -/
structure Direction (P : Type) where
  classOf : P → PacketClass
  reserve : OwnerState → SendCounters → QueuedAdmission P →
    Except OwnerReserveError (CryptoWork × OwnerState × SendCounters)
  /-- the length of a run, from what may still be dispatched and the number of ready owners -/
  runLimit : Nat → Nat → Nat
  /-- whether the attempts are counted afresh after what happened to a run -/
  recount : List (Handled P) → Bool

def Direction.ingress : Direction SocketPacket where
  classOf := SocketPacket.packetClass
  reserve owner counters queued := match owner.reserve queued.packet queued.ingressSeq with
    | .error error => .error error
    | .ok ((reservation,epoch),owner) =>
      .ok (⟨reservation,some epoch,owner.owner.protocol = .fsp && queued.packet.sessionPayload,
        owner.openKey epoch⟩,
        owner,counters)
  runLimit remaining _ := remaining
  recount handled := handled.any fun h => h.work?.isSome

def Direction.outbound : Direction OutboundPacket where
  classOf := OutboundPacket.packetClass
  reserve owner counters queued := match owner.reserveOutbound counters queued.packet queued.ingressSeq with
    | .error error => .error error
    | .ok ((reservation,_),owner,counters) =>
      .ok (⟨reservation,none,false,owner.sealKey reservation.sendEpoch⟩,owner,counters)
  runLimit remaining readyOwners :=
    if 1 < readyOwners then min remaining outboundOwnerFairnessPackets else remaining
  recount handled := handled ≠ []

namespace Direction

variable {P : Type} (d : Direction P)

def reserveRun (cursor : OwnerAdmissionCursor) : OwnerState → SendCounters → List (QueuedAdmission P) →
    List (Handled P) × List (QueuedAdmission P) × OwnerState × SendCounters
  | owner,counters,[] => ([],[],owner,counters)
  | owner,counters,queued :: rest =>
    if owner.canReserveClass (d.classOf queued.packet) = false then ([],queued :: rest,owner,counters)
    else
      let (outcome,owner,counters) := match d.reserve owner counters queued with
        | .ok (work,owner,counters) =>
          (Handled.dispatched cursor.owner cursor.lane queued work,owner,counters)
        | .error error => (.refused cursor.owner cursor.lane queued error,owner,counters)
      let (handled,left,owner,counters) := reserveRun cursor owner counters rest
      (outcome :: handled,left,owner,counters)

structure Desk (P : Type) where
  admission : OwnerAdmissionQueues (QueuedAdmission P)
  owners : OrderedMap OwnerId OwnerState
  counters : SendCounters

def serve (desk : Desk P) (cursor : OwnerAdmissionCursor) (items : List (QueuedAdmission P)) :
    List (Handled P) × Desk P :=
  match desk.owners.get? cursor.owner with
  | none => (items.map (.unknownOwner cursor.owner cursor.lane),
      { desk with admission := desk.admission.continueOwnerLane cursor })
  | some owner =>
    let (handled,left,owner,counters) := d.reserveRun cursor owner desk.counters items
    (handled,{
      admission := if left.isEmpty then desk.admission.continueOwnerLane cursor
        else desk.admission.deferOwnerRun cursor left
      owners := desk.owners.insert cursor.owner owner
      counters := counters })

/-- The turns of the dispatch loop, with the attempts and the packets that remain. -/
def dispatchFrom (lane : Lane) : Nat → Nat → Nat → Desk P → List (Handled P) × Desk P
  | 0,_,_,desk => ([],desk)
  | turns + 1,attempts,remaining,desk =>
    if remaining = 0 ∨ attempts = 0 then ([],desk)
    else match desk.admission.popNextRunInto lane
      (d.runLimit remaining (desk.admission.ready.get lane).length) with
      | (_,none,admission) => ([],{ desk with admission := admission })
      | (_,some (items,cursor),admission) =>
        let waiting := admission.lens.priority + admission.lens.bulk + admission.lens.background
        let (handled,desk) := d.serve { desk with admission := admission } cursor items
        let attempts := if (desk.owners.get? cursor.owner).isSome ∧ d.recount handled then waiting
          else attempts - items.length
        let (later,desk) := dispatchFrom lane turns attempts
          (remaining - (handled.filterMap Handled.work?).length) desk
        (handled ++ later,desk)

def turns (admission : OwnerAdmissionQueues (QueuedAdmission P)) (lane : Lane) : Nat :=
  admission.owners.total (fun _ queues => (queues.get lane).length) + (admission.ready.get lane).length

def dispatch (lane : Lane) (limit : Nat) (desk : Desk P) : List (Handled P) × Desk P :=
  let waiting := desk.admission.lens.priority + desk.admission.lens.bulk + desk.admission.lens.background
  d.dispatchFrom lane (turns desk.admission lane) waiting limit desk

end Direction

structure DataplaneOwnerShard where
  admission : OwnerAdmissionQueues (QueuedAdmission SocketPacket) := {}
  outboundAdmission : OwnerAdmissionQueues (QueuedAdmission OutboundPacket) := {}
  owners : OrderedMap OwnerId OwnerState := ∅
  retireOwners : List OwnerId := []

namespace DataplaneOwnerShard

variable (shard : DataplaneOwnerShard)

def wakeOwner (owner : OwnerId) : DataplaneOwnerShard :=
  { shard with
    admission := shard.admission.wakeOwner owner
    outboundAdmission := shard.outboundAdmission.wakeOwner owner }

/-- The slots of an earlier registration are orphaned. -/
def registerOwner (owner : OwnerId) (config : OwnerConfig) : List OwnerRetireSlot × DataplaneOwnerShard :=
  let orphaned := ((shard.owners.get? owner).map (·.pending)).getD []
  (orphaned,{ shard with
    retireOwners := shard.retireOwners.filter (· ≠ owner)
    owners := shard.owners.insert owner (.new owner config) }.wakeOwner owner)

def unregisterOwner (owner : OwnerId) : Option (List OwnerRetireSlot) × DataplaneOwnerShard :=
  let retireOwners := shard.retireOwners.filter (· ≠ owner)
  match shard.owners.get? owner with
  | none => (none,{ shard with retireOwners := retireOwners })
  | some state => (some state.pending,
      { shard with retireOwners := retireOwners, owners := shard.owners.erase owner }.wakeOwner owner)

def submitSocketPacketWithSeq (packet : SocketPacket) (ingressSeq : Nat) : DataplaneOwnerShard :=
  { shard with admission := (shard.admission.admitWithSeq packet ingressSeq).2 }

def submitSocketPacketRunWithSeq (packets : List SocketPacket) (firstSeq : Nat) : DataplaneOwnerShard :=
  { shard with admission := (shard.admission.admitRunWithSeq packets firstSeq).2 }

def submitOutboundPacketWithSeq (packet : OutboundPacket) (ingressSeq : Nat) : DataplaneOwnerShard :=
  { shard with outboundAdmission := (shard.outboundAdmission.admitWithSeq packet ingressSeq).2 }

def submitOutboundPacketRunWithSeq (packets : List OutboundPacket) (firstSeq : Nat) : DataplaneOwnerShard :=
  { shard with outboundAdmission := (shard.outboundAdmission.admitRunWithSeq packets firstSeq).2 }

def slotsOf {P : Type} (handled : List (Handled P)) : List CryptoReadySlot :=
  let (failed,runs) := CryptoWork.group [] (handled.filterMap Handled.work?)
  failed ++ runs

def dispatchIngressPrepared (counters : SendCounters) (lane : Lane) (limit : Nat) :
    List (Handled SocketPacket) × DataplaneOwnerShard × SendCounters :=
  let (handled,desk) := Direction.ingress.dispatch lane limit ⟨shard.admission,shard.owners,counters⟩
  (handled,{ shard with admission := desk.admission, owners := desk.owners },desk.counters)

def dispatchOutboundPrepared (counters : SendCounters) (lane : Lane) (limit : Nat) :
    List (Handled OutboundPacket) × DataplaneOwnerShard × SendCounters :=
  let (handled,desk) := Direction.outbound.dispatch lane limit ⟨shard.outboundAdmission,shard.owners,counters⟩
  (handled,{ shard with outboundAdmission := desk.admission, owners := desk.owners },desk.counters)

/-- The slot of an owner that is not registered is handed back. -/
def stageRetireSlot (slot : CryptoReadySlot) : Option (Bool × DataplaneOwnerShard) :=
  match shard.owners.get? slot.owner with
  | none => some (false,shard)
  | some owner => (owner.stageRetireSlot slot.slot).map fun (wasEmpty,owner) =>
    (true,{ shard with
      owners := shard.owners.insert slot.owner owner
      retireOwners := if wasEmpty then shard.retireOwners ++ [slot.owner] else shard.retireOwners })

/-- The owner is asked for up to `limit` retirements, and is woken when it has fewer packets in flight. -/
def retireOwner (compactEndpointData : Bool) (limit : Nat) (id : OwnerId) (owner : OwnerState) :
    List Retired × DataplaneOwnerShard :=
  let (retired,after) := owner.retireReadySlots compactEndpointData limit
  let shard := { shard with owners := shard.owners.insert id after }
  let shard := if after.inFlight < owner.inFlight then shard.wakeOwner id else shard
  (retired,if after.pending.isEmpty then shard else { shard with retireOwners := shard.retireOwners ++ [id] })

/-- The owners that are still to be scanned, with what may still be retired. -/
def retireReadySlotsFrom (compactEndpointData : Bool) : Nat → Nat → DataplaneOwnerShard →
    List Retired × DataplaneOwnerShard
  | 0,_,shard => ([],shard)
  | others + 1,limit,shard =>
    if limit = 0 then ([],shard)
    else match shard.retireOwners with
      | [] => ([],shard)
      | id :: rest =>
        let shard := { shard with retireOwners := rest }
        match shard.owners.get? id with
        | none => retireReadySlotsFrom compactEndpointData others limit shard
        | some owner =>
          let (retired,shard) := shard.retireOwner compactEndpointData
            ((limit + others) / (others + 1)) id owner
          let (later,shard) := retireReadySlotsFrom compactEndpointData others (limit - retired.length) shard
          (retired ++ later,shard)

def retireReadySlots (compactEndpointData : Bool) (limit : Nat) : List Retired × DataplaneOwnerShard :=
  retireReadySlotsFrom compactEndpointData shard.retireOwners.length limit shard

end DataplaneOwnerShard

end Fips.Dataplane
