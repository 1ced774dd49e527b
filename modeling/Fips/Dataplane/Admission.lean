import Fips.Dataplane.Types
import Fips.Lib.OrderedMap
import Fips.Lib.U64

set_option autoImplicit false

/-! The queues in front of the owners: one for each owner and lane, and for each lane the owners whose turn is
still to come. Lengths are natural numbers, since a queue in memory never reaches the end of `usize`. -/

namespace Fips.Dataplane

class OwnerQueuedAdmission (T : Type) where
  owner : T → OwnerId
  lane : T → Lane

class AdmissionPacket (P : Type) where
  owner : P → OwnerId
  lane : P → Lane

instance : AdmissionPacket SocketPacket := ⟨SocketPacket.owner,SocketPacket.lane⟩

instance : AdmissionPacket OutboundPacket := ⟨OutboundPacket.owner,OutboundPacket.lane⟩

structure QueuedAdmission (P : Type) where
  ingressSeq : Nat
  packet : P
  deriving DecidableEq

instance {P : Type} [AdmissionPacket P] : OwnerQueuedAdmission (QueuedAdmission P) :=
  ⟨fun queued => AdmissionPacket.owner queued.packet,fun queued => AdmissionPacket.lane queued.packet⟩

def PerLane.isEmpty {T : Type} (queues : PerLane (List T)) : Bool :=
  queues.priority.isEmpty && queues.bulk.isEmpty && queues.background.isEmpty

theorem PerLane.isEmpty_get {T : Type} {queues : PerLane (List T)} (empty : queues.isEmpty = true)
    (lane : Lane) : queues.get lane = [] := by
  simp only [PerLane.isEmpty,Bool.and_eq_true,List.isEmpty_iff] at empty
  cases lane
  · exact empty.1.1
  · exact empty.1.2
  · exact empty.2

structure OwnerAdmissionCursor where
  owner : OwnerId
  lane : Lane
  ownerHasMore : Bool
  deriving DecidableEq

structure OwnerAdmissionQueues (T : Type) where
  lens : PerLane Nat := .all 0
  ready : PerLane (List OwnerId) := .all []
  bulkCutInDebt : Nat := 0
  owners : OrderedMap OwnerId (PerLane (List T)) := ∅

namespace OwnerAdmissionQueues

variable {T : Type} (q : OwnerAdmissionQueues T) (owner : OwnerId) (lane : Lane)

def queue : List T := ((q.owners.get? owner).getD (.all [])).get lane

/-- The owner's entry is made when it is missing. -/
def setQueue (items : List T) : OwnerAdmissionQueues T :=
  { q with owners := q.owners.insert owner (((q.owners.get? owner).getD (.all [])).set lane items) }

def incrementLaneLenBy (count : Nat) : OwnerAdmissionQueues T :=
  { q with lens := q.lens.set lane (q.lens.get lane + count) }

def decrementLaneLen : OwnerAdmissionQueues T :=
  { q with lens := q.lens.set lane (q.lens.get lane - 1) }

def popReadyFront : Option (OwnerId × OwnerAdmissionQueues T) :=
  match q.ready.get lane with
  | [] => none
  | owner :: rest => some (owner,{ q with
      ready := q.ready.set lane rest
      bulkCutInDebt := if lane = .bulk then q.bulkCutInDebt - 1 else q.bulkCutInDebt })

def pushReady (front : Bool) : OwnerAdmissionQueues T :=
  if owner ∈ q.ready.get lane then q
  else if front ∧ q.ready.get lane ≠ [] ∧ q.bulkCutInDebt = 0 then
    { q with ready := q.ready.set lane (owner :: q.ready.get lane), bulkCutInDebt := 2 }
  else { q with ready := q.ready.set lane (q.ready.get lane ++ [owner]) }

def pushRunBack (items : List T) : Bool × OwnerAdmissionQueues T :=
  let wasEmpty := (q.queue owner lane).isEmpty
  let q := q.setQueue owner lane (q.queue owner lane ++ items)
  if items.isEmpty then (false,q)
  else
    let q := q.incrementLaneLenBy lane items.length
    (wasEmpty,if wasEmpty then q.pushReady owner lane (dataplaneLocalBulk owner lane) else q)

def push [OwnerQueuedAdmission T] (item : T) (front : Bool) : Bool × OwnerAdmissionQueues T :=
  let owner := OwnerQueuedAdmission.owner item
  let lane := OwnerQueuedAdmission.lane item
  let wasEmpty := (q.queue owner lane).isEmpty
  let q := q.setQueue owner lane (if front then item :: q.queue owner lane else q.queue owner lane ++ [item])
  let q := q.incrementLaneLenBy lane 1
  (wasEmpty,if wasEmpty then q.pushReady owner lane (dataplaneLocalBulk owner lane) else q)

def popOwnerLane : Option (T × Bool × Bool × OwnerAdmissionQueues T) :=
  match q.owners.get? owner with
  | none => none
  | some queues => match queues.get lane with
    | [] => none
    | item :: rest =>
      let queues := queues.set lane rest
      some (item,!rest.isEmpty,queues.isEmpty,{ q with owners := q.owners.insert owner queues })

/-- An item of the owner is taken, and an owner without any left is forgotten. -/
def takeItem : Option (T × OwnerAdmissionCursor × OwnerAdmissionQueues T) :=
  match q.popOwnerLane owner lane with
  | none => none
  | some (item,ownerHasMore,ownerEmpty,q) =>
    let q := q.decrementLaneLen lane
    let q := if ownerEmpty then { q with owners := q.owners.erase owner } else q
    some (item,⟨owner,lane,ownerHasMore⟩,q)

def popOwnerContinue (cursor : OwnerAdmissionCursor) :
    Option (T × OwnerAdmissionCursor × OwnerAdmissionQueues T) :=
  if cursor.ownerHasMore then q.takeItem cursor.owner cursor.lane else none

/-- The turns of the loop of `popLane`, with the owners they take from the ready list. -/
def popLaneFrom (lane : Lane) : Nat → OwnerAdmissionQueues T →
    List OwnerId × Option (T × OwnerAdmissionCursor) × OwnerAdmissionQueues T
  | 0,q => ([],none,q)
  | turns + 1,q => match q.popReadyFront lane with
    | none => ([],none,q)
    | some (owner,q) => match q.takeItem owner lane with
      | none =>
        let (taken,result) := popLaneFrom lane turns q
        (owner :: taken,result)
      | some (item,cursor,q) => ([owner],some (item,cursor),q)

def popLane : List OwnerId × Option (T × OwnerAdmissionCursor) × OwnerAdmissionQueues T :=
  popLaneFrom lane (q.ready.get lane).length q

/-- The loop of `popNextRunInto` after the first item, with the number of items it may still add. -/
def extendRun : Nat → OwnerAdmissionCursor → List T → OwnerAdmissionQueues T →
    List T × OwnerAdmissionCursor × OwnerAdmissionQueues T
  | 0,cursor,items,q => (items,cursor,q)
  | room + 1,cursor,items,q =>
    if cursor.ownerHasMore then
      match q.popOwnerContinue cursor with
      | none => (items,{ cursor with ownerHasMore := false },q)
      | some (item,cursor,q) => extendRun room cursor (items ++ [item]) q
    else (items,cursor,q)

def popNextRunInto (limit : Nat) :
    List OwnerId × Option (List T × OwnerAdmissionCursor) × OwnerAdmissionQueues T :=
  if limit = 0 then ([],none,q)
  else match q.popLane lane with
    | (taken,none,q) => (taken,none,q)
    | (taken,some (item,cursor),q) =>
      let (items,cursor,q) := extendRun (limit - 1) cursor [item] q
      (taken,some (items,cursor),q)

def continueOwnerLane (cursor : OwnerAdmissionCursor) : OwnerAdmissionQueues T :=
  if cursor.ownerHasMore then q.pushReady cursor.owner cursor.lane false else q

/-- The items go back in front of the owner's lane. The lane does not become ready. -/
def deferOwnerRun (cursor : OwnerAdmissionCursor) (items : List T) : OwnerAdmissionQueues T :=
  if items.isEmpty then q
  else (q.setQueue cursor.owner cursor.lane (items ++ q.queue cursor.owner cursor.lane)).incrementLaneLenBy
    cursor.lane items.length

def wakeOwner : OwnerAdmissionQueues T :=
  match q.owners.get? owner with
  | none => q
  | some queues =>
    let q := if queues.priority.isEmpty then q else q.pushReady owner .priority false
    let q := if queues.bulk.isEmpty then q else q.pushReady owner .bulk (dataplaneLocalBulk owner .bulk)
    if queues.background.isEmpty then q else q.pushReady owner .background false

variable {P : Type} [AdmissionPacket P] (q : OwnerAdmissionQueues (QueuedAdmission P))

def admitWithSeq (packet : P) (ingressSeq : Nat) : Bool × OwnerAdmissionQueues (QueuedAdmission P) :=
  q.push ⟨ingressSeq,packet⟩ false

def numbered (packets : List P) (firstSeq : Nat) : List (QueuedAdmission P) :=
  packets.mapIdx fun i packet => ⟨U64.wrappingAdd firstSeq i,packet⟩

/-- A run is queued where its first packet belongs. -/
def admitRunWithSeq (packets : List P) (firstSeq : Nat) : Bool × OwnerAdmissionQueues (QueuedAdmission P) :=
  match packets with
  | [] => (false,q)
  | first :: _ =>
    q.pushRunBack (AdmissionPacket.owner first) (AdmissionPacket.lane first) (numbered packets firstSeq)

end OwnerAdmissionQueues

end Fips.Dataplane
