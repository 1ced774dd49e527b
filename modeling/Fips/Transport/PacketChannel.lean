import Fips.Lib.Program

set_option autoImplicit false

/-! The channel from the transports to the receive loop: a priority and a bulk lane, senders that
reserve, credit and enqueue in separate steps, and one receiver whose every access to the shared
state is a step of its own. -/

namespace Fips.Transport

def transportPriorityPacketCapacity : Nat := 64

inductive PacketLane where
  | priority
  | bulk
  deriving DecidableEq

structure Lanes (α : Type) where
  priority : α
  bulk : α
  deriving DecidableEq

namespace Lanes

variable {α : Type}

def get (lanes : Lanes α) : PacketLane → α
  | .priority => lanes.priority
  | .bulk => lanes.bulk

def set (lanes : Lanes α) (lane : PacketLane) (a : α) : Lanes α :=
  match lane with
  | .priority => { lanes with priority := a }
  | .bulk => { lanes with bulk := a }

@[simp] theorem get_set (lanes : Lanes α) (lane other : PacketLane) (a : α) :
    (lanes.set lane a).get other = if other = lane then a else lanes.get other := by
  cases lane <;> cases other <;> rfl

@[simp] theorem set_get (lanes : Lanes α) (lane : PacketLane) :
    lanes.set lane (lanes.get lane) = lanes := by
  cases lane <;> rfl

@[simp] theorem set_set (lanes : Lanes α) (lane : PacketLane) (a b : α) :
    (lanes.set lane a).set lane b = lanes.set lane b := by
  cases lane <;> rfl

end Lanes

/-- `send_packet_items` never enqueues a batch without packets. -/
inductive PacketQueueItem (P : Type) where
  | one (packet : P)
  | batch (first : P) (rest : List P)

namespace PacketQueueItem

variable {P : Type}

def first : PacketQueueItem P → P
  | .one packet => packet
  | .batch first _ => first

def rest : PacketQueueItem P → List P
  | .one _ => []
  | .batch _ rest => rest

def packets (item : PacketQueueItem P) : List P :=
  item.first :: item.rest

def packetCount (item : PacketQueueItem P) : Nat :=
  item.packets.length

/-- `send_item` sends all or nothing; `send_packet_items` truncates to the granted packets. -/
def granted : PacketQueueItem P → Nat → Option (PacketQueueItem P)
  | .one packet,count => if count = 1 then some (.one packet) else none
  | .batch _ _,0 => none
  | .batch first rest,count+1 => some (.batch first (rest.take count))

end PacketQueueItem

/-- The pending tails are empty where the code has none. -/
structure PacketRx (P : Type) where
  pending : Lanes (List P) := ⟨[],[]⟩
  closed : Lanes Bool := ⟨false,false⟩

inductive Received (P : Type) where
  | item (item : PacketQueueItem P)
  | empty
  | disconnected

/-- The accesses of the receiver. Its own fields are read and written by operations too, so that
its state between two accesses to the shared counters and queues is all in one place. -/
inductive RxOp (P : Type) where
  | loadPriorityQueued
  | tryRecv (lane : PacketLane)
  | leaveChannel (lane : PacketLane) (count : Nat)
  | releaseReserved (lane : PacketLane) (count : Nat)
  | getRx
  | setRx (rx : PacketRx P)
  | handOver (lane : PacketLane) (packet : P)

def RxOp.Result {P : Type} : RxOp P → Type
  | .loadPriorityQueued => Nat
  | .tryRecv _ => Received P
  | .leaveChannel _ _ => Unit
  | .releaseReserved _ _ => Unit
  | .getRx => PacketRx P
  | .setRx _ => Unit
  | .handOver _ _ => Bool

abbrev Receiving (P : Type) := Program (RxOp P) RxOp.Result

namespace Receiving

variable {P : Type}

section Receiver

variable (lane : PacketLane)

def loadPriorityQueued : Receiving P Nat := Program.perform RxOp.loadPriorityQueued
def tryRecvLane : Receiving P (Received P) := Program.perform (RxOp.tryRecv lane)
def leaveChannel (count : Nat) : Receiving P Unit :=
  Program.perform (RxOp.leaveChannel lane count)
def releaseReserved (count : Nat) : Receiving P Unit :=
  Program.perform (RxOp.releaseReserved lane count)
def getRx : Receiving P (PacketRx P) := Program.perform RxOp.getRx
def setRx (rx : PacketRx P) : Receiving P Unit := Program.perform (RxOp.setRx rx)

/-- A packet reaches the caller: as the result of `recv` or `try_recv`, or through `consume`, whose
answer says whether to go on. -/
def handOver (packet : P) : Receiving P Bool :=
  Program.perform (RxOp.handOver lane packet)

def setClosed : Receiving P Unit := do
  let rx ← getRx
  setRx { rx with closed := rx.closed.set lane true }

def shouldProbePriority : Receiving P Bool := do
  let rx ← getRx
  if rx.closed.priority then
    return false
  else
    let queued ← loadPriorityQueued
    return decide (0 < queued) || rx.closed.bulk

def takePending : Receiving P (Option P) := do
  let rx ← getRx
  match rx.pending.get lane with
  | [] => return none
  | packet :: rest =>
    releaseReserved lane 1
    setRx { rx with pending := rx.pending.set lane rest }
    return some packet

/-- Storing a new tail drops the one stored before, with its credits. -/
def storeTail (rest : List P) : Receiving P Unit := do
  let rx ← getRx
  setRx { rx with pending := rx.pending.set lane rest }
  releaseReserved lane (rx.pending.get lane).length

def packetFromItem (item : PacketQueueItem P) (lane : PacketLane) : Receiving P P := do
  leaveChannel lane item.packetCount
  releaseReserved lane 1
  if item.rest.isEmpty then
    return item.first
  else
    storeTail lane item.rest
    return item.first

inductive TryRecvError where
  | empty
  | disconnected
  deriving DecidableEq

def tryRecv : Receiving P (Except TryRecvError (PacketLane × P)) := do
  match ← takePending .priority with
  | some packet => return .ok (.priority,packet)
  | none =>
    if ← shouldProbePriority then
      match ← tryRecvLane .priority with
      | .item item => return .ok (.priority,← packetFromItem item .priority)
      | .empty => fromBulk
      | .disconnected =>
        setClosed .priority
        fromBulk
    else
      fromBulk
where
  fromBulk : Receiving P (Except TryRecvError (PacketLane × P)) := do
    match ← takePending .bulk with
    | some packet => return .ok (.bulk,packet)
    | none =>
      match ← tryRecvLane .bulk with
      | .item item => return .ok (.bulk,← packetFromItem item .bulk)
      | .empty =>
        let rx ← getRx
        return .error (if rx.closed.priority && rx.closed.bulk then .disconnected else .empty)
      | .disconnected =>
        setClosed .bulk
        let rx ← getRx
        return .error (if rx.closed.priority then .disconnected else .empty)

/-- With `room` packets left to the limit. The results are the answer and the room that is left. -/
def drainPendingPriority : Nat → Receiving P (Bool × Nat)
  | 0 => return (true,0)
  | room+1 => do
    match ← takePending .priority with
    | none => return (true,room+1)
    | some packet =>
      if ← handOver .priority packet then drainPendingPriority room else return (false,room)

def drainPendingBulk : Nat → Receiving P (Bool × Nat)
  | 0 => return (true,0)
  | room+1 => do
    if ← shouldProbePriority then
      return (true,room+1)
    else
      match ← takePending .bulk with
      | none => return (true,room+1)
      | some packet =>
        if ← handOver .bulk packet then drainPendingBulk room else return (false,room)

def drainPending : PacketLane → Nat → Receiving P (Bool × Nat)
  | .priority => drainPendingPriority
  | .bulk => drainPendingBulk

def drainItem (item : PacketQueueItem P) (lane : PacketLane) (room : Nat) :
    Receiving P (Bool × Nat) := do
  let packet ← packetFromItem item lane
  if ← handOver lane packet then drainPending lane (room-1) else return (false,room-1)

/-- The second half of a turn of `drain_ready`, once the priority lane had nothing. -/
def drainBulk (room : Nat) : Receiving P (Bool × Nat) := do
  let (goOn,room) ← drainPendingBulk room
  if !goOn || room == 0 then
    return (false,room)
  else
    match ← tryRecvLane .bulk with
    | .item item => drainItem item .bulk room
    | .empty => return (false,room)
    | .disconnected =>
      setClosed .bulk
      return (false,room)

/-- A turn of the loop of `drain_ready`: whether it goes on, and the room that is left. -/
def drainTurn (room : Nat) : Receiving P (Bool × Nat) := do
  let (goOn,room) ← drainPendingPriority room
  if !goOn || room == 0 then
    return (false,room)
  else if ← shouldProbePriority then
    match ← tryRecvLane .priority with
    | .item item => drainItem item .priority room
    | .empty => drainBulk room
    | .disconnected =>
      setClosed .priority
      drainBulk room
  else
    drainBulk room

/-- A turn that goes on has taken a packet, so `limit` turns are enough. -/
def drainTurns : Nat → Nat → Receiving P Nat
  | 0,room => return room
  | turns+1,room =>
    if room = 0 then
      return 0
    else do
      let (goOn,room) ← drainTurn room
      if goOn then drainTurns turns room else return room

def drainReady (limit : Nat) : Receiving P Nat := do
  return limit - (← drainTurns limit limit)

/-- How a call of the receiver goes on when its program ends: `recv` starts its loop over, or stays
asleep in its `select!`. -/
inductive Next where
  | finished
  | recv
  | select
  deriving DecidableEq

def tryRecvCall : Receiving P Next := do
  match ← tryRecv with
  | .ok (lane,packet) =>
    let _ ← handOver lane packet
    return .finished
  | .error _ => return .finished

def drainReadyCall (limit : Nat) : Receiving P Next := do
  let _ ← drainReady limit
  return .finished

/-- A branch of the `select!`; `otherwise` is what comes after it while it is not ready. -/
def selectLane (otherwise : Receiving P Next) : Receiving P Next := do
  let rx ← getRx
  if rx.closed.get lane then
    otherwise
  else
    match ← tryRecvLane lane with
    | .item item =>
      let packet ← packetFromItem item lane
      let _ ← handOver lane packet
      return .finished
    | .empty => otherwise
    | .disconnected =>
      setClosed lane
      return .recv

end Receiver

def select : Receiving P Next :=
  selectLane .priority (selectLane .bulk (return .select))

def recv : Receiving P Next := do
  match ← tryRecv with
  | .ok (lane,packet) =>
    let _ ← handOver lane packet
    return .finished
  | .error .disconnected => return .finished
  | .error .empty => select

end Receiving

open Receiving in
def Receiving.Next.program {P : Type} : Next → Option (Receiving P Next)
  | .finished => none
  | .recv => some Receiving.recv
  | .select => some Receiving.select

inductive RxCall where
  | tryRecv
  | recv
  | drainReady (limit : Nat)

def RxCall.program {P : Type} : RxCall → Receiving P Receiving.Next
  | .tryRecv => Receiving.tryRecvCall
  | .recv => Receiving.recv
  | .drainReady limit => Receiving.drainReadyCall limit

/-- Where a send has got to. `turn` says that it holds the turn of the stream readers. -/
inductive SendStage (P : Type) where
  | awaitTurn (packet : P)
  | awaitSpace (packet : P)
  | readCapacity (lane : PacketLane) (item : PacketQueueItem P)
  | reserve (lane : PacketLane) (item : PacketQueueItem P) (capacity : Nat)
  | credit (lane : PacketLane) (item : PacketQueueItem P) (turn : Bool)
  | enqueue (lane : PacketLane) (item : PacketQueueItem P) (turn : Bool)
  | full (lane : PacketLane) (count : Nat) (turn : Bool)

/-- A send in progress. The bulk packets of a mixed batch are sent after its priority packets. -/
structure Sending (P : Type) where
  stage : SendStage P
  later : List P := []

/-- `enqueued` and `handed` record, for each lane, the packets in the order in which they entered the
queue and in which the receiver got them. -/
structure PacketChannel (P : Type) where
  bulkPacketCapacity : Nat
  queue : Lanes (List (PacketQueueItem P)) := ⟨[],[]⟩
  priorityQueuedPackets : Nat := 0
  reserved : Lanes Nat := ⟨0,0⟩
  turnHeld : Bool := false
  sendersAlive : Bool := true
  sends : List (Sending P) := []
  rx : PacketRx P := {}
  running : Option (Receiving P Receiving.Next) := none
  enqueued : Lanes (List P) := ⟨[],[]⟩
  handed : Lanes (List P) := ⟨[],[]⟩

def packetChannel (P : Type) (buffer : Nat) : PacketChannel P :=
  { bulkPacketCapacity := max buffer 1 }

namespace PacketChannel

variable {P : Type}

section Channel

variable (ch : PacketChannel P)

/-- `contended` says that another `capacity` call holds the lock of the turn at this moment. -/
def capacity (contended : Bool) : PacketLane → Nat
  | .priority => transportPriorityPacketCapacity - (ch.turnHeld || contended).toNat
  | .bulk => ch.bulkPacketCapacity

/-- The bound of the mpsc channel of a lane, in items. -/
def slots : PacketLane → Nat
  | .priority => transportPriorityPacketCapacity
  | .bulk => ch.bulkPacketCapacity

def replaceSend (i : Nat) (sends : List (Sending P)) : PacketChannel P :=
  { ch with sends := ch.sends.take i ++ sends ++ ch.sends.drop (i+1) }

def creditPriority (lane : PacketLane) (count : Nat) : PacketChannel P :=
  match lane with
  | .priority => { ch with priorityQueuedPackets := ch.priorityQueuedPackets+count }
  | .bulk => ch

def leaveChannel (lane : PacketLane) (count : Nat) : PacketChannel P :=
  match lane with
  | .priority => { ch with priorityQueuedPackets := ch.priorityQueuedPackets-count }
  | .bulk => ch

def releaseReserved (lane : PacketLane) (count : Nat) : PacketChannel P :=
  { ch with reserved := ch.reserved.set lane (ch.reserved.get lane-count) }

/-- The effect of `reserve_packet_prefix` once its compare-and-swap succeeds. -/
def reservePacketPrefix (lane : PacketLane) (capacity requested : Nat) :
    Nat × PacketChannel P :=
  let granted := min requested (capacity-ch.reserved.get lane)
  (granted,{ ch with reserved := ch.reserved.set lane (ch.reserved.get lane+granted) })

/-- A part of a send is over: the turn is given back and the bulk part of a mixed batch starts. -/
def finishSend (i : Nat) (later : List P) (turn : Bool) : PacketChannel P :=
  let ch := { ch with turnHeld := ch.turnHeld && !turn }
  match later with
  | [] => ch.replaceSend i []
  | first :: rest => ch.replaceSend i [{ stage := .readCapacity .bulk (.batch first rest) }]

def pushItem (lane : PacketLane) (item : PacketQueueItem P) :
    PacketChannel P :=
  { ch with
    queue := ch.queue.set lane (ch.queue.get lane ++ [item])
    enqueued := ch.enqueued.set lane (ch.enqueued.get lane ++ item.packets) }

/-- One step of the `i`-th send in progress, unless it waits. -/
def advanceSend (i : Nat) (contended : Bool) : Option (PacketChannel P) := do
  let send ← ch.sends[i]?
  match send.stage with
  | .awaitTurn packet =>
    if ch.turnHeld then none
    else some ({ ch with turnHeld := true }.replaceSend i [{ send with stage := .awaitSpace packet }])
  | .awaitSpace packet =>
    let (granted,ch) := ch.reservePacketPrefix .priority transportPriorityPacketCapacity 1
    if granted = 1 then
      some (ch.replaceSend i [{ send with stage := .credit .priority (.one packet) true }])
    else none
  | .readCapacity lane item =>
    some (ch.replaceSend i [{ send with stage := .reserve lane item (ch.capacity contended lane) }])
  | .reserve lane item capacity =>
    let (granted,ch) := ch.reservePacketPrefix lane capacity item.packetCount
    match item.granted granted with
    | some item => some (ch.replaceSend i [{ send with stage := .credit lane item false }])
    | none => some ((ch.releaseReserved lane granted).finishSend i send.later false)
  | .credit lane item turn =>
    some ((ch.creditPriority lane item.packetCount).replaceSend i
      [{ send with stage := .enqueue lane item turn }])
  | .enqueue lane item turn =>
    if (ch.queue.get lane).length < ch.slots lane then
      some ((ch.pushItem lane item).finishSend i send.later turn)
    else
      some (ch.replaceSend i [{ send with stage := .full lane item.packetCount turn }])
  | .full lane count turn =>
    some (((ch.leaveChannel lane count).releaseReserved lane count).finishSend i send.later turn)

/-- A reliable reader may give up its send while it waits. -/
def cancelSend (i : Nat) : Option (PacketChannel P) := do
  let send ← ch.sends[i]?
  match send.stage with
  | .awaitTurn _ => some (ch.finishSend i send.later false)
  | .awaitSpace _ => some (ch.finishSend i send.later true)
  | _ => none

/-- The answer is that of `consume` when a packet is handed over. -/
def perform (answer : Bool) : (op : RxOp P) → op.Result × PacketChannel P
  | .loadPriorityQueued => (ch.priorityQueuedPackets,ch)
  | .tryRecv lane =>
    match ch.queue.get lane with
    | [] => (if ch.sendersAlive then .empty else .disconnected,ch)
    | item :: items => (.item item,{ ch with queue := ch.queue.set lane items })
  | .leaveChannel lane count => ((),ch.leaveChannel lane count)
  | .releaseReserved lane count => ((),ch.releaseReserved lane count)
  | .getRx => (ch.rx,ch)
  | .setRx rx => ((),{ ch with rx := rx })
  | .handOver lane packet =>
    (answer,{ ch with handed := ch.handed.set lane (ch.handed.get lane ++ [packet]) })

/-- One access of the running call of the receiver. -/
def receive (answer : Bool) : Option (PacketChannel P) :=
  match ch.running with
  | none => none
  | some (.done next) => some { ch with running := next.program }
  | some (.ask op next) =>
    let (result,ch) := ch.perform answer op
    some { ch with running := some (next result) }

/-- The only point at which `recv` can be given up is its `select!`. -/
def cancelRecv : Option (PacketChannel P) :=
  match ch.running with
  | some (.done .select) => some { ch with running := none }
  | _ => none

def startSend (send : Sending P) : Option (PacketChannel P) :=
  if ch.sendersAlive then some { ch with sends := ch.sends ++ [send] } else none

end Channel

inductive Event (P : Type) where
  | send (packet : P)
  | sendPacketBatch (packets : List P)
  | sendStreamPacket (packet : P)
  | advance (i : Nat) (contended : Bool)
  | cancel (i : Nat)
  | dropSenders
  | call (call : RxCall)
  | receive (answer : Bool)
  | cancelRecv

section Sends

variable (isTransportPriority : P → Bool)

def sendStart (packet : P) : Sending P :=
  { stage := .readCapacity (if isTransportPriority packet then .priority else .bulk) (.one packet) }

/-- The priority packets of a batch first, then its bulk packets. -/
def batchStart (packets : List P) : Option (Sending P) :=
  match packets.filter isTransportPriority,packets.filter (fun packet => !isTransportPriority packet) with
  | [],[] => none
  | [],first :: rest => some { stage := .readCapacity .bulk (.batch first rest) }
  | first :: rest,bulk => some { stage := .readCapacity .priority (.batch first rest), later := bulk }

def streamStart (packet : P) : Sending P :=
  if isTransportPriority packet then { stage := .awaitTurn packet }
  else sendStart isTransportPriority packet

/-- One step of any party, where it is enabled. -/
def step (ch : PacketChannel P) : Event P → Option (PacketChannel P)
  | .send packet => ch.startSend (sendStart isTransportPriority packet)
  | .sendPacketBatch packets =>
    match batchStart isTransportPriority packets with
    | some send => ch.startSend send
    | none => some ch
  | .sendStreamPacket packet => ch.startSend (streamStart isTransportPriority packet)
  | .advance i contended => ch.advanceSend i contended
  | .cancel i => ch.cancelSend i
  | .dropSenders => if ch.sends.isEmpty then some { ch with sendersAlive := false } else none
  | .call call => if ch.running.isNone then some { ch with running := some call.program } else none
  | .receive answer => ch.receive answer
  | .cancelRecv => ch.cancelRecv

def run (ch : PacketChannel P) : List (Event P) → Option (PacketChannel P)
  | [] => some ch
  | event :: events => do run (← ch.step isTransportPriority event) events

end Sends

end PacketChannel

end Fips.Transport
