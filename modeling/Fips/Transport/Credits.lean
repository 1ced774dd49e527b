import Fips.Transport.PacketChannel

set_option autoImplicit false

/-! The credits that travel with the packets of the channel, and what becomes of them when the
receiver is dropped. -/

namespace Fips.Transport

/-- How far the drop of a `PacketRx` has got. Its fields are dropped in their order: the receiver of
each lane closes the lane and drops what is left in it, then the pending tails go. -/
inductive DropStage where
  | close (lane : PacketLane)
  | drain (lane : PacketLane)
  | item (lane : PacketLane) (count : Nat)
  | tail (lane : PacketLane)
  | done
  deriving DecidableEq

/-- The channel with the credits of the items and tails that the receiver has taken, and with the
lanes that its receiver has closed. -/
structure CreditedChannel (P : Type) where
  channel : PacketChannel P
  held : Lanes Nat := ⟨0,0⟩
  closed : Lanes Bool := ⟨false,false⟩
  dropping : Option DropStage := none

inductive CreditEvent (P : Type) where
  | base (event : PacketChannel.Event P)
  | fail (i : Nat)
  | dropReceiver
  | dropStep
  | free (lane : PacketLane)

/-- The credits in the receiver's hands after one of its operations. -/
def heldAfter {P : Type} (held : Lanes Nat) : (op : RxOp P) → op.Result → Lanes Nat
  | .tryRecv lane,.item item => held.set lane (held.get lane+item.packetCount)
  | .releaseReserved lane count,_ => held.set lane (held.get lane-count)
  | _,_ => held

namespace CreditedChannel

open PacketChannel

variable {P : Type}

def start (P : Type) (buffer : Nat) : CreditedChannel P := { channel := packetChannel P buffer }

def receive (s : CreditedChannel P) (answer : Bool) : Option (CreditedChannel P) :=
  match s.channel.running with
  | some (.ask op next) =>
    let (result,channel) := s.channel.perform answer op
    some { s with
      channel := { channel with running := some (next result) }
      held := heldAfter s.held op result }
  | _ => (s.channel.receive answer).map fun channel => { s with channel := channel }

/-- Credits that are dropped: they leave the channel and are released. -/
def dropCredits (ch : PacketChannel P) (lane : PacketLane) (count : Nat) : PacketChannel P :=
  (ch.leaveChannel lane count).releaseReserved lane count

/-- The `i`-th send finds its lane closed and gives up, with what it would still have sent. A send that
looked before the lane was closed goes on as if it were open. -/
def failSend (s : CreditedChannel P) (i : Nat) : Option (CreditedChannel P) := do
  let send ← s.channel.sends[i]?
  match send.stage with
  | .awaitSpace _ =>
    if s.closed.priority then some { s with channel := s.channel.finishSend i [] true } else none
  | .readCapacity lane _ =>
    if s.closed.get lane then some { s with channel := s.channel.finishSend i [] false } else none
  | .enqueue lane item turn =>
    if s.closed.get lane then
      some { s with channel := (dropCredits s.channel lane item.packetCount).finishSend i [] turn }
    else none
  | _ => none

/-- What is dropped once the queue of a lane is empty. -/
def afterDrain : PacketLane → DropStage
  | .priority => .close .bulk
  | .bulk => .tail .priority

def afterTail : PacketLane → DropStage
  | .priority => .tail .bulk
  | .bulk => .done

def dropStep (s : CreditedChannel P) : Option (CreditedChannel P) :=
  match s.dropping with
  | some (.close lane) => some { s with closed := s.closed.set lane true, dropping := some (.drain lane) }
  | some (.drain lane) =>
    match s.channel.queue.get lane with
    | [] => some { s with dropping := some (afterDrain lane) }
    | item :: items =>
      some { s with
        channel := { s.channel with queue := s.channel.queue.set lane items }
        held := s.held.set lane (s.held.get lane+item.packetCount)
        dropping := some (.item lane item.packetCount) }
  | some (.item lane count) =>
    some { s with
      channel := dropCredits s.channel lane count
      held := s.held.set lane (s.held.get lane-count)
      dropping := some (.drain lane) }
  | some (.tail lane) =>
    let count := (s.channel.rx.pending.get lane).length
    let channel := s.channel.releaseReserved lane count
    some { s with
      channel := { channel with rx := { channel.rx with pending := channel.rx.pending.set lane [] } }
      held := s.held.set lane (s.held.get lane-count)
      dropping := some (afterTail lane) }
  | some .done | none => none

/-- An item that was pushed after its lane was drained goes with the channel itself, which the last
sender takes with it. -/
def free (s : CreditedChannel P) (lane : PacketLane) : Option (CreditedChannel P) :=
  if s.dropping = some .done ∧ s.channel.sendersAlive = false then
    match s.channel.queue.get lane with
    | [] => none
    | item :: items =>
      let channel := { s.channel with queue := s.channel.queue.set lane items }
      some { s with channel := dropCredits channel lane item.packetCount }
  else none

section Steps

variable (isTransportPriority : P → Bool)

def step (s : CreditedChannel P) : CreditEvent P → Option (CreditedChannel P)
  | .base (.receive answer) => s.receive answer
  | .base (.call call) =>
    if s.dropping.isNone then
      (s.channel.step isTransportPriority (.call call)).map fun channel => { s with channel := channel }
    else none
  | .base event => (s.channel.step isTransportPriority event).map fun channel => { s with channel := channel }
  | .fail i => s.failSend i
  | .dropReceiver =>
    if s.channel.running.isNone && s.dropping.isNone then
      some { s with dropping := some (.close .priority) } else none
  | .dropStep => s.dropStep
  | .free lane => s.free lane

def run (s : CreditedChannel P) : List (CreditEvent P) → Option (CreditedChannel P)
  | [] => some s
  | event :: events => do run (← s.step isTransportPriority event) events

end Steps

def reservedBy (lane : PacketLane) (send : Sending P) : Nat :=
  match send.stage with
  | .credit own item _ | .enqueue own item _ => if own = lane then item.packetCount else 0
  | .full own count _ => if own = lane then count else 0
  | _ => 0

def reservedAll (lane : PacketLane) (sends : List (Sending P)) : Nat :=
  (sends.map (reservedBy lane)).sum

def queuedCredits (items : List (PacketQueueItem P)) : Nat :=
  (items.map PacketQueueItem.packetCount).sum

def released (s : CreditedChannel P) : CreditEvent P → Option (PacketLane × Nat)
  | .base (.receive _) =>
    match s.channel.running with
    | some (.ask (.releaseReserved lane count) _) => some (lane,count)
    | _ => none
  | .base (.advance i _) =>
    match (s.channel.sends[i]?).map Sending.stage with
    | some (.full lane count _) => some (lane,count)
    | _ => none
  | .fail i =>
    match (s.channel.sends[i]?).map Sending.stage with
    | some (.enqueue lane item _) => some (lane,item.packetCount)
    | _ => none
  | .dropStep =>
    match s.dropping with
    | some (.item lane count) => some (lane,count)
    | some (.tail lane) => some (lane,(s.channel.rx.pending.get lane).length)
    | _ => none
  | .free lane =>
    match s.channel.queue.get lane with
    | [] => none
    | item :: _ => some (lane,item.packetCount)
  | _ => none

end CreditedChannel

end Fips.Transport
