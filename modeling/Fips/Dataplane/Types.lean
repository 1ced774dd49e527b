import Fips.Basic

set_option autoImplicit false

namespace Fips.Dataplane

inductive PacketProtocol where
  | fmp
  | fsp
  deriving DecidableEq

structure OwnerId where
  nodeAddr : NodeAddr
  protocol : PacketProtocol
  deriving DecidableEq

/-- Owners are only ever compared for equality. The order stands for that of a traversal nobody sees. -/
instance : LinearOrder OwnerId :=
  LinearOrder.lift' (fun o : OwnerId => toLex (o.nodeAddr,decide (o.protocol = .fsp))) fun a b same => by
    obtain ⟨addr,protocol⟩ := a
    obtain ⟨addr',protocol'⟩ := b
    obtain ⟨rfl,kind⟩ := Prod.mk.inj (toLex.injective same)
    cases protocol <;> cases protocol' <;> first | rfl | cases kind

inductive Lane where
  | priority
  | bulk
  | background
  deriving DecidableEq

inductive PacketClass where
  | control
  | mmp
  | liveness
  | bulk
  | background
  deriving DecidableEq

def PacketClass.lane : PacketClass → Lane
  | .control | .mmp | .liveness => .priority
  | .bulk => .bulk
  | .background => .background

structure PerLane (α : Type) where
  priority : α
  bulk : α
  background : α
  deriving DecidableEq

namespace PerLane

variable {α : Type}

def get (p : PerLane α) : Lane → α
  | .priority => p.priority
  | .bulk => p.bulk
  | .background => p.background

def set (p : PerLane α) (lane : Lane) (a : α) : PerLane α :=
  match lane with
  | .priority => { p with priority := a }
  | .bulk => { p with bulk := a }
  | .background => { p with background := a }

def all (a : α) : PerLane α := ⟨a,a,a⟩

@[simp] theorem get_all (a : α) (lane : Lane) : (all a).get lane = a := by cases lane <;> rfl

theorem get_set (p : PerLane α) (lane lane' : Lane) (a : α) :
    (p.set lane a).get lane' = if lane' = lane then a else p.get lane' := by
  cases lane <;> cases lane' <;> rfl

@[simp] theorem get_set_self (p : PerLane α) (lane : Lane) (a : α) : (p.set lane a).get lane = a := by
  rw [get_set,if_pos rfl]

theorem get_set_of_ne (p : PerLane α) {lane lane' : Lane} (other : lane' ≠ lane) (a : α) :
    (p.set lane a).get lane' = p.get lane' := by rw [get_set,if_neg other]

end PerLane

inductive DataplaneReceiveEpoch where
  | current
  | pending
  | previous
  deriving DecidableEq

inductive OutboundSendEpoch where
  | current
  | pending
  deriving DecidableEq

def flagKeyEpoch : UInt8 := 0x01
def fspFlagK : UInt8 := 0x02

/-- `sessionPayload` says that the opened payload goes to a session of this node. -/
structure SocketPacket where
  owner : OwnerId
  generation : Nat
  counter : Nat
  packetClass : PacketClass
  sessionPayload : Bool := false
  sourcePath : Option Nat := none
  wireFlags : UInt8 := 0
  receiveEpoch : DataplaneReceiveEpoch := .current
  deriving DecidableEq

def SocketPacket.lane (packet : SocketPacket) : Lane := packet.packetClass.lane

inductive OutboundWire where
  | fmp (receiverIdx : UInt32) (flags : UInt8)
  | fsp (flags : UInt8)
  deriving DecidableEq

/-- `sourceRefuses` stands for the answer of the preparation of an originated packet. -/
structure OutboundPacket where
  owner : OwnerId
  generation : Nat
  packetClass : PacketClass
  wire : OutboundWire
  sendEpoch : OutboundSendEpoch := .current
  sourceRefuses : Bool := false
  deriving DecidableEq

def OutboundPacket.lane (packet : OutboundPacket) : Lane := packet.packetClass.lane

def dataplaneLocalBulk (owner : OwnerId) (lane : Lane) : Bool := lane = .bulk ∧ owner.protocol = .fsp

end Fips.Dataplane
