import Fips.Tun.Vnet

set_option autoImplicit false

/-! Packets for the TUN device are coalesced into frames: consecutive TCP segments of a flow share one
header. -/

namespace Fips.Tun

structure LinuxVnetTcp6GroFlow where
  versionTcFlow : List UInt8
  nextHeader : UInt8
  hopLimit : UInt8
  srcAddr : List UInt8
  dstAddr : List UInt8
  srcPort : Nat
  dstPort : Nat
  ack : Nat
  tcpOptionsLen : Nat
  /-- forty bytes, the unused ones zero -/
  tcpOptions : List UInt8
  deriving DecidableEq

structure LinuxVnetTcp6GroCandidate where
  tcpHeaderLen : Nat
  payloadLen : Nat
  seq : Nat
  pshSet : Bool
  flow : LinuxVnetTcp6GroFlow
  deriving DecidableEq

structure LinuxVnetTcp6GroState where
  tcpHeaderLen : Nat
  gsoSize : Nat
  payloadLen : Nat
  nextSeq : Nat
  pshSet : Bool
  flow : LinuxVnetTcp6GroFlow
  deriving DecidableEq

structure LinuxVnetPayloadSegment where
  packetIndex : Nat
  payloadOffset : Nat
  deriving DecidableEq

structure LinuxVnetWriteFrame where
  virtioHeader : List UInt8
  firstHeader : List UInt8
  firstPacketIndex : Nat
  firstPayloadOffset : Nat
  payloadSegments : List LinuxVnetPayloadSegment
  tcp6Gro : Option LinuxVnetTcp6GroState
  deriving DecidableEq

inductive LinuxVnetPreparedWriteFrame where
  | rawPacket (packetIndex : Nat)
  | vectored (frameIndex : Nat)
  deriving DecidableEq

/-- The flags of a packet that can be coalesced are ACK, or ACK and PSH. -/
def groPshSet (flags : UInt8) : Option Bool :=
  if flags = linuxTcpFlagAck then some false
  else if flags = linuxTcpFlagAck ||| linuxTcpFlagPsh then some true
  else none

def linuxVnetTcp6GroFlow (packet : List UInt8) (tcpHeaderLen : Nat) : LinuxVnetTcp6GroFlow where
  versionTcFlow := Bytes.slice packet 0 4
  nextHeader := packet.getD 6 0
  hopLimit := packet.getD 7 0
  srcAddr := Bytes.slice packet 8 16
  dstAddr := Bytes.slice packet 24 16
  srcPort := Bytes.value (Bytes.slice packet 40 2)
  dstPort := Bytes.value (Bytes.slice packet 42 2)
  ack := Bytes.value (Bytes.slice packet 48 4)
  tcpOptionsLen := tcpHeaderLen - 20
  tcpOptions := Bytes.slice packet 60 (tcpHeaderLen - 20) ++ List.replicate (40 - (tcpHeaderLen - 20)) 0

def linuxVnetTcp6GroCandidate (packet : List UInt8) : Option LinuxVnetTcp6GroCandidate :=
  if packet.length < 60 ∨ packet.getD 0 0 >>> 4 ≠ 6 ∨ packet.getD 6 0 ≠ linuxIpprotoTcp then none
  else
    let payloadLen := Bytes.value (Bytes.slice packet 4 2)
    if payloadLen ≠ packet.length - 40 ∨ payloadLen < 20 then none
    else
      let tcpHeaderLen := (packet.getD 52 0 >>> 4).toNat * 4
      if ¬(20 ≤ tcpHeaderLen ∧ tcpHeaderLen ≤ 60) ∨ packet.length < 40 + tcpHeaderLen then none
      else match groPshSet (packet.getD (40 + linuxTcpFlagsOffset) 0) with
        | none => none
        | some pshSet =>
          let dataLen := packet.length - 40 - tcpHeaderLen
          if dataLen = 0 ∨ 0xffff < dataLen then none
          else some {
            tcpHeaderLen := tcpHeaderLen
            payloadLen := dataLen
            seq := Bytes.value (Bytes.slice packet 44 4)
            pshSet := pshSet
            flow := linuxVnetTcp6GroFlow packet tcpHeaderLen }

def linuxVnetStartTcp6WriteFrameWithCandidate (packetIndex : Nat) (candidate : LinuxVnetTcp6GroCandidate) :
    LinuxVnetWriteFrame where
  virtioHeader := List.replicate linuxVirtioNetHdrLen 0
  firstHeader := []
  firstPacketIndex := packetIndex
  firstPayloadOffset := 0
  payloadSegments := []
  tcp6Gro := some {
    tcpHeaderLen := candidate.tcpHeaderLen
    gsoSize := candidate.payloadLen
    payloadLen := candidate.payloadLen
    nextSeq := (candidate.seq + candidate.payloadLen) % 2^32
    pshSet := candidate.pshSet
    flow := candidate.flow }

/-- The frame with the packet, unless it cannot be coalesced with those before. -/
def linuxVnetTryTcp6GroAppendWithCandidate (frame : LinuxVnetWriteFrame) (packetIndex : Nat)
    (candidate : LinuxVnetTcp6GroCandidate) : Option LinuxVnetWriteFrame :=
  match frame.tcp6Gro with
  | none => none
  | some state =>
    if state.pshSet = true ∨ state.payloadLen % state.gsoSize ≠ 0 then none
    else if candidate.flow ≠ state.flow ∨ candidate.tcpHeaderLen ≠ state.tcpHeaderLen ∨
      candidate.seq ≠ state.nextSeq ∨
        state.gsoSize < candidate.payloadLen then none
    else if 0xffff < 40 + state.tcpHeaderLen + state.payloadLen + candidate.payloadLen then none
    else some { frame with
      payloadSegments := frame.payloadSegments ++ [⟨packetIndex,40 + candidate.tcpHeaderLen⟩]
      tcp6Gro := some { state with
        payloadLen := state.payloadLen + candidate.payloadLen
        nextSeq := (state.nextSeq + candidate.payloadLen) % 2^32
        pshSet := state.pshSet || candidate.pshSet } }

/-- The header of a coalesced packet, with what the device has to add to its checksum. -/
def coalescedHeader (firstPacket : List UInt8) (state : LinuxVnetTcp6GroState) : List UInt8 :=
  let transportLen := state.tcpHeaderLen + state.payloadLen
  let packet := firstPacket.take (40 + state.tcpHeaderLen)
  let packet := Bytes.overwrite packet 4 (Bytes.ofValue 2 transportLen)
  let flags := packet.getD (40 + linuxTcpFlagsOffset) 0
  let packet := if state.pshSet then Bytes.overwrite packet (40 + linuxTcpFlagsOffset)
    [flags ||| linuxTcpFlagPsh] else packet
  let pseudo := linuxVnetPseudoHeaderSum linuxIpprotoTcp (Bytes.slice packet 8 16) (Bytes.slice packet 24 16)
    (transportLen % 2^16)
  let partialSum := u16Not (linuxVnetChecksum [] pseudo)
  Bytes.overwrite packet 56 (Bytes.ofValue 2 partialSum)

def linuxVnetFinishTcp6WriteFrame (ne : ByteOrder) (packets : List (List UInt8)) (frame : LinuxVnetWriteFrame)
    (state : LinuxVnetTcp6GroState) : LinuxVnetWriteFrame :=
  if state.payloadLen ≤ state.gsoSize then frame
  else
    let headerLen := 40 + state.tcpHeaderLen
    { frame with
      firstHeader := coalescedHeader (packets.getD frame.firstPacketIndex []) state
      firstPayloadOffset := headerLen
      virtioHeader := LinuxVirtioNetHdr.encode ne {
        flags := linuxVirtioNetHdrFNeedsCsum
        gsoType := linuxVirtioNetHdrGsoTcpv6
        hdrLen := headerLen
        gsoSize := state.gsoSize
        csumStart := 40
        csumOffset := 16 } }

def linuxVnetFinishWriteFrame (ne : ByteOrder) (packets : List (List UInt8)) (frame : LinuxVnetWriteFrame) :
    LinuxVnetWriteFrame :=
  match frame.tcp6Gro with
  | none => frame
  | some state => linuxVnetFinishTcp6WriteFrame ne packets { frame with tcp6Gro := none } state

/-- What one call of `prepare` builds. -/
structure LinuxVnetWritePreparer where
  frames : List LinuxVnetPreparedWriteFrame := []
  vectoredFrames : List LinuxVnetWriteFrame := []
  openTcp6Flows : List (LinuxVnetTcp6GroFlow × Nat) := []

namespace LinuxVnetWritePreparer

variable (preparer : LinuxVnetWritePreparer)

def startTcp6WriteFrame (packetIndex : Nat) (candidate : LinuxVnetTcp6GroCandidate) :
    LinuxVnetWritePreparer where
  frames := preparer.frames ++ [.vectored preparer.vectoredFrames.length]
  vectoredFrames := preparer.vectoredFrames ++
    [linuxVnetStartTcp6WriteFrameWithCandidate packetIndex candidate]
  openTcp6Flows := preparer.openTcp6Flows ++ [(candidate.flow,preparer.vectoredFrames.length)]

/-- The frame of the flow that was opened last, with the packet. -/
def tryAppend (packetIndex : Nat) (candidate : LinuxVnetTcp6GroCandidate) :
    Option LinuxVnetWritePreparer := do
  let (_,ownedIndex) ← preparer.openTcp6Flows.reverse.find? fun entry => entry.1 = candidate.flow
  let frame ← preparer.vectoredFrames[ownedIndex]?
  let frame ← linuxVnetTryTcp6GroAppendWithCandidate frame packetIndex candidate
  return { preparer with vectoredFrames := preparer.vectoredFrames.set ownedIndex frame }

def place (packetIndex : Nat) (packet : List UInt8) : LinuxVnetWritePreparer :=
  match linuxVnetTcp6GroCandidate packet with
  | some candidate => match preparer.tryAppend packetIndex candidate with
    | some preparer => preparer
    | none => preparer.startTcp6WriteFrame packetIndex candidate
  | none => { preparer with openTcp6Flows := [], frames := preparer.frames ++ [.rawPacket packetIndex] }

/-- The packets in turn, the first of which has index `packetIndex`. -/
def placeFrom : LinuxVnetWritePreparer → Nat → List (List UInt8) → LinuxVnetWritePreparer
  | preparer,_,[] => preparer
  | preparer,packetIndex,packet :: rest =>
    placeFrom (preparer.place packetIndex packet) (packetIndex + 1) rest

/-- The frames of an earlier call are used again, with every field set anew. -/
def prepare (ne : ByteOrder) (packets : List (List UInt8)) : LinuxVnetWritePreparer :=
  let preparer := placeFrom {} 0 packets
  { preparer with vectoredFrames := preparer.vectoredFrames.map (linuxVnetFinishWriteFrame ne packets) }

end LinuxVnetWritePreparer

def LinuxVnetWriteFrame.indices (frame : LinuxVnetWriteFrame) : List Nat :=
  frame.firstPacketIndex :: frame.payloadSegments.map (·.packetIndex)

def LinuxVnetWriteFrame.packet (packets : List (List UInt8)) (frame : LinuxVnetWriteFrame) : List UInt8 :=
  frame.firstHeader ++ (packets.getD frame.firstPacketIndex []).drop frame.firstPayloadOffset ++
    frame.payloadSegments.flatMap fun segment =>
      (packets.getD segment.packetIndex []).drop segment.payloadOffset

end Fips.Tun
