import Fips.Lib.OnesComplement

set_option autoImplicit false

/-! The virtio side of the Linux TUN device: frames that are read are split into packets, packets that are
written are coalesced into frames. -/

namespace Fips.Tun

open Bytes

inductive ErrorKind where
  | unexpectedEof
  | invalidData
  deriving DecidableEq

inductive VnetError where
  | io (kind : ErrorKind) (message : String)
  /-- an index out of bounds -/
  | panicked
  deriving DecidableEq

def linuxVirtioNetHdrLen : Nat := 10
def linuxVirtioNetHdrFNeedsCsum : UInt8 := 0x01
def linuxVirtioNetHdrGsoNone : UInt8 := 0
def linuxVirtioNetHdrGsoTcpv6 : UInt8 := 4
def linuxVirtioNetHdrGsoUdpL4 : UInt8 := 5
def linuxVirtioNetHdrGsoEcn : UInt8 := 0x80
def linuxTcpFlagsOffset : Nat := 13
def linuxTcpFlagFin : UInt8 := 0x01
def linuxTcpFlagPsh : UInt8 := 0x08
def linuxTcpFlagAck : UInt8 := 0x10
def linuxIpprotoTcp : UInt8 := 6
def linuxIpprotoUdp : UInt8 := 17
def linuxIpv6SrcAddrOffset : Nat := 8

inductive ByteOrder where
  | little
  | big
  deriving DecidableEq

def ByteOrder.toBytes : ByteOrder → Nat → List UInt8
  | .big,n => ofValue 2 n
  | .little,n => (ofValue 2 n).reverse

def ByteOrder.fromBytes : ByteOrder → List UInt8 → Nat
  | .big,bytes => value bytes
  | .little,bytes => value bytes.reverse

structure LinuxVirtioNetHdr where
  flags : UInt8
  gsoType : UInt8
  hdrLen : Nat
  gsoSize : Nat
  csumStart : Nat
  csumOffset : Nat
  deriving DecidableEq

namespace LinuxVirtioNetHdr

def decode (ne : ByteOrder) (bytes : List UInt8) : Except VnetError LinuxVirtioNetHdr :=
  if bytes.length < linuxVirtioNetHdrLen then .error (.io .unexpectedEof "short virtio net header")
  else .ok {
    flags := bytes.getD 0 0
    gsoType := bytes.getD 1 0
    hdrLen := ne.fromBytes (slice bytes 2 2)
    gsoSize := ne.fromBytes (slice bytes 4 2)
    csumStart := ne.fromBytes (slice bytes 6 2)
    csumOffset := ne.fromBytes (slice bytes 8 2) }

def encode (ne : ByteOrder) (hdr : LinuxVirtioNetHdr) : List UInt8 :=
  [hdr.flags,hdr.gsoType] ++ ne.toBytes hdr.hdrLen ++ ne.toBytes hdr.gsoSize ++ ne.toBytes hdr.csumStart ++
    ne.toBytes hdr.csumOffset

end LinuxVirtioNetHdr

def addChunks : Nat → List UInt8 → Nat × List UInt8
  | sum,a :: b :: c :: d :: e :: f :: g :: h :: rest =>
    let word := value [a,b,c,d,e,f,g,h]
    addChunks (sum + ((word >>> 48) + ((word >>> 32) &&& 0xffff) + ((word >>> 16) &&& 0xffff) +
      (word &&& 0xffff))) rest
  | sum,rest => (sum,rest)

def addPairs : Nat → List UInt8 → Nat × List UInt8
  | sum,a :: b :: rest => addPairs (sum + value [a,b]) rest
  | sum,rest => (sum,rest)

def linuxVnetAddWords (sum : Nat) (bytes : List UInt8) : Nat :=
  let (sum,remainder) := addChunks sum bytes
  let (sum,last) := addPairs sum remainder
  match last with
  | byte :: _ => sum + (byte.toNat <<< 8)
  | [] => sum

/-- The turns of the loop of `linuxVnetChecksum`. Each makes the sum smaller. -/
def foldCarries : Nat → Nat → Nat
  | 0,sum => sum
  | turns + 1,sum => if 0xffff < sum then foldCarries turns ((sum &&& 0xffff) + (sum >>> 16)) else sum

def linuxVnetChecksum (bytes : List UInt8) (initial : Nat) : Nat :=
  let sum := linuxVnetAddWords initial bytes
  foldCarries sum sum

def linuxVnetPseudoHeaderSum (protocol : UInt8) (src dst : List UInt8) (totalLen : Nat) : Nat :=
  linuxVnetAddWords (linuxVnetAddWords 0 src) dst + protocol.toNat + totalLen

def u16Not (n : Nat) : Nat := 0xffff - n

def linuxVnetGsoNoneChecksum (packet : List UInt8) (csumStart csumOffset : Nat) :
    Except VnetError (List UInt8) :=
  let csumAt := csumStart + csumOffset
  if packet.length ≤ csumStart ∨ packet.length ≤ csumAt + 1 then
    .error (.io .invalidData "invalid Linux vnet TUN checksum bounds")
  else
    let initial := value (slice packet csumAt 2)
    let packet := overwrite packet csumAt [0,0]
    let checksum := u16Not (linuxVnetChecksum (packet.drop csumStart) initial)
    .ok (overwrite packet csumAt (ofValue 2 checksum))

/-- What the segments of one packet have in common. The checksum of `packet` is zero. -/
structure GsoSplit where
  packet : List UInt8
  hdr : LinuxVirtioNetHdr
  protocol : UInt8
  firstTcpSeq : Nat
  src : List UInt8
  dst : List UInt8

namespace GsoSplit

variable (split : GsoSplit)

/-- The length fields, and for TCP the sequence number and the flags, of the segment that ends at
`segmentEnd`. -/
def fields (out : List UInt8) (count segmentEnd : Nat) : List UInt8 :=
  let ip := split.hdr.csumStart
  let transportLen := out.length - ip
  let out := overwrite out 4 (ofValue 2 transportLen)
  if split.protocol = linuxIpprotoTcp then
    let out := overwrite out (ip + 4) (ofValue 4 (split.firstTcpSeq + split.hdr.gsoSize * count))
    if segmentEnd ≠ split.packet.length then
      let flags := out.getD (ip + linuxTcpFlagsOffset) 0
      overwrite out (ip + linuxTcpFlagsOffset) [flags &&& ~~~(linuxTcpFlagFin ||| linuxTcpFlagPsh)]
    else out
  else overwrite out (ip + 4) (ofValue 2 transportLen)

def checksum (out : List UInt8) : Nat :=
  let ip := split.hdr.csumStart
  let pseudoSum := linuxVnetPseudoHeaderSum split.protocol split.src split.dst ((out.length - ip) % 2^16)
  let checksum := u16Not (linuxVnetChecksum (out.drop ip) pseudoSum)
  if split.protocol = linuxIpprotoUdp ∧ checksum = 0 then 0xffff else checksum

/-- The segment whose data starts at `dataAt`. -/
def segment (dataAt count : Nat) : Except VnetError (List UInt8) :=
  let segmentEnd := min (dataAt + split.hdr.gsoSize) split.packet.length
  let segmentDataLen := segmentEnd - dataAt
  if 0xffff < split.hdr.hdrLen + segmentDataLen then
    .error (.io .invalidData "Linux vnet TUN GSO segment exceeds packet length limit")
  else
    let out := split.packet.take split.hdr.hdrLen ++ slice split.packet dataAt segmentDataLen
    let out := split.fields out count segmentEnd
    let csumAt := split.hdr.csumStart + split.hdr.csumOffset
    if out.length < csumAt + 2 then .error .panicked
    else .ok (overwrite out csumAt (ofValue 2 (split.checksum out)))

/-- The turns of the segmentation loop. -/
def segments : Nat → Nat → Nat → Except VnetError (List (List UInt8))
  | 0,_,_ => .ok []
  | turns + 1,dataAt,count =>
    if dataAt < split.packet.length then do
      let out ← split.segment dataAt count
      let later ← segments turns (min (dataAt + split.hdr.gsoSize) split.packet.length) (count + 1)
      return out :: later
    else .ok []

end GsoSplit

def linuxVnetIpv6GsoSplit (packet : List UInt8) (hdr : LinuxVirtioNetHdr) (gsoType : UInt8) :
    Except VnetError (List (List UInt8)) :=
  let ipHeaderLen := hdr.csumStart
  let transportCsumAt := (hdr.csumStart + hdr.csumOffset) % 2^16
  if packet.length < hdr.hdrLen ∨ hdr.hdrLen < ipHeaderLen ∨ packet.length ≤ transportCsumAt + 1 then
    .error (.io .invalidData "invalid Linux vnet TUN GSO header bounds")
  else if packet.length < linuxIpv6SrcAddrOffset + 32 then
    .error (.io .invalidData "Linux vnet TUN GSO packet is too short for IPv6 addresses")
  else if hdr.gsoSize = 0 then .error .panicked
  else
    let packet := overwrite packet transportCsumAt [0,0]
    let protocol := if gsoType = linuxVirtioNetHdrGsoTcpv6 then linuxIpprotoTcp else linuxIpprotoUdp
    let split : GsoSplit := {
      packet := packet
      hdr := hdr
      protocol := protocol
      firstTcpSeq := if protocol = linuxIpprotoTcp then value (slice packet (ipHeaderLen + 4) 4) else 0
      src := slice packet linuxIpv6SrcAddrOffset 16
      dst := slice packet (linuxIpv6SrcAddrOffset + 16) 16 }
    split.segments packet.length hdr.hdrLen 0

/-- The header length of the transport, which the code does not take from the frame. -/
def gsoHeaderLen (packet : List UInt8) (hdr : LinuxVirtioNetHdr) (gsoType : UInt8) : Except VnetError Nat :=
  if gsoType = linuxVirtioNetHdrGsoUdpL4 then
    if hdr.csumOffset ≠ 6 then
      .error (.io .invalidData "Linux vnet TUN UDP GSO frame has invalid checksum offset")
    else .ok (min (hdr.csumStart + 8) 0xffff)
  else match packet[hdr.csumStart + 12]? with
    | none => .error (.io .unexpectedEof "Linux vnet TUN TCP GSO packet is too short")
    | some dataOffsetByte =>
      let tcpHeaderLen := (dataOffsetByte >>> 4).toNat * 4
      if 20 ≤ tcpHeaderLen ∧ tcpHeaderLen ≤ 60 then .ok (min (hdr.csumStart + tcpHeaderLen) 0xffff)
      else .error (.io .invalidData ("invalid Linux vnet TUN TCP header length " ++ toString tcpHeaderLen))

def collectLinuxVnetPackets (ne : ByteOrder) (frame : List UInt8) : Except VnetError (List (List UInt8)) := do
  let hdr ← LinuxVirtioNetHdr.decode ne frame
  let packet := frame.drop linuxVirtioNetHdrLen
  let gsoType := hdr.gsoType &&& ~~~linuxVirtioNetHdrGsoEcn
  if gsoType = linuxVirtioNetHdrGsoNone then
    if hdr.flags &&& linuxVirtioNetHdrFNeedsCsum ≠ 0 then
      let packet ← linuxVnetGsoNoneChecksum packet hdr.csumStart hdr.csumOffset
      return [packet]
    else return [packet]
  else if hdr.gsoType &&& linuxVirtioNetHdrGsoEcn ≠ 0 then
    .error (.io .invalidData "Linux vnet TUN GSO ECN packets are not supported")
  else if gsoType ≠ linuxVirtioNetHdrGsoTcpv6 ∧ gsoType ≠ linuxVirtioNetHdrGsoUdpL4 then
    .error (.io .invalidData ("unsupported Linux vnet TUN GSO type " ++ toString gsoType.toNat))
  else if hdr.gsoSize = 0 then
    .error (.io .invalidData "Linux vnet TUN GSO packet has zero segment size")
  else if (packet.head?.map fun byte : UInt8 => byte >>> 4) ≠ some 6 then
    .error (.io .invalidData "Linux vnet TCPv6 GSO frame does not contain an IPv6 packet")
  else
    let hdrLen ← gsoHeaderLen packet hdr gsoType
    linuxVnetIpv6GsoSplit packet { hdr with hdrLen := hdrLen } gsoType

end Fips.Tun
