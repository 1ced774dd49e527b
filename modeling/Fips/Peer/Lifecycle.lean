import Fips.Peer.Active

set_option autoImplicit false

/-! The registry of active peers, the allocator of receive indices, and the lifecycle of FMP sessions over
them. -/

namespace Fips.Peer

structure IndexAllocator where
  inUse : Finset SessionIndex
  maxAttempts : Nat

namespace IndexAllocator

def new : IndexAllocator := ⟨∅,100⟩

/-- The candidates are the values the random source draws. -/
def allocate (a : IndexAllocator) (draws : List SessionIndex) : Option (SessionIndex × IndexAllocator) :=
  match (draws.take a.maxAttempts).find? fun candidate => candidate ∉ a.inUse with
  | none => none
  | some index => some (index,{ a with inUse := insert index a.inUse })

def free (a : IndexAllocator) (index : SessionIndex) : IndexAllocator :=
  { a with inUse := a.inUse.erase index }

end IndexAllocator

/-- `taken` and `freed` record which indices were allocated on behalf of a peer and given back for it. -/
structure Node (S H : Type) where
  nodeAddr : NodeAddr
  active : OrderedMap NodeAddr (ActivePeer S H)
  bySessionIndex : OrderedMap SessionKey NodeAddr
  indexAllocator : IndexAllocator
  taken : List (NodeAddr × SessionIndex)
  freed : List (NodeAddr × SessionIndex)

structure Replacement (S : Type) where
  session : S
  ourIndex : SessionIndex
  theirIndex : SessionIndex
  transportId : TransportId
  addr : List UInt8

namespace Node

variable {S H : Type}

def new (nodeAddr : NodeAddr) : Node S H := ⟨nodeAddr,∅,∅,.new,[],[]⟩

variable (s : Node S H) (addr : NodeAddr)

def setPeer (p : ActivePeer S H) : Node S H :=
  { s with active := s.active.insert addr p }

def allocateFor (draws : List SessionIndex) : Option (SessionIndex × Node S H) :=
  match s.indexAllocator.allocate draws with
  | none => none
  | some (index,allocator) =>
    some (index,{ s with indexAllocator := allocator, taken := s.taken ++ [(addr,index)] })

def freeFor (index : SessionIndex) : Node S H :=
  { s with indexAllocator := s.indexAllocator.free index, freed := s.freed ++ [(addr,index)] }

def deregisterSessionIndex (key : SessionKey) : Node S H :=
  { s with bySessionIndex := s.bySessionIndex.erase key }

def insertSessionIndex (key : SessionKey) (addr : NodeAddr) : Node S H :=
  { s with bySessionIndex := s.bySessionIndex.insert key addr }

/-- The index a peer gave up leaves the dispatch table and returns to the allocator. -/
def cleanupIndex (transportId : Option TransportId) (index : SessionIndex) :
    Node S H :=
  match transportId with
  | none => s.freeFor addr index
  | some transportId => (s.deregisterSessionIndex (toLex (transportId,index))).freeFor addr index

def insertWithCurrentSessionIndex (p : ActivePeer S H) : Node S H :=
  match p.currentSessionIndex with
  | none => s.setPeer addr p
  | some current => (s.setPeer addr p).insertSessionIndex current.key addr

def ensureCurrentSessionIndexRegistered : Node S H :=
  match (s.active.get? addr).bind ActivePeer.currentSessionIndex with
  | none => s
  | some current =>
    if s.bySessionIndex.get? current.key = some addr then s else s.insertSessionIndex current.key addr

/-- One superseded index: its key leaves the dispatch table unless a retained session has it, and the index is
retired unless a retained session has it on any transport. -/
def retireSuperseded (retained : List PeerSessionIndex)
    (acc : OrderedMap SessionKey NodeAddr × List PeerSessionIndex) (old : PeerSessionIndex) :
    OrderedMap SessionKey NodeAddr × List PeerSessionIndex :=
  let table :=
    if !(retained.any fun r => r.key = old.key) && acc.1.get? old.key = some addr then acc.1.erase old.key
    else acc.1
  let retired :=
    if !(retained.any fun r => r.index = old.index) && !(acc.2.any fun r => r.index = old.index) then
      acc.2 ++ [old]
    else acc.2
  (table,retired)

def retireSupersededSessionIndices (old retained : List PeerSessionIndex) :
    List PeerSessionIndex × Node S H :=
  let result := old.foldl (retireSuperseded addr retained) (s.bySessionIndex,[])
  (result.2,{ s with bySessionIndex := result.1 })

def freeRetiredPeerSessionIndices (retired : List PeerSessionIndex) : Node S H :=
  retired.foldl (fun s r => s.freeFor addr r.index) s

def replaceCurrentSessionAndPath (r : Replacement S) (now : Nat) :
    Option (List PeerSessionIndex × Node S H) :=
  match s.active.get? addr with
  | none => none
  | some p =>
    let p' := (p.replaceSession r.session r.ourIndex r.theirIndex now).setCurrentAddr r.transportId r.addr
    let (retired,s) :=
      (s.setPeer addr p').retireSupersededSessionIndices addr p.sessionIndices p'.sessionIndices
    some (retired,s.insertSessionIndex (toLex (r.transportId,r.ourIndex)) addr)

def confirmPendingPeerSession (receivedKBit : Bool) (now : Nat) :
    Option (List PeerSessionIndex × Node S H) :=
  match s.active.get? addr with
  | none => none
  | some p =>
    match p.confirmPendingSession receivedKBit now with
    | none => none
    | some p' =>
      some ((s.setPeer addr p').retireSupersededSessionIndices addr p.sessionIndices p'.sessionIndices)

def installPendingRekeySessionAndIndex (session : S)
    (ourIndex theirIndex : SessionIndex) (initiatedByLocal : Bool) (now : Nat) : Option (Node S H) :=
  match s.active.get? addr with
  | none => none
  | some p =>
    match p.transportId with
    | none => none
    | some transportId => some <|
      (s.setPeer addr (p.setPendingSession session ourIndex theirIndex
        initiatedByLocal now)).insertSessionIndex
        (toLex (transportId,ourIndex)) addr

def abandonFmpRekeyForPeer : Node S H :=
  match s.active.get? addr with
  | none => s
  | some p =>
    match p.abandonRekey with
    | (none,p') => s.setPeer addr p'
    | (some index,p') => (s.setPeer addr p').cleanupIndex addr p.transportId index

def removeActivePeer : Node S H :=
  match s.active.get? addr with
  | none => s
  | some p =>
    p.sessionIndices.foldl (fun s r => (s.deregisterSessionIndex r.key).freeFor addr r.index)
      { s with active := s.active.erase addr }

def initiateRekey (draws : List SessionIndex)
    (message1 : Option (H × List UInt8)) (sent : Bool) (nextResend : Nat) : Node S H :=
  match s.active.get? addr with
  | none => s
  | some p =>
    if p.transportId.isNone || p.currentAddr.isNone then s else
    match s.allocateFor addr draws with
    | none => s
    | some (index,s) =>
      match message1 with
      | none => s.freeFor addr index
      | some (handshake,wireMsg1) =>
        let s := s.setPeer addr (p.setRekeyState handshake index wireMsg1 nextResend)
        if sent then s else s.abandonFmpRekeyForPeer addr

def rekeyingPeer (receiverIdx : SessionIndex) : Option (NodeAddr × ActivePeer S H) :=
  s.active.entries.find? fun e => e.2.rekeyInProgress && e.2.rekeyOurIndex = some receiverIdx

def handleRekeyMsg2 (exchange : Exchange H S) (s : Node S H) (receiverIdx senderIdx : SessionIndex)
    (msg2 : List UInt8) (now : Nat) : Node S H :=
  match s.rekeyingPeer receiverIdx with
  | none => s
  | some (addr,p) =>
    match p.completeRekeyMsg2 exchange msg2 with
    | (some session,p') =>
      let s := s.setPeer addr p'
      let ourIndex := p'.rekeyOurIndex.getD receiverIdx
      match s.installPendingRekeySessionAndIndex addr session ourIndex senderIdx true now with
      | some s => s
      | none => s.abandonFmpRekeyForPeer addr
    | (none,p') =>
      let s := s.setPeer addr p'
      if p'.hasRekeyHandshake then s else s.abandonFmpRekeyForPeer addr

/-- The responder's half of a rekey on the path the peer already uses. -/
def respondToRekeyMsg1 (senderIdx : SessionIndex) (draws : List SessionIndex)
    (session : Option S) (staged sent : Bool) (now : Nat) : Node S H :=
  match s.allocateFor addr draws with
  | none => s
  | some (index,s) =>
    match session with
    | none => s.freeFor addr index
    | some session =>
      match s.installPendingRekeySessionAndIndex addr session index senderIdx false now with
      | none => s.freeFor addr index
      | some s => if staged && sent then s else s.abandonFmpRekeyForPeer addr

def handleRekeyMsg1 (senderIdx : SessionIndex) (draws : List SessionIndex)
    (session : Option S) (staged sent : Bool) (now : Nat) : Node S H :=
  match s.active.get? addr with
  | none => s
  | some p =>
    if p.pendingNewSession.isSome && p.pendingRekeyInitiator then s else
    -- a pending session of the responder's side was orphaned by lost answers
    let s := if p.pendingNewSession.isSome then s.abandonFmpRekeyForPeer addr else s
    if p.rekeyInProgress then
      -- both sides sent a first message: the smaller address stays initiator
      if s.nodeAddr < addr then s
      else (s.abandonFmpRekeyForPeer addr).respondToRekeyMsg1 addr senderIdx draws session staged sent now
    else s.respondToRekeyMsg1 addr senderIdx draws session staged sent now

def exhaustFmpRekeyMsg1 (now maxResends : Nat) : Node S H :=
  match s.active.get? addr with
  | none => s
  | some p =>
    if p.rekeyInProgress && p.rekeyMsg1.isSome && maxResends ≤
      p.rekeyMsg1ResendCount && p.needsMsg1Resend now then
      s.abandonFmpRekeyForPeer addr
    else s

def resendRekeyMsg1 (next : Nat) : Node S H :=
  match s.active.get? addr with
  | none => s
  | some p => s.setPeer addr (p.recordRekeyMsg1Resend next)

def expireUnconfirmedFmpRekey (now timeout : Nat) : Node S H :=
  match s.active.get? addr with
  | none => s
  | some p => if p.unconfirmedRekeyExpired now timeout then s.abandonFmpRekeyForPeer addr else s

def finishConfirmation (result : Option (List PeerSessionIndex × Node S H)) :
    Node S H :=
  match result with
  | none => s
  | some (retired,s) =>
    (s.freeRetiredPeerSessionIndices addr retired).ensureCurrentSessionIndexRegistered addr

def promoteAuthenticatedPendingEpoch (receivedKBit : Bool) (now : Nat) :
    Node S H :=
  s.finishConfirmation addr (s.confirmPendingPeerSession addr receivedKBit now)

def cutoverDueFmpRekey (now delay : Nat) : Node S H :=
  match s.active.get? addr with
  | none => s
  | some p =>
    if p.pendingNewSession.isNone || p.rekeyInProgress || !p.pendingRekeyCutoverDue now delay then s
    else s.finishConfirmation addr (s.confirmPendingPeerSession addr (!p.currentKBit) now)

def retireFmpRekeyDrainForDeadPath : Node S H :=
  match s.active.get? addr with
  | none => s
  | some p =>
    match p.completeDrain with
    | (none,p') => s.setPeer addr p'
    | (some index,p') => (s.setPeer addr p').cleanupIndex addr (p.previousTransportId.or p.transportId) index

def completeDueFmpRekeyDrain (now drain : Nat) : Node S H :=
  match s.active.get? addr with
  | none => s
  | some p =>
    if !p.isDraining || !p.drainExpired now drain then s else
    match p.completeDrain with
    | (none,p') => s.setPeer addr p'
    | (some index,p') =>
      match p.previousTransportId.or p.transportId with
      -- without a transport the index would stay allocated
      | none => s.setPeer addr p'
      | some transportId => (s.setPeer addr p').cleanupIndex addr (some transportId) index

/-- No active peer has the index: if it is in use, a connection that is still in its handshake holds it. -/
def unheld (index : SessionIndex) : Bool := s.active.values.all fun p => index ∉ p.indices

/-- The index of a finished handshake passes from its connection to the peer. -/
def takeOver (index : SessionIndex) : Node S H :=
  { s with taken := s.taken ++ [(addr,index)] }

end Node

/-- The steps of the lifecycle, with what the network, the clock and the random source contribute. -/
inductive Event (S H : Type) where
  | connect (draws : List SessionIndex)
  | disconnect (index : SessionIndex)
  | insertPeer (addr : NodeAddr) (r : Replacement S)
  | initiateRekey (addr : NodeAddr) (draws : List SessionIndex)
    (message1 : Option (H × List UInt8)) (sent : Bool)
      (nextResend : Nat)
  | rekeyMsg2 (receiverIdx senderIdx : SessionIndex) (msg2 : List UInt8) (now : Nat)
  | rekeyMsg1 (addr : NodeAddr) (senderIdx : SessionIndex) (draws : List SessionIndex) (session : Option S)
      (staged sent : Bool) (now : Nat)
  | abandonRekey (addr : NodeAddr)
  | exhaustMsg1 (addr : NodeAddr) (now maxResends : Nat)
  | resendMsg1 (addr : NodeAddr) (next : Nat)
  | expireUnconfirmed (addr : NodeAddr) (now timeout : Nat)
  | promotePending (addr : NodeAddr) (receivedKBit : Bool) (now : Nat)
  | cutover (addr : NodeAddr) (now delay : Nat)
  | drainDeadPath (addr : NodeAddr)
  | completeDrain (addr : NodeAddr) (now drain : Nat)
  | replace (addr : NodeAddr) (r : Replacement S) (now : Nat)
  | remove (addr : NodeAddr)

namespace Node

variable {S H : Type}

def step (exchange : Exchange H S) (s : Node S H) : Event S H → Node S H
  | .connect draws =>
    match s.indexAllocator.allocate draws with
    | none => s
    | some (_,allocator) => { s with indexAllocator := allocator }
  | .disconnect index =>
    if s.unheld index then { s with indexAllocator := s.indexAllocator.free index } else s
  | .insertPeer addr r =>
    if (s.active.get? addr).isNone ∧ r.ourIndex ∈ s.indexAllocator.inUse ∧ s.unheld r.ourIndex then
      (s.takeOver addr r.ourIndex).insertWithCurrentSessionIndex addr
        (.withSession r.session r.ourIndex r.theirIndex r.transportId r.addr)
    else s
  | .initiateRekey addr draws message1 sent nextResend =>
    -- a rekey starts only when none is in progress and no session is pending
    if (s.active.get? addr).any fun p => !p.rekeyInProgress && p.pendingNewSession.isNone then
      s.initiateRekey addr draws message1 sent nextResend
    else s
  | .rekeyMsg2 receiverIdx senderIdx msg2 now => s.handleRekeyMsg2 exchange receiverIdx senderIdx msg2 now
  | .rekeyMsg1 addr senderIdx draws session staged sent now =>
    s.handleRekeyMsg1 addr senderIdx draws session staged sent now
  | .abandonRekey addr => s.abandonFmpRekeyForPeer addr
  | .exhaustMsg1 addr now maxResends => s.exhaustFmpRekeyMsg1 addr now maxResends
  | .resendMsg1 addr next => s.resendRekeyMsg1 addr next
  | .expireUnconfirmed addr now timeout => s.expireUnconfirmedFmpRekey addr now timeout
  | .promotePending addr receivedKBit now => s.promoteAuthenticatedPendingEpoch addr receivedKBit now
  | .cutover addr now delay => s.cutoverDueFmpRekey addr now delay
  | .drainDeadPath addr => s.retireFmpRekeyDrainForDeadPath addr
  | .completeDrain addr now drain => s.completeDueFmpRekeyDrain addr now drain
  | .replace addr r now =>
    if r.ourIndex ∈ s.indexAllocator.inUse ∧ s.unheld r.ourIndex then
      match (s.takeOver addr r.ourIndex).replaceCurrentSessionAndPath addr r now with
      | none => s
      | some (retired,s) => s.freeRetiredPeerSessionIndices addr retired
    else s
  | .remove addr => s.removeActivePeer addr

def run (exchange : Exchange H S) (s : Node S H) (events : List (Event S H)) : Node S H :=
  events.foldl (step exchange) s

end Node

end Fips.Peer
