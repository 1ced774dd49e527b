import Fips.Tree.Announce

set_option autoImplicit false

namespace Fips.Tree

/-- Durations are nanoseconds and instants nanoseconds on a monotonic clock. The
sequence number starts at 1 and grows by at most one in each operation; its width is not modelled. -/
structure TreeState where
  myNodeAddr : NodeAddr
  leafOnly : Bool
  myDeclaration : ParentDeclaration
  myCoords : TreeCoordinate
  root : NodeAddr
  peerDeclarations : NodeMap ParentDeclaration
  peerAncestry : NodeMap TreeCoordinate
  parentHysteresis : Float
  holdDown : Nat
  lastParentSwitch : Option Nat
  flapCount : Nat
  flapWindowStart : Option Nat
  flapDampeningUntil : Option Nat
  flapThreshold : Nat
  flapWindow : Nat
  flapDampeningDuration : Nat

namespace TreeState

def second : Nat := 1000000000

def new (myNodeAddr : NodeAddr) (timestamp : Nat) : TreeState where
  myNodeAddr := myNodeAddr
  leafOnly := false
  myDeclaration := .selfRoot myNodeAddr 1 timestamp
  myCoords := .rootWithMeta myNodeAddr 1 timestamp
  root := myNodeAddr
  peerDeclarations := ∅
  peerAncestry := ∅
  parentHysteresis := 0.0
  holdDown := 0
  lastParentSwitch := none
  flapCount := 0
  flapWindowStart := none
  flapDampeningUntil := none
  flapThreshold := 4
  flapWindow := 60 * second
  flapDampeningDuration := 120 * second

variable (s : TreeState)

def isRoot : Bool := s.root = s.myNodeAddr

def storePeer (declaration : ParentDeclaration) (ancestry : TreeCoordinate) : TreeState :=
  { s with
    peerDeclarations := s.peerDeclarations.insert declaration.nodeAddr declaration
    peerAncestry := s.peerAncestry.insert declaration.nodeAddr ancestry }

/-- Returns whether the declaration was new or fresher. -/
def updatePeer (declaration : ParentDeclaration) (ancestry : TreeCoordinate) :
    Bool × TreeState :=
  match s.peerDeclarations.lookup declaration.nodeAddr with
  | some existing =>
    if declaration.isFresherThan existing then (true,s.storePeer declaration ancestry) else (false,s)
  | none => (true,s.storePeer declaration ancestry)

def removePeer (peerId : NodeAddr) : TreeState :=
  { s with
    peerDeclarations := s.peerDeclarations.erase peerId
    peerAncestry := s.peerAncestry.erase peerId }

/-- Returns whether dampening was just engaged. -/
def recordParentSwitch (now : Nat) : Bool × TreeState :=
  let restart : TreeState := { s with flapWindowStart := some now, flapCount := 1 }
  let counted : TreeState := match s.flapWindowStart with
    | some start => if now - start < s.flapWindow then { s with flapCount := s.flapCount + 1 } else restart
    | none => restart
  if counted.flapThreshold ≤ counted.flapCount ∧ counted.flapDampeningUntil.isNone then
    (true,{ counted with flapDampeningUntil := some (now + counted.flapDampeningDuration) })
  else (false,counted)

def setParent (parentId : NodeAddr) (sequence timestamp now : Nat) : Bool × TreeState :=
  let parentChanged := s.isRoot ∨ s.myDeclaration.parentId ≠ parentId
  let s' : TreeState := { s with
    myDeclaration := ⟨s.myNodeAddr,parentId,sequence,timestamp⟩
    lastParentSwitch := some now }
  if parentChanged then s'.recordParentSwitch now else (false,s')

/-- The node declares itself root, with the sequence and timestamp it already has. -/
def demote : TreeState :=
  let sequence := s.myDeclaration.sequence
  let timestamp := s.myDeclaration.timestamp
  { s with
    myDeclaration := .selfRoot s.myNodeAddr sequence timestamp
    myCoords := .rootWithMeta s.myNodeAddr sequence timestamp
    root := s.myNodeAddr }

def recomputeCoords : TreeState :=
  if s.myDeclaration.isRoot then
    { s with
      myCoords := .rootWithMeta s.myNodeAddr s.myDeclaration.sequence s.myDeclaration.timestamp
      root := s.myNodeAddr }
  else match s.peerAncestry.lookup s.myDeclaration.parentId with
    | none => s
    | some parentCoords =>
      if ¬ s.leafOnly ∧ s.myNodeAddr ≤ parentCoords.rootId then s.demote
      else
        let selfEntry : CoordEntry :=
          ⟨s.myNodeAddr,s.myDeclaration.sequence,s.myDeclaration.timestamp⟩
        let myCoords := parentCoords.extend selfEntry
        { s with myCoords := myCoords, root := myCoords.rootId }

def smallestVisibleRoot : Option NodeAddr :=
  (s.peerAncestry.entries.map fun e => e.2.rootId).min?

def shouldBeRoot : Bool :=
  match s.smallestVisibleRoot with
  | some smallest => ¬ s.leafOnly ∧ s.myNodeAddr ≤ smallest
  | none => true

def becomeRoot (timestamp : Nat) : TreeState :=
  recomputeCoords { s with
    myDeclaration := .selfRoot s.myNodeAddr (s.myDeclaration.sequence + 1) timestamp }

def setParentHysteresis (hysteresis : Float) : TreeState :=
  { s with parentHysteresis :=
      if hysteresis < 0.0 then 0.0 else if 1.0 < hysteresis then 1.0 else hysteresis }

def setHoldDown (secs : Nat) : TreeState := { s with holdDown := secs * second }

def setFlapDampening (threshold windowSecs dampeningSecs : Nat) : TreeState :=
  { s with
    flapThreshold := threshold
    flapWindow := windowSecs * second
    flapDampeningDuration := dampeningSecs * second }

def isFlapDampened (now : Nat) : Bool :=
  match s.flapDampeningUntil with
  | some deadline => now < deadline
  | none => false

/-- The smallest root among the peers, kept while the peers are visited. -/
def smallerRoot (smallest : Option NodeAddr) (coords : TreeCoordinate) : Option NodeAddr :=
  match smallest with
  | none => some coords.rootId
  | some current => some (if coords.rootId < current then coords.rootId else current)

/-- The cost of a candidate, absent when only measured peers count. -/
def candidateCost (peerCosts : NodeMap Float) (peerId : NodeAddr) : Option Float :=
  match peerCosts.lookup peerId with
  | some cost => some cost
  | none => if peerCosts.entries.isEmpty then some 1.0 else none

/-- One step of the candidate loop of `evaluate_parent`. -/
def betterParent (peerCosts : NodeMap Float) (smallestRoot : NodeAddr)
    (best : Option (NodeAddr × Float)) (peer : Sigma fun _ : NodeAddr => TreeCoordinate) :
    Option (NodeAddr × Float) :=
  if peer.2.rootId ≠ smallestRoot then best
  else if peer.2.contains s.myNodeAddr then best
  else match candidateCost peerCosts peer.1 with
    | none => best
    | some cost =>
      let effDepth := Float.ofNat peer.2.depth + cost
      match best with
      | none => some (peer.1,effDepth)
      | some (bestId,bestEff) =>
        if effDepth < bestEff ∨ (effDepth == bestEff) ∧ peer.1 < bestId then some (peer.1,effDepth)
        else best

/-- The part of `evaluate_parent` after the best candidate is known. -/
def worthSwitching (peerCosts : NodeMap Float) (smallestRoot : NodeAddr) (now : Nat)
    (bestPeerId : NodeAddr) (bestEffDepth : Float) : Bool :=
  if s.myDeclaration.parentId = bestPeerId ∧ ¬ s.isRoot then false
  else if ¬ s.isRoot ∧ ¬ s.myDeclaration.parentId ∈ s.peerAncestry then true
  else if smallestRoot < s.root ∨ (s.isRoot ∧ smallestRoot < s.myNodeAddr) then true
  else if s.isRoot then true
  else if s.holdDown ≠ 0 ∧ s.lastParentSwitch.any (fun last => now - last < s.holdDown) then false
  else if s.isFlapDampened now then false
  else
    let currentParentCost := match peerCosts.lookup s.myDeclaration.parentId with
      | some cost => cost
      | none => if peerCosts.entries.isEmpty then 1.0 else 1.0 / 0.0
    match s.peerAncestry.lookup s.myDeclaration.parentId with
    | none => true
    | some coords =>
      let currentParentEff := Float.ofNat coords.depth + currentParentCost
      bestEffDepth < currentParentEff * (1.0 - s.parentHysteresis)

def evaluateParent (o : IterationOrder TreeCoordinate) (peerCosts : NodeMap Float)
    (now : Nat) : Option NodeAddr :=
  match (s.peerAncestry.iterate o).foldl (fun smallest e => smallerRoot smallest e.2) none with
  | none => none
  | some smallestRoot =>
    if ¬ s.leafOnly ∧ s.myNodeAddr ≤ smallestRoot then none
    else match (s.peerAncestry.iterate o).foldl (s.betterParent peerCosts smallestRoot) none with
      | none => none
      | some (bestPeerId,bestEffDepth) =>
        if s.worthSwitching peerCosts smallestRoot now bestPeerId bestEffDepth then some bestPeerId
        else none

def handleParentLost (o : IterationOrder TreeCoordinate) (peerCosts : NodeMap Float)
    (timestamp now : Nat) : TreeState :=
  match s.evaluateParent o peerCosts now with
  | some newParent =>
    (s.setParent newParent (s.myDeclaration.sequence + 1) timestamp now).2.recomputeCoords
  | none =>
    recomputeCoords { s with
      myDeclaration := .selfRoot s.myNodeAddr (s.myDeclaration.sequence + 1) timestamp }

/-- The loop of `find_next_hop`: the closest peer so far, ties to the smaller address. -/
def closerPeer (destCoords : TreeCoordinate) (best : Option (NodeAddr × Nat))
    (peer : Sigma fun _ : NodeAddr => TreeCoordinate) : Option (NodeAddr × Nat) :=
  let distance := peer.2.distanceTo destCoords
  match best with
  | none => some (peer.1,distance)
  | some (bestId,bestDist) =>
    if distance < bestDist ∨ distance = bestDist ∧ peer.1 < bestId then some (peer.1,distance) else best

def findNextHop (o : IterationOrder TreeCoordinate) (destCoords : TreeCoordinate) :
    Option NodeAddr :=
  if s.myCoords.rootId ≠ destCoords.rootId then none
  else
    let myDistance := s.myCoords.distanceTo destCoords
    match (s.peerAncestry.iterate o).foldl (closerPeer destCoords) none with
    | some (peerId,distance) => if distance < myDistance then some peerId else none
    | none => none

end TreeState

end Fips.Tree
