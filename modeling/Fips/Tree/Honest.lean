import Fips.Tree.State

set_option autoImplicit false

/-! The announcements of a node that runs its own tree operations. -/

namespace Fips.Tree

open TreeAnnounce List

/-- One tree operation of a node, with the clocks, link costs and traversal order it sees. -/
inductive TreeOp where
  | announce (declaration : ParentDeclaration) (ancestry : TreeCoordinate)
  | removePeer (peer : NodeAddr) (o : IterationOrder TreeCoordinate) (peerCosts : NodeMap Float)
      (timestamp now : Nat)
  | switchParent (o : IterationOrder TreeCoordinate) (peerCosts : NodeMap Float) (timestamp now : Nat)
  | becomeRoot (timestamp : Nat)
  | refreshParent (timestamp now : Nat)
  | dropLoopedParent (o : IterationOrder TreeCoordinate) (peerCosts : NodeMap Float)
      (timestamp now : Nat)
  | setParentHysteresis (hysteresis : Float)
  | setHoldDown (secs : Nat)
  | setFlapDampening (threshold windowSecs dampeningSecs : Nat)

namespace TreeState

/-- Declare `parent` with the next sequence number and recompute the coordinates. -/
def declareParent (s : TreeState) (parent : NodeAddr) (timestamp now : Nat) : TreeState :=
  (s.setParent parent (s.myDeclaration.sequence + 1) timestamp now).2.recomputeCoords

def parentLooped (s : TreeState) : Bool :=
  (s.peerAncestry.lookup s.myDeclaration.parentId).any fun c => c.contains s.myNodeAddr

/-- The operations as `handle_tree_announce`, the periodic re-evaluation and the peer
removal call them. -/
def step (s : TreeState) : TreeOp → TreeState
  | .announce declaration ancestry =>
    match validateSemantics ⟨declaration,ancestry⟩ with
    | .ok _ => (s.updatePeer declaration ancestry).2
    | .error _ => s
  | .removePeer peer o peerCosts timestamp now =>
    let wasParent := ¬ s.isRoot ∧ s.myDeclaration.parentId = peer
    if wasParent then (s.removePeer peer).handleParentLost o peerCosts timestamp now
    else s.removePeer peer
  | .switchParent o peerCosts timestamp now =>
    match s.evaluateParent o peerCosts now with
    | some newParent => s.declareParent newParent timestamp now
    | none => s
  | .becomeRoot timestamp => if s.shouldBeRoot then s.becomeRoot timestamp else s
  | .refreshParent timestamp now =>
    if s.parentLooped then s else s.declareParent s.myDeclaration.parentId timestamp now
  | .dropLoopedParent o peerCosts timestamp now =>
    if s.parentLooped then s.handleParentLost o peerCosts timestamp now else s
  | .setParentHysteresis hysteresis => s.setParentHysteresis hysteresis
  | .setHoldDown secs => s.setHoldDown secs
  | .setFlapDampening threshold windowSecs dampeningSecs =>
    s.setFlapDampening threshold windowSecs dampeningSecs

def run (s : TreeState) (ops : List TreeOp) : TreeState := ops.foldl step s

theorem betterParent_foldl (s : TreeState) (peerCosts : NodeMap Float) (smallestRoot : NodeAddr)
    (Good : NodeAddr → Prop) (peers : List (Sigma fun _ : NodeAddr => TreeCoordinate))
    (good : ∀ e ∈ peers, e.2.rootId = smallestRoot → ¬ e.2.contains s.myNodeAddr → Good e.1)
    (best : Option (NodeAddr × Float)) (start : ∀ p ∈ best, Good p.1) :
    ∀ p ∈ peers.foldl (s.betterParent peerCosts smallestRoot) best, Good p.1 := by
  induction peers generalizing best with
  | nil => exact start
  | cons e peers ih =>
    apply ih
    · intro e' member
      exact good e' (mem_cons_of_mem e member)
    · intro p chosen
      have here := good e mem_cons_self
      unfold betterParent at chosen
      grind

variable {s : TreeState}

/-- A candidate is a stored peer below this node whose path avoids it. -/
theorem evaluateParent_eq_some (leaf : s.leafOnly = false) {o : IterationOrder TreeCoordinate}
    {peerCosts : NodeMap Float} {now : Nat} {p : NodeAddr} (h : s.evaluateParent o peerCosts now = some p) :
    ∃ c, s.peerAncestry.lookup p = some c ∧ c.rootId < s.myNodeAddr ∧ s.myNodeAddr ∉ c.nodeAddrs := by
  unfold evaluateParent at h
  split at h
  · cases h
  · rename_i smallestRoot _
    split at h
    · cases h
    · rename_i above
      have below : smallestRoot < s.myNodeAddr := by simpa [leaf] using above
      split at h
      · cases h
      · rename_i bestPeerId bestEffDepth chosen
        have good := betterParent_foldl s peerCosts smallestRoot
          (fun q => ∃ c, s.peerAncestry.lookup q = some c ∧ c.rootId < s.myNodeAddr ∧
            s.myNodeAddr ∉ c.nodeAddrs) (s.peerAncestry.iterate o) (by
              intro e member root avoids
              have stored : e ∈ s.peerAncestry.entries := (o.perm _).mem_iff.1 member
              refine ⟨e.2,AList.mem_lookup_iff.2 stored,root ▸ below,?_⟩
              simpa [TreeCoordinate.contains_iff] using avoids) none (by simp)
        split at h
        · cases h
          exact good _ chosen
        · cases h

theorem recordParentSwitch_frame (s : TreeState) (now : Nat) :
    ∃ count start deadline, (s.recordParentSwitch now).2 =
      { s with flapCount := count, flapWindowStart := start, flapDampeningUntil := deadline } := by
  unfold recordParentSwitch
  cases s.flapWindowStart with
  | none =>
    simp only
    split
    · exact ⟨_,_,_,rfl⟩
    · exact ⟨_,_,_,rfl⟩
  | some start =>
    by_cases inside : now - start < s.flapWindow
    · simp only [inside,if_true]
      split
      · exact ⟨_,_,_,rfl⟩
      · exact ⟨_,_,_,rfl⟩
    · simp only [inside,if_false]
      split
      · exact ⟨_,_,_,rfl⟩
      · exact ⟨_,_,_,rfl⟩

def withDeclaration (s : TreeState) (d : ParentDeclaration) (now count : Nat)
    (start deadline : Option Nat) : TreeState :=
  { s with
    myDeclaration := d
    lastParentSwitch := some now
    flapCount := count
    flapWindowStart := start
    flapDampeningUntil := deadline }

theorem setParent_frame (s : TreeState) (parent : NodeAddr) (sequence timestamp now : Nat) :
    ∃ count start deadline, (s.setParent parent sequence timestamp now).2 =
      s.withDeclaration ⟨s.myNodeAddr,parent,sequence,timestamp⟩ now count start deadline := by
  unfold setParent
  by_cases changed : s.isRoot = true ∨ s.myDeclaration.parentId ≠ parent
  · simp only [changed]
    obtain ⟨count,start,deadline,eq⟩ := recordParentSwitch_frame { s with
      myDeclaration := ⟨s.myNodeAddr,parent,sequence,timestamp⟩
      lastParentSwitch := some now } now
    exact ⟨count,start,deadline,eq⟩
  · simp only [changed]
    exact ⟨_,_,_,rfl⟩

/-- The stored paths belong to the peers they are stored for, and end in their minimum. -/
def PeersOk (s : TreeState) : Prop :=
  ∀ p c, s.peerAncestry.lookup p = some c → c.nodeAddr = p ∧ ∀ x ∈ c.nodeAddrs, c.rootId ≤ x

/-- What the node announces is acceptable and agrees with its view of the root. -/
structure Honest (s : TreeState) : Prop where
  leafOnly : s.leafOnly = false
  peers : PeersOk s
  declared : s.myDeclaration.nodeAddr = s.myNodeAddr
  acceptable : Acceptable s.myDeclaration s.myCoords
  root_eq : s.root = s.myCoords.rootId
  below : s.myDeclaration.isRoot = false → s.root < s.myNodeAddr

variable {t : TreeState}

theorem Honest.frame (honest : Honest s) (peers : PeersOk t) (leaf : t.leafOnly = s.leafOnly)
    (node : t.myNodeAddr = s.myNodeAddr) (declaration : t.myDeclaration = s.myDeclaration)
    (coords : t.myCoords = s.myCoords) (root : t.root = s.root) : Honest t where
  leafOnly := leaf.trans honest.leafOnly
  peers := peers
  declared := by rw [declaration,node,honest.declared]
  acceptable := by rw [declaration,coords]; exact honest.acceptable
  root_eq := by rw [root,coords,honest.root_eq]
  below := by rw [declaration,root,node]; exact honest.below

theorem acceptable_selfRoot (a : NodeAddr) (sequence timestamp sequence' timestamp' : Nat) :
    Acceptable (.selfRoot a sequence timestamp) (.rootWithMeta a sequence' timestamp') := by
  constructor
  · simp [ParentDeclaration.selfRoot,ParentDeclaration.isRoot]
  · simp

theorem demote_honest (leaf : s.leafOnly = false) (peers : PeersOk s) : Honest s.demote where
  leafOnly := leaf
  peers := peers
  declared := rfl
  acceptable := acceptable_selfRoot _ _ _ _ _
  root_eq := rfl
  below h := by simp [demote,ParentDeclaration.selfRoot,ParentDeclaration.isRoot] at h

theorem recomputeCoords_root (root : s.myDeclaration.isRoot = true) :
    s.recomputeCoords = { s with
      myCoords := .rootWithMeta s.myNodeAddr s.myDeclaration.sequence s.myDeclaration.timestamp
      root := s.myNodeAddr } := by
  simp [recomputeCoords,root]

theorem recomputeCoords_unknown (root : s.myDeclaration.isRoot = false)
    (unknown : s.peerAncestry.lookup s.myDeclaration.parentId = none) : s.recomputeCoords = s := by
  simp [recomputeCoords,root,unknown]

theorem recomputeCoords_demote (root : s.myDeclaration.isRoot = false)
    (leaf : s.leafOnly = false) {c : TreeCoordinate}
    (stored : s.peerAncestry.lookup s.myDeclaration.parentId = some c) (above : s.myNodeAddr ≤ c.rootId) :
    s.recomputeCoords = s.demote := by
  simp [recomputeCoords,root,stored,leaf,above]

theorem recomputeCoords_extend (root : s.myDeclaration.isRoot = false) {c : TreeCoordinate}
    (stored : s.peerAncestry.lookup s.myDeclaration.parentId = some c) (below : c.rootId < s.myNodeAddr) :
    s.recomputeCoords = { s with
      myCoords := c.extend ⟨s.myNodeAddr,s.myDeclaration.sequence,s.myDeclaration.timestamp⟩
      root := c.rootId } := by
  simp [recomputeCoords,root,stored,not_le.2 below]

/-- Recomputing restores the agreement whenever the parent's path is known. -/
theorem recomputeCoords_honest (leaf : s.leafOnly = false) (peers : PeersOk s)
    (declared : s.myDeclaration.nodeAddr = s.myNodeAddr)
    (known : s.myDeclaration.isRoot = true ∨ ∃ c, s.peerAncestry.lookup s.myDeclaration.parentId = some c) :
    Honest s.recomputeCoords ∧ s.recomputeCoords.myDeclaration.sequence = s.myDeclaration.sequence := by
  cases root : s.myDeclaration.isRoot with
  | true =>
    rw [recomputeCoords_root root]
    refine ⟨⟨leaf,peers,declared,⟨?_,?_⟩,rfl,?_⟩,rfl⟩
    · simp [root,declared]
    · simp
    · intro other
      simp [root] at other
  | false =>
    obtain ⟨c,stored⟩ := known.resolve_left (by simp [root])
    obtain ⟨first,minimal⟩ := peers _ _ stored
    by_cases above : s.myNodeAddr ≤ c.rootId
    · rw [recomputeCoords_demote root leaf stored above]
      exact ⟨demote_honest leaf peers,rfl⟩
    · have below : c.rootId < s.myNodeAddr := not_le.1 above
      have path : ∃ rest, c.nodeAddrs = s.myDeclaration.parentId :: rest := by
        rw [← first,TreeCoordinate.nodeAddr_eq_head]
        exact ⟨c.nodeAddrs.tail,(cons_head_tail _).symm⟩
      rw [recomputeCoords_extend root stored below]
      refine ⟨⟨leaf,peers,declared,⟨?_,?_⟩,?_,fun _ => below⟩,rfl⟩
      · simp [root,declared,path]
      · simp only [TreeCoordinate.nodeAddrs_extend,TreeCoordinate.rootId_extend,mem_cons]
        intro x member
        cases member with
        | inl eq => exact eq ▸ below.le
        | inr inside => exact minimal x inside
      · simp

/-- What one operation does to the sequence number: it grows whenever the path changes, by one at most. -/
structure Progress (s t : TreeState) : Prop where
  mono : s.myDeclaration.sequence ≤ t.myDeclaration.sequence
  strict : s.myCoords.nodeAddrs ≠ t.myCoords.nodeAddrs →
    s.myDeclaration.sequence < t.myDeclaration.sequence
  next : t.myDeclaration.sequence ≤ s.myDeclaration.sequence + 1

theorem Progress.of_next (next : t.myDeclaration.sequence = s.myDeclaration.sequence + 1) : Progress s t :=
  ⟨by omega,fun _ => by omega,by omega⟩

theorem Progress.of_same (declaration : t.myDeclaration = s.myDeclaration)
    (coords : t.myCoords = s.myCoords) :
    Progress s t :=
  ⟨by rw [declaration],fun changed => absurd (by rw [coords]) changed,by rw [declaration]; omega⟩

theorem declareParent_honest (honest : Honest s) (parent : NodeAddr) (timestamp now : Nat)
    (known : parent = s.myNodeAddr ∨ ∃ c, s.peerAncestry.lookup parent = some c) :
    Honest (s.declareParent parent timestamp now) ∧ Progress s (s.declareParent parent timestamp now) := by
  obtain ⟨count,start,deadline,eq⟩ := setParent_frame s parent (s.myDeclaration.sequence + 1) timestamp now
  unfold declareParent
  rw [eq]
  obtain ⟨honest',sequence⟩ := recomputeCoords_honest (s := s.withDeclaration
      ⟨s.myNodeAddr,parent,s.myDeclaration.sequence + 1,timestamp⟩ now count start deadline)
    honest.leafOnly honest.peers rfl (by
      cases known with
      | inl self => exact .inl (by simp [withDeclaration,ParentDeclaration.isRoot,self])
      | inr stored => exact .inr stored)
  exact ⟨honest',.of_next sequence⟩

theorem selfRoot_honest (honest : Honest s) (timestamp : Nat) :
    Honest (s.becomeRoot timestamp) ∧ Progress s (s.becomeRoot timestamp) := by
  obtain ⟨honest',sequence⟩ := recomputeCoords_honest (s := { s with
      myDeclaration := .selfRoot s.myNodeAddr (s.myDeclaration.sequence + 1) timestamp })
    honest.leafOnly honest.peers rfl
    (.inl (by simp [ParentDeclaration.isRoot,ParentDeclaration.selfRoot]))
  exact ⟨honest',.of_next sequence⟩

theorem handleParentLost_honest (honest : Honest s) (o : IterationOrder TreeCoordinate)
    (peerCosts : NodeMap Float) (timestamp now : Nat) :
    Honest (s.handleParentLost o peerCosts timestamp now) ∧
      Progress s (s.handleParentLost o peerCosts timestamp now) := by
  unfold handleParentLost
  cases chosen : s.evaluateParent o peerCosts now with
  | none => exact selfRoot_honest honest timestamp
  | some p =>
    obtain ⟨c,stored,-,-⟩ := evaluateParent_eq_some honest.leafOnly chosen
    exact declareParent_honest honest p timestamp now (.inr ⟨c,stored⟩)

theorem updatePeer_cases (s : TreeState) (declaration : ParentDeclaration) (ancestry : TreeCoordinate) :
    (s.updatePeer declaration ancestry).2 = s ∨
      (s.updatePeer declaration ancestry).2 = s.storePeer declaration ancestry := by
  unfold updatePeer
  split
  · split
    · exact .inr rfl
    · exact .inl rfl
  · exact .inr rfl

theorem storePeer_honest (honest : Honest s) {declaration : ParentDeclaration} {ancestry : TreeCoordinate}
    (acceptable : Acceptable declaration ancestry) : Honest (s.storePeer declaration ancestry) := by
  have first : ancestry.nodeAddr = declaration.nodeAddr := by
    have path := acceptable.path
    rw [TreeCoordinate.nodeAddr_eq_head]
    split at path
    · simp [path]
    · obtain ⟨rest,path⟩ := path
      simp [path]
  refine honest.frame ?_ rfl rfl rfl rfl rfl
  intro p c found
  change (s.peerAncestry.insert declaration.nodeAddr ancestry).lookup p = some c at found
  by_cases same : p = declaration.nodeAddr
  · subst same
    rw [AList.lookup_insert,Option.some.injEq] at found
    subst found
    exact ⟨first,acceptable.root_min⟩
  · rw [AList.lookup_insert_ne same] at found
    exact honest.peers p c found

theorem removePeer_honest (honest : Honest s) (peer : NodeAddr) : Honest (s.removePeer peer) := by
  refine honest.frame ?_ rfl rfl rfl rfl rfl
  intro p c found
  change (s.peerAncestry.erase peer).lookup p = some c at found
  by_cases same : p = peer
  · subst same
    rw [AList.lookup_erase] at found
    cases found
  · rw [AList.lookup_erase_ne same] at found
    exact honest.peers p c found

/-- Declaring the same parent again, with or without its path at hand. -/
theorem refresh_honest (honest : Honest s) (timestamp now : Nat) :
    Honest (s.declareParent s.myDeclaration.parentId timestamp now) ∧
      Progress s (s.declareParent s.myDeclaration.parentId timestamp now) := by
  cases stored : s.peerAncestry.lookup s.myDeclaration.parentId with
  | some c => exact declareParent_honest honest _ timestamp now (.inr ⟨c,stored⟩)
  | none =>
    by_cases self : s.myDeclaration.parentId = s.myNodeAddr
    · exact declareParent_honest honest _ timestamp now (.inl self)
    · have root : s.myDeclaration.isRoot = false := by
        simpa [ParentDeclaration.isRoot,honest.declared] using Ne.symm self
      obtain ⟨count,start,deadline,eq⟩ := setParent_frame s s.myDeclaration.parentId
        (s.myDeclaration.sequence + 1) timestamp now
      have root' : (s.withDeclaration ⟨s.myNodeAddr,s.myDeclaration.parentId,
          s.myDeclaration.sequence + 1,timestamp⟩ now count start deadline).myDeclaration.isRoot = false := by
        exact decide_eq_false (Ne.symm self)
      have path := honest.acceptable.path
      rw [root,honest.declared] at path
      unfold declareParent
      rw [eq,recomputeCoords_unknown root' stored]
      refine ⟨⟨honest.leafOnly,honest.peers,rfl,⟨?_,honest.acceptable.root_min⟩,honest.root_eq,
        fun _ => honest.below root⟩,.of_next rfl⟩
      rw [root']
      exact path

theorem step_honest (honest : Honest s) (op : TreeOp) : Honest (s.step op) ∧ Progress s (s.step op) := by
  cases op with
  | announce declaration ancestry =>
    simp only [step]
    cases valid : validateSemantics ⟨declaration,ancestry⟩ with
    | error e => exact ⟨honest,.of_same rfl rfl⟩
    | ok u =>
      cases updatePeer_cases s declaration ancestry with
      | inl kept =>
        rw [kept]
        exact ⟨honest,.of_same rfl rfl⟩
      | inr stored =>
        rw [stored]
        exact ⟨storePeer_honest honest ((validateSemantics_eq_ok _ _).1 valid),.of_same rfl rfl⟩
  | removePeer peer o peerCosts timestamp now =>
    have removed := removePeer_honest honest peer
    simp only [step]
    split
    · obtain ⟨honest',progress⟩ := handleParentLost_honest removed o peerCosts timestamp now
      exact ⟨honest',progress.mono,progress.strict,progress.next⟩
    · exact ⟨removed,.of_same rfl rfl⟩
  | switchParent o peerCosts timestamp now =>
    simp only [step]
    cases chosen : s.evaluateParent o peerCosts now with
    | none => exact ⟨honest,.of_same rfl rfl⟩
    | some p =>
      obtain ⟨c,stored,-,-⟩ := evaluateParent_eq_some honest.leafOnly chosen
      exact declareParent_honest honest p timestamp now (.inr ⟨c,stored⟩)
  | becomeRoot timestamp =>
    simp only [step]
    cases s.shouldBeRoot with
    | true => exact selfRoot_honest honest timestamp
    | false => exact ⟨honest,.of_same rfl rfl⟩
  | refreshParent timestamp now =>
    simp only [step]
    cases s.parentLooped with
    | true => exact ⟨honest,.of_same rfl rfl⟩
    | false => exact refresh_honest honest timestamp now
  | dropLoopedParent o peerCosts timestamp now =>
    simp only [step]
    cases s.parentLooped with
    | true => exact handleParentLost_honest honest o peerCosts timestamp now
    | false => exact ⟨honest,.of_same rfl rfl⟩
  | setParentHysteresis hysteresis =>
    exact ⟨honest.frame honest.peers rfl rfl rfl rfl rfl,.of_same rfl rfl⟩
  | setHoldDown secs =>
    exact ⟨honest.frame honest.peers rfl rfl rfl rfl rfl,.of_same rfl rfl⟩
  | setFlapDampening threshold windowSecs dampeningSecs =>
    exact ⟨honest.frame honest.peers rfl rfl rfl rfl rfl,.of_same rfl rfl⟩

theorem new_honest (a : NodeAddr) (timestamp : Nat) : Honest (new a timestamp) where
  leafOnly := rfl
  peers p c h := by simp [new] at h
  declared := rfl
  acceptable := acceptable_selfRoot _ _ _ _ _
  root_eq := rfl
  below h := by simp [new,ParentDeclaration.selfRoot,ParentDeclaration.isRoot] at h

theorem run_honest (a : NodeAddr) (timestamp : Nat) (ops : List TreeOp) :
    Honest ((new a timestamp).run ops) ∧
      ((new a timestamp).run ops).myDeclaration.sequence ≤ ops.length + 1 := by
  induction ops using List.reverseRecOn with
  | nil => exact ⟨new_honest a timestamp,le_rfl⟩
  | append_singleton ops op ih =>
    obtain ⟨honest,bound⟩ := ih
    obtain ⟨honest',progress⟩ := step_honest honest op
    have next := progress.next
    rw [run,foldl_concat,length_append,length_singleton]
    exact ⟨honest',by rw [run] at bound next; omega⟩

/-- The announcement of a state: acceptable to its peers, and in agreement with what the
node believes about the root. -/
structure Announces (s : TreeState) : Prop where
  valid : validateSemantics ⟨s.myDeclaration,s.myCoords⟩ = .ok ()
  root_eq : s.root = s.myCoords.rootId
  isRoot_iff : s.isRoot = true ↔ s.myDeclaration.isRoot = true

theorem Honest.announces (honest : Honest s) : Announces s := by
  refine ⟨(validateSemantics_eq_ok _ _).2 honest.acceptable,honest.root_eq,?_⟩
  cases root : s.myDeclaration.isRoot with
  | true =>
    have path := honest.acceptable.path
    simp only [root,if_true] at path
    have last : s.myCoords.rootId = s.myNodeAddr := by
      rw [TreeCoordinate.rootId_eq_getLast,← honest.declared]
      simp [path]
    simp [isRoot,honest.root_eq,last]
  | false =>
    have below := honest.below root
    simp [isRoot,below.ne]

/-- Whatever operations a node has run, what it announces before and after the next one is
acceptable, and the sequence number grows with every change of its path and counts no more than the
operations. -/
theorem run_announces (a : NodeAddr) (timestamp : Nat) (ops : List TreeOp) (op : TreeOp) :
    Announces ((new a timestamp).run ops) ∧ Announces (((new a timestamp).run ops).step op) ∧
      Progress ((new a timestamp).run ops) (((new a timestamp).run ops).step op) ∧
      ((new a timestamp).run ops).myDeclaration.sequence ≤ ops.length + 1 := by
  obtain ⟨honest,bound⟩ := run_honest a timestamp ops
  obtain ⟨honest',progress⟩ := step_honest honest op
  exact ⟨honest.announces,honest'.announces,progress,bound⟩

end TreeState

end Fips.Tree
