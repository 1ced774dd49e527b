import Fips.Lib.CommonPrefix
import Fips.Lib.Descent
import Fips.Tree.State

set_option autoImplicit false

/-! Greedy forwarding over the coordinates of a converged tree. -/

namespace Fips.Tree

open CommonPrefix TreeCoordinate List

namespace TreeCoordinate

def rootPath (c : TreeCoordinate) : List NodeAddr := c.nodeAddrs.reverse

theorem countCommon_zip (xs ys : List NodeAddr) :
    countCommon (xs.zip ys) = shared xs ys := by
  induction xs generalizing ys with
  | nil => simp [countCommon,shared]
  | cons x xs ih =>
    cases ys with
    | nil => simp [countCommon,shared]
    | cons y ys => simp [countCommon,shared,ih]

theorem rootPath_eq_cons (c : TreeCoordinate) : ∃ rest, c.rootPath = c.rootId :: rest := by
  rw [rootId_eq_getLast,rootPath]
  nth_rewrite 1 [← dropLast_append_getLast c.nodeAddrs_ne_nil]
  simp

theorem shared_rootPath_pos (c other : TreeCoordinate) (sameRoot : c.rootId = other.rootId) :
    0 < shared c.rootPath other.rootPath := by
  obtain ⟨rest,eq⟩ := c.rootPath_eq_cons
  obtain ⟨rest',eq'⟩ := other.rootPath_eq_cons
  simp [eq,eq',sameRoot,shared]

theorem distanceTo_eq_edges {c other : TreeCoordinate} (sameRoot : c.rootId = other.rootId) :
    c.distanceTo other = edges c.rootPath other.rootPath := by
  have positive := shared_rootPath_pos c other sameRoot
  have depth : c.depth + 1 = c.rootPath.length := by
    have longer := length_pos_iff.2 c.nodeAddrs_ne_nil
    simp only [depth_eq,rootPath,length_reverse]
    omega
  have depth' : other.depth + 1 = other.rootPath.length := by
    have longer := length_pos_iff.2 other.nodeAddrs_ne_nil
    simp only [depth_eq,rootPath,length_reverse]
    omega
  have lca : c.lcaDepth other = shared c.rootPath other.rootPath - 1 := by
    rw [lcaDepth,countCommon_zip]
    rfl
  rw [distanceTo,if_neg (not_not_intro sameRoot),edges]
  omega

end TreeCoordinate

namespace TreeState

/-- What the loop of `find_next_hop` has found after some of the peers. -/
def Closest (destCoords : TreeCoordinate) (peers : List (Sigma fun _ : NodeAddr => TreeCoordinate)) :
    Option (NodeAddr × Nat) → Prop
  | none => peers = []
  | some (peerId,distance) =>
    (∃ peer ∈ peers, peer.1 = peerId ∧ peer.2.distanceTo destCoords = distance) ∧
      ∀ peer ∈ peers, distance ≤ peer.2.distanceTo destCoords

variable {destCoords : TreeCoordinate}

theorem closerPeer_closest {best : Option (NodeAddr × Nat)}
    {peers : List (Sigma fun _ : NodeAddr => TreeCoordinate)} (closest : Closest destCoords peers best)
    (peer : Sigma fun _ : NodeAddr => TreeCoordinate) :
    Closest destCoords (peers ++ [peer]) (closerPeer destCoords best peer) := by
  cases best with
  | none =>
    simp only [Closest] at closest
    simp [closest,closerPeer,Closest]
  | some result =>
    obtain ⟨⟨found,member,id,distance⟩,least⟩ := closest
    simp only [closerPeer]
    split
    · refine ⟨⟨peer,by simp,rfl,rfl⟩,?_⟩
      intro other mem
      cases mem_append.1 mem with
      | inl earlier =>
        have bound := least other earlier
        omega
      | inr this =>
        rw [mem_singleton.1 this]
    · refine ⟨⟨found,by simp [member],id,distance⟩,?_⟩
      intro other mem
      cases mem_append.1 mem with
      | inl earlier => exact least other earlier
      | inr this =>
        rw [mem_singleton.1 this]
        omega

theorem foldl_closest (destCoords : TreeCoordinate)
    (peers : List (Sigma fun _ : NodeAddr => TreeCoordinate)) :
    Closest destCoords peers (peers.foldl (closerPeer destCoords) none) := by
  induction peers using reverseRecOn with
  | nil => simp [Closest]
  | append_singleton peers peer ih =>
    rw [foldl_append]
    exact closerPeer_closest ih peer

theorem findNextHop_eq_some {s : TreeState} {o : IterationOrder TreeCoordinate} {next : NodeAddr}
    (h : s.findNextHop o destCoords = some next) :
    ∃ coords, s.peerAncestry.lookup next = some coords ∧
      coords.distanceTo destCoords < s.myCoords.distanceTo destCoords := by
  have closest := foldl_closest destCoords (s.peerAncestry.iterate o)
  simp only [findNextHop] at h
  split at h
  · cases h
  cases found : (s.peerAncestry.iterate o).foldl (closerPeer destCoords) none with
  | none => simp [found] at h
  | some result =>
    obtain ⟨peerId,distance⟩ := result
    simp only [found,Option.ite_none_right_eq_some,Option.some.injEq] at h closest
    obtain ⟨shorter,rfl⟩ := h
    obtain ⟨⟨peer,member,rfl,rfl⟩,-⟩ := closest
    exact ⟨peer.2,(NodeMap.mem_iterate o _ _ _).1 member,shorter⟩

theorem findNextHop_eq_none {s : TreeState} {o : IterationOrder TreeCoordinate}
    (sameRoot : s.myCoords.rootId = destCoords.rootId)
    (h : s.findNextHop o destCoords = none) {peer : NodeAddr} {coords : TreeCoordinate}
    (known : s.peerAncestry.lookup peer = some coords) :
    s.myCoords.distanceTo destCoords ≤ coords.distanceTo destCoords := by
  have closest := foldl_closest destCoords (s.peerAncestry.iterate o)
  have member := (NodeMap.mem_iterate o _ _ _).2 known
  simp only [findNextHop,sameRoot,ne_eq,not_true_eq_false,if_false] at h
  cases found : (s.peerAncestry.iterate o).foldl (closerPeer destCoords) none with
  | none =>
    simp only [found,Closest] at closest
    simp [closest] at member
  | some result =>
    simp only [found,ite_eq_right_iff,reduceCtorEq,imp_false,Nat.not_lt] at h closest
    exact h.trans (closest.2 _ member)

end TreeState

/-- Nodes whose coordinates are their paths in one rooted tree and who know the
coordinates of their neighbours. Neighbours need not share a tree edge. -/
structure Converged (nodes : Finset NodeAddr) (state : NodeAddr → TreeState)
    (neighbours : NodeAddr → Finset NodeAddr) (root : NodeAddr) (parent : NodeAddr → NodeAddr) : Prop where
  root_mem : root ∈ nodes
  parent_mem : ∀ n ∈ nodes, n ≠ root → parent n ∈ nodes
  neighbour_mem : ∀ n ∈ nodes, ∀ m ∈ neighbours n, m ∈ nodes
  coords_root : (state root).myCoords.nodeAddrs = [root]
  coords : ∀ n ∈ nodes, n ≠ root →
    (state n).myCoords.nodeAddrs = n :: (state (parent n)).myCoords.nodeAddrs
  ancestry : ∀ n ∈ nodes, ∀ m,
    (state n).peerAncestry.lookup m = if m ∈ neighbours n then some (state m).myCoords else none
  up : ∀ n ∈ nodes, n ≠ root → parent n ∈ neighbours n
  down : ∀ n ∈ nodes, n ≠ root → n ∈ neighbours (parent n)

namespace Converged
variable {nodes : Finset NodeAddr} {state : NodeAddr → TreeState} {neighbours : NodeAddr → Finset NodeAddr}
  {root : NodeAddr} {parent : NodeAddr → NodeAddr}

variable {n : NodeAddr}

theorem nodeAddr_eq (t : Converged nodes state neighbours root parent) (mem : n ∈ nodes) :
    (state n).myCoords.nodeAddr = n := by
  rw [nodeAddr_eq_head]
  by_cases top : n = root
  · subst top
    simp [t.coords_root]
  · simp [t.coords n mem top]

theorem coords_injective (t : Converged nodes state neighbours root parent) {m : NodeAddr} (memM : m ∈ nodes)
    (memN : n ∈ nodes) (same : (state m).myCoords.nodeAddrs = (state n).myCoords.nodeAddrs) : m = n := by
  have first := t.nodeAddr_eq memM
  rw [← first,← t.nodeAddr_eq memN,nodeAddr_eq_head,nodeAddr_eq_head]
  simp [same]

variable {d : NodeAddr}

section Convergence

variable (t : Converged nodes state neighbours root parent)
include t

theorem suffix_coords (path : List NodeAddr) (mem : d ∈ nodes) (start : (state d).myCoords.nodeAddrs = path)
    {rest : List NodeAddr} (suffix : n :: rest <:+ path) :
    n ∈ nodes ∧ (state n).myCoords.nodeAddrs = n :: rest := by
  induction path generalizing d with
  | nil => simp at suffix
  | cons x path ih =>
    have whole : n :: rest = x :: path → n ∈ nodes ∧ (state n).myCoords.nodeAddrs = n :: rest := by
      intro eq
      have here := t.nodeAddr_eq mem
      simp only [nodeAddr_eq_head,start,head_cons] at here
      obtain ⟨rfl,rfl⟩ := cons.inj eq
      rw [here]
      exact ⟨mem,by rw [start,here]⟩
    rcases suffix_cons_iff.1 suffix with eq | inner
    · exact whole eq
    · by_cases top : d = root
      · subst top
        rw [t.coords_root] at start
        obtain ⟨-,rfl⟩ := cons.inj start
        simp at inner
      · rw [t.coords d mem top] at start
        exact ih (t.parent_mem d mem top) (cons.inj start).2 inner

theorem rootId_eq (mem : n ∈ nodes) : (state n).myCoords.rootId = root := by
  obtain ⟨rest,path⟩ := (state n).myCoords.rootPath_eq_cons
  have suffix : [(state n).myCoords.rootId] <:+ (state n).myCoords.nodeAddrs := by
    rw [← reverse_prefix,← rootPath,path]
    simp
  obtain ⟨inside,alone⟩ := t.suffix_coords _ mem rfl suffix
  by_contra top
  have longer := t.coords _ inside top
  rw [alone] at longer
  exact (nodeAddrs_ne_nil _) (cons.inj longer).2.symm

theorem distance_eq {m : NodeAddr} (memM : m ∈ nodes) (memN : n ∈ nodes) :
    (state m).myCoords.distanceTo (state n).myCoords =
      edges (state m).myCoords.rootPath (state n).myCoords.rootPath :=
  distanceTo_eq_edges (by rw [t.rootId_eq memM,t.rootId_eq memN])

theorem parent_closer (memN : n ∈ nodes) (memD : d ∈ nodes)
    (off : shared (state n).myCoords.rootPath (state d).myCoords.rootPath <
      (state n).myCoords.rootPath.length) :
    n ≠ root ∧
      (state (parent n)).myCoords.distanceTo (state d).myCoords <
        (state n).myCoords.distanceTo (state d).myCoords := by
  have top : n ≠ root := by
    rintro rfl
    have positive := shared_rootPath_pos (state n).myCoords (state d).myCoords
      (by rw [t.rootId_eq memN,t.rootId_eq memD])
    simp only [rootPath,t.coords_root,length_reverse,length_singleton] at off positive
    omega
  have path : (state n).myCoords.rootPath = (state (parent n)).myCoords.rootPath ++ [n] := by
    simp [rootPath,t.coords n memN top]
  refine ⟨top,?_⟩
  rw [t.distance_eq memN memD,t.distance_eq (t.parent_mem n memN top) memD,path]
  rw [path,length_append] at off
  have closer := edges_back (Nat.lt_succ_iff.1 off)
  omega

/-- A node above the destination has a closer child on its path. -/
theorem child_closer (memN : n ∈ nodes) (memD : d ∈ nodes) (differ : n ≠ d)
    (above : shared (state n).myCoords.rootPath (state d).myCoords.rootPath =
      (state n).myCoords.rootPath.length) :
    ∃ child ∈ nodes, child ≠ root ∧ parent child = n ∧
      (state child).myCoords.distanceTo (state d).myCoords <
        (state n).myCoords.distanceTo (state d).myCoords := by
  obtain ⟨rest,path⟩ := exists_append_of_shared above
  cases rest with
  | nil =>
    rw [append_nil,rootPath,rootPath,reverse_inj] at path
    exact absurd (t.coords_injective memN memD path.symm) differ
  | cons child rest =>
    have suffix : child :: (state n).myCoords.nodeAddrs <:+ (state d).myCoords.nodeAddrs := by
      rw [← reverse_prefix]
      exact ⟨rest,by simpa [rootPath] using path.symm⟩
    obtain ⟨inside,coords⟩ := t.suffix_coords _ memD rfl suffix
    have top : child ≠ root := by
      rintro rfl
      rw [t.coords_root] at coords
      exact (nodeAddrs_ne_nil _) (cons.inj coords).2.symm
    have same := t.coords child inside top
    rw [coords] at same
    refine ⟨child,inside,top,?_,?_⟩
    · exact (t.coords_injective memN (t.parent_mem child inside top) (cons.inj same).2).symm
    · have longer : (state child).myCoords.rootPath = (state n).myCoords.rootPath ++ [child] := by
        simp [rootPath,coords]
      have closer := edges_forward (state n).myCoords.rootPath rest child
      rw [t.distance_eq memN memD,t.distance_eq inside memD,longer,path]
      omega

theorem exists_closer (memN : n ∈ nodes) (memD : d ∈ nodes) (differ : n ≠ d) :
    ∃ m ∈ neighbours n, (state m).myCoords.distanceTo (state d).myCoords <
      (state n).myCoords.distanceTo (state d).myCoords := by
  have bound := (shared_le (state n).myCoords.rootPath (state d).myCoords.rootPath).1
  rcases Nat.lt_or_eq_of_le bound with off | above
  · obtain ⟨top,closer⟩ := t.parent_closer memN memD off
    exact ⟨parent n,t.up n memN top,closer⟩
  · obtain ⟨child,inside,top,rfl,closer⟩ := t.child_closer memN memD differ above
    exact ⟨child,t.down child inside top,closer⟩

end Convergence

def hop (state : NodeAddr → TreeState) (orders : NodeAddr → IterationOrder TreeCoordinate) (d n : NodeAddr) :
    Option NodeAddr := (state n).findNextHop (orders n) (state d).myCoords

theorem hop_descends (t : Converged nodes state neighbours root parent)
    (orders : NodeAddr → IterationOrder TreeCoordinate) (memD : d ∈ nodes) :
    Descent.Descends (hop state orders d) (· ∈ nodes)
      (fun n => (state n).myCoords.distanceTo (state d).myCoords) d where
  stops := by
    intro n mem h
    by_contra differ
    obtain ⟨m,neighbour,closer⟩ := t.exists_closer mem memD differ
    have known := t.ancestry n mem m
    rw [if_pos neighbour] at known
    have least := TreeState.findNextHop_eq_none (by rw [t.rootId_eq mem,t.rootId_eq memD]) h known
    omega
  stays := by
    intro n m mem h
    obtain ⟨coords,known,-⟩ := TreeState.findNextHop_eq_some h
    rw [t.ancestry n mem m] at known
    exact t.neighbour_mem n mem m (by_contra fun other => by simp [other] at known)
  decreases := by
    intro n m mem h
    obtain ⟨coords,known,closer⟩ := TreeState.findNextHop_eq_some h
    rw [t.ancestry n mem m,Option.ite_none_right_eq_some] at known
    obtain ⟨-,same⟩ := known
    rwa [Option.some.inj same]

theorem hop_self (state : NodeAddr → TreeState) (orders : NodeAddr → IterationOrder TreeCoordinate)
    (d : NodeAddr) : hop state orders d d = none := by
  cases h : hop state orders d d with
  | none => rfl
  | some m =>
    obtain ⟨coords,-,closer⟩ := TreeState.findNextHop_eq_some h
    rw [distanceTo_eq_edges rfl,edges,shared_self] at closer
    simp at closer

def route (state : NodeAddr → TreeState) (orders : NodeAddr → IterationOrder TreeCoordinate) (d : NodeAddr)
    (fuel : Nat) (start : NodeAddr) : List NodeAddr := Descent.walk (hop state orders d) fuel start

/-- Whatever the order of each node's peer map, greedy forwarding visits no node
twice, stops at the destination alone, and arrives within the tree distance. -/
theorem greedy_forwarding (t : Converged nodes state neighbours root parent)
    (orders : NodeAddr → IterationOrder TreeCoordinate) (d start : NodeAddr) (memD : d ∈ nodes)
    (mem : start ∈ nodes) :
    (∀ n ∈ nodes, hop state orders d n = none ↔ n = d) ∧
      (∀ fuel, (route state orders d fuel start).Nodup) ∧
      ∀ fuel, (state start).myCoords.distanceTo (state d).myCoords ≤ fuel →
        (route state orders d fuel start).getLast? = some d ∧
          (route state orders d fuel start).length ≤
            (state start).myCoords.distanceTo (state d).myCoords + 1 := by
  have descends := t.hop_descends orders memD
  refine ⟨?_,?_,?_⟩
  · intro n inside
    constructor
    · exact descends.stops n inside
    · rintro rfl
      exact hop_self state orders n
  · intro fuel
    exact Descent.walk_nodup descends fuel mem
  · intro fuel enough
    exact Descent.walk_reaches descends fuel mem enough

def known (coords : NodeAddr → TreeCoordinate) (peers : List NodeAddr) : NodeMap TreeCoordinate :=
  peers.foldr (fun m ancestry => ancestry.insert m (coords m)) ∅

theorem lookup_known (coords : NodeAddr → TreeCoordinate) (peers : List NodeAddr) (m : NodeAddr) :
    (known coords peers).lookup m = if m ∈ peers then some (coords m) else none := by
  induction peers with
  | nil => simp [known]
  | cons peer peers ih =>
    rw [known,foldr_cons,← known]
    by_cases same : m = peer
    · subst same
      simp
    · rw [AList.lookup_insert_ne same,ih]
      simp [same]

def diamondCoords (n : NodeAddr) : TreeCoordinate :=
  if n = 0 then .rootWithMeta 0 1 0
  else if n = 3 then .extend ⟨3,1,0⟩ (.extend ⟨1,1,0⟩ (.rootWithMeta 0 1 0))
  else .extend ⟨n,1,0⟩ (.rootWithMeta 0 1 0)

def diamondPeers (n : NodeAddr) : List NodeAddr :=
  if n = 0 then [1,2] else if n = 3 then [1,2] else [0,3]

def diamondState (n : NodeAddr) : TreeState :=
  { TreeState.new n 0 with
    root := 0
    myCoords := diamondCoords n
    peerAncestry := known diamondCoords (diamondPeers n) }

theorem forall_diamond (P : NodeAddr → Prop) :
    (∀ n ∈ ({0,1,2,3} : Finset NodeAddr), P n) ↔ P 0 ∧ P 1 ∧ P 2 ∧ P 3 := by
  simp

theorem diamond_converged :
    Converged {0,1,2,3} diamondState (fun n => (diamondPeers n).toFinset) 0
      (fun n => if n = 3 then 1 else 0) where
  root_mem := by decide
  parent_mem := (forall_diamond _).2 (by decide)
  neighbour_mem := by
    simp [diamondPeers]
  coords_root := by decide
  coords := (forall_diamond _).2 (by decide)
  ancestry := by
    intro n _ m
    simp only [mem_toFinset]
    exact lookup_known diamondCoords (diamondPeers n) m
  up := (forall_diamond _).2 (by decide)
  down := (forall_diamond _).2 (by decide)

theorem greedy_forwarding_diamond :
    (route diamondState (fun _ => ⟨id,List.Perm.refl⟩) 2 3 3).getLast? = some 2 ∧
      (route diamondState (fun _ => ⟨id,List.Perm.refl⟩) 2 3 3).length ≤ 4 :=
  (greedy_forwarding diamond_converged (fun _ => ⟨id,List.Perm.refl⟩) 2 3 (by decide)
    (by decide)).2.2 3 (by decide)

end Converged

end Fips.Tree
