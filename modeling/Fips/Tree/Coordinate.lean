import Fips.Basic

set_option autoImplicit false

namespace Fips.Tree

structure CoordEntry where
  nodeAddr : NodeAddr
  sequence : Nat
  timestamp : Nat
  deriving Repr, DecidableEq

/-- The path of a node to its root, never empty. -/
structure TreeCoordinate where
  entries : List CoordEntry
  nonempty : entries ≠ []
  deriving DecidableEq

namespace TreeCoordinate

def rootWithMeta (nodeAddr : NodeAddr) (sequence timestamp : Nat) : TreeCoordinate :=
  ⟨[⟨nodeAddr,sequence,timestamp⟩],by simp⟩

def extend (entry : CoordEntry) (c : TreeCoordinate) : TreeCoordinate :=
  ⟨entry :: c.entries,by simp⟩

variable (c : TreeCoordinate)

def nodeAddrs : List NodeAddr := c.entries.map CoordEntry.nodeAddr

def nodeAddr : NodeAddr := (c.entries.head c.nonempty).nodeAddr

def rootId : NodeAddr := (c.entries.getLast c.nonempty).nodeAddr

def depth : Nat := c.entries.length - 1

def contains (other : NodeAddr) : Bool := c.nodeAddrs.any (· == other)

/-- The loop of `lca_depth`: pairs are counted until the first that differs. -/
def countCommon : List (NodeAddr × NodeAddr) → Nat
  | [] => 0
  | (a,b) :: rest => if a = b then countCommon rest + 1 else 0

def lcaDepth (c other : TreeCoordinate) : Nat :=
  countCommon (c.nodeAddrs.reverse.zip other.nodeAddrs.reverse) - 1

/-- `usize::MAX` on a 64-bit target -/
def unreachable : Nat := u64Max

def distanceTo (c other : TreeCoordinate) : Nat :=
  if c.rootId ≠ other.rootId then unreachable
  else (c.depth - c.lcaDepth other) + (other.depth - c.lcaDepth other)

theorem nodeAddrs_ne_nil : c.nodeAddrs ≠ [] := by
  simp [nodeAddrs,c.nonempty]

theorem nodeAddr_eq_head : c.nodeAddr = c.nodeAddrs.head c.nodeAddrs_ne_nil := by
  simp [nodeAddr,nodeAddrs]

theorem rootId_eq_getLast : c.rootId = c.nodeAddrs.getLast c.nodeAddrs_ne_nil := by
  simp [rootId,nodeAddrs]

theorem depth_eq : c.depth = c.nodeAddrs.length - 1 := by
  simp [depth,nodeAddrs]

@[simp] theorem nodeAddrs_rootWithMeta (a : NodeAddr) (sequence timestamp : Nat) :
    (rootWithMeta a sequence timestamp).nodeAddrs = [a] := rfl

@[simp] theorem rootId_rootWithMeta (a : NodeAddr) (sequence timestamp : Nat) :
    (rootWithMeta a sequence timestamp).rootId = a := rfl

@[simp] theorem nodeAddrs_extend (entry : CoordEntry) (c : TreeCoordinate) :
    (extend entry c).nodeAddrs = entry.nodeAddr :: c.nodeAddrs := rfl

@[simp] theorem rootId_extend (entry : CoordEntry) (c : TreeCoordinate) :
    (extend entry c).rootId = c.rootId := by
  simp [rootId,extend,List.getLast_cons c.nonempty]

theorem contains_iff (other : NodeAddr) :
    c.contains other = true ↔ other ∈ c.nodeAddrs := by
  simp [contains]

theorem rootId_mem : c.rootId ∈ c.nodeAddrs := by
  rw [rootId_eq_getLast]
  exact List.getLast_mem _

end TreeCoordinate

end Fips.Tree
