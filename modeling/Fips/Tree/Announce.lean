import Fips.Tree.Coordinate

set_option autoImplicit false

namespace Fips.Tree

/-- The signature is not part of what a declaration says, nor of its equality. -/
structure ParentDeclaration where
  nodeAddr : NodeAddr
  parentId : NodeAddr
  sequence : Nat
  timestamp : Nat
  deriving Repr, DecidableEq

namespace ParentDeclaration

def selfRoot (nodeAddr : NodeAddr) (sequence timestamp : Nat) : ParentDeclaration :=
  ⟨nodeAddr,nodeAddr,sequence,timestamp⟩

def isRoot (d : ParentDeclaration) : Bool := d.nodeAddr = d.parentId

def isFresherThan (d other : ParentDeclaration) : Bool := d.sequence > other.sequence

end ParentDeclaration

/-- The errors of `TreeError` that `validate_semantics` returns. -/
inductive TreeError where
  | rootDeclarationMismatch
  | ancestryTooShort
  | ancestryNodeMismatch (declared ancestry : NodeAddr)
  | ancestryParentMismatch (declared ancestry : NodeAddr)
  | ancestryRootNotMinimum (advertised minimum : NodeAddr)
  deriving Repr, DecidableEq

structure TreeAnnounce where
  declaration : ParentDeclaration
  ancestry : TreeCoordinate
  deriving DecidableEq

namespace TreeAnnounce

def minimum (c : TreeCoordinate) : NodeAddr :=
  c.nodeAddrs.min c.nodeAddrs_ne_nil

def validateRoot (c : TreeCoordinate) : Except TreeError Unit :=
  if c.rootId ≠ minimum c then .error (.ancestryRootNotMinimum c.rootId (minimum c)) else .ok ()

def validateSemantics (t : TreeAnnounce) : Except TreeError Unit :=
  let d := t.declaration
  let first := t.ancestry.nodeAddr
  if first ≠ d.nodeAddr then .error (.ancestryNodeMismatch d.nodeAddr first)
  else if d.isRoot then
    if t.ancestry.entries.length ≠ 1 then .error .rootDeclarationMismatch else validateRoot t.ancestry
  else match t.ancestry.entries[1]? with
    | none => .error .ancestryTooShort
    | some parent =>
      if parent.nodeAddr ≠ d.parentId then .error (.ancestryParentMismatch d.parentId parent.nodeAddr)
      else validateRoot t.ancestry

/-- What `validate_semantics` accepts, in terms of the address path. -/
structure Acceptable (d : ParentDeclaration) (c : TreeCoordinate) : Prop where
  path : if d.isRoot then c.nodeAddrs = [d.nodeAddr]
    else ∃ rest, c.nodeAddrs = d.nodeAddr :: d.parentId :: rest
  root_min : ∀ a ∈ c.nodeAddrs, c.rootId ≤ a

theorem validateRoot_eq_ok (c : TreeCoordinate) :
    validateRoot c = .ok () ↔ ∀ a ∈ c.nodeAddrs, c.rootId ≤ a := by
  have smallest : c.rootId = minimum c ↔ ∀ a ∈ c.nodeAddrs, c.rootId ≤ a := by
    constructor
    · intro h a member
      rw [h]
      exact List.min_le_of_mem member
    · intro h
      apply le_antisymm
      · exact h _ (List.min_mem _)
      · exact List.min_le_of_mem c.rootId_mem
  rw [← smallest,validateRoot]
  by_cases h : c.rootId = minimum c
  · simp
  · simp

theorem validateSemantics_eq_ok (d : ParentDeclaration) (c : TreeCoordinate) :
    validateSemantics ⟨d,c⟩ = .ok () ↔ Acceptable d c := by
  have minimal := validateRoot_eq_ok c
  have acceptable : Acceptable d c ↔ (if d.isRoot then c.nodeAddrs = [d.nodeAddr]
      else ∃ rest, c.nodeAddrs = d.nodeAddr :: d.parentId :: rest) ∧ validateRoot c = .ok () := by
    rw [minimal]
    exact ⟨fun h => ⟨h.path,h.root_min⟩,fun h => ⟨h.1,h.2⟩⟩
  rw [acceptable]
  obtain ⟨entries,nonempty⟩ := c
  cases entries with
  | nil => exact absurd rfl nonempty
  | cons first rest =>
    by_cases declared : first.nodeAddr = d.nodeAddr
    · cases rest with
      | nil => cases root : d.isRoot <;>
          simp [validateSemantics,TreeCoordinate.nodeAddr,TreeCoordinate.nodeAddrs,declared,root]
      | cons parent rest =>
        cases root : d.isRoot with
        | true => simp [validateSemantics,TreeCoordinate.nodeAddr,TreeCoordinate.nodeAddrs,declared,root]
        | false =>
          by_cases same : parent.nodeAddr = d.parentId <;>
            simp [validateSemantics,TreeCoordinate.nodeAddr,TreeCoordinate.nodeAddrs,declared,root,same]
    · cases d.isRoot <;>
        simp [validateSemantics,TreeCoordinate.nodeAddr,TreeCoordinate.nodeAddrs,declared]

end TreeAnnounce

end Fips.Tree
