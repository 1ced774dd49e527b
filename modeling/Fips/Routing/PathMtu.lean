import Fips.Lib.OrderedMap
import Fips.Lib.Lists

set_option autoImplicit false

/-! The path MTU lookup and the provenance kept beside it, with the lock never poisoned. -/

namespace Fips.Routing

open OrderedMap Option

structure PathMtuProvenance (T : Type) where
  learnedMs : Option Nat := none
  seededBy : Option T := none

def PathMtuProvenance.expired {T : Type} (p : PathMtuProvenance T) (nowMs ttlMs : Nat) : Bool :=
  p.learnedMs.any fun learnedMs => ttlMs ≤ nowMs - learnedMs

structure PathMtuEntry (T : Type) where
  mtu : Nat
  learnedMs : Option Nat
  seededBy : Option T

def PathMtuEntry.held {T : Type} (mtu : Nat) (seededBy : Option T) : PathMtuEntry T := ⟨mtu,none,seededBy⟩

def PathMtuEntry.learned {T : Type} (mtu learnedMs : Nat) (seededBy : Option T) : PathMtuEntry T :=
  ⟨mtu,some learnedMs,seededBy⟩

def PathMtuEntry.provenance {T : Type} (e : PathMtuEntry T) : PathMtuProvenance T := ⟨e.learnedMs,e.seededBy⟩

inductive PathMtuUpdate (T : Type) where
  | kept (current : PathMtuEntry T)
  | updated (prior : Option (PathMtuEntry T)) (current : PathMtuEntry T) (relinked : Bool)

structure PathMtus (A T : Type) [LinearOrder A] where
  lookup : OrderedMap A Nat := ∅
  provenance : OrderedMap A (PathMtuProvenance T) := ∅

namespace PathMtus

variable {A T : Type} [LinearOrder A]

section Calls

variable (s : PathMtus A T)

def releasePathMtu (addr : A) : Bool × PathMtus A T :=
  (s.lookup.contains addr,⟨s.lookup.erase addr,s.provenance.erase addr⟩)

def prior (addr : A) : Option (PathMtuEntry T) :=
  (s.lookup.get? addr).map fun mtu =>
    ⟨mtu,((s.provenance.get? addr).getD {}).learnedMs,((s.provenance.get? addr).getD {}).seededBy⟩

def write (addr : A) (current : PathMtuEntry T) : PathMtus A T :=
  ⟨s.lookup.insert addr current.mtu,s.provenance.insert addr current.provenance⟩

/-- A clamp is only ever tightened; the entry that does it keeps the seed of the one before. -/
def tighten (addr : A) (entry : Option T → PathMtuEntry T) : PathMtuUpdate T × PathMtus A T :=
  let current := entry ((s.prior addr).bind (·.seededBy))
  match s.prior addr with
  | some prior =>
    if prior.mtu ≤ current.mtu then (.kept prior,s) else (.updated prior current false,s.write addr current)
  | none => (.updated none current false,s.write addr current)

def recordDiscoveryPathMtu (addr : A) (mtu learnedMs : Nat) : PathMtuUpdate T × PathMtus A T :=
  s.tighten addr (.learned mtu learnedMs)

def recordHeldPathMtu (addr : A) (mtu : Nat) : PathMtuUpdate T × PathMtus A T :=
  s.tighten addr (.held mtu)

def relinked [DecidableEq T] (s : PathMtus A T) (addr : A) (transportId : T) : Bool :=
  ((s.prior addr).bind (·.seededBy)).any (· ≠ transportId)

def recordSeededPathMtu [DecidableEq T] (s : PathMtus A T) (addr : A) (mtu : Nat) (transportId : T) :
    PathMtuUpdate T × PathMtus A T :=
  let seeded := PathMtuEntry.held mtu (some transportId)
  match s.prior addr with
  | some existing =>
    if ¬ s.relinked addr transportId ∧ existing.mtu ≤ mtu then
      let current := { existing with seededBy := some transportId }
      (.kept current,{ s with provenance := s.provenance.insert addr current.provenance })
    else (.updated existing seeded (s.relinked addr transportId),s.write addr seeded)
  | none => (.updated none seeded (s.relinked addr transportId),s.write addr seeded)

def removeExpiredDiscoveryPathMtus (nowMs ttlMs : Nat) : List A × PathMtus A T :=
  let expired := (s.provenance.entries.filter fun e => e.2.expired nowMs ttlMs).map Prod.fst
  let removed := expired.filter s.lookup.contains
  (removed,⟨removed.foldl .erase s.lookup,removed.foldl .erase s.provenance⟩)

inductive Op (A T : Type) where
  | discovery (addr : A) (mtu learnedMs : Nat)
  | held (addr : A) (mtu : Nat)
  | seeded (addr : A) (mtu : Nat) (transportId : T)
  | release (addr : A)
  | expire (nowMs ttlMs : Nat)

/-- The first call with the smallest MTU, when one more call follows the others. -/
def tightest : Option (PathMtuEntry T) → PathMtuEntry T → PathMtuEntry T
  | some earlier, call => if earlier.mtu ≤ call.mtu then earlier else call
  | none, call => call

/-- Of calls listed from the latest on, the first with the smallest MTU. -/
def carrier : List (PathMtuEntry T) → Option (PathMtuEntry T)
  | [] => none
  | call :: earlier => some (tightest (carrier earlier) call)

def seed (calls : List (PathMtuEntry T)) : Option T := calls.findSome? (·.seededBy)

/-- The calls for an address since its last release, relink or removal, the latest first. -/
def callsAfter [DecidableEq T] (addr : A) (calls : List (PathMtuEntry T)) : Op A T → List (PathMtuEntry T)
  | .discovery a mtu learnedMs => if addr = a then .learned mtu learnedMs none :: calls else calls
  | .held a mtu => if addr = a then .held mtu none :: calls else calls
  | .seeded a mtu transportId =>
    if addr = a then
      if (seed calls).any (· ≠ transportId) then [.held mtu (some transportId)]
      else .held mtu (some transportId) :: calls
    else calls
  | .release a => if addr = a then [] else calls
  | .expire nowMs ttlMs => if (carrier calls).any (·.provenance.expired nowMs ttlMs) then [] else calls

/-- The records, with the MTUs held or seeded for an address since its last release or relink and the
calls it was recorded with. -/
structure Recorded (A T : Type) [LinearOrder A] where
  mtus : PathMtus A T := {}
  evidence : A → List Nat := fun _ => []
  calls : A → List (PathMtuEntry T) := fun _ => []

def Recorded.step [DecidableEq T] (s : Recorded A T) (op : Op A T) : Recorded A T where
  mtus := match op with
    | .discovery addr mtu learnedMs => (s.mtus.recordDiscoveryPathMtu addr mtu learnedMs).2
    | .held addr mtu => (s.mtus.recordHeldPathMtu addr mtu).2
    | .seeded addr mtu transportId => (s.mtus.recordSeededPathMtu addr mtu transportId).2
    | .release addr => (s.mtus.releasePathMtu addr).2
    | .expire nowMs ttlMs => (s.mtus.removeExpiredDiscoveryPathMtus nowMs ttlMs).2
  evidence a := match op with
    | .held addr mtu => if a = addr then mtu :: s.evidence a else s.evidence a
    | .seeded addr mtu transportId =>
      if a = addr then if s.mtus.relinked addr transportId then [mtu]
        else mtu :: s.evidence a else s.evidence a
    | .release addr => if a = addr then [] else s.evidence a
    | _ => s.evidence a
  calls a := callsAfter a (s.calls a) op

def Recorded.run [DecidableEq T] (s : Recorded A T) (ops : List (Op A T)) : Recorded A T :=
  ops.foldl Recorded.step s

/-- The clamp is there and at most every MTU held or seeded. -/
def Recorded.Clamped (addr : A) (s : Recorded A T) : Prop :=
  ∀ mtu ∈ s.evidence addr, ∃ clamp, s.mtus.lookup.get? addr = some clamp ∧ clamp ≤ mtu

/-- When the first call with the smallest MTU is a discovery that expires, all the calls are discoveries. -/
def Recorded.keeps (addr : A) (s : Recorded A T) : Op A T → Prop
  | .expire nowMs ttlMs => (carrier (s.calls addr)).any (·.provenance.expired nowMs ttlMs) = true →
    ∀ call ∈ s.calls addr, call.learnedMs ≠ none
  | _ => True

def SameKeys : Prop := ∀ a, s.lookup.contains a = s.provenance.contains a

end Calls

variable {s : PathMtus A T} {addr a : A} {r : Recorded A T} {calls : List (PathMtuEntry T)}

theorem carrier_le {call : PathMtuEntry T} (mem : call ∈ calls) :
    ∃ e, carrier calls = some e ∧ e.mtu ≤ call.mtu := by
  induction calls with
  | nil => cases mem
  | cons latest earlier ih =>
    refine ⟨_,rfl,?_⟩
    obtain rfl | mem := List.mem_cons.1 mem
    · cases carrier earlier with
      | none => exact le_rfl
      | some e =>
        simp only [tightest]
        split
        · next below => exact below
        · exact le_rfl
    · obtain ⟨e,found,below⟩ := ih mem
      simp only [found,tightest]
      split
      · exact below
      · omega

/-- The entry of an address whose calls are these. -/
def entry (calls : List (PathMtuEntry T)) : Option (PathMtuEntry T) :=
  (carrier calls).map ({ · with seededBy := seed calls })

theorem entry_seed (calls : List (PathMtuEntry T)) : (entry calls).bind (·.seededBy) = seed calls := by
  cases calls with
  | nil => rfl
  | cons call earlier => rfl

theorem prior_write (s : PathMtus A T) (addr a : A) (current : PathMtuEntry T) :
    (s.write addr current).prior a = if a = addr then some current else s.prior a := by
  simp only [prior,write,get?_insert]
  split <;> simp [PathMtuEntry.provenance]

theorem prior_tighten (s : PathMtus A T) (addr a : A) (call : Option T → PathMtuEntry T) :
    (s.tighten addr call).2.prior a =
      if a = addr then some (tightest (s.prior addr) (call ((s.prior addr).bind (·.seededBy))))
        else s.prior a := by
  unfold tighten
  cases held : s.prior addr with
  | none => exact prior_write s addr a _
  | some old =>
    simp only [tightest]
    split
    · split
      · next same => rw [same,held]
      · rfl
    · exact prior_write s addr a _

theorem prior_seeded [DecidableEq T] (s : PathMtus A T) (addr a : A) (mtu : Nat) (transportId : T) :
    (s.recordSeededPathMtu addr mtu transportId).2.prior a =
      if a = addr then some (if s.relinked addr transportId then .held mtu (some transportId)
        else { tightest (s.prior addr) (.held mtu (some transportId)) with seededBy := some transportId })
      else s.prior a := by
  unfold recordSeededPathMtu
  have written := prior_write s addr a (.held mtu (some transportId))
  cases held : s.prior addr with
  | none => simpa [relinked,held,tightest,PathMtuEntry.held] using written
  | some old =>
    by_cases linked : s.relinked addr transportId = true
    · simpa [linked] using written
    · by_cases below : old.mtu ≤ mtu
      · simp only [linked,below,tightest,PathMtuEntry.held]
        obtain ⟨clamp,found,rfl⟩ := map_eq_some_iff.1 held
        by_cases own : a = addr
        · simp [prior,own,found,get?_insert,PathMtuEntry.provenance]
        · simp [prior,own,get?_insert]
      · simpa [linked,below,tightest,PathMtuEntry.held] using written

theorem prior_erased (s : PathMtus A T) (removed : List A) (a : A) :
    prior ⟨removed.foldl .erase s.lookup,removed.foldl .erase s.provenance⟩ a =
      if a ∈ removed then none else s.prior a := by
  simp only [prior,get?_foldl_erase]
  split <;> rfl

theorem prior_released (s : PathMtus A T) (addr a : A) :
    (s.releasePathMtu addr).2.prior a = if a = addr then none else s.prior a :=
  (prior_erased s [addr] a).trans (if_congr List.mem_singleton rfl rfl)

theorem prior_expired (same : s.SameKeys) (nowMs ttlMs : Nat) (a : A) :
    (s.removeExpiredDiscoveryPathMtus nowMs ttlMs).2.prior a =
      if (s.prior a).any (·.provenance.expired nowMs ttlMs) then none else s.prior a := by
  have gone : a ∈ (s.removeExpiredDiscoveryPathMtus nowMs ttlMs).1 ↔
      (s.prior a).any (·.provenance.expired nowMs ttlMs) = true := by
    have keys := same a
    simp only [removeExpiredDiscoveryPathMtus,prior,List.mem_filter,List.mem_map,Prod.exists,exists_and_right,
      exists_eq_right,mem_entries,contains_eq] at keys ⊢
    cases clamp : s.lookup.get? a with
    | none => simp
    | some mtu =>
      rw [clamp] at keys
      obtain ⟨p,found⟩ := isSome_iff_exists.1 keys.symm
      simp [found,PathMtuEntry.provenance,PathMtuProvenance.expired]
  exact (prior_erased s _ a).trans (if_congr gone rfl rfl)

theorem SameKeys.write (same : s.SameKeys) (addr : A) (current : PathMtuEntry T) :
    (s.write addr current).SameKeys := by
  intro a
  have before := same a
  simp only [contains_eq,PathMtus.write,get?_insert] at before ⊢
  split <;> simp [before]

theorem SameKeys.tighten (same : s.SameKeys) (addr : A) (call : Option T → PathMtuEntry T) :
    (s.tighten addr call).2.SameKeys := by
  unfold PathMtus.tighten
  cases s.prior addr with
  | none => exact same.write addr _
  | some old =>
    simp only
    split
    · exact same
    · exact same.write addr _

theorem SameKeys.seeded [DecidableEq T] (same : s.SameKeys) (addr : A) (mtu : Nat) (transportId : T) :
    (s.recordSeededPathMtu addr mtu transportId).2.SameKeys := by
  unfold recordSeededPathMtu
  cases held : s.prior addr with
  | none => exact same.write addr _
  | some old =>
    simp only
    split
    · intro a
      have before := same a
      obtain ⟨clamp,found,-⟩ := map_eq_some_iff.1 held
      simp only [contains_eq,get?_insert] at before ⊢
      split
      · next own => simp [own,found]
      · exact before
    · exact same.write addr _

theorem SameKeys.erased (same : s.SameKeys) (removed : List A) :
    SameKeys ⟨removed.foldl .erase s.lookup,removed.foldl .erase s.provenance⟩ := by
  intro a
  have before := same a
  simp only [contains_eq,get?_foldl_erase] at before ⊢
  split
  · rfl
  · exact before

theorem SameKeys.step [DecidableEq T] (same : r.mtus.SameKeys) (op : Op A T) : (r.step op).mtus.SameKeys := by
  cases op with
  | discovery addr mtu learnedMs => exact same.tighten addr _
  | held addr mtu => exact same.tighten addr _
  | seeded addr mtu transportId => exact same.seeded addr mtu transportId
  | release addr => exact same.erased [addr]
  | expire nowMs ttlMs => exact same.erased _

theorem sameKeys_run [DecidableEq T] (ops : List (Op A T)) (same : r.mtus.SameKeys) :
    (r.run ops).mtus.SameKeys := by
  induction ops generalizing r with
  | nil => exact same
  | cons op ops ih => exact ih (same.step op)

theorem entry_unseeded (calls : List (PathMtuEntry T)) (call : Option T → PathMtuEntry T)
    (same : ∀ seed, call seed = { call none with seededBy := seed }) :
    entry (call none :: calls) = some (tightest (entry calls) (call (seed calls))) := by
  have none' : (call none).seededBy = none := by rw [same]
  have kept : seed (call none :: calls) = seed calls := by simp [seed,none']
  rw [entry,kept,entry,same (seed calls),carrier]
  cases carrier calls with
  | none => rfl
  | some e =>
    simp only [tightest,map_some]
    split <;> rfl

theorem entry_seeded (calls : List (PathMtuEntry T)) (mtu : Nat) (transportId : T) :
    entry (.held mtu (some transportId) :: calls) =
      some { tightest (entry calls) (.held mtu (some transportId)) with seededBy := some transportId } := by
  rw [entry,entry,carrier]
  cases carrier calls with
  | none => rfl
  | some e =>
    simp only [tightest,map_some]
    split <;> rfl

/-- The record of an address is what its calls make of it, and what they held or seeded is the evidence. -/
structure Traced (addr : A) (r : Recorded A T) : Prop where
  same : r.mtus.SameKeys
  prior : r.mtus.prior addr = entry (r.calls addr)
  evidence : ∀ mtu, mtu ∈ r.evidence addr ↔ ∃ call ∈ r.calls addr, call.learnedMs = none ∧ call.mtu = mtu

theorem lookup_eq (s : PathMtus A T) (addr : A) : s.lookup.get? addr = (s.prior addr).map (·.mtu) := by
  rw [prior,map_map]
  exact map_id_apply.symm

theorem Traced.clamped (t : Traced addr r) : r.Clamped addr := by
  intro mtu listed
  obtain ⟨call,mem,-,rfl⟩ := (t.evidence mtu).1 listed
  obtain ⟨e,found,below⟩ := carrier_le mem
  refine ⟨e.mtu,?_,below⟩
  rw [lookup_eq,t.prior,entry,found]
  rfl

theorem Traced.expires (t : Traced addr r) (nowMs ttlMs : Nat) :
    (r.mtus.prior addr).any (·.provenance.expired nowMs ttlMs) =
      (carrier (r.calls addr)).any (·.provenance.expired nowMs ttlMs) := by
  rw [t.prior,entry]
  cases carrier (r.calls addr) <;> rfl

theorem Traced.keeps_of_clamped [DecidableEq T] (t : Traced addr r) {op : Op A T}
    (clamped : (r.step op).Clamped addr) :
    r.keeps addr op := by
  cases op with
  | expire nowMs ttlMs =>
    intro gone call mem held
    obtain ⟨clamp,found,-⟩ := clamped call.mtu ((t.evidence _).2 ⟨call,mem,held,rfl⟩)
    rw [lookup_eq,Recorded.step,prior_expired t.same,t.expires,if_pos gone] at found
    cases found
  | _ => trivial

theorem Traced.step [DecidableEq T] (t : Traced addr r) {op : Op A T} (kept : r.keeps addr op) :
    Traced addr (r.step op) := by
  refine ⟨t.same.step op,?_,?_⟩
  · cases op with
    | discovery a mtu learnedMs =>
      rw [Recorded.step,recordDiscoveryPathMtu,prior_tighten]
      simp only [callsAfter]
      split
      · next own => rw [← own,t.prior,entry_seed,entry_unseeded _ (.learned mtu learnedMs) fun _ => rfl]
      · exact t.prior
    | held a mtu =>
      rw [Recorded.step,recordHeldPathMtu,prior_tighten]
      simp only [callsAfter]
      split
      · next own => rw [← own,t.prior,entry_seed,entry_unseeded _ (.held mtu) fun _ => rfl]
      · exact t.prior
    | seeded a mtu transportId =>
      rw [Recorded.step,prior_seeded]
      simp only [callsAfter]
      split
      · next own =>
        rw [← own,relinked,t.prior,entry_seed]
        split
        · rfl
        · rw [entry_seeded]
      · exact t.prior
    | release a =>
      rw [Recorded.step,prior_released]
      simp only [callsAfter]
      split
      · rfl
      · exact t.prior
    | expire nowMs ttlMs =>
      rw [Recorded.step,prior_expired t.same,t.expires]
      simp only [callsAfter]
      split
      · rfl
      · exact t.prior
  · intro mtu
    have before := t.evidence mtu
    cases op with
    | discovery a m learnedMs =>
      simp only [Recorded.step,callsAfter]
      split
      · simpa [PathMtuEntry.learned] using before
      · exact before
    | held a m =>
      simp only [Recorded.step,callsAfter]
      split
      · simp [PathMtuEntry.held,before,eq_comm]
      · exact before
    | seeded a m transportId =>
      simp only [Recorded.step,callsAfter]
      split
      · next own =>
        rw [← own,relinked,t.prior,entry_seed]
        split
        · simp [PathMtuEntry.held,eq_comm]
        · simp [PathMtuEntry.held,before,eq_comm]
      · exact before
    | release a =>
      simp only [Recorded.step,callsAfter]
      split
      · simp
      · exact before
    | expire nowMs ttlMs =>
      simp only [Recorded.step,callsAfter]
      split
      · next gone =>
        have discoveries := kept gone
        simp only [before,List.not_mem_nil,false_and,exists_false,iff_false,not_exists,not_and]
        exact fun call mem held => absurd held (discoveries call mem)
      · exact before

/-- The lookup and the provenance always have the same keys. The clamp of an address stays, at most every
MTU held or seeded for it, exactly when every expiry that removes it finds only discoveries among the
calls since its last release, relink or removal. -/
theorem held_outlasts_expiry_iff [DecidableEq T] (ops : List (Op A T)) (addr : A) :
    (∀ n, (Recorded.run {} (ops.take n)).mtus.SameKeys) ∧
    ((∀ n ≤ ops.length, (Recorded.run {} (ops.take n)).Clamped addr) ↔
      ∀ (n : Nat) (op : Op A T), ops[n]? = some op → (Recorded.run {} (ops.take n)).keeps addr op) := by
  have same : ({} : Recorded A T).mtus.SameKeys := fun _ => rfl
  have start : Traced addr ({} : Recorded A T) := ⟨same,rfl,by simp⟩
  exact ⟨fun n => sameKeys_run _ same,forall_foldl_take_iff start (fun s t => t.clamped)
    (fun s op t kept => t.step kept)
    fun s op t clamped => t.keeps_of_clamped clamped⟩

/-- A discovery on top of a held MTU takes it away with itself. -/
theorem expiry_drops_held : (Recorded.run {} [.held 1 1400,.discovery 1 1300 0,.expire 10 10] :
    Recorded Nat Nat).evidence 1 = [1400] ∧
    (Recorded.run {} [.held 1 1400,.discovery 1 1300 0,.expire 10 10] : Recorded Nat Nat).mtus.lookup.get? 1 =
      none := by
  decide

end PathMtus

end Fips.Routing
