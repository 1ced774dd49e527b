import Fips.Basic
import Fips.Lib.OrderedMap
import Fips.Lib.Traversal
import Fips.Lib.U64

set_option autoImplicit false

/-! The reverse paths of forwarded lookup requests, kept by request and by ingress peer. -/

namespace Fips.Lookup

open OrderedMap List Option

structure RecentRequest where
  admissionGeneration : Nat
  fromPeer : NodeAddr
  target : NodeAddr
  timestampMs : Nat
  responseForwarded : Bool
  isProtected : Bool
  deriving DecidableEq

namespace RecentRequest

def new (fromPeer target : NodeAddr) (timestampMs : Nat) : RecentRequest :=
  ⟨0,fromPeer,target,timestampMs,false,false⟩

def isExpired (r : RecentRequest) (currentTimeMs expiryMs : Nat) : Bool :=
  currentTimeMs - r.timestampMs > expiryMs

end RecentRequest

structure RecentDiscoveryRequestAdmission where
  accepted : Bool
  deduplicated : Bool
  evicted : Bool
  deriving DecidableEq

structure RecentDiscoveryRequestLimits where
  maxEntries : Nat
  peerCount : Nat
  deriving DecidableEq

inductive RecentResponseForward where
  | missing
  | alreadyForwarded
  | forward (fromPeer : NodeAddr)
  deriving DecidableEq

structure RecentDiscoveryRequests where
  entries : OrderedMap Nat RecentRequest
  oldestTimestampMs : Option Nat
  lastAdmissionGeneration : Nat
  byPeer : OrderedMap NodeAddr (List Nat)
  deriving DecidableEq

namespace RecentDiscoveryRequests

def default : RecentDiscoveryRequests := ⟨∅,none,0,∅⟩

/-- A queue in place of the one `p` had; an empty one is not stored. -/
def setQueue (m : OrderedMap NodeAddr (List Nat)) (p : NodeAddr) (ids : List Nat) :
    OrderedMap NodeAddr (List Nat) :=
  if ids.isEmpty then m.erase p else m.insert p ids

/-- The position of the first unprotected request; nothing if a request is not in the table, which the
source indexes without a check. -/
def position (s : RecentDiscoveryRequests) : List Nat → Option (Option Nat)
  | [] => some none
  | id :: ids =>
    match s.entries.get? id with
    | none => none
    | some r => if ¬ r.isProtected then some (some 0) else (s.position ids).map (Option.map (· + 1))

section Requests

variable (s : RecentDiscoveryRequests)

def evictOldest (peer : NodeAddr) : Option (Bool × RecentDiscoveryRequests) :=
  match s.byPeer.get? peer with
  | none => some (false,s)
  | some ids =>
    match s.position ids with
    | none => none
    | some none => some (false,s)
    | some (some index) =>
      match ids[index]? with
      | none => none
      | some requestId =>
        some ((s.entries.get? requestId).isSome,{ s with
          byPeer := setQueue s.byPeer peer (ids.eraseIdx index)
          entries := s.entries.erase requestId })

def noteTimestamp (timestampMs : Nat) : RecentDiscoveryRequests :=
  { s with oldestTimestampMs := match s.oldestTimestampMs with
      | none => some timestampMs
      | some oldest => some (min oldest timestampMs) }

def replaceable (s : RecentDiscoveryRequests) :
    List (NodeAddr × List Nat) → Option (List (NodeAddr × List Nat))
  | [] => some []
  | e :: rest =>
    match s.position e.2 with
    | none => none
    | some found => (s.replaceable rest).map fun kept => if found.isSome then e :: kept else kept

def victim (pass : Traversal (NodeAddr × List Nat)) (fromPeer : NodeAddr)
    (overShare atCapacity : Bool) : Option (Option NodeAddr) :=
  if overShare then some (some fromPeer)
  else if atCapacity then
    (s.replaceable (pass.order s.byPeer.entries)).map fun kept =>
      (Traversal.maxByKey (fun e => e.2.length) kept).map Prod.fst
  else some none

def addEntry (requestId : Nat) (fromPeer target : NodeAddr) (nowMs generation : Nat) :
    RecentDiscoveryRequests :=
  let request := { RecentRequest.new fromPeer target nowMs with admissionGeneration := generation }
  let s := noteTimestamp { s with
    lastAdmissionGeneration := generation
    entries := s.entries.insert requestId request } nowMs
  { s with byPeer := s.byPeer.insert fromPeer ((s.byPeer.get? fromPeer).getD [] ++ [requestId]) }

def share (limits : RecentDiscoveryRequestLimits) : Nat := max (limits.maxEntries / max limits.peerCount 1) 1

/-- Nothing stands for a panic. -/
def recordRequest (pass : Traversal (NodeAddr × List Nat)) (requestId : Nat)
    (fromPeer target : NodeAddr) (nowMs : Nat) (limits : RecentDiscoveryRequestLimits) :
    Option (RecentDiscoveryRequestAdmission × RecentDiscoveryRequests) :=
  if s.entries.contains requestId then some (⟨false,true,false⟩,s)
  else if limits.maxEntries = 0 then some (⟨false,false,false⟩,s)
  else match U64.checkedAdd s.lastAdmissionGeneration 1 with
    | none => some (⟨false,false,false⟩,s)
    | some generation =>
      let overShare := (s.byPeer.get? fromPeer).any fun ids => ids.length ≥ share limits
      let atCapacity := decide (s.entries.size ≥ limits.maxEntries)
      match s.victim pass fromPeer overShare atCapacity with
      | none => none
      | some victim =>
        match victim.elim (some (false,s)) s.evictOldest with
        | none => none
        | some (evicted,s) =>
          if (overShare || atCapacity) && !evicted then some (⟨false,false,false⟩,s)
          else some (⟨true,false,evicted⟩,s.addEntry requestId fromPeer target nowMs generation)

def protect (requestId : Nat) : RecentDiscoveryRequests :=
  match s.entries.get? requestId with
  | none => s
  | some recent =>
    if recent.responseForwarded then s
    else { s with entries := s.entries.insert requestId { recent with isProtected := true } }

def claimResponseForward (requestId : Nat) (target : NodeAddr) :
    RecentResponseForward × RecentDiscoveryRequests :=
  match s.entries.get? requestId with
  | none => (.missing,s)
  | some recent =>
    if recent.target ≠ target then (.missing,s)
    else if recent.responseForwarded then (.alreadyForwarded,s)
    else (.forward recent.fromPeer,{ s with
      entries := s.entries.insert requestId { recent with responseForwarded := true, isProtected := false } })

def remove (requestId : Nat) : Option RecentRequest × RecentDiscoveryRequests :=
  match s.entries.get? requestId with
  | none => (none,s)
  | some removed =>
    let byPeer := match s.byPeer.get? removed.fromPeer with
      | none => s.byPeer
      | some ids => setQueue s.byPeer removed.fromPeer (ids.filter (· ≠ requestId))
    (some removed,{ s with
      entries := s.entries.erase requestId
      byPeer := byPeer })

/-- The part of `purge_expired` that the hint may skip. -/
def sweepExpired (currentTimeMs expiryMs : Nat) : RecentDiscoveryRequests :=
  let entries := s.entries.filterValues fun entry => ¬ entry.isExpired currentTimeMs expiryMs
  let oldest := entries.values.foldl (fun oldest entry => match oldest with
    | none => some entry.timestampMs
    | some value => some (min value entry.timestampMs)) none
  { s with
    entries := entries
    oldestTimestampMs := oldest
    byPeer :=
      if entries.size = s.entries.size then s.byPeer
      else (s.byPeer.mapValues fun ids => ids.filter fun id => entries.contains id).filterValues
        fun ids => ¬ ids.isEmpty }

def purgeExpired (currentTimeMs expiryMs : Nat) : RecentDiscoveryRequests :=
  if s.oldestTimestampMs.all fun oldest => currentTimeMs - oldest ≤ expiryMs then s
  else s.sweepExpired currentTimeMs expiryMs

def queue (p : NodeAddr) : List Nat := (s.byPeer.get? p).getD []

theorem get?_setQueue (m : OrderedMap NodeAddr (List Nat)) (p q : NodeAddr) (ids : List Nat) :
    (setQueue m p ids).get? q = if q = p then if ids.isEmpty then none else some ids else m.get? q := by
  unfold setQueue
  by_cases empty : ids.isEmpty = true
  · rw [if_pos empty,if_pos empty,get?_erase]
  · rw [if_neg empty,if_neg empty,get?_insert]

theorem getD_setQueue (m : OrderedMap NodeAddr (List Nat)) (p q : NodeAddr) (ids : List Nat) :
    ((setQueue m p ids).get? q).getD [] = if q = p then ids else (m.get? q).getD [] := by
  rw [get?_setQueue]
  by_cases same : q = p
  · rw [if_pos same,if_pos same]
    by_cases empty : ids.isEmpty = true
    · rw [isEmpty_iff.1 empty]
      rfl
    · rw [if_neg empty]
      rfl
  · rw [if_neg same,if_neg same]

structure Consistent (s : RecentDiscoveryRequests) : Prop where
  index : ∀ p id, id ∈ s.queue p ↔ ∃ r, s.entries.get? id = some r ∧ r.fromPeer = p
  nodup : ∀ p, (s.queue p).Nodup
  nonempty : ∀ p, s.byPeer.get? p ≠ some []
  oldest : ∀ id r, s.entries.get? id = some r → ∃ oldest, s.oldestTimestampMs = some oldest ∧
    oldest ≤ r.timestampMs

theorem consistent_default : default.Consistent where
  index := by simp [queue,default]
  nodup := by simp [queue,default]
  nonempty := by simp [default]
  oldest := by simp [default]

def drop (id : Nat) (p : NodeAddr) : RecentDiscoveryRequests :=
  { s with
    entries := s.entries.erase id
    byPeer := setQueue s.byPeer p ((s.queue p).filter (· ≠ id)) }

theorem queue_drop (id : Nat) (p q : NodeAddr) :
    (s.drop id p).queue q = if q = p then (s.queue p).filter (· ≠ id) else s.queue q := getD_setQueue _ _ _ _

theorem get?_drop (id id' : Nat) (p : NodeAddr) :
    (s.drop id p).entries.get? id' = if id' = id then none else s.entries.get? id' := get?_erase _ _ _

end Requests

variable {s : RecentDiscoveryRequests} {id : Nat}

theorem Consistent.drop (h : s.Consistent) {r : RecentRequest} (found : s.entries.get? id = some r) :
    (s.drop id r.fromPeer).Consistent := by
  refine ⟨?_,?_,?_,?_⟩
  · intro p id'
    rw [queue_drop,get?_drop]
    by_cases own : p = r.fromPeer
    · subst own
      rw [if_pos rfl,mem_filter,h.index]
      by_cases same : id' = id
      · simp [same]
      · simp [same]
    · rw [if_neg own,h.index]
      by_cases same : id' = id
      · subst same
        simp [found,Ne.symm own]
      · simp [same]
  · intro p
    rw [queue_drop]
    split
    · exact (h.nodup r.fromPeer).filter _
    · exact h.nodup p
  · intro p
    show (setQueue s.byPeer r.fromPeer _).get? p ≠ _
    rw [get?_setQueue]
    split
    · split
      · nofun
      · rename_i full
        intro eq
        exact full (isEmpty_iff.2 (some.inj eq))
    · exact h.nonempty p
  · intro id' r' found'
    rw [get?_drop] at found'
    split at found'
    · cases found'
    · exact h.oldest id' r' found'

theorem remove_eq (h : s.Consistent) (id : Nat) :
    s.remove id = match s.entries.get? id with
      | none => (none,s)
      | some r => (some r,s.drop id r.fromPeer) := by
  unfold remove
  cases found : s.entries.get? id with
  | none => rfl
  | some r =>
    have queued := (h.index r.fromPeer id).2 ⟨r,found,rfl⟩
    simp only [drop]
    cases listed : s.byPeer.get? r.fromPeer with
    | none =>
      rw [queue,listed] at queued
      cases queued
    | some ids =>
      rw [queue,listed]
      rfl

theorem eraseIdx_eq_filter {ids : List Nat} (nodup : ids.Nodup) {index : Nat} (at_ : ids[index]? = some id) :
    ids.eraseIdx index = ids.filter (· ≠ id) := by
  induction ids generalizing index with
  | nil => cases at_
  | cons first rest ih =>
    obtain ⟨fresh,tail⟩ := nodup_cons.1 nodup
    cases index with
    | zero =>
      obtain rfl : first = id := by simpa using at_
      have others : ∀ a ∈ rest, decide (a ≠ first) = true := by
        intro a member
        exact decide_eq_true fun eq => fresh (eq ▸ member)
      rw [filter_cons_of_neg (by simp),filter_eq_self.2 others]
      rfl
    | succ index =>
      have later : rest[index]? = some id := by simpa using at_
      have differ : first ≠ id := fun eq => fresh (eq ▸ mem_of_getElem? later)
      rw [eraseIdx_cons_succ,ih tail later,filter_cons_of_pos (by simpa using differ)]

theorem position_of_stored (ids : List Nat) (stored : ∀ id ∈ ids, ∃ r, s.entries.get? id = some r) :
    ∃ found, s.position ids = some found ∧ ∀ index, found = some index →
      ∃ id r, ids[index]? = some id ∧ s.entries.get? id = some r ∧ r.isProtected = false := by
  induction ids with
  | nil => exact ⟨none,rfl,nofun⟩
  | cons id ids ih =>
    obtain ⟨r,here⟩ := stored id mem_cons_self
    obtain ⟨found,eq,spec⟩ := ih fun id' member => stored id' (mem_cons_of_mem id member)
    unfold position
    rw [here]
    cases guarded : r.isProtected with
    | false =>
      refine ⟨some 0,by simp [guarded],?_⟩
      rintro _ ⟨rfl⟩
      exact ⟨id,r,rfl,here,guarded⟩
    | true =>
      refine ⟨found.map (· + 1),by simp [guarded,eq],?_⟩
      intro index at_
      obtain ⟨before,here,rfl⟩ := map_eq_some_iff.1 at_
      exact spec before here

theorem Consistent.position (h : s.Consistent) (p : NodeAddr) :
    ∃ found, s.position (s.queue p) = some found ∧ ∀ index, found = some index →
      ∃ id r, (s.queue p)[index]? = some id ∧ s.entries.get? id = some r ∧ r.isProtected = false := by
  refine position_of_stored (s.queue p) fun id member => ?_
  obtain ⟨r,found,-⟩ := (h.index p id).1 member
  exact ⟨r,found⟩

theorem Consistent.evictOldest (h : s.Consistent) (p : NodeAddr) :
    s.evictOldest p = some (false,s) ∨ ∃ id r, s.entries.get? id = some r ∧
      r.fromPeer = p ∧ r.isProtected = false ∧
      s.evictOldest p = some (true,s.drop id p) := by
  unfold RecentDiscoveryRequests.evictOldest
  cases listed : s.byPeer.get? p with
  | none => exact .inl rfl
  | some ids =>
    have queue : s.queue p = ids := by rw [RecentDiscoveryRequests.queue,listed]; rfl
    obtain ⟨found,eq,spec⟩ := h.position p
    have nodup := h.nodup p
    rw [queue] at eq spec nodup
    cases found with
    | none =>
      simp only [eq]
      exact .inl trivial
    | some index =>
      obtain ⟨id,r,at_,stored,free⟩ := spec index rfl
      obtain ⟨r',stored',owner⟩ := (h.index p id).1 (queue ▸ mem_of_getElem? at_)
      obtain rfl : r = r' := some.inj (stored.symm.trans stored')
      refine .inr ⟨id,r,stored,owner,free,?_⟩
      simp only [eq,at_,stored,eraseIdx_eq_filter nodup at_,RecentDiscoveryRequests.drop,queue]
      rfl

theorem replaceable_of_stored (queues : List (NodeAddr × List Nat))
    (stored : ∀ e ∈ queues, ∃ found, s.position e.2 = some found) :
    ∃ kept, s.replaceable queues = some kept ∧ ∀ e ∈ kept, e ∈ queues := by
  induction queues with
  | nil => exact ⟨[],rfl,nofun⟩
  | cons e rest ih =>
    obtain ⟨found,eq⟩ := stored e mem_cons_self
    obtain ⟨kept,eq',sub⟩ := ih fun e' member => stored e' (mem_cons_of_mem e member)
    refine ⟨if found.isSome then e :: kept else kept,by simp only [replaceable,eq,eq',map_some],?_⟩
    intro e' member
    split at member
    · rcases mem_cons.1 member with rfl | old
      · exact mem_cons_self
      · exact mem_cons_of_mem e (sub e' old)
    · exact mem_cons_of_mem e (sub e' member)

theorem Consistent.victim (h : s.Consistent) (pass : Traversal (NodeAddr × List Nat)) (p : NodeAddr)
    (overShare atCapacity : Bool) : ∃ victim, s.victim pass p overShare atCapacity = some victim := by
  unfold RecentDiscoveryRequests.victim
  split
  · exact ⟨_,rfl⟩
  · split
    · obtain ⟨kept,eq,-⟩ := replaceable_of_stored (s := s) (pass.order s.byPeer.entries) (by
        intro e member
        have listed : s.byPeer.get? e.1 = some e.2 := mem_entries.1 (pass.mem_order.1 member)
        obtain ⟨found,eq,-⟩ := h.position e.1
        rw [RecentDiscoveryRequests.queue,listed] at eq
        exact ⟨found,eq⟩)
      rw [eq]
      exact ⟨_,rfl⟩
    · exact ⟨_,rfl⟩

/-- The request that an admission replaces: an unprotected one, of the same peer if the peer has used its
share, and of any peer only when the table is full. -/
structure Replaces (s : RecentDiscoveryRequests) (p : NodeAddr)
    (limits : RecentDiscoveryRequestLimits) (id : Nat) (r : RecentRequest) : Prop where
  stored : s.entries.get? id = some r
  free : r.isProtected = false
  owner : r.fromPeer = p ∨ (s.queue p).length < share limits ∧ limits.maxEntries ≤ s.entries.size

inductive Recorded (s : RecentDiscoveryRequests) (id : Nat) (p target : NodeAddr) (now : Nat)
    (limits : RecentDiscoveryRequestLimits) :
    RecentDiscoveryRequestAdmission → RecentDiscoveryRequests → Prop where
  | refused (a : RecentDiscoveryRequestAdmission) : a.accepted = false → Recorded s id p target now limits a s
  | added : s.entries.get? id = none → s.lastAdmissionGeneration + 1 < 2^64 →
    (s.queue p).length < share limits →
      s.entries.size < limits.maxEntries →
      Recorded s id p target now limits ⟨true,false,false⟩
        (s.addEntry id p target now (s.lastAdmissionGeneration + 1))
  | replaced {id' : Nat} {r : RecentRequest} : s.entries.get? id = none →
    s.lastAdmissionGeneration + 1 < 2^64 →
      s.Replaces p limits id' r → Recorded s id p target now limits ⟨true,false,true⟩
        ((s.drop id' r.fromPeer).addEntry id p target now (s.lastAdmissionGeneration + 1))

theorem any_queue (s : RecentDiscoveryRequests) (p : NodeAddr) {n : Nat} (positive : 0 < n) :
    ((s.byPeer.get? p).any fun ids => ids.length ≥ n) = decide (n ≤ (s.queue p).length) := by
  unfold queue
  cases s.byPeer.get? p with
  | none => simp [positive.ne']
  | some ids => simp

theorem Consistent.recordRequest (h : s.Consistent) (pass : Traversal (NodeAddr × List Nat)) (id : Nat)
    (p target : NodeAddr) (now : Nat) (limits : RecentDiscoveryRequestLimits) :
    ∃ a s', s.recordRequest pass id p target now limits = some (a,s') ∧
      Recorded s id p target now limits a s' := by
  unfold RecentDiscoveryRequests.recordRequest
  by_cases known : s.entries.contains id = true
  · rw [if_pos known]
    exact ⟨_,_,rfl,.refused _ rfl⟩
  · rw [if_neg known]
    have fresh : s.entries.get? id = none := by simpa using known
    by_cases closed : limits.maxEntries = 0
    · rw [if_pos closed]
      exact ⟨_,_,rfl,.refused _ rfl⟩
    · rw [if_neg closed]
      cases next : U64.checkedAdd s.lastAdmissionGeneration 1 with
      | none => exact ⟨_,_,rfl,.refused _ rfl⟩
      | some generation =>
        obtain ⟨fits,rfl⟩ := U64.checkedAdd_eq_some.1 next
        simp only [any_queue s p (n := share limits) (lt_max_of_lt_right one_pos)]
        by_cases beyond : share limits ≤ (s.queue p).length
        · simp only [beyond,decide_true,RecentDiscoveryRequests.victim,if_true,elim_some]
          rcases h.evictOldest p with eq | ⟨id',r,stored,rfl,free,eq⟩
          · simp only [eq]
            exact ⟨_,_,rfl,.refused _ rfl⟩
          · simp only [eq]
            exact ⟨_,_,rfl,.replaced fresh fits ⟨stored,free,.inl rfl⟩⟩
        · by_cases full : s.entries.size ≥ limits.maxEntries
          · obtain ⟨victim,eq⟩ := h.victim pass p false true
            simp only [beyond,full,decide_false,decide_true,eq]
            cases victim with
            | none => exact ⟨_,_,rfl,.refused _ rfl⟩
            | some q =>
              simp only [elim_some]
              rcases h.evictOldest q with eq | ⟨id',r,stored,rfl,free,eq⟩
              · simp only [eq]
                exact ⟨_,_,rfl,.refused _ rfl⟩
              · simp only [eq]
                exact ⟨_,_,rfl,.replaced fresh fits ⟨stored,free,.inr ⟨not_le.1 beyond,full⟩⟩⟩
          · simp only [beyond,full]
            exact ⟨_,_,rfl,.added fresh fits (not_le.1 beyond) (not_le.1 full)⟩

theorem queue_addEntry (s : RecentDiscoveryRequests) (id : Nat) (p target : NodeAddr)
    (now generation : Nat) (q : NodeAddr) :
    (s.addEntry id p target now generation).queue q = if q = p then s.queue p ++ [id] else s.queue q := by
  show (get? (OrderedMap.insert _ _ _) q).getD [] = _
  rw [get?_insert]
  by_cases same : q = p
  · rw [if_pos same,if_pos same]
    rfl
  · rw [if_neg same,if_neg same]
    rfl

theorem get?_addEntry (s : RecentDiscoveryRequests) (id : Nat) (p target : NodeAddr)
    (now generation id' : Nat) :
    (s.addEntry id p target now generation).entries.get? id' =
      if id' = id then some ⟨generation,p,target,now,false,false⟩ else s.entries.get? id' :=
  get?_insert _ _ _ _

theorem Consistent.addEntry (h : s.Consistent) (fresh : s.entries.get? id = none) (p target : NodeAddr)
    (now generation : Nat) : (s.addEntry id p target now generation).Consistent := by
  have absent : ∀ q, id ∉ s.queue q := by
    intro q member
    obtain ⟨r,found,-⟩ := (h.index q id).1 member
    rw [fresh] at found
    cases found
  refine ⟨?_,?_,?_,?_⟩
  · intro q id'
    rw [queue_addEntry,get?_addEntry]
    by_cases new : id' = id
    · subst new
      by_cases own : q = p
      · simp [own]
      · simp [own,absent,Ne.symm own]
    · by_cases own : q = p
      · subst own
        simp [new,h.index]
      · simp [own,new,h.index]
  · intro q
    rw [queue_addEntry]
    split
    · exact (h.nodup p).append (nodup_singleton id) (by simpa using absent p)
    · exact h.nodup q
  · intro q
    show get? (OrderedMap.insert _ _ _) q ≠ _
    rw [get?_insert]
    split
    · simp
    · exact h.nonempty q
  · intro id' r found
    rw [get?_addEntry] at found
    have hint : ∃ oldest, (s.addEntry id p target now generation).oldestTimestampMs =
        some oldest ∧ oldest ≤ now ∧
        ∀ old, s.oldestTimestampMs = some old → oldest ≤ old := by
      simp only [RecentDiscoveryRequests.addEntry]
      cases s.oldestTimestampMs with
      | none => exact ⟨now,rfl,le_rfl,nofun⟩
      | some old =>
        refine ⟨min old now,rfl,min_le_right _ _,?_⟩
        rintro _ ⟨rfl⟩
        exact min_le_left _ _
    obtain ⟨oldest,eq,le,below⟩ := hint
    refine ⟨oldest,eq,?_⟩
    split at found
    · cases found
      exact le
    · obtain ⟨old,eq',le'⟩ := h.oldest id' r found
      exact (below old eq').trans le'

theorem Recorded.consistent {s' : RecentDiscoveryRequests} {p target : NodeAddr} {now : Nat}
    {limits : RecentDiscoveryRequestLimits} {a : RecentDiscoveryRequestAdmission} (h : s.Consistent)
    (step : Recorded s id p target now limits a s') : s'.Consistent := by
  cases step with
  | refused => exact h
  | added fresh => exact h.addEntry fresh _ _ _ _
  | replaced fresh _ replaces =>
    refine (h.drop replaces.stored).addEntry ?_ _ _ _ _
    rw [get?_drop,fresh,ite_self]

theorem Consistent.update (h : s.Consistent) {r r' : RecentRequest} (found : s.entries.get? id = some r)
    (peer : r'.fromPeer = r.fromPeer) (time : r'.timestampMs = r.timestampMs) :
    { s with entries := s.entries.insert id r' }.Consistent := by
  refine ⟨?_,h.nodup,h.nonempty,?_⟩
  · intro p id'
    rw [get?_insert]
    by_cases same : id' = id
    · subst same
      have index := h.index p id'
      simp only [found] at index
      show id' ∈ s.queue p ↔ _
      simpa [peer] using index
    · rw [if_neg same]
      exact h.index p id'
  · intro id' r'' found'
    rw [get?_insert] at found'
    split at found'
    · cases found'
      rw [time]
      exact h.oldest id r found
    · exact h.oldest id' r'' found'

theorem get?_protect (s : RecentDiscoveryRequests) (id id' : Nat) : (s.protect id).entries.get? id' =
    if id' = id then (s.entries.get? id).map fun r => if r.responseForwarded then r
      else { r with isProtected := true }
    else s.entries.get? id' := by
  unfold protect
  cases found : s.entries.get? id with
  | none =>
    by_cases same : id' = id
    · simp [same,found]
    · simp [same]
  | some r =>
    by_cases done : r.responseForwarded = true
    · by_cases same : id' = id
      · simp [same,done,found]
      · simp [same,done]
    · by_cases same : id' = id
      · simp [done,get?_insert]
      · simp [done,get?_insert]

variable {s : RecentDiscoveryRequests}

theorem Consistent.protect (h : s.Consistent) (id : Nat) : (s.protect id).Consistent := by
  unfold RecentDiscoveryRequests.protect
  split
  · exact h
  · rename_i r found
    split
    · exact h
    · exact h.update found rfl rfl

theorem claim_cases (s : RecentDiscoveryRequests) (id : Nat) (target : NodeAddr) :
    ((∀ p, (s.claimResponseForward id target).1 ≠ .forward p) ∧ (s.claimResponseForward id target).2 = s) ∨
      ∃ r, s.entries.get? id = some r ∧ r.target = target ∧ r.responseForwarded = false ∧
        s.claimResponseForward id target = (.forward r.fromPeer,{ s with
          entries := s.entries.insert id { r with responseForwarded := true, isProtected := false } }) := by
  unfold claimResponseForward
  cases found : s.entries.get? id with
  | none => exact .inl ⟨nofun,rfl⟩
  | some r =>
    simp only
    by_cases other : r.target ≠ target
    · rw [if_pos other]
      exact .inl ⟨nofun,rfl⟩
    · rw [if_neg other]
      by_cases done : r.responseForwarded = true
      · rw [if_pos done]
        exact .inl ⟨nofun,rfl⟩
      · rw [if_neg done]
        exact .inr ⟨r,rfl,not_not.1 other,by simpa using done,rfl⟩

theorem Consistent.claim (h : s.Consistent) (id : Nat) (target : NodeAddr) :
    (s.claimResponseForward id target).2.Consistent := by
  rcases claim_cases s id target with ⟨-,eq⟩ | ⟨r,found,-,-,eq⟩
  · rw [eq]
    exact h
  · rw [eq]
    exact h.update found rfl rfl

theorem Consistent.remove (h : s.Consistent) (id : Nat) : (s.remove id).2.Consistent := by
  rw [remove_eq h]
  cases found : s.entries.get? id with
  | none => exact h
  | some r => exact h.drop found

theorem foldl_oldest (l : List RecentRequest) (start : Option Nat) :
    ∀ bound, (start = some bound ∨ ∃ r ∈ l, r.timestampMs = bound) →
      ∃ oldest, l.foldl (fun oldest entry => match oldest with
        | none => some entry.timestampMs
        | some value => some (min value entry.timestampMs)) start = some oldest ∧ oldest ≤ bound := by
  induction l generalizing start with
  | nil =>
    rintro bound (eq | ⟨r,member,-⟩)
    · exact ⟨bound,eq,le_rfl⟩
    · cases member
  | cons r l ih =>
    intro bound known
    rcases known with rfl | ⟨r',member,rfl⟩
    · obtain ⟨oldest,eq,le⟩ := ih (some (min bound r.timestampMs)) _ (.inl rfl)
      exact ⟨oldest,eq,le.trans (min_le_left _ _)⟩
    · rcases mem_cons.1 member with rfl | later
      · cases start with
        | none => exact ih _ _ (.inl rfl)
        | some value =>
          obtain ⟨oldest,eq,le⟩ := ih (some (min value r'.timestampMs)) _ (.inl rfl)
          exact ⟨oldest,eq,le.trans (min_le_right _ _)⟩
      · exact ih _ _ (.inr ⟨r',later,rfl⟩)

theorem Consistent.get?_purge (h : s.Consistent) (now expiry id : Nat) :
    (s.purgeExpired now expiry).entries.get? id = (s.entries.get? id).filter fun r =>
      ¬ r.isExpired now expiry := by
  unfold purgeExpired
  by_cases quiet : (s.oldestTimestampMs.all fun oldest => now - oldest ≤ expiry) = true
  · rw [if_pos quiet]
    cases found : s.entries.get? id with
    | none => rfl
    | some r =>
      obtain ⟨oldest,eq,le⟩ := h.oldest id r found
      rw [eq] at quiet
      have young : now - oldest ≤ expiry := by simpa using quiet
      refine (filter_some_pos ?_).symm
      simp only [RecentRequest.isExpired,decide_eq_true_eq]
      omega
  · rw [if_neg quiet]
    exact get?_filterValues _ _ _

theorem Consistent.queue_sweep (h : s.Consistent) (now expiry : Nat) (p : NodeAddr) :
    (s.sweepExpired now expiry).queue p =
      (s.queue p).filter fun id => (s.sweepExpired now expiry).entries.contains id := by
  set kept := s.entries.filterValues fun entry => ¬ entry.isExpired now expiry with sweep
  have byPeer : (s.sweepExpired now expiry).byPeer = if kept.size = s.entries.size then s.byPeer
      else (s.byPeer.mapValues fun ids => ids.filter fun id => kept.contains id).filterValues
        fun ids => ¬ ids.isEmpty := rfl
  have entries : (s.sweepExpired now expiry).entries = kept := rfl
  rw [queue,byPeer,entries]
  by_cases all : kept.size = s.entries.size
  · have same : kept = s.entries := filterValues_eq_self all
    rw [if_pos all,same]
    refine (filter_eq_self.2 fun id member => ?_).symm
    obtain ⟨r,found,-⟩ := (h.index p id).1 member
    simp [found]
  · rw [if_neg all,get?_filterValues,get?_mapValues,queue]
    cases s.byPeer.get? p with
    | none => rfl
    | some ids =>
      rw [map_some,getD_some]
      by_cases empty : (ids.filter fun id => kept.contains id).isEmpty = true
      · rw [isEmpty_iff.1 empty]
        rfl
      · rw [filter_some_pos (by simpa using empty)]
        rfl

theorem Consistent.purge (h : s.Consistent) (now expiry : Nat) :
    (s.purgeExpired now expiry).Consistent := by
  unfold purgeExpired
  by_cases quiet : (s.oldestTimestampMs.all fun oldest => now - oldest ≤ expiry) = true
  · rw [if_pos quiet]
    exact h
  · rw [if_neg quiet]
    have get (id : Nat) : (s.sweepExpired now expiry).entries.get? id =
        (s.entries.get? id).filter fun r => ¬ r.isExpired now expiry := get?_filterValues _ _ _
    refine ⟨?_,?_,?_,?_⟩
    · intro p id
      rw [h.queue_sweep,mem_filter,h.index,contains_eq,get]
      cases found : s.entries.get? id with
      | none => simp
      | some r =>
        by_cases expired : r.isExpired now expiry = true
        · rw [filter_some_neg (by simpa using expired)]
          simp
        · rw [filter_some_pos (by simpa using expired)]
          simp
    · intro p
      rw [h.queue_sweep]
      exact (h.nodup p).filter _
    · intro p
      show get? (if _ then _ else _) p ≠ _
      split
      · exact h.nonempty p
      · rw [get?_filterValues]
        intro eq
        simpa using (filter_eq_some_iff.1 eq).2
    · intro id r found
      have value : r ∈ (s.sweepExpired now expiry).entries.values := mem_values.2 ⟨id,found⟩
      exact foldl_oldest _ none r.timestampMs (.inr ⟨r,value,rfl⟩)

end RecentDiscoveryRequests

end Fips.Lookup
