import Fips.Lib.Lists
import Fips.Lookup.RecentRequests

set_option autoImplicit false

/-! The reverse paths over whole runs, and their fairness between ingress peers. -/

namespace Fips.Lookup.RecentDiscoveryRequests

open List

/-- What the outside sees: an admission with its generation, and a response sent on for the admission of
that generation. -/
inductive Event where
  | admitted (generation id : Nat) (fromPeer target : NodeAddr)
  | forwarded (generation : Nat) (target peer : NodeAddr)
  deriving DecidableEq

def Event.admission : Event → Option Nat
  | .admitted generation _ _ _ => some generation
  | .forwarded _ _ _ => none

def Event.answer : Event → Option Nat
  | .admitted _ _ _ _ => none
  | .forwarded generation _ _ => some generation

def admittedBy (s' : RecentDiscoveryRequests) (a : RecentDiscoveryRequestAdmission)
    (id : Nat) (p target : NodeAddr) :
    List Event := if a.accepted then [.admitted s'.lastAdmissionGeneration id p target] else []

def forwardedBy (s : RecentDiscoveryRequests) (id : Nat) (target : NodeAddr) : List Event :=
  match s.entries.get? id,(s.claimResponseForward id target).1 with
  | some r,.forward peer => [.forwarded r.admissionGeneration target peer]
  | _,_ => []

/-- The tables after any calls, those of `record_request` by the peers and with the limits that `allowed`
names. -/
inductive Reached (allowed : NodeAddr → RecentDiscoveryRequestLimits → Prop) :
    List Event → RecentDiscoveryRequests → Prop where
  | start : Reached allowed [] default
  | record {log : List Event} {s s' : RecentDiscoveryRequests} {a : RecentDiscoveryRequestAdmission}
      (pass : Traversal (NodeAddr × List Nat)) (id : Nat) (p target : NodeAddr) (now : Nat)
      (limits : RecentDiscoveryRequestLimits) : Reached allowed log s → allowed p limits →
      s.recordRequest pass id p target now limits = some (a,s') →
      Reached allowed (log ++ admittedBy s' a id p target) s'
  | protect {log : List Event} {s : RecentDiscoveryRequests} (id : Nat) : Reached allowed log s →
      Reached allowed log (s.protect id)
  | claim {log : List Event} {s : RecentDiscoveryRequests} (id : Nat) (target : NodeAddr) :
    Reached allowed log s →
      Reached allowed (log ++ s.forwardedBy id target) (s.claimResponseForward id target).2
  | remove {log : List Event} {s : RecentDiscoveryRequests} (id : Nat) : Reached allowed log s →
      Reached allowed log (s.remove id).2
  | purge {log : List Event} {s : RecentDiscoveryRequests} (now expiry : Nat) : Reached allowed log s →
      Reached allowed log (s.purgeExpired now expiry)

variable {s s' : RecentDiscoveryRequests} {id id' : Nat} {r : RecentRequest} {p target : NodeAddr}
  {now : Nat} {limits : RecentDiscoveryRequestLimits} {a : RecentDiscoveryRequestAdmission}
  {log : List Event}

theorem Consistent.recorded (h : s.Consistent) {pass : Traversal (NodeAddr × List Nat)}
    (eq : s.recordRequest pass id p target now limits = some (a,s')) :
    Recorded s id p target now limits a s' := by
  obtain ⟨a',s'',eq',step⟩ := h.recordRequest pass id p target now limits
  rw [eq] at eq'
  cases eq'
  exact step

section Runs

variable {allowed : NodeAddr → RecentDiscoveryRequestLimits → Prop}

theorem Reached.consistent (run : Reached allowed log s) : s.Consistent := by
  induction run with
  | start => exact consistent_default
  | record pass id p target now limits _ _ eq ih => exact (ih.recorded eq).consistent ih
  | protect id _ ih => exact ih.protect id
  | claim id target _ ih => exact ih.claim id target
  | remove id _ ih => exact ih.remove id
  | purge now expiry _ ih => exact ih.purge now expiry

/-- What a call does that admits nothing: each record left is an old one, but for its marks. -/
structure Fewer (s s' : RecentDiscoveryRequests) : Prop where
  last : s'.lastAdmissionGeneration = s.lastAdmissionGeneration
  kept : ∀ id r', s'.entries.get? id = some r' → ∃ r, s.entries.get? id = some r ∧
    r'.admissionGeneration = r.admissionGeneration ∧ r'.fromPeer = r.fromPeer ∧ r'.target = r.target ∧
      (r.responseForwarded = true → r'.responseForwarded = true)
  queues : ∀ p, (s'.queue p).length ≤ (s.queue p).length

theorem fewer_self (s : RecentDiscoveryRequests) : Fewer s s :=
  ⟨rfl,fun _ r found => ⟨r,found,rfl,rfl,rfl,fun marked => marked⟩,fun _ => le_rfl⟩

theorem fewer_drop (s : RecentDiscoveryRequests) (id : Nat) (p : NodeAddr) : Fewer s (s.drop id p) := by
  refine ⟨rfl,fun id' r found => ?_,fun q => ?_⟩
  · rw [get?_drop] at found
    split at found
    · cases found
    · exact (fewer_self s).kept id' r found
  · rw [queue_drop]
    split
    · rename_i same
      rw [same]
      exact length_filter_le _ _
    · exact le_rfl

theorem fewer_update (found : s.entries.get? id = some r) {forwarded : Bool}
    (guarded : Bool) (marked : r.responseForwarded = true → forwarded = true) :
    Fewer s { s with
      entries := s.entries.insert id { r with responseForwarded := forwarded, isProtected := guarded } } := by
  refine ⟨rfl,fun id' r' found' => ?_,fun _ => le_rfl⟩
  rw [OrderedMap.get?_insert] at found'
  split at found'
  · rename_i same
    cases found'
    exact ⟨r,same ▸ found,rfl,rfl,rfl,marked⟩
  · exact (fewer_self s).kept id' r' found'

theorem fewer_protect (s : RecentDiscoveryRequests) (id : Nat) : Fewer s (s.protect id) := by
  unfold RecentDiscoveryRequests.protect
  split
  · exact fewer_self s
  · rename_i r found
    split
    · exact fewer_self s
    · exact fewer_update found true fun marked => marked

theorem Consistent.fewer_remove (h : s.Consistent) (id : Nat) : Fewer s (s.remove id).2 := by
  rw [remove_eq h]
  cases s.entries.get? id with
  | none => exact fewer_self s
  | some r => exact fewer_drop s id r.fromPeer

theorem Consistent.fewer_purge (h : s.Consistent) (now expiry : Nat) :
    Fewer s (s.purgeExpired now expiry) := by
  refine ⟨?_,fun id r found => ?_,fun p => ?_⟩
  · unfold RecentDiscoveryRequests.purgeExpired
    split
    · rfl
    · rfl
  · rw [h.get?_purge] at found
    exact (fewer_self s).kept id r (Option.filter_eq_some_iff.1 found).1
  · unfold RecentDiscoveryRequests.purgeExpired
    split
    · exact le_rfl
    · rw [h.queue_sweep]
      exact length_filter_le _ _

structure Logged (log : List Event) (s : RecentDiscoveryRequests) : Prop where
  admissions : (log.filterMap Event.admission).Pairwise (· < ·)
  last : ∀ g ∈ log.filterMap Event.admission, g ≤ s.lastAdmissionGeneration
  recorded : ∀ id r, s.entries.get? id = some r → .admitted r.admissionGeneration id r.fromPeer r.target ∈ log
  answers : (log.filterMap Event.answer).Nodup
  answered : ∀ id r, s.entries.get? id = some r → r.admissionGeneration ∈ log.filterMap Event.answer →
    r.responseForwarded = true
  own : ∀ g target peer, .forwarded g target peer ∈ log → ∃ id, .admitted g id peer target ∈ log

theorem logged_default : Logged [] default where
  admissions := .nil
  last := nofun
  recorded := by simp [default]
  answers := .nil
  answered := by simp [default]
  own := nofun

theorem Logged.fewer (h : Logged log s) (step : Fewer s s') : Logged log s' := by
  refine ⟨h.admissions,?_,?_,h.answers,?_,h.own⟩
  · rw [step.last]
    exact h.last
  · intro id r' found
    obtain ⟨r,stored,generation,peer,target,-⟩ := step.kept id r' found
    rw [generation,peer,target]
    exact h.recorded id r stored
  · intro id r' found answered
    obtain ⟨r,stored,generation,-,-,marked⟩ := step.kept id r' found
    rw [generation] at answered
    exact marked (h.answered id r stored answered)

/-- A new admission has a generation of its own. -/
theorem Logged.addEntry (h : Logged log s) (id : Nat) (p target : NodeAddr) (now : Nat) :
    Logged (log ++ [.admitted (s.lastAdmissionGeneration + 1) id p target])
      (s.addEntry id p target now (s.lastAdmissionGeneration + 1)) := by
  have new : s.lastAdmissionGeneration + 1 ∉ log.filterMap Event.answer := by
    intro answered
    obtain ⟨e,member,eq⟩ := mem_filterMap.1 answered
    cases e with
    | admitted => cases eq
    | forwarded g target peer =>
      obtain rfl : g = _ := Option.some.inj eq
      obtain ⟨id',first⟩ := h.own _ _ _ member
      have late := h.last _ (mem_filterMap.2 ⟨_,first,rfl⟩)
      omega
  refine ⟨?_,?_,?_,?_,?_,?_⟩
  · rw [filterMap_append]
    refine pairwise_append.2 ⟨h.admissions,pairwise_singleton _ _,fun g old g' single => ?_⟩
    rw [mem_singleton.1 single]
    exact Nat.lt_succ_of_le (h.last g old)
  · intro g member
    rw [filterMap_append] at member
    rcases mem_append.1 member with old | single
    · exact (h.last g old).trans (Nat.le_succ _)
    · exact (mem_singleton.1 single).le
  · intro id' r found
    rw [get?_addEntry] at found
    split at found
    · rename_i same
      cases found
      rw [same]
      exact mem_append_right _ (mem_singleton_self _)
    · exact mem_append_left _ (h.recorded id' r found)
  · rw [filterMap_append]
    exact (append_nil (log.filterMap Event.answer)).symm ▸ h.answers
  · intro id' r found answered
    have old : r.admissionGeneration ∈ log.filterMap Event.answer := by simpa [Event.answer] using answered
    rw [get?_addEntry] at found
    split at found
    · cases found
      exact absurd old new
    · exact h.answered id' r found old
  · intro g target' peer member
    rcases mem_append.1 member with old | single
    · obtain ⟨id',first⟩ := h.own g target' peer old
      exact ⟨id',mem_append_left _ first⟩
    · cases mem_singleton.1 single

theorem Logged.recorded_by (h : Logged log s) (step : Recorded s id p target now limits a s') :
    Logged (log ++ admittedBy s' a id p target) s' := by
  cases step with
  | refused _ no =>
    rw [admittedBy,no]
    simpa using h
  | added => exact h.addEntry id p target now
  | @replaced id' r => exact (h.fewer (fewer_drop s id' r.fromPeer)).addEntry id p target now

theorem Logged.forward (h : Logged log s) (found : s.entries.get? id = some r)
    (marked : r.responseForwarded = true) (new : r.admissionGeneration ∉ log.filterMap Event.answer) :
    Logged (log ++ [.forwarded r.admissionGeneration r.target r.fromPeer]) s := by
  refine ⟨?_,?_,fun id' r' found' => mem_append_left _ (h.recorded id' r' found'),?_,?_,?_⟩
  · rw [filterMap_append]
    exact (append_nil (log.filterMap Event.admission)).symm ▸ h.admissions
  · intro g member
    exact h.last g (by simpa [Event.admission] using member)
  · rw [filterMap_append]
    exact h.answers.append (nodup_singleton _) (by simpa [Event.answer] using new)
  · intro id' r' found' answered
    rw [filterMap_append] at answered
    rcases mem_append.1 answered with old | single
    · exact h.answered id' r' found' old
    · have single : r'.admissionGeneration = r.admissionGeneration := mem_singleton.1 single
      have same := eq_of_nodup_filterMap (h.admissions.imp ne_of_lt) (h.recorded id' r' found')
        (h.recorded id r found) rfl (congrArg some single.symm)
      injection same with _ id_eq
      subst id_eq
      cases found.symm.trans found'
      exact marked
  · intro g target peer member
    rcases mem_append.1 member with old | single
    · obtain ⟨id',first⟩ := h.own g target peer old
      exact ⟨id',mem_append_left _ first⟩
    · cases mem_singleton.1 single
      exact ⟨id,mem_append_left _ (h.recorded id r found)⟩

/-- A claim that is answered was not answered before. -/
theorem Logged.claim (h : Logged log s) (id : Nat) (target : NodeAddr) :
    Logged (log ++ s.forwardedBy id target) (s.claimResponseForward id target).2 := by
  rcases claim_cases s id target with ⟨none,eq⟩ | ⟨r,found,rfl,open_,eq⟩
  · have silent : s.forwardedBy id target = [] := by
      unfold forwardedBy
      split
      · rename_i peer _ forward
        exact absurd forward (none peer)
      · rfl
    rw [silent,eq,append_nil]
    exact h
  · have said : s.forwardedBy id r.target = [.forwarded r.admissionGeneration r.target r.fromPeer] := by
      rw [forwardedBy,found,eq]
    have new : r.admissionGeneration ∉ log.filterMap Event.answer := by
      intro answered
      rw [h.answered id r found answered] at open_
      cases open_
    rw [said,eq]
    have next := (h.fewer (fewer_update found false fun _ => rfl)).forward
      ((OrderedMap.get?_insert _ id id _).trans (if_pos rfl)) rfl new
    exact next

theorem Reached.logged (run : Reached allowed log s) : Logged log s := by
  induction run with
  | start => exact logged_default
  | record pass id p target now limits run _ eq ih => exact ih.recorded_by (run.consistent.recorded eq)
  | @protect log s id _ ih => exact ih.fewer (fewer_protect s id)
  | claim id target _ ih => exact ih.claim id target
  | remove id run ih => exact ih.fewer (run.consistent.fewer_remove id)
  | purge now expiry run ih => exact ih.fewer (run.consistent.fewer_purge now expiry)

end Runs

theorem Recorded.keeps (step : Recorded s id p target now limits a s')
    (found : s.entries.get? id' = some r) :
    s'.entries.get? id' = some r ∨ s.Replaces p limits id' r := by
  have other (fresh : s.entries.get? id = none) : id' ≠ id := by
    rintro rfl
    cases fresh.symm.trans found
  cases step with
  | refused => exact .inl found
  | added fresh => exact .inl ((get?_addEntry _ _ _ _ _ _ _).trans ((if_neg (other fresh)).trans found))
  | @replaced victim _ fresh _ replaces =>
    by_cases same : id' = victim
    · subst same
      cases replaces.stored.symm.trans found
      exact .inr replaces
    · rw [get?_addEntry,if_neg (other fresh),get?_drop,if_neg same]
      exact .inl found

theorem Recorded.effect (step : Recorded s id p target now limits a s') :
    (a.accepted = false → s' = s) ∧
      ∀ id' r, s.entries.get? id' = some r → r.isProtected = true → s'.entries.get? id' = some r := by
  constructor
  · intro refused
    cases step with
    | refused => rfl
    | added => cases refused
    | replaced => cases refused
  · intro id' r found guarded
    refine (step.keeps found).resolve_right fun replaces => ?_
    rw [replaces.free] at guarded
    cases guarded

/-- A call for another request leaves a record as it is, and marking a marked record changes nothing. -/
theorem Consistent.keeps (h : s.Consistent) (found : s.entries.get? id = some r) (id' : Nat) :
    (r.isProtected = true → (s.protect id').entries.get? id = some r) ∧
      (id' ≠ id → (s.remove id').2.entries.get? id = some r ∧
        ∀ target, (s.claimResponseForward id' target).2.entries.get? id = some r) := by
  refine ⟨fun guarded => ?_,fun other => ⟨?_,fun target => ?_⟩⟩
  · rw [get?_protect]
    split
    · rename_i same
      have unchanged : { r with isProtected := true } = r := by rw [← guarded]
      rw [← same,found,Option.map_some,unchanged,ite_self]
    · exact found
  · rw [remove_eq h]
    cases s.entries.get? id' with
    | none => exact found
    | some r' => exact (get?_drop s id' id r'.fromPeer).trans ((if_neg other.symm).trans found)
  · rcases claim_cases s id' target with ⟨-,eq⟩ | ⟨r',-,-,-,eq⟩
    · rwa [eq]
    · rw [eq,OrderedMap.get?_insert,if_neg other.symm]
      exact found

/-- After any calls, with any limits and any times: the queues of the peers list every record exactly once,
no call panics, the hint is a lower bound and expiry is exact, and a refused admission changes nothing.
`protect` marks a record that is not answered yet, and no admission drops a marked record: only its own
claim or removal and expiry end it. In the history generations grow and every response sent on is the
first for its admission and goes, for the target asked for, to the peer that asked. -/
theorem recent_requests_consistent (run : Reached (fun _ _ => True) log s) :
    ((∀ p id, id ∈ s.queue p ↔ ∃ r, s.entries.get? id = some r ∧ r.fromPeer = p) ∧ (∀ p, (s.queue p).Nodup) ∧
      ∀ p, s.byPeer.get? p ≠ some []) ∧
    ((s.oldestTimestampMs = none → s.entries = ∅) ∧
      ∀ id r oldest, s.entries.get? id = some r → s.oldestTimestampMs = some oldest →
        oldest ≤ r.timestampMs) ∧
    (∀ now expiry id r, (s.purgeExpired now expiry).entries.get? id = some r ↔
      s.entries.get? id = some r ∧ ¬ now - r.timestampMs > expiry) ∧
    (∀ pass id p target now limits, ∃ a s', s.recordRequest pass id p target now limits = some (a,s') ∧
      (a.accepted = false → s' = s) ∧
      ∀ id' r, s.entries.get? id' = some r → r.isProtected = true → s'.entries.get? id' = some r) ∧
    (∀ id r, s.entries.get? id = some r →
      (r.responseForwarded = false → (s.protect id).entries.get? id = some { r with isProtected := true }) ∧
      (r.isProtected = true → ∀ id', (s.protect id').entries.get? id = some r ∧
        (id' ≠ id → (s.remove id').2.entries.get? id = some r ∧
          ∀ target, (s.claimResponseForward id' target).2.entries.get? id = some r))) ∧
    (log.filterMap Event.admission).Pairwise (· < ·) ∧ (log.filterMap Event.answer).Nodup ∧
    ∀ g target peer, .forwarded g target peer ∈ log → ∃ id, .admitted g id peer target ∈ log := by
  have consistent := run.consistent
  have logged := run.logged
  refine ⟨⟨consistent.index,consistent.nodup,consistent.nonempty⟩,⟨?_,?_⟩,?_,?_,?_,logged.admissions,
    logged.answers,logged.own⟩
  · intro unset
    refine OrderedMap.ext fun id => ?_
    cases found : s.entries.get? id with
    | none => rfl
    | some r =>
      obtain ⟨oldest,eq,-⟩ := consistent.oldest id r found
      cases unset.symm.trans eq
  · intro id r oldest found eq
    obtain ⟨oldest',eq',le⟩ := consistent.oldest id r found
    cases eq.symm.trans eq'
    exact le
  · intro now expiry id r
    rw [consistent.get?_purge,Option.filter_eq_some_iff]
    simp [RecentRequest.isExpired]
  · intro pass id p target now limits
    obtain ⟨a,s',eq,step⟩ := consistent.recordRequest pass id p target now limits
    exact ⟨a,s',eq,step.effect⟩
  · intro id r found
    refine ⟨fun open_ => ?_,fun guarded id' =>
      ⟨(consistent.keeps found id').1 guarded,(consistent.keeps found id').2⟩⟩
    rw [get?_protect,if_pos rfl,found,Option.map_some,open_]
    rfl

-- two records fill the table, the marked one outlives the other when a third comes, is answered and expires
theorem recent_requests_answered_once : ∃ log s, Reached (fun _ _ => True) log s ∧
    log = [.admitted 1 7 1 2,.admitted 2 8 1 2,.admitted 3 9 3 2,.forwarded 1 2 1] ∧
    s.entries.values.map (·.admissionGeneration) = [3] ∧ (log.filterMap Event.answer).Nodup :=
  have full := ((Reached.start.record Traversal.stored 7 1 2 10 ⟨2,1⟩ trivial rfl).protect 7).record
    Traversal.stored 8 1 2 20 ⟨2,1⟩ trivial rfl
  have run := ((full.record Traversal.stored 9 3 2 30 ⟨2,1⟩ trivial rfl).claim 7 2).purge 40 15
  ⟨_,_,run,by decide +kernel,by decide +kernel,(recent_requests_consistent run).2.2.2.2.2.2.1⟩

def held (s : RecentDiscoveryRequests) (p : NodeAddr) : Nat := s.entries.values.countP fun r => r.fromPeer = p

theorem Consistent.held_eq (h : s.Consistent) (p : NodeAddr) :
    s.held p = (s.queue p).length := by
  have keys : ((s.entries.entries.filter fun e => e.2.fromPeer = p).map Prod.fst).Perm (s.queue p) := by
    refine (perm_ext_iff_of_nodup ?_ (h.nodup p)).2 fun id => ?_
    · refine pairwise_map.2 ((s.entries.sorted.sublist filter_sublist).imp ?_)
      intro a b lt
      exact lt.ne
    · rw [h.index,mem_map]
      constructor
      · rintro ⟨e,member,rfl⟩
        obtain ⟨stored,owner⟩ := mem_filter.1 member
        exact ⟨e.2,OrderedMap.mem_entries.1 stored,of_decide_eq_true owner⟩
      · rintro ⟨r,found,owner⟩
        exact ⟨(id,r),mem_filter.2 ⟨OrderedMap.mem_entries.2 found,decide_eq_true owner⟩,rfl⟩
  rw [← keys.length_eq,length_map,held,OrderedMap.values,countP_map,countP_eq_length_filter]
  rfl

theorem size_eq_sum_held {peers : Finset NodeAddr}
    (callers : ∀ id r, s.entries.get? id = some r → r.fromPeer ∈ peers) :
    s.entries.size = ∑ p ∈ peers, s.held p := by
  have among : ∀ r ∈ s.entries.values, r.fromPeer ∈ peers := by
    intro r member
    obtain ⟨id,found⟩ := OrderedMap.mem_values.1 member
    exact callers id r found
  have count : ∀ l : List RecentRequest, (∀ r ∈ l, r.fromPeer ∈ peers) →
      l.length = ∑ p ∈ peers, l.countP fun r => r.fromPeer = p := by
    intro l
    induction l with
    | nil => simp
    | cons r l ih =>
      intro inside
      have rest := ih fun r' member => inside r' (mem_cons_of_mem r member)
      have here : ∑ p ∈ peers, (if r.fromPeer = p then 1 else 0) = 1 := by
        rw [Finset.sum_ite_eq,if_pos (inside r mem_cons_self)]
      simp only [length_cons,countP_cons,decide_eq_true_eq,Finset.sum_add_distrib,← rest,here]
  have sum := count s.entries.values among
  rw [OrderedMap.values,length_map] at sum
  exact sum

structure Fair (peers : Finset NodeAddr) (limits : RecentDiscoveryRequestLimits)
    (s : RecentDiscoveryRequests) : Prop where
  callers : ∀ id r, s.entries.get? id = some r → r.fromPeer ∈ peers
  shares : ∀ p, (s.queue p).length ≤ share limits

section Fairness

variable {peers : Finset NodeAddr}

theorem share_eq (positive : 1 ≤ limits.peerCount) (room : limits.peerCount ≤ limits.maxEntries) :
    share limits = limits.maxEntries / limits.peerCount := by
  have one : 1 ≤ limits.maxEntries / limits.peerCount := (Nat.one_le_div_iff positive).2 room
  rw [share,max_eq_left positive,max_eq_left one]

theorem Fair.size (h : Fair peers limits s) (consistent : s.Consistent) (positive : 1 ≤ limits.peerCount)
    (room : limits.peerCount ≤ limits.maxEntries) (few : peers.card ≤ limits.peerCount) :
    s.entries.size ≤ limits.maxEntries ∧
      ∀ p ∈ peers, (s.queue p).length < share limits → s.entries.size < limits.maxEntries := by
  have total : limits.peerCount * share limits ≤ limits.maxEntries := by
    rw [share_eq positive room]
    exact Nat.mul_div_le _ _
  have all : peers.card * share limits ≤ limits.maxEntries := (Nat.mul_le_mul_right _ few).trans total
  have each : ∀ p ∈ peers, s.held p ≤ share limits := fun p _ => by
    rw [consistent.held_eq]
    exact h.shares p
  rw [size_eq_sum_held h.callers]
  constructor
  · refine (Finset.sum_le_card_nsmul peers _ _ each).trans ?_
    rwa [smul_eq_mul]
  · intro p member below
    rw [← consistent.held_eq] at below
    refine lt_of_lt_of_le (Finset.sum_lt_sum each ⟨p,member,below⟩) ?_
    rwa [Finset.sum_const]

theorem Fair.addEntry (h : Fair peers limits s) (caller : p ∈ peers)
    (below : (s.queue p).length < share limits) (id : Nat) (target : NodeAddr) (now generation : Nat) :
    Fair peers limits (s.addEntry id p target now generation) := by
  constructor
  · intro id' r found
    rw [get?_addEntry] at found
    split at found
    · cases found
      exact caller
    · exact h.callers id' r found
  · intro q
    rw [queue_addEntry]
    split
    · rw [length_append]
      exact below
    · exact h.shares q

theorem Fair.fewer (h : Fair peers limits s) (step : Fewer s s') : Fair peers limits s' := by
  refine ⟨?_,fun p => (step.queues p).trans (h.shares p)⟩
  intro id r' found
  obtain ⟨r,stored,-,same,-⟩ := step.kept id r' found
  rw [same]
  exact h.callers id r stored

/-- A fair table stays fair, and what an admission replaces belongs to the peer that asked. -/
theorem Fair.recorded (h : Fair peers limits s) (consistent : s.Consistent) (positive : 1 ≤ limits.peerCount)
    (room : limits.peerCount ≤ limits.maxEntries) (few : peers.card ≤ limits.peerCount) (caller : p ∈ peers)
    (step : Recorded s id p target now limits a s') :
    Fair peers limits s' ∧ ∀ id' r, s.entries.get? id' = some r → r.fromPeer ≠ p →
      s'.entries.get? id' = some r := by
  -- with room left for the peer the table is not full, so a replaced request is its own
  have own : ∀ id' r, s.Replaces p limits id' r → r.fromPeer = p := by
    intro id' r replaces
    refine replaces.owner.resolve_right ?_
    rintro ⟨below,full⟩
    exact not_lt.2 full ((h.size consistent positive room few).2 p caller below)
  refine ⟨?_,fun id' r found other => (step.keeps found).resolve_right fun replaces =>
    other (own id' r replaces)⟩
  cases step with
  | refused => exact h
  | added _ _ below _ => exact h.addEntry caller below _ _ _ _
  | @replaced id' r _ _ replaces =>
    cases own id' r replaces
    have queued := (consistent.index r.fromPeer id').2 ⟨r,replaces.stored,rfl⟩
    have shorter : ((s.queue r.fromPeer).filter (· ≠ id')).length < (s.queue r.fromPeer).length :=
      length_filter_lt_length_iff_exists.2 ⟨id',queued,by simp⟩
    refine (h.fewer (fewer_drop s id' r.fromPeer)).addEntry caller ?_ _ _ _ _
    rw [queue_drop,if_pos rfl]
    exact shorter.trans_le (h.shares r.fromPeer)

theorem Reached.fair (positive : 1 ≤ limits.peerCount)
    (room : limits.peerCount ≤ limits.maxEntries) (few : peers.card ≤ limits.peerCount)
    (run : Reached (fun p l => p ∈ peers ∧ l = limits) log s) :
    Fair peers limits s := by
  induction run with
  | start => exact ⟨by simp [default],by simp [queue,default]⟩
  | record pass id p target now l run allowed eq ih =>
    obtain ⟨caller,rfl⟩ := allowed
    exact (ih.recorded run.consistent positive room few caller (run.consistent.recorded eq)).1
  | @protect log s id run ih => exact ih.fewer (fewer_protect s id)
  | @claim log s id target run ih =>
    rcases claim_cases s id target with ⟨-,eq⟩ | ⟨r,found,-,-,eq⟩
    · rw [eq]
      exact ih
    · rw [eq]
      exact ih.fewer (fewer_update found false fun _ => rfl)
  | remove id run ih => exact ih.fewer (run.consistent.fewer_remove id)
  | purge now expiry run ih => exact ih.fewer (run.consistent.fewer_purge now expiry)

theorem recordRequest_added (fresh : s.entries.get? id = none)
    (fits : s.lastAdmissionGeneration + 1 < 2^64) (below : (s.queue p).length < share limits)
    (free : s.entries.size < limits.maxEntries) (pass : Traversal (NodeAddr × List Nat))
    (target : NodeAddr) (now : Nat) :
    s.recordRequest pass id p target now limits =
      some (⟨true,false,false⟩,s.addEntry id p target now (s.lastAdmissionGeneration + 1)) := by
  have unknown : ¬ s.entries.contains id = true := by simp [fresh]
  have next : U64.checkedAdd s.lastAdmissionGeneration 1 = some (s.lastAdmissionGeneration + 1) :=
    U64.checkedAdd_eq_some.2 ⟨fits,rfl⟩
  unfold recordRequest
  rw [if_neg unknown,if_neg (by omega),next]
  simp only [any_queue s p (n := share limits) (lt_max_of_lt_right one_pos),not_le.2 below,not_le.2 free]
  rfl

/-- With at most as many callers as the limits count, no peer holds more than its share, no admission costs
another peer a record, and a new request of a peer below its share is admitted, whatever the others hold. -/
theorem lookup_admission_fair (positive : 1 ≤ limits.peerCount)
    (room : limits.peerCount ≤ limits.maxEntries) (few : peers.card ≤ limits.peerCount)
    (run : Reached (fun p l => p ∈ peers ∧ l = limits) log s) :
    (∀ p, s.held p ≤ limits.maxEntries / limits.peerCount) ∧ s.entries.size ≤ limits.maxEntries ∧
    ∀ pass id p target now, p ∈ peers → ∃ a s', s.recordRequest pass id p target now limits = some (a,s') ∧
      (∀ id' r, s.entries.get? id' = some r → r.fromPeer ≠ p → s'.entries.get? id' = some r) ∧
      (s.entries.get? id = none → s.held p < limits.maxEntries / limits.peerCount →
        s.lastAdmissionGeneration + 1 < 2^64 → a.accepted = true) := by
  have consistent := run.consistent
  have fair := run.fair positive room few
  have size := fair.size consistent positive room few
  rw [← share_eq positive room]
  refine ⟨fun p => ?_,size.1,?_⟩
  · rw [consistent.held_eq]
    exact fair.shares p
  · intro pass id p target now caller
    obtain ⟨a,s',eq,step⟩ := consistent.recordRequest pass id p target now limits
    refine ⟨a,s',eq,(fair.recorded consistent positive room few caller step).2,?_⟩
    intro fresh below fits
    rw [consistent.held_eq] at below
    rw [recordRequest_added fresh fits below (size.2 p caller below)] at eq
    cases eq
    rfl

end Fairness

-- the first peer asks three times and replaces its own oldest request, the second asks once
theorem lookup_admission_fair_two_peers : ∃ log s,
    Reached (fun p l => p ∈ ({1,2} : Finset NodeAddr) ∧ l = ⟨4,2⟩) log s ∧ s.held 1 = 2 ∧ s.held 2 = 1 ∧
      s.held 1 ≤ 4 / 2 :=
  have empty : Reached (fun p l => p ∈ ({1,2} : Finset NodeAddr) ∧ l = ⟨4,2⟩) [] default := .start
  have both := (empty.record Traversal.stored 7 1 2 10 ⟨4,2⟩ ⟨by decide,rfl⟩ rfl).record
    Traversal.stored 8 2 2 10 ⟨4,2⟩ ⟨by decide,rfl⟩ rfl
  have run := (both.record Traversal.stored 9 1 2 10 ⟨4,2⟩ ⟨by decide,rfl⟩ rfl).record
    Traversal.stored 10 1 2 10 ⟨4,2⟩ ⟨by decide,rfl⟩ rfl
  ⟨_,_,run,by decide +kernel,by decide +kernel,
    (lookup_admission_fair (by decide) (by decide) (by decide) run).1 1⟩

end Fips.Lookup.RecentDiscoveryRequests
