import Fips.Lib.ValueIndex
import Fips.Limits.SessionSetup

set_option autoImplicit false

/-! The transit limiter of discovery requests: an interval for each ingress, origin and target, and a
budget for each ingress peer. -/

namespace Fips.Limits

open OrderedMap List Option

structure DiscoveryForwardBucket where
  tokens : ℚ
  updated : Nat
  deriving DecidableEq

inductive DiscoveryForwardDecision where
  | forward
  | targetInterval
  | targetCapacity
  | ingressCapacity
  | ingressBudget
  deriving DecidableEq, Repr

abbrev ForwardKey := NodeAddr ×ₗ NodeAddr ×ₗ NodeAddr

def forwardMaxAge : Nat := 60 * 1000000000
def forwardCleanupInterval : Nat := 5 * 1000000000
def forwardMaxTargets : Nat := 4096
def forwardMaxIngressPeers : Nat := 4096
def defaultForwardBurst : ℚ := 256
def defaultForwardRate : ℚ := 32
def forwardIngressMaxAge : Nat := 300 * 1000000000

structure DiscoveryForwardRateLimiter where
  lastForwarded : OrderedMap ForwardKey Nat
  forwardedByTime : OrderedMap (Nat ×ₗ ForwardKey) Unit
  ingressBuckets : OrderedMap NodeAddr DiscoveryForwardBucket
  minInterval : Nat
  maxAge : Nat
  maxTargets : Nat
  maxIngressPeers : Nat
  ingressBurst : ℚ
  ingressRate : ℚ
  ingressMaxAge : Nat
  cleanupInterval : Nat
  lastCleanup : Nat

namespace DiscoveryForwardRateLimiter

def withInterval (minInterval now : Nat) : DiscoveryForwardRateLimiter where
  lastForwarded := ∅
  forwardedByTime := ∅
  ingressBuckets := ∅
  minInterval := minInterval
  maxAge := forwardMaxAge
  maxTargets := forwardMaxTargets
  maxIngressPeers := forwardMaxIngressPeers
  ingressBurst := defaultForwardBurst
  ingressRate := defaultForwardRate
  ingressMaxAge := forwardIngressMaxAge
  cleanupInterval := forwardCleanupInterval
  lastCleanup := now

section Limiter

variable (s : DiscoveryForwardRateLimiter)

def cleanup (now : Nat) : DiscoveryForwardRateLimiter :=
  let stale := s.lastForwarded.entries.filter fun e => ¬ now - e.2 < s.maxAge
  { s with
    lastForwarded := s.lastForwarded.filterValues fun last => now - last < s.maxAge
    forwardedByTime := (stale.map fun e => toLex (e.2,e.1)).foldl .erase s.forwardedByTime
    ingressBuckets := s.ingressBuckets.filterValues fun bucket => now - bucket.updated < s.ingressMaxAge
    lastCleanup := now }

def maybeCleanup (now : Nat) : DiscoveryForwardRateLimiter :=
  if now - s.lastCleanup < s.cleanupInterval then s else s.cleanup now

/-- The bucket of an ingress peer, made full if there is none and there is room. -/
def ingressBucket (ingress : NodeAddr) (now : Nat) :
    Option (DiscoveryForwardBucket × DiscoveryForwardRateLimiter) :=
  match s.ingressBuckets.get? ingress with
  | some bucket => some (bucket,s)
  | none =>
    if s.ingressBuckets.size ≥ s.maxIngressPeers then none
    else
      let bucket : DiscoveryForwardBucket := ⟨s.ingressBurst,now⟩
      some (bucket,{ s with ingressBuckets := s.ingressBuckets.insert ingress bucket })

/-- The slot a new triple takes over at capacity, if there has to be one; nothing when the table is full
of cooldowns still in force. -/
def reclaim (key : ForwardKey) (now : Nat) : Option (Option (Nat ×ₗ ForwardKey)) :=
  if ¬ s.lastForwarded.contains key ∧ s.lastForwarded.size ≥ s.maxTargets then
    match s.forwardedByTime.entries.head? with
    | none => none
    | some (oldest,_) => if now - (ofLex oldest).1 < s.minInterval then none else some (some oldest)
  else some none

def store (reclaimed : Option (Nat ×ₗ ForwardKey)) (key : ForwardKey) (now : Nat) :
    DiscoveryForwardRateLimiter :=
  let s := match reclaimed with
    | some oldest =>
      { s with
        lastForwarded := s.lastForwarded.erase (ofLex oldest).2
        forwardedByTime := s.forwardedByTime.erase oldest }
    | none => s
  let byTime := match s.lastForwarded.get? key with
    | some last => s.forwardedByTime.erase (toLex (last,key))
    | none => s.forwardedByTime
  { s with
    lastForwarded := s.lastForwarded.insert key now
    forwardedByTime := byTime.insert (toLex (now,key)) () }

def key (ingress origin target : NodeAddr) : ForwardKey := toLex (ingress,toLex (origin,target))

/-- The decision about `key`, which is a request of `ingress`, once stale state is gone. -/
def decideKey (ingress : NodeAddr) (key : ForwardKey) (now : Nat) :
    DiscoveryForwardDecision × DiscoveryForwardRateLimiter :=
  if (s.lastForwarded.get? key).any fun last => now - last < s.minInterval then (.targetInterval,s)
  else match s.reclaim key now with
    | none => (.targetCapacity,s)
    | some reclaimed =>
      match s.ingressBucket ingress now with
      | none => (.ingressCapacity,s)
      | some (bucket,s) =>
        let tokens := min (bucket.tokens + asSecs (now - bucket.updated) * s.ingressRate) s.ingressBurst
        if tokens < 1 then
          (.ingressBudget,{ s with ingressBuckets := s.ingressBuckets.insert ingress ⟨tokens,now⟩ })
        else
          let s := { s with ingressBuckets := s.ingressBuckets.insert ingress ⟨tokens - 1,now⟩ }
          (.forward,s.store reclaimed key now)

def decisionForOriginAt (ingress origin target : NodeAddr) (now : Nat) :
    DiscoveryForwardDecision × DiscoveryForwardRateLimiter :=
  (s.maybeCleanup now).decideKey ingress (key ingress origin target) now

/-- When a request that came too early may be sent; `latest` is the last instant there is. -/
def deferredDeadline (ingress origin target : NodeAddr) (now latest : Nat) :
    Option Nat × DiscoveryForwardRateLimiter :=
  let last := match s.lastForwarded.get? (key ingress origin target) with
    | some last => some last
    | none =>
      if s.lastForwarded.size ≥ s.maxTargets then s.forwardedByTime.entries.head?.map fun e => (ofLex e.1).1
      else none
  match last with
  | none => (none,s)
  | some last =>
    let due := last + s.minInterval
    if latest < due ∨ now ≥ due then (none,s)
    else match s.ingressBucket ingress now with
      | none => (none,s)
      | some (bucket,s) =>
        let available := min (bucket.tokens + asSecs (now - bucket.updated) * s.ingressRate) s.ingressBurst
        (if available ≥ 1 then some due else none,s)

def Indexed : Prop := s.forwardedByTime.Indexes s.lastForwarded

end Limiter

variable {s s' : DiscoveryForwardRateLimiter} {k : ForwardKey} {minInterval start now : Nat} {p : NodeAddr}
  {reclaimed : Option (Nat ×ₗ ForwardKey)} {bucket : DiscoveryForwardBucket}
  {buckets : OrderedMap NodeAddr DiscoveryForwardBucket}

theorem Indexed.cleanup (h : s.Indexed) (now : Nat) : (s.cleanup now).Indexed := by
  have filtered := OrderedMap.Indexes.filterValues h fun last => decide (now - last < s.maxAge)
  simp only [decide_eq_true_eq] at filtered
  exact filtered

theorem get?_maybeCleanup (s : DiscoveryForwardRateLimiter) (now : Nat) (k : ForwardKey) :
    (s.maybeCleanup now).lastForwarded.get? k = s.lastForwarded.get? k ∨
      (s.maybeCleanup now).lastForwarded.get? k = none ∧
        ∃ last, s.lastForwarded.get? k = some last ∧ s.maxAge ≤ now - last := by
  unfold DiscoveryForwardRateLimiter.maybeCleanup
  split
  · exact .inl rfl
  · have get : (s.cleanup now).lastForwarded.get? k =
        (s.lastForwarded.get? k).filter fun last => now - last < s.maxAge := get?_filterValues _ _ _
    rw [get]
    cases s.lastForwarded.get? k with
    | none => exact .inl rfl
    | some last =>
      by_cases young : now - last < s.maxAge
      · exact .inl (filter_some_pos (decide_eq_true young))
      · exact .inr ⟨filter_some_neg (by simpa using young),last,rfl,not_lt.1 young⟩

section Store

variable {key : ForwardKey}

/-- The slot a triple takes over is the oldest entry, cooled down. -/
theorem reclaim_eq_some (h : s.reclaim key now = some reclaimed) :
    (reclaimed = none ∧ (s.lastForwarded.contains key = true ∨ s.lastForwarded.size < s.maxTargets)) ∨
      ∃ last oldest, reclaimed = some (toLex (last,oldest)) ∧
        s.forwardedByTime.get? (toLex (last,oldest)) = some () ∧
        s.lastForwarded.get? key = none ∧ s.minInterval ≤ now - last := by
  unfold reclaim at h
  by_cases full : ¬ s.lastForwarded.contains key = true ∧ s.lastForwarded.size ≥ s.maxTargets
  · rw [if_pos full] at h
    cases first : s.forwardedByTime.entries.head? with
    | none => simp [first] at h
    | some e =>
      obtain ⟨oldest,_⟩ := e
      simp only [first] at h
      by_cases hot : now - (ofLex oldest).1 < s.minInterval
      · simp [hot] at h
      · rw [if_neg hot] at h
        cases h
        refine .inr ⟨(ofLex oldest).1,(ofLex oldest).2,rfl,?_,?_,not_lt.1 hot⟩
        · exact mem_entries.1 (mem_of_mem_head? first)
        · simpa using full.1
  · rw [if_neg full] at h
    cases h
    refine .inl ⟨rfl,?_⟩
    by_contra both
    rw [not_or,not_lt] at both
    exact full both

structure Reclaims (s : DiscoveryForwardRateLimiter) (key : ForwardKey) (now : Nat)
    (reclaimed : Option (Nat ×ₗ ForwardKey)) : Prop where
  stored : ∀ last k, reclaimed = some (toLex (last,k)) → s.lastForwarded.get? k = some last ∧
    s.minInterval ≤ now - last
  fresh : reclaimed.isSome → s.lastForwarded.get? key = none
  room : reclaimed = none → s.lastForwarded.get? key = none → s.lastForwarded.size < s.maxTargets

theorem Indexed.reclaims (h : s.Indexed) (eq : s.reclaim key now = some reclaimed) :
    s.Reclaims key now reclaimed := by
  rcases reclaim_eq_some eq with ⟨rfl,room⟩ | ⟨last,oldest,rfl,found,fresh,cold⟩
  · refine ⟨by simp,by simp,fun _ absent => ?_⟩
    rcases room with present | room
    · simp [absent] at present
    · exact room
  · refine ⟨?_,fun _ => fresh,by simp⟩
    intro last' k' eq'
    obtain ⟨rfl,rfl⟩ : last = last' ∧ oldest = k' := Prod.ext_iff.1 (toLex.injective (some.inj eq'))
    exact ⟨(h _ _).1 found,cold⟩

theorem get?_store (k : ForwardKey) : (s.store reclaimed key now).lastForwarded.get? k =
    if k = key then some now else if reclaimed.map (fun e => (ofLex e).2) = some k then none
    else s.lastForwarded.get? k := by
  unfold store
  simp only [get?_insert]
  by_cases same : k = key
  · rw [if_pos same,if_pos same]
  · cases reclaimed with
    | none => simp
    | some oldest => simp only [get?_erase,map_some,some.injEq,eq_comm]

theorem Reclaims.indexed (r : s.Reclaims key now reclaimed) (h : s.Indexed) :
    (s.store reclaimed key now).Indexed := by
  unfold store
  cases reclaimed with
  | none =>
    cases found : s.lastForwarded.get? key with
    | none =>
      simp only [found]
      exact OrderedMap.Indexes.insert h found
    | some last =>
      simp only [found]
      exact OrderedMap.Indexes.replace h found
  | some oldest =>
    obtain ⟨stored,-⟩ := r.stored (ofLex oldest).1 (ofLex oldest).2 rfl
    have fresh : (s.lastForwarded.erase (ofLex oldest).2).get? key = none := by
      rw [get?_erase,r.fresh rfl,ite_self]
    simp only [fresh]
    exact (OrderedMap.Indexes.erase h stored).insert fresh

theorem Reclaims.size_store (r : s.Reclaims key now reclaimed) (h : s.lastForwarded.size ≤ s.maxTargets) :
    (s.store reclaimed key now).lastForwarded.size ≤ s.maxTargets := by
  unfold store
  cases reclaimed with
  | none =>
    cases found : s.lastForwarded.get? key with
    | none =>
      rw [size_insert now found]
      exact r.room rfl found
    | some last =>
      rw [size_insert_of_some now found]
      exact h
  | some oldest =>
    obtain ⟨stored,-⟩ := r.stored (ofLex oldest).1 (ofLex oldest).2 rfl
    have fresh : (s.lastForwarded.erase (ofLex oldest).2).get? key = none := by
      rw [get?_erase,r.fresh rfl,ite_self]
    have smaller := size_erase stored
    rw [size_insert now fresh]
    omega

end Store

def bucketOf (s : DiscoveryForwardRateLimiter) (p : NodeAddr) (now : Nat) : DiscoveryForwardBucket :=
  (s.ingressBuckets.get? p).getD ⟨s.ingressBurst,now⟩

def refilled (s : DiscoveryForwardRateLimiter) (p : NodeAddr) (now : Nat) : ℚ :=
  min ((s.bucketOf p now).tokens + asSecs (now - (s.bucketOf p now).updated) * s.ingressRate) s.ingressBurst

structure OneBucket (s : DiscoveryForwardRateLimiter) (p : NodeAddr) (bucket : DiscoveryForwardBucket)
    (buckets : OrderedMap NodeAddr DiscoveryForwardBucket) : Prop where
  get : ∀ q, buckets.get? q = if q = p then some bucket else s.ingressBuckets.get? q
  size : s.ingressBuckets.size ≤ s.maxIngressPeers → buckets.size ≤ s.maxIngressPeers

theorem ingressBucket_eq_some (h : s.ingressBucket p now = some (bucket,s')) :
    bucket = s.bucketOf p now ∧ ∃ buckets, s' = { s with ingressBuckets := buckets } ∧
      s.OneBucket p bucket buckets := by
  unfold ingressBucket at h
  unfold bucketOf
  cases found : s.ingressBuckets.get? p with
  | some b =>
    rw [found] at h
    cases h
    refine ⟨rfl,s.ingressBuckets,rfl,?_,id⟩
    intro q
    by_cases same : q = p
    · rw [if_pos same,same,found]
    · rw [if_neg same]
  | none =>
    rw [found] at h
    by_cases full : s.ingressBuckets.size ≥ s.maxIngressPeers
    · simp [full] at h
    · simp only [full] at h
      cases h
      refine ⟨rfl,_,rfl,fun q => get?_insert _ _ _ _,fun _ => ?_⟩
      rw [size_insert _ found]
      exact not_le.1 full

theorem OneBucket.insert (h : s.OneBucket p bucket buckets) (bucket' : DiscoveryForwardBucket) :
    s.OneBucket p bucket' (buckets.insert p bucket') := by
  constructor
  · intro q
    rw [get?_insert,h.get]
    by_cases same : q = p
    · rw [if_pos same,if_pos same]
    · rw [if_neg same,if_neg same,if_neg same]
  · intro small
    have present := h.get p
    rw [if_pos rfl] at present
    rw [size_insert_of_some bucket' present]
    exact h.size small

structure Forwards (s : DiscoveryForwardRateLimiter) (k : ForwardKey) (now : Nat)
    (reclaimed : Option (Nat ×ₗ ForwardKey)) : Prop where
  interval : ∀ last, s.lastForwarded.get? k = some last → s.minInterval ≤ now - last
  reclaims : s.reclaim k now = some reclaimed

/-- A decision leaves all as it was, or takes the refilled bucket into account, and the table changes only
with a forward. -/
theorem decideKey_cases (s : DiscoveryForwardRateLimiter) (ingress : NodeAddr) (k : ForwardKey) (now : Nat) :
    ((s.decideKey ingress k now).1 ≠ .forward ∧ (s.decideKey ingress k now).1 ≠ .ingressBudget ∧
      (s.decideKey ingress k now).2 = s) ∨
    (∃ buckets, s.refilled ingress now < 1 ∧ s.OneBucket ingress ⟨s.refilled ingress now,now⟩ buckets ∧
      s.decideKey ingress k now = (.ingressBudget,{ s with ingressBuckets := buckets })) ∨
    ∃ buckets reclaimed, ¬ s.refilled ingress now < 1 ∧
      s.OneBucket ingress ⟨s.refilled ingress now - 1,now⟩ buckets ∧ s.Forwards k now reclaimed ∧
      s.decideKey ingress k now = (.forward,{ s with ingressBuckets := buckets }.store reclaimed k now) := by
  unfold decideKey
  by_cases early : (s.lastForwarded.get? k).any fun last => now - last < s.minInterval
  · left
    rw [if_pos early]
    exact ⟨nofun,nofun,rfl⟩
  · rw [if_neg early]
    have interval : ∀ last, s.lastForwarded.get? k = some last → s.minInterval ≤ now - last := by
      intro last found
      rw [found] at early
      simpa using early
    cases reclaims : s.reclaim k now with
    | none => exact .inl ⟨nofun,nofun,rfl⟩
    | some reclaimed =>
      cases charged : s.ingressBucket ingress now with
      | none => exact .inl ⟨nofun,nofun,rfl⟩
      | some answer =>
        obtain ⟨bucket,s'⟩ := answer
        obtain ⟨rfl,buckets,rfl,one⟩ := ingressBucket_eq_some charged
        right
        by_cases poor : s.refilled ingress now < 1
        · exact .inl ⟨_,poor,one.insert _,if_pos poor⟩
        · exact .inr ⟨_,reclaimed,poor,one.insert _,⟨interval,reclaims⟩,if_neg poor⟩

theorem deferredDeadline_cases (s : DiscoveryForwardRateLimiter) (ingress origin target : NodeAddr)
    (now latest : Nat) :
    (s.deferredDeadline ingress origin target now latest).2 = s ∨
      ∃ buckets, s.OneBucket ingress (s.bucketOf ingress now) buckets ∧
        (s.deferredDeadline ingress origin target now latest).2 = { s with ingressBuckets := buckets } := by
  unfold deferredDeadline
  simp only
  split
  · exact .inl rfl
  · split
    · exact .inl rfl
    · cases made : s.ingressBucket ingress now with
      | none => exact .inl rfl
      | some answer =>
        obtain ⟨bucket,s'⟩ := answer
        obtain ⟨rfl,buckets,rfl,one⟩ := ingressBucket_eq_some made
        exact .inr ⟨buckets,one,rfl⟩

structure Request where
  ingress : NodeAddr
  origin : NodeAddr
  target : NodeAddr
  now : Nat

variable {r : Request} {d : Request × DiscoveryForwardDecision}
  {log : List (Request × DiscoveryForwardDecision)}

def Request.key (r : Request) : ForwardKey := DiscoveryForwardRateLimiter.key r.ingress r.origin r.target

def decision (s : DiscoveryForwardRateLimiter) (r : Request) :
    DiscoveryForwardDecision × DiscoveryForwardRateLimiter :=
  s.decisionForOriginAt r.ingress r.origin r.target r.now

theorem decision_eq (s : DiscoveryForwardRateLimiter) (r : Request) :
    s.decision r = (s.maybeCleanup r.now).decideKey r.ingress r.key r.now := rfl

/-- The limiter after any requests at times that do not decrease, with the decisions about them and the time
of the last call. -/
inductive Reached (minInterval start : Nat) :
    List (Request × DiscoveryForwardDecision) → Nat → DiscoveryForwardRateLimiter → Prop where
  | start : Reached minInterval start [] start (withInterval minInterval start)
  | decision {log : List (Request × DiscoveryForwardDecision)} {now : Nat}
    {s : DiscoveryForwardRateLimiter} (r : Request) :
      Reached minInterval start log now s → now ≤ r.now →
      Reached minInterval start (log ++ [(r,(s.decision r).1)]) r.now (s.decision r).2
  | deferred {log : List (Request × DiscoveryForwardDecision)} {now : Nat}
    {s : DiscoveryForwardRateLimiter} (r : Request)
      (latest : Nat) : Reached minInterval start log now s → now ≤ r.now →
      Reached minInterval start log r.now (s.deferredDeadline r.ingress r.origin r.target r.now latest).2

structure Configured (minInterval : Nat) (s : DiscoveryForwardRateLimiter) : Prop where
  minInterval : s.minInterval = minInterval
  maxAge : s.maxAge = forwardMaxAge
  maxTargets : s.maxTargets = forwardMaxTargets
  maxIngressPeers : s.maxIngressPeers = forwardMaxIngressPeers
  ingressBurst : s.ingressBurst = defaultForwardBurst
  ingressRate : s.ingressRate = defaultForwardRate
  ingressMaxAge : s.ingressMaxAge = forwardIngressMaxAge

structure Sound (minInterval now : Nat) (s : DiscoveryForwardRateLimiter) : Prop where
  config : s.Configured minInterval
  indexed : s.Indexed
  past : ∀ k last, s.lastForwarded.get? k = some last → last ≤ now
  targets : s.lastForwarded.size ≤ s.maxTargets
  ingress : s.ingressBuckets.size ≤ s.maxIngressPeers

theorem Configured.store (h : s.Configured minInterval)
    (reclaimed : Option (Nat ×ₗ ForwardKey)) (k : ForwardKey) (now : Nat) :
    (s.store reclaimed k now).Configured minInterval := by
  cases reclaimed with
  | none => exact { h with }
  | some oldest => exact { h with }

theorem Sound.later {now' : Nat} (h : s.Sound minInterval now) (later : now ≤ now') :
    s.Sound minInterval now' :=
  { h with past := fun k last found => (h.past k last found).trans later }

theorem Sound.maybeCleanup (h : s.Sound minInterval now) : (s.maybeCleanup now).Sound minInterval now := by
  unfold DiscoveryForwardRateLimiter.maybeCleanup
  split
  · exact h
  · refine ⟨{ h.config with },h.indexed.cleanup now,?_,(size_filterValues_le _ _).trans h.targets,
      (size_filterValues_le _ _).trans h.ingress⟩
    intro k last found
    have kept := (get?_filterValues _ _ _).symm.trans found
    exact h.past k last (filter_eq_some_iff.1 kept).1

theorem Sound.withBuckets (h : s.Sound minInterval now) (one : s.OneBucket p bucket buckets) :
    { s with ingressBuckets := buckets }.Sound minInterval now :=
  ⟨{ h.config with },h.indexed,h.past,h.targets,
    one.size h.ingress⟩

theorem Sound.store (h : s.Sound minInterval now) (r : s.Reclaims k now reclaimed) :
    (s.store reclaimed k now).Sound minInterval now := by
  refine ⟨h.config.store reclaimed k now,r.indexed h.indexed,?_,?_,?_⟩
  · intro k' last found
    rw [get?_store] at found
    by_cases same : k' = k
    · rw [if_pos same] at found
      exact (some.inj found).ge
    · rw [if_neg same] at found
      split at found
      · cases found
      · exact h.past k' last found
  · rw [(h.config.store reclaimed k now).maxTargets,← h.config.maxTargets]
    exact r.size_store h.targets
  · cases reclaimed with
    | none => exact h.ingress
    | some oldest => exact h.ingress

theorem Sound.decision (h : s.Sound minInterval now) (later : now ≤ r.now) :
    (s.decision r).2.Sound minInterval r.now := by
  have clean := (h.later later).maybeCleanup
  rcases decideKey_cases (s.maybeCleanup r.now) r.ingress r.key r.now with
    ⟨-,-,eq⟩ | ⟨buckets,-,one,eq⟩ | ⟨buckets,reclaimed,-,one,forwards,eq⟩
  · rw [decision_eq,eq]
    exact clean
  · rw [decision_eq,eq]
    exact clean.withBuckets one
  · rw [decision_eq,eq]
    refine (clean.withBuckets one).store ?_
    have reclaims := clean.indexed.reclaims forwards.reclaims
    exact { reclaims with }

theorem Sound.deferred (h : s.Sound minInterval now) (later : now ≤ r.now) (latest : Nat) :
    (s.deferredDeadline r.ingress r.origin r.target r.now latest).2.Sound minInterval r.now := by
  have here := h.later later
  rcases deferredDeadline_cases s r.ingress r.origin r.target r.now latest with eq | ⟨buckets,one,eq⟩
  · rw [eq]
    exact here
  · rw [eq]
    exact here.withBuckets one

theorem Reached.sound (run : Reached minInterval start log now s) : s.Sound minInterval now := by
  induction run with
  | start =>
    exact ⟨⟨rfl,rfl,rfl,rfl,rfl,rfl,rfl⟩,indexes_empty,by simp [withInterval],Nat.zero_le _,Nat.zero_le _⟩
  | decision r _ later ih => exact ih.decision later
  | deferred r latest _ later ih => exact ih.deferred later latest

def Spaced (minInterval : Nat) (log : List (Request × DiscoveryForwardDecision)) : Prop :=
  log.Pairwise fun d e => d.2 = .forward → e.2 = .forward → d.1.key = e.1.key →
    d.1.now + minInterval ≤ e.1.now

def Remembers (minInterval now : Nat) (log : List (Request × DiscoveryForwardDecision))
    (s : DiscoveryForwardRateLimiter) : Prop :=
  ∀ d ∈ log, d.2 = .forward → (∃ last, s.lastForwarded.get? d.1.key = some last ∧ d.1.now ≤ last) ∨
    d.1.now + minInterval ≤ now

theorem Remembers.maybeCleanup {now' : Nat} (h : Remembers minInterval now log s) (later : now ≤ now')
    (short : minInterval ≤ s.maxAge) (past : ∀ k last, s.lastForwarded.get? k = some last → last ≤ now') :
    Remembers minInterval now' log (s.maybeCleanup now') := by
  intro d member forward
  rcases h d member forward with ⟨last,found,le⟩ | cold
  · rcases get?_maybeCleanup s now' d.1.key with same | ⟨-,last',found',old⟩
    · exact .inl ⟨last,same.trans found,le⟩
    · obtain rfl : last = last' := some.inj (found.symm.trans found')
      have before := past _ _ found
      exact .inr (by omega)
  · exact .inr (cold.trans later)

theorem Remembers.congr (h : Remembers minInterval now log s) (s' : DiscoveryForwardRateLimiter)
    (same : s'.lastForwarded = s.lastForwarded) : Remembers minInterval now log s' := by
  intro d member forward
  rw [same]
  exact h d member forward

theorem Remembers.concat (h : Remembers minInterval now log s) (new : d.2 = .forward →
    (∃ last, s.lastForwarded.get? d.1.key = some last ∧ d.1.now ≤ last) ∨ d.1.now + minInterval ≤ now) :
    Remembers minInterval now (log ++ [d]) s :=
  forall_mem_append.2 ⟨h,forall_mem_singleton.2 new⟩

theorem Spaced.concat (h : Spaced minInterval log)
    (last : ∀ e ∈ log, e.2 = .forward → d.2 = .forward → e.1.key = d.1.key →
      e.1.now + minInterval ≤ d.1.now) : Spaced minInterval (log ++ [d]) :=
  pairwise_append.2 ⟨h,pairwise_singleton _ _,fun e member => forall_mem_singleton.2 (last e member)⟩

theorem Remembers.store (h : Remembers minInterval now log s) (sound : s.Sound minInterval now)
    (r : s.Reclaims k now reclaimed) : Remembers minInterval now log (s.store reclaimed k now) := by
  intro d member forward
  rcases h d member forward with ⟨last,found,le⟩ | cold
  · have before := sound.past _ _ found
    rw [get?_store]
    by_cases same : d.1.key = k
    · exact .inl ⟨now,if_pos same,le.trans before⟩
    · rw [if_neg same]
      by_cases taken : reclaimed.map (fun e => (ofLex e).2) = some d.1.key
      · obtain ⟨e,eq,key⟩ := map_eq_some_iff.1 taken
        obtain ⟨stored,cold⟩ := r.stored (ofLex e).1 (ofLex e).2 eq
        rw [key,found,some.injEq] at stored
        rw [sound.config.minInterval] at cold
        exact .inr (by omega)
      · rw [if_neg taken]
        exact .inl ⟨last,found,le⟩
  · exact .inr cold

theorem Reached.remembers (run : Reached minInterval start log now s) (short : minInterval ≤ forwardMaxAge) :
    Remembers minInterval now log s ∧ Spaced minInterval log := by
  induction run with
  | start => exact ⟨by simp [Remembers],.nil⟩
  | @decision log now s r run later ih =>
    obtain ⟨remembers,spaced⟩ := ih
    have sound := run.sound.later later
    have clean := sound.maybeCleanup
    have cleaned := remembers.maybeCleanup later (by rw [sound.config.maxAge]; exact short) sound.past
    rw [decision_eq]
    rcases decideKey_cases (s.maybeCleanup r.now) r.ingress r.key r.now with
      ⟨refused,-,eq⟩ | ⟨buckets,-,one,eq⟩ | ⟨buckets,reclaimed,-,one,forwards,eq⟩
    · rw [eq]
      exact ⟨cleaned.concat (absurd · refused),spaced.concat fun _ _ _ forward => absurd forward refused⟩
    · rw [eq]
      exact ⟨(cleaned.congr _ rfl).concat nofun,spaced.concat fun _ _ _ forward => nomatch forward⟩
    · rw [eq]
      have reclaims := clean.indexed.reclaims forwards.reclaims
      have stored := (cleaned.congr { s.maybeCleanup r.now with ingressBuckets := buckets } rfl).store
        (clean.withBuckets one) { reclaims with }
      refine ⟨stored.concat fun _ => .inl ⟨r.now,by rw [get?_store,if_pos rfl],le_rfl⟩,
        spaced.concat fun d member forward _ same => ?_⟩
      rcases cleaned d member forward with ⟨last,found,le⟩ | cold
      · have passed := forwards.interval last (same ▸ found)
        have before := clean.past _ _ found
        rw [clean.config.minInterval] at passed
        show d.1.now + minInterval ≤ r.now
        omega
      · exact cold
  | @deferred log now s r latest run later ih =>
    have here : Remembers minInterval r.now log s := fun d member forward =>
      (ih.1 d member forward).imp_right fun cold => cold.trans later
    refine ⟨?_,ih.2⟩
    rcases deferredDeadline_cases s r.ingress r.origin r.target r.now latest with eq | ⟨buckets,-,eq⟩
    · rw [eq]
      exact here
    · rw [eq]
      exact here.congr _ rfl

open RefillBucket

def forwarded (p : NodeAddr) (start stop : ℚ) (log : List (Request × DiscoveryForwardDecision)) : Nat :=
  log.countP fun d => d.2 = .forward ∧ d.1.ingress = p ∧ start ≤ asSecs d.1.now ∧ asSecs d.1.now ≤ stop

def charge (p : NodeAddr) (d : Request × DiscoveryForwardDecision) : ℚ :=
  if d.2 = .forward ∧ d.1.ingress = p then 1 else 0

theorem forwarded_concat (start stop : ℚ) :
    (forwarded p start stop (log ++ [d]) : ℚ) = forwarded p start stop log +
    if start ≤ asSecs d.1.now ∧ asSecs d.1.now ≤ stop then charge p d else 0 := by
  rw [forwarded,countP_append,Nat.cast_add,charge]
  congr 1
  by_cases inside : start ≤ asSecs d.1.now ∧ asSecs d.1.now ≤ stop <;> simp [inside]

def forwardMeter : Meter ℚ := ⟨defaultForwardBurst,defaultForwardRate⟩

theorem forwardMeter_capacity : 0 ≤ forwardMeter.capacity := by norm_num [forwardMeter,defaultForwardBurst]

theorem forwardMeter_rate : 0 ≤ forwardMeter.rate := by norm_num [forwardMeter,defaultForwardRate]

/-- What an ingress peer has left; one without a bucket gets a full one. -/
def left (s : DiscoveryForwardRateLimiter) (p : NodeAddr) (now : Nat) : ℚ :=
  (s.ingressBuckets.get? p).elim forwardMeter.capacity fun b => forwardMeter.level
    ⟨b.tokens,asSecs b.updated⟩ (asSecs now)

structure Stocked (s : DiscoveryForwardRateLimiter) (p : NodeAddr) (now : Nat) : Prop where
  tokens : ∀ b, s.ingressBuckets.get? p = some b → 0 ≤ b.tokens
  updated : ∀ b, s.ingressBuckets.get? p = some b → b.updated ≤ now

theorem Stocked.later (h : s.Stocked p now) {now' : Nat} (le : now ≤ now') : s.Stocked p now' :=
  ⟨h.tokens,fun b found => (h.updated b found).trans le⟩

theorem left_le_capacity (s : DiscoveryForwardRateLimiter) (p : NodeAddr) (now : Nat) :
    s.left p now ≤ forwardMeter.capacity := by
  unfold left
  cases s.ingressBuckets.get? p with
  | none => exact le_rfl
  | some b => exact Meter.level_le_capacity _ _ _

theorem Stocked.left_nonneg (h : s.Stocked p now) : 0 ≤ s.left p now := by
  unfold left
  cases found : s.ingressBuckets.get? p with
  | none => exact forwardMeter_capacity
  | some b =>
    exact Meter.level_nonneg forwardMeter_capacity forwardMeter_rate (h.tokens b found)
      (asSecs_le.2 (h.updated b found))

theorem left_later {now' : Nat} (le : now ≤ now') :
    s.left p now' ≤ s.left p now + forwardMeter.rate * (asSecs now' - asSecs now) := by
  have passed := sub_nonneg.2 (asSecs_le.2 le)
  unfold left
  cases s.ingressBuckets.get? p with
  | none => exact le_add_of_nonneg_right (mul_nonneg forwardMeter_rate passed)
  | some b =>
    rw [mul_comm]
    exact Meter.level_advance_le forwardMeter_rate _ (asSecs_le.2 le)

theorem Stocked.refilled (h : s.Stocked p now) (config : s.Configured minInterval) :
    s.refilled p now = s.left p now := by
  unfold DiscoveryForwardRateLimiter.refilled bucketOf left
  cases found : s.ingressBuckets.get? p with
  | none => simp [config.ingressBurst,asSecs,forwardMeter]
  | some b =>
    simp [Meter.level,forwardMeter,config.ingressRate,config.ingressBurst,asSecs_sub (h.updated b found)]

theorem Stocked.congr (h : s.Stocked p now) (same : s'.ingressBuckets.get? p = s.ingressBuckets.get? p) :
    s'.Stocked p now ∧ s'.left p now = s.left p now :=
  ⟨⟨fun b found => h.tokens b (same ▸ found),fun b found => h.updated b (same ▸ found)⟩,
    by rw [left,left,same]⟩

/-- A bucket that cleanup drops is full. -/
theorem Stocked.maybeCleanup (h : s.Stocked p now) (config : s.Configured minInterval) :
    (s.maybeCleanup now).Stocked p now ∧ (s.maybeCleanup now).left p now = s.left p now := by
  unfold DiscoveryForwardRateLimiter.maybeCleanup
  split
  · exact ⟨h,rfl⟩
  · have get : (s.cleanup now).ingressBuckets.get? p =
        (s.ingressBuckets.get? p).filter fun bucket => now - bucket.updated < s.ingressMaxAge :=
          get?_filterValues _ _ _
    cases found : s.ingressBuckets.get? p with
    | none => exact h.congr (by rw [get,found,Option.filter_none])
    | some b =>
      by_cases recent : now - b.updated < s.ingressMaxAge
      · exact h.congr (by rw [get,found,Option.filter_some_pos (by simpa using recent)])
      · rw [found,Option.filter_some_neg (by simpa using recent)] at get
        refine ⟨⟨fun b held => ?_,fun b held => ?_⟩,?_⟩
        · cases get.symm.trans held
        · cases get.symm.trans held
        · rw [left,left,get,found]
          refine (Meter.level_of_idle forwardMeter_rate (h.tokens b found)
            (by norm_num [forwardMeter,defaultForwardBurst,defaultForwardRate] : _ ≤
              300 * forwardMeter.rate) ?_).symm
          rw [config.ingressMaxAge] at recent
          calc (300 : ℚ) = asSecs forwardIngressMaxAge := by norm_num [asSecs,forwardIngressMaxAge]
            _ ≤ asSecs (now - b.updated) := asSecs_le.2 (not_lt.1 recent)
            _ = _ := asSecs_sub (h.updated b found)

theorem OneBucket.other {q : NodeAddr} (one : s.OneBucket q bucket buckets) (differ : p ≠ q) :
    { s with ingressBuckets := buckets }.ingressBuckets.get? p = s.ingressBuckets.get? p :=
  (one.get p).trans (if_neg differ)

theorem Stocked.charged {x : ℚ} (one : s.OneBucket p ⟨x,now⟩ buckets) (nonneg : 0 ≤ x)
    (small : x ≤ forwardMeter.capacity) :
    { s with ingressBuckets := buckets }.Stocked p now ∧
      { s with ingressBuckets := buckets }.left p now = x := by
  have get : buckets.get? p = some ⟨x,now⟩ := (one.get p).trans (if_pos rfl)
  refine ⟨⟨?_,?_⟩,?_⟩
  · rintro b found
    cases get.symm.trans found
    exact nonneg
  · rintro b found
    cases get.symm.trans found
    exact le_rfl
  · simp only [left,get]
    exact Meter.level_self (b := ⟨x,asSecs now⟩) small

theorem Stocked.made (h : s.Stocked p now) (config : s.Configured minInterval)
    (one : s.OneBucket p (s.bucketOf p now) buckets) :
    { s with ingressBuckets := buckets }.Stocked p now ∧
      { s with ingressBuckets := buckets }.left p now = s.left p now := by
  unfold bucketOf at one
  cases found : s.ingressBuckets.get? p with
  | none =>
    rw [found,config.ingressBurst] at one
    have full : s.left p now = forwardMeter.capacity := by rw [left,found]; rfl
    rw [full]
    exact Stocked.charged one forwardMeter_capacity le_rfl
  | some b =>
    rw [found] at one
    exact h.congr (by rw [found]; exact (one.get p).trans (if_pos rfl))

structure Budgeted (p : NodeAddr) (log : List (Request × DiscoveryForwardDecision)) (now : Nat)
    (s : DiscoveryForwardRateLimiter) : Prop where
  stocked : s.Stocked p now
  metered : forwardMeter.Metered (fun start stop => (forwarded p start stop log : ℚ))
    (asSecs now) (s.left p now)

theorem Budgeted.concat (h : Budgeted p log now s) (later : now ≤ r.now) {decided : DiscoveryForwardDecision}
    (stocked : s'.Stocked p r.now) (paid : s'.left p r.now + charge p (r,decided) = s.left p r.now) :
    Budgeted p (log ++ [(r,decided)]) r.now s' :=
  ⟨stocked,h.metered.pay forwardMeter_rate _ (asSecs_le.2 later) (paid.trans_le (left_later later))
    (paid.trans_le (left_le_capacity _ _ _)) stocked.left_nonneg forwarded_concat⟩

theorem store_ingressBuckets (s : DiscoveryForwardRateLimiter) (reclaimed : Option (Nat ×ₗ ForwardKey))
    (k : ForwardKey) (now : Nat) :
    (s.store reclaimed k now).ingressBuckets = s.ingressBuckets := by
  cases reclaimed <;> rfl

theorem Reached.budgeted (run : Reached minInterval start log now s) (p : NodeAddr) :
    Budgeted p log now s := by
  induction run with
  | start =>
    have full := Meter.metered_zero forwardMeter_capacity forwardMeter_rate
    exact ⟨⟨nofun,nofun⟩,by simpa [forwarded,left,withInterval] using full _⟩
  | @decision log now s r run later ih =>
    have config := (run.sound.later later).maybeCleanup.config
    obtain ⟨clean,same⟩ := (ih.stocked.later later).maybeCleanup run.sound.config
    rw [decision_eq]
    rcases decideKey_cases (s.maybeCleanup r.now) r.ingress r.key r.now with
      ⟨refused,-,eq⟩ | ⟨buckets,poor,one,eq⟩ | ⟨buckets,reclaimed,rich,one,-,eq⟩
    · rw [eq]
      exact ih.concat later clean (by simp [charge,refused,same])
    · rw [eq]
      by_cases own : r.ingress = p
      · subst own
        rw [clean.refilled config] at one
        obtain ⟨stocked,rest⟩ := Stocked.charged one clean.left_nonneg (left_le_capacity _ _ _)
        exact ih.concat later stocked (by simp [charge,rest,same])
      · obtain ⟨stocked,rest⟩ := clean.congr (one.other (Ne.symm own))
        exact ih.concat later stocked (by simp [charge,rest,same])
    · rw [eq]
      have kept := { s.maybeCleanup r.now with ingressBuckets := buckets }.store_ingressBuckets
        reclaimed r.key r.now
      by_cases own : r.ingress = p
      · subst own
        rw [clean.refilled config] at one rich
        obtain ⟨stocked,rest⟩ := Stocked.charged one (by linarith)
          (by linarith [(s.maybeCleanup r.now).left_le_capacity r.ingress r.now])
        obtain ⟨stocked,rest'⟩ := stocked.congr (congrArg (get? · r.ingress) kept)
        exact ih.concat later stocked (by simp [charge,rest',rest,same])
      · obtain ⟨stocked,rest⟩ := clean.congr ((congrArg (get? · p) kept).trans (one.other (Ne.symm own)))
        exact ih.concat later stocked (by simp [charge,rest,same,own])
  | @deferred log now s r latest run later ih =>
    have here := ih.stocked.later later
    have kept : (s.deferredDeadline r.ingress r.origin r.target r.now latest).2.Stocked p r.now ∧
        (s.deferredDeadline r.ingress r.origin r.target r.now latest).2.left p r.now = s.left p r.now := by
      rcases deferredDeadline_cases s r.ingress r.origin r.target r.now latest with eq | ⟨buckets,one,eq⟩
      · rw [eq]
        exact ⟨here,rfl⟩
      · rw [eq]
        by_cases own : r.ingress = p
        · subst own
          exact here.made run.sound.config one
        · exact here.congr (one.other (Ne.symm own))
    refine ⟨kept.1,ih.metered.pay forwardMeter_rate 0 (asSecs_le.2 later) ?_ ?_ kept.1.left_nonneg (by simp)⟩
    · rw [add_zero,kept.2]
      exact left_later later
    · rw [add_zero]
      exact left_le_capacity _ _ _

theorem Reached.forwarded_le (run : Reached minInterval start log now s) (p : NodeAddr) (first length : ℚ)
    (nonneg : 0 ≤ length) :
    (forwarded p first (first + length) log : ℚ) ≤ defaultForwardBurst + defaultForwardRate * length :=
  (run.budgeted p).metered.window first length nonneg

/-- The interval has no part in the decision about a triple that is not in the table, while there is room. -/
theorem decideKey_interval (minInterval : Nat) (absent : s.lastForwarded.get? k = none)
    (room : s.lastForwarded.size < s.maxTargets) :
    { s with minInterval }.decideKey p k now =
      ((s.decideKey p k now).1,{ (s.decideKey p k now).2 with minInterval }) := by
  have free : ¬ (¬ s.lastForwarded.contains k = true ∧ s.lastForwarded.size ≥ s.maxTargets) :=
    fun full => absurd full.2 (not_le.2 room)
  unfold decideKey reclaim ingressBucket
  simp only [absent,any_none,Bool.false_eq_true,if_false,if_neg free]
  cases s.ingressBuckets.get? p with
  | none =>
    by_cases full : s.ingressBuckets.size ≥ s.maxIngressPeers
    · simp only [full,if_true]
    · simp only [full,if_false]
      split_ifs <;> rfl
  | some b =>
    simp only
    split_ifs <;> rfl

theorem Reached.forwards (s : DiscoveryForwardRateLimiter) (r : Request)
    (run : Reached minInterval start log now { s with minInterval }) (later : now ≤ r.now)
    (absent : (s.maybeCleanup r.now).lastForwarded.get? r.key = none)
    (room : (s.maybeCleanup r.now).lastForwarded.size < (s.maybeCleanup r.now).maxTargets)
    (forward : (s.decision r).1 = .forward) :
    Reached minInterval start (log ++ [(r,.forward)]) r.now { (s.decision r).2 with minInterval } := by
  have cleaned : { s with minInterval }.maybeCleanup r.now = { s.maybeCleanup r.now with minInterval } := by
    unfold maybeCleanup
    split <;> rfl
  have next := run.decision r later
  rw [decision_eq,cleaned,decideKey_interval minInterval absent room,← decision_eq,forward] at next
  exact next

/-- The same triple is forwarded again as soon as its entry has the age of the cleanup. -/
theorem reached_again (minInterval : Nat) : ∃ s, Reached minInterval 0
    [(⟨0,0,0,0⟩,.forward),(⟨0,0,0,forwardMaxAge⟩,.forward)] forwardMaxAge s := by
  have first := Reached.forwards (withInterval 0 0) ⟨0,0,0,0⟩ (.start : Reached minInterval 0 [] 0 _)
    le_rfl (by decide +kernel)
    (by decide +kernel) (by decide +kernel)
  exact ⟨_,first.forwards _ ⟨0,0,0,forwardMaxAge⟩ (Nat.zero_le _) (by decide +kernel)
    (by decide +kernel) (by decide +kernel)⟩

/-- Forwards of one triple keep the interval exactly when it is at most the age at which cleanup forgets
them. The rest holds for every interval: the index is exact, table and buckets are bounded, a decision
that is no forward loses triples by age only, and no ingress peer exceeds its budget in any window. -/
theorem forward_limiter_iff (minInterval : Nat) :
    ((∀ start log now s, Reached minInterval start log now s → Spaced minInterval log) ↔
      minInterval ≤ forwardMaxAge) ∧
    ∀ start log now s, Reached minInterval start log now s →
      (∀ t k, s.forwardedByTime.get? (toLex (t,k)) = some () ↔ s.lastForwarded.get? k = some t) ∧
      s.lastForwarded.size ≤ 4096 ∧ s.ingressBuckets.size ≤ 4096 ∧
      (∀ r : Request, now ≤ r.now → (s.decision r).1 ≠ .forward → ∀ k,
        (s.decision r).2.lastForwarded.get? k = s.lastForwarded.get? k ∨
          (s.decision r).2.lastForwarded.get? k = none ∧
            ∃ last, s.lastForwarded.get? k = some last ∧ forwardMaxAge ≤ r.now - last) ∧
      ∀ (p : NodeAddr) (first length : ℚ), 0 ≤ length →
        (forwarded p first (first + length) log : ℚ) ≤ 256 + 32 * length := by
  refine ⟨⟨?_,?_⟩,?_⟩
  · intro spaced
    obtain ⟨s,run⟩ := reached_again minInterval
    have both := pairwise_cons.1 (spaced _ _ _ _ run)
    simpa using both.1 _ (mem_singleton_self _) rfl rfl rfl
  · intro short start log now s run
    exact (run.remembers short).2
  · intro start log now s run
    have sound := run.sound
    refine ⟨sound.indexed,?_,?_,?_,run.forwarded_le⟩
    · exact sound.targets.trans_eq sound.config.maxTargets
    · exact sound.ingress.trans_eq sound.config.maxIngressPeers
    · intro r later refused k
      have aged := get?_maybeCleanup s r.now k
      rw [sound.config.maxAge] at aged
      rw [decision_eq] at refused ⊢
      rcases decideKey_cases (s.maybeCleanup r.now) r.ingress r.key r.now with
        ⟨-,-,eq⟩ | ⟨buckets,-,-,eq⟩ | ⟨buckets,reclaimed,-,-,-,eq⟩
      · rw [eq]
        exact aged
      · rw [eq]
        exact aged
      · rw [eq] at refused
        exact absurd rfl refused

/-- With an interval of two minutes the same triple is forwarded twice within one. -/
theorem interval_forgotten :
    let first := (withInterval (120 * 1000000000) 0).decision ⟨1,2,3,0⟩
    let second := first.2.decision ⟨1,2,3,60 * 1000000000⟩
    first.1 = .forward ∧ second.1 = .forward ∧ ¬ 0 + 120 * 1000000000 ≤ 60 * 1000000000 := by
  decide +kernel

end DiscoveryForwardRateLimiter

end Fips.Limits
