import Fips.Basic
import Fips.Lib.OrderedMap
import Fips.Lib.RefillBucket

set_option autoImplicit false

/-! The limiter of session setups, one pair of token buckets for each link peer. -/

namespace Fips.Limits

open List

/-- A span of the clock, which counts nanoseconds, in seconds. -/
def asSecs (nanos : Nat) : ℚ := nanos / 1000000000

/-- The tokens are exact where the source has a double. -/
structure TokenBucket where
  capacity : Nat
  tokens : ℚ
  refillRate : ℚ
  lastRefill : Nat

namespace TokenBucket

def withParams (capacity : Nat) (refillRate : ℚ) (now : Nat) : TokenBucket :=
  ⟨capacity,capacity,refillRate,now⟩

def refill (b : TokenBucket) (now : Nat) : TokenBucket :=
  let tokens := b.tokens + asSecs (now - b.lastRefill) * b.refillRate
  { b with
    tokens := if tokens > b.capacity then b.capacity else tokens
    lastRefill := now }

def tryAcquireN (b : TokenBucket) (n now : Nat) : Bool × TokenBucket :=
  let b := b.refill now
  if b.tokens ≥ n then (true,{ b with tokens := b.tokens - n }) else (false,b)

def tryAcquire (b : TokenBucket) (now : Nat) : Bool × TokenBucket := b.tryAcquireN 1 now

end TokenBucket

inductive Msg1Class where
  | stranger
  | establishedLink
  deriving DecidableEq, Repr

def setupBucketIdle : Nat := 300 * 1000000000

structure SessionSetupBuckets where
  stranger : TokenBucket
  established : TokenBucket
  seen : Nat

structure SessionSetupRateLimiter where
  buckets : OrderedMap NodeAddr SessionSetupBuckets
  stranger : Nat × ℚ
  established : Nat × ℚ

namespace SessionSetupRateLimiter

def withParams (stranger established : Nat × ℚ) : SessionSetupRateLimiter := ⟨∅,stranger,established⟩

/-- `try_admit`, with all its readings of the clock at one instant. -/
def tryAdmit (s : SessionSetupRateLimiter) (linkPeer : NodeAddr) (kind : Msg1Class) (now : Nat) :
    Bool × SessionSetupRateLimiter :=
  let found := match s.buckets.get? linkPeer with
    | some buckets => buckets
    | none =>
      { stranger := .withParams s.stranger.1 s.stranger.2 now
        established := .withParams s.established.1 s.established.2 now
        seen := now }
  let buckets := { found with seen := now }
  let (admitted,buckets) := match kind with
    | .stranger =>
      let (admitted,bucket) := buckets.stranger.tryAcquire now
      (admitted,{ buckets with stranger := bucket })
    | .establishedLink =>
      let (admitted,bucket) := buckets.established.tryAcquire now
      (admitted,{ buckets with established := bucket })
  let stored := s.buckets.insert linkPeer buckets
  (admitted,{ s with buckets :=
    if admitted then stored.filterValues fun candidate => now - candidate.seen < setupBucketIdle
    else stored })

end SessionSetupRateLimiter

open RefillBucket

theorem asSecs_sub {a b : Nat} (h : b ≤ a) : asSecs (a - b) = asSecs a - asSecs b := by
  rw [asSecs,asSecs,asSecs,Nat.cast_sub h,sub_div]

theorem asSecs_le {a b : Nat} : asSecs a ≤ asSecs b ↔ a ≤ b := by
  rw [asSecs,asSecs,div_le_div_iff_of_pos_right (by norm_num),Nat.cast_le]

def meter (params : Nat × ℚ) : Meter ℚ := ⟨params.1,params.2⟩

namespace TokenBucket

def bucket (b : TokenBucket) : Bucket ℚ := ⟨b.tokens,asSecs b.lastRefill⟩

theorem refill_eq {b : TokenBucket} {now : Nat} (later : b.lastRefill ≤ now) :
    b.refill now =
      { b with tokens := (meter (b.capacity,b.refillRate)).level b.bucket (asSecs now), lastRefill := now }
        := by
  simp only [refill,Meter.level,meter,bucket,asSecs_sub later]
  by_cases beyond : (b.capacity : ℚ) < b.tokens + (asSecs now - asSecs b.lastRefill) * b.refillRate
  · rw [if_pos beyond,min_eq_right beyond.le]
  · rw [if_neg beyond,min_eq_left (not_lt.1 beyond)]

theorem tryAcquire_eq {b : TokenBucket} {now : Nat} (later : b.lastRefill ≤ now) :
    b.tryAcquire now =
      let paid := (meter (b.capacity,b.refillRate)).acquire b.bucket (asSecs now)
      (paid.1,{ b with tokens := paid.2.tokens, lastRefill := now }) := by
  unfold tryAcquire tryAcquireN Meter.acquire
  rw [refill_eq later]
  simp only [Nat.cast_one]
  by_cases enough : 1 ≤ (meter (b.capacity,b.refillRate)).level b.bucket (asSecs now)
  · simp only [enough,if_true]
  · simp only [enough,if_false]

end TokenBucket

variable (r : SessionSetupBuckets)

def SessionSetupBuckets.bucket : Msg1Class → TokenBucket
  | .stranger => r.stranger
  | .establishedLink => r.established

def SessionSetupBuckets.served (k : Msg1Class) (now : Nat) : SessionSetupBuckets :=
  match k with
  | .stranger => { r with stranger := (r.stranger.tryAcquire now).2, seen := now }
  | .establishedLink => { r with established := (r.established.tryAcquire now).2, seen := now }

theorem SessionSetupBuckets.served_seen (k : Msg1Class) (now : Nat) :
    (r.served k now).seen = now := by
  cases k with
  | stranger => rfl
  | establishedLink => rfl

theorem SessionSetupBuckets.served_bucket (k k' : Msg1Class) (now : Nat) :
    (r.served k now).bucket k' = if k' = k then ((r.bucket k).tryAcquire now).2 else r.bucket k' := by
  cases k with
  | stranger =>
    cases k' with
    | stranger => rfl
    | establishedLink => rfl
  | establishedLink =>
    cases k' with
    | stranger => rfl
    | establishedLink => rfl

namespace SessionSetupRateLimiter

def params (s : SessionSetupRateLimiter) : Msg1Class → Nat × ℚ
  | .stranger => s.stranger
  | .establishedLink => s.established

def record (s : SessionSetupRateLimiter) (p : NodeAddr) (now : Nat) : SessionSetupBuckets :=
  match s.buckets.get? p with
  | some buckets => buckets
  | none =>
    { stranger := .withParams s.stranger.1 s.stranger.2 now
      established := .withParams s.established.1 s.established.2 now
      seen := now }

section Admission

variable (s : SessionSetupRateLimiter)
include s

theorem tryAdmit_eq (p : NodeAddr) (k : Msg1Class) (now : Nat) : s.tryAdmit p k now =
    let admitted := (((s.record p now).bucket k).tryAcquire now).1
    let stored := s.buckets.insert p ((s.record p now).served k now)
    (admitted,{ s with buckets :=
      if admitted then stored.filterValues fun candidate => now - candidate.seen < setupBucketIdle
      else stored }) := by
  cases k with
  | stranger => rfl
  | establishedLink => rfl

theorem params_tryAdmit (p : NodeAddr) (k : Msg1Class) (now : Nat) :
    (s.tryAdmit p k now).2.params = s.params := rfl

theorem get?_tryAdmit_self (p : NodeAddr) (k : Msg1Class) (now : Nat) :
    (s.tryAdmit p k now).2.buckets.get? p = some ((s.record p now).served k now) := by
  have fresh : now - ((s.record p now).served k now).seen < setupBucketIdle := by
    simp [SessionSetupBuckets.served_seen,setupBucketIdle]
  rw [tryAdmit_eq]
  simp only
  split
  · rw [OrderedMap.get?_filterValues,OrderedMap.get?_insert,if_pos rfl]
    exact Option.filter_some_pos (by simpa using fresh)
  · rw [OrderedMap.get?_insert,if_pos rfl]

theorem get?_tryAdmit_other {p q : NodeAddr} (differ : q ≠ p) (k : Msg1Class) (now : Nat) :
    (s.tryAdmit p k now).2.buckets.get? q =
      if (s.tryAdmit p k now).1 then (s.buckets.get? q).filter fun r => now - r.seen < setupBucketIdle
      else s.buckets.get? q := by
  rw [tryAdmit_eq]
  simp only
  split
  · rw [OrderedMap.get?_filterValues,OrderedMap.get?_insert,if_neg differ]
  · rw [OrderedMap.get?_insert,if_neg differ]

end Admission

def stored (s : SessionSetupRateLimiter) (p : NodeAddr) (k : Msg1Class) : Option (Bucket ℚ) :=
  (s.buckets.get? p).map fun r => (r.bucket k).bucket

/-- What a record keeps: it was seen after its buckets were last refilled, and they have the configured
size. -/
structure Kept (s : SessionSetupRateLimiter) (k : Msg1Class) (now : Nat) (r : SessionSetupBuckets) :
    Prop where
  seen : r.seen ≤ now
  refilled : (r.bucket k).lastRefill ≤ r.seen
  params : ((r.bucket k).capacity,(r.bucket k).refillRate) = s.params k

/-- The bucket of `p` for class `k` is as full as `b`, a bucket that serves only the calls of `p` in class
`k` and is never dropped. -/
structure Mirrors (s : SessionSetupRateLimiter) (p : NodeAddr) (k : Msg1Class) (b : Bucket ℚ) (now : Nat) :
    Prop where
  kept : ∀ r, s.buckets.get? p = some r → s.Kept k now r
  mirrors : (meter (s.params k)).Mirrors (s.stored p k) b (asSecs now)

variable {s : SessionSetupRateLimiter} {p : NodeAddr}

theorem record_of_some {r : SessionSetupBuckets}
    (h : s.buckets.get? p = some r) (now : Nat) : s.record p now = r := by
  simp only [record,h]

theorem bucket_record_of_none (h : s.buckets.get? p = none) (k : Msg1Class)
    (now : Nat) : (s.record p now).bucket k = .withParams (s.params k).1 (s.params k).2 now := by
  simp only [record,h]
  cases k with
  | stranger => rfl
  | establishedLink => rfl

variable {k : Msg1Class}

theorem mirrors_of_none {b : Bucket ℚ} {now : Nat}
    (h : s.buckets.get? p = none) (rate : 0 ≤ (s.params k).2) (since : b.since ≤ asSecs now)
    (full : (meter (s.params k)).level b (asSecs now) = (s.params k).1) : s.Mirrors p k b now := by
  refine ⟨by simp [h],?_⟩
  rw [stored,h]
  exact Meter.mirrors_none (m := meter (s.params k)) rate since full

theorem Mirrors.later {b : Bucket ℚ} {now now' : Nat}
    (m : s.Mirrors p k b now) (rate : 0 ≤ (s.params k).2) (h : now ≤ now') : s.Mirrors p k b now' where
  kept r found := { m.kept r found with seen := (m.kept r found).seen.trans h }
  mirrors := m.mirrors.later rate (asSecs_le.2 h)

section Step

variable {s : SessionSetupRateLimiter} {p : NodeAddr} {k : Msg1Class} {b : Bucket ℚ} {now : Nat}
variable (m : s.Mirrors p k b now)
include m

theorem Mirrors.record : s.Kept k now (s.record p now) ∧
    ((s.record p now).bucket k).bucket = (s.stored p k).getD ⟨(meter (s.params k)).capacity,asSecs now⟩ := by
  cases found : s.buckets.get? p with
  | none =>
    have bucket := bucket_record_of_none found k now
    have seen : (s.record p now).seen = now := by simp only [SessionSetupRateLimiter.record,found]
    refine ⟨⟨seen.le,?_,?_⟩,?_⟩
    · rw [bucket,seen]
      exact le_rfl
    · rw [bucket]
      rfl
    · rw [bucket,stored,found]
      rfl
  | some r =>
    rw [record_of_some found,stored,found]
    exact ⟨m.kept r found,rfl⟩

theorem Mirrors.tryAcquire : ((s.record p now).bucket k).tryAcquire now =
    let paid := (meter (s.params k)).acquire b (asSecs now)
    (paid.1,{ (s.record p now).bucket k with tokens := paid.2.tokens, lastRefill := now }) := by
  obtain ⟨kept,bucket⟩ := m.record
  rw [TokenBucket.tryAcquire_eq (kept.refilled.trans kept.seen),kept.params,bucket,m.mirrors.acquire_eq]

theorem Mirrors.own_fst : (s.tryAdmit p k now).1 = ((meter (s.params k)).acquire b (asSecs now)).1 := by
  rw [tryAdmit_eq,m.tryAcquire]

theorem Mirrors.own (rate : 0 ≤ (s.params k).2) :
    (s.tryAdmit p k now).2.Mirrors p k ((meter (s.params k)).acquire b (asSecs now)).2 now := by
  have found := get?_tryAdmit_self s p k now
  have seen := SessionSetupBuckets.served_seen (s.record p now) k now
  have bucket := SessionSetupBuckets.served_bucket (s.record p now) k k now
  rw [if_pos rfl,m.tryAcquire] at bucket
  constructor
  · intro r found'
    obtain rfl : _ = r := Option.some.inj (found.symm.trans found')
    refine ⟨seen.le,?_,?_⟩
    · rw [seen,bucket]
    · rw [bucket]
      exact m.record.1.params
  · have paid : (((s.record p now).served k now).bucket k).bucket =
        ((meter (s.params k)).acquire b (asSecs now)).2 := by
      rw [bucket]
      exact Bucket.ext rfl (Meter.acquire_since _ _ _).symm
    rw [stored,found,Option.map_some,paid]
    exact m.mirrors.acquired (Nat.cast_nonneg _) rate

theorem Mirrors.otherClass {k' : Msg1Class} (differ : k ≠ k') :
    (s.tryAdmit p k' now).2.Mirrors p k b now := by
  have found := get?_tryAdmit_self s p k' now
  have seen := SessionSetupBuckets.served_seen (s.record p now) k' now
  have bucket := SessionSetupBuckets.served_bucket (s.record p now) k' k now
  obtain ⟨kept,kind⟩ := m.record
  rw [if_neg differ] at bucket
  constructor
  · intro r found'
    obtain rfl : _ = r := Option.some.inj (found.symm.trans found')
    refine ⟨seen.le,?_,?_⟩
    · rw [seen,bucket]
      exact kept.refilled.trans kept.seen
    · rw [bucket]
      exact kept.params
  · rw [stored,found,Option.map_some,bucket,kind]
    have mirrors := m.mirrors
    cases stored : s.stored p k with
    | none =>
      rw [stored] at mirrors
      exact mirrors.make (Nat.cast_nonneg _)
    | some r =>
      rw [stored] at mirrors
      exact mirrors

/-- A call of another peer can only drop the record, when a bucket idle for that long is full again. -/
theorem Mirrors.otherPeer {q : NodeAddr} (differ : p ≠ q) (k' : Msg1Class) (rate : 0 ≤ (s.params k).2)
    (fills : ((s.params k).1 : ℚ) ≤ 300 * (s.params k).2) : (s.tryAdmit q k' now).2.Mirrors p k b now := by
  have get := get?_tryAdmit_other s differ k' now
  by_cases same : (s.tryAdmit q k' now).2.buckets.get? p = s.buckets.get? p
  · constructor
    · intro r found
      rw [same] at found
      exact ⟨(m.kept r found).seen,(m.kept r found).refilled,(m.kept r found).params⟩
    · rw [stored,same]
      exact m.mirrors
  · cases found : s.buckets.get? p with
    | none =>
      rw [found] at get same
      simp only [Option.filter_none,ite_self] at get
      exact absurd get same
    | some r =>
      have kept := m.kept r found
      have idle : setupBucketIdle ≤ now - r.seen := by
        by_contra recent
        rw [found,Option.filter_some_pos (by simpa using recent),ite_self] at get
        exact same (get.trans found.symm)
      have gone : (s.tryAdmit q k' now).2.buckets.get? p = none := by
        rw [found] at get same
        by_cases admitted : (s.tryAdmit q k' now).1
        · rw [if_pos admitted,Option.filter_some_neg (by simpa using idle)] at get
          exact get
        · rw [if_neg admitted] at get
          exact absurd get same
      have mirrors := m.mirrors
      rw [stored,found] at mirrors
      refine ⟨by simp [gone],?_⟩
      rw [stored,gone]
      refine mirrors.drop rate 300 fills ?_
      show (300 : ℚ) ≤ asSecs now - asSecs (r.bucket k).lastRefill
      rw [← asSecs_sub (kept.refilled.trans kept.seen)]
      have waited : setupBucketIdle ≤ now - (r.bucket k).lastRefill := by
        have refilled := kept.refilled
        omega
      calc (300 : ℚ) = asSecs setupBucketIdle := by norm_num [asSecs,setupBucketIdle]
        _ ≤ _ := asSecs_le.2 waited

end Step

structure Call where
  linkPeer : NodeAddr
  kind : Msg1Class
  now : Nat

def Call.isOf (p : NodeAddr) (k : Msg1Class) (c : Call) : Bool := c.linkPeer = p ∧ c.kind = k

def serve (s : SessionSetupRateLimiter) : List Call → List (Call × Bool)
  | [] => []
  | c :: cs =>
    let answered := s.tryAdmit c.linkPeer c.kind c.now
    (c,answered.1) :: answered.2.serve cs

def outcomes (p : NodeAddr) (k : Msg1Class) (served : List (Call × Bool)) : List (ℚ × Bool) :=
  (served.filter fun e => e.1.isOf p k).map fun e => (asSecs e.1.now,e.2)

def times (p : NodeAddr) (k : Msg1Class) (calls : List Call) : List ℚ :=
  (calls.filter (Call.isOf p k)).map fun c => asSecs c.now

/-- A peer is served, in each class, by a bucket of its own that is never dropped, if an idle bucket
fills up before it is dropped or nobody else is there to drop it. -/
theorem Mirrors.serve (calls : List Call) {b : Bucket ℚ}
    {start : Nat} (m : s.Mirrors p k b start) (rate : 0 ≤ (s.params k).2)
    (safe : ((s.params k).1 : ℚ) ≤ 300 * (s.params k).2 ∨ ∀ c ∈ calls, c.linkPeer = p)
    (sorted : calls.Pairwise fun c d => c.now ≤ d.now) (later : ∀ c ∈ calls, start ≤ c.now) :
    outcomes p k (s.serve calls) = (meter (s.params k)).serve b (times p k calls) := by
  induction calls generalizing s b start with
  | nil => rfl
  | cons c calls ih =>
    obtain ⟨first,rest⟩ := pairwise_cons.1 sorted
    have here := m.later rate (later c mem_cons_self)
    have safe' := safe.imp_right fun alone c' member => alone c' (mem_cons_of_mem c member)
    by_cases mine : c.isOf p k
    · obtain ⟨peer,kind⟩ := of_decide_eq_true mine
      subst peer kind
      have tail := ih (here.own rate) rate safe' rest first
      simp only [outcomes,times,SessionSetupRateLimiter.serve,filter_cons,mine,if_true,map_cons] at tail ⊢
      rw [here.own_fst,tail]
      rfl
    · have mirrors : (s.tryAdmit c.linkPeer c.kind c.now).2.Mirrors p k b c.now := by
        by_cases peer : p = c.linkPeer
        · subst peer
          exact here.otherClass fun kind => mine (decide_eq_true ⟨rfl,kind.symm⟩)
        · refine here.otherPeer peer c.kind rate ?_
          rcases safe with fills | alone
          · exact fills
          · exact absurd (alone c mem_cons_self).symm peer
      have tail := ih mirrors rate safe' rest first
      simp only [outcomes,times,SessionSetupRateLimiter.serve,filter_cons,mine] at tail ⊢
      exact tail

theorem serve_of_empty (p : NodeAddr) (calls : List Call) (empty : s.buckets = ∅)
    (rate : 0 ≤ (s.params k).2)
    (safe : ((s.params k).1 : ℚ) ≤ 300 * (s.params k).2 ∨ ∀ c ∈ calls, c.linkPeer = p)
    (sorted : calls.Pairwise fun c d => c.now ≤ d.now) : outcomes p k (s.serve calls) =
      (meter (s.params k)).serve ⟨(s.params k).1,asSecs 0⟩ (times p k calls) := by
  have start : s.Mirrors p k ⟨(s.params k).1,asSecs 0⟩ 0 :=
    mirrors_of_none (by rw [empty,OrderedMap.get?_empty]) rate le_rfl
      (Meter.level_full (m := meter (s.params k)) rate le_rfl)
  exact start.serve calls rate safe sorted fun c _ => Nat.zero_le c.now

def admitted (p : NodeAddr) (k : Msg1Class) (start stop : ℚ) (served : List (Call × Bool)) : Nat :=
  served.countP fun e => e.2 ∧ e.1.isOf p k ∧ start ≤ asSecs e.1.now ∧ asSecs e.1.now ≤ stop

theorem admitted_eq (p : NodeAddr) (k : Msg1Class) (start stop : ℚ) (served : List (Call × Bool)) :
    admitted p k start stop served = Meter.granted start stop (outcomes p k served) := by
  simp only [Meter.granted,outcomes,countP_map,countP_filter]
  refine countP_congr fun e _ => ?_
  simp only [Function.comp_apply,Bool.and_eq_true,decide_eq_true_eq]
  tauto

/-- No peer gets more from this class, in any window, than one burst and the refill of the window. -/
def Bounded (s : SessionSetupRateLimiter) (k : Msg1Class) : Prop :=
  ∀ (p : NodeAddr) (calls : List Call), (calls.Pairwise fun c d => c.now ≤ d.now) →
    ∀ start length : ℚ, 0 ≤ length →
      (admitted p k start (start + length) (s.serve calls) : ℚ) ≤ (s.params k).1 + (s.params k).2 * length

/-- What a peer gets from this class is what it would get with no other peer and no other class. -/
def Independent (s : SessionSetupRateLimiter) (k : Msg1Class) : Prop :=
  ∀ (p : NodeAddr) (calls : List Call), (calls.Pairwise fun c d => c.now ≤ d.now) →
    outcomes p k (s.serve calls) = outcomes p k (s.serve (calls.filter (Call.isOf p k)))

theorem bounded_of_mirrored {calls : List Call} (rate : 0 ≤ (s.params k).2)
    (sorted : calls.Pairwise fun c d => c.now ≤ d.now)
    (mirrored : outcomes p k (s.serve calls) = (meter (s.params k)).serve ⟨(s.params k).1, asSecs 0⟩
      (times p k calls)) (start : ℚ) {length : ℚ} (nonneg : 0 ≤ length) :
    (admitted p k start (start + length) (s.serve calls) : ℚ) ≤ (s.params k).1 + (s.params k).2 * length := by
  rw [admitted_eq,mirrored]
  refine Meter.granted_window (m := meter (s.params k)) (Nat.cast_nonneg _) rate
    nonneg _ _ (Nat.cast_nonneg _) ?_ ?_
  · refine pairwise_map.2 ((sorted.sublist filter_sublist).imp ?_)
    exact asSecs_le.2
  · intro t member
    obtain ⟨c,-,rfl⟩ := mem_map.1 member
    exact asSecs_le.2 (Nat.zero_le _)

def after (s : SessionSetupRateLimiter) (calls : List Call) : SessionSetupRateLimiter :=
  calls.foldl (fun s c => (s.tryAdmit c.linkPeer c.kind c.now).2) s

theorem serve_append (s : SessionSetupRateLimiter) (calls calls' : List Call) :
    s.serve (calls ++ calls') = s.serve calls ++ (s.after calls).serve calls' := by
  induction calls generalizing s with
  | nil => rfl
  | cons c calls ih => simp only [cons_append,serve,ih,after,foldl_cons]

theorem outcomes_append (p : NodeAddr) (k : Msg1Class) (served served' : List (Call × Bool)) :
    outcomes p k (served ++ served') = outcomes p k served ++ outcomes p k served' := by
  simp only [outcomes,filter_append,map_append]

theorem params_after (s : SessionSetupRateLimiter) (calls : List Call) :
    (s.after calls).params = s.params := by
  induction calls generalizing s with
  | nil => rfl
  | cons c calls ih => exact (ih _).trans (params_tryAdmit s c.linkPeer c.kind c.now)

theorem get?_after_none (calls : List Call) (h : s.buckets.get? p = none)
    (absent : ∀ c ∈ calls, p ≠ c.linkPeer) : (s.after calls).buckets.get? p = none := by
  induction calls generalizing s with
  | nil => exact h
  | cons c calls ih =>
    refine ih ?_ fun d member => absent d (mem_cons_of_mem c member)
    rw [get?_tryAdmit_other s (absent c mem_cons_self),h]
    simp

def burst (s : SessionSetupRateLimiter) (p : NodeAddr) (k : Msg1Class) (now : Nat) : List Call :=
  replicate (s.params k).1 ⟨p,k,now⟩

theorem outcomes_burst {now : Nat}
    (h : s.buckets.get? p = none) (rate : 0 ≤ (s.params k).2) :
    outcomes p k (s.serve (s.burst p k now)) = replicate (s.params k).1 (asSecs now,true) := by
  have full : (meter (s.params k)).level ⟨(s.params k).1,asSecs now⟩ (asSecs now) = (s.params k).1 :=
    Meter.level_full (m := meter (s.params k)) rate le_rfl
  have mirrors := mirrors_of_none (b := ⟨(s.params k).1,asSecs now⟩) h rate le_rfl full
  have mine : Call.isOf p k ⟨p,k,now⟩ = true := by simp [Call.isOf]
  rw [mirrors.serve (s.burst p k now) rate (.inr ?_) ?_ ?_]
  · simp only [times,burst,filter_replicate_of_pos mine,map_replicate]
    exact Meter.serve_replicate _ full.ge
  · intro c member
    rw [eq_of_mem_replicate member]
  · exact pairwise_replicate.2 (.inr le_rfl)
  · intro c member
    rw [eq_of_mem_replicate member]

theorem get?_after_burst (s : SessionSetupRateLimiter) (p : NodeAddr) (now : Nat)
    (positive : 0 < (s.params k).1) :
    ∃ r, (s.after (s.burst p k now)).buckets.get? p = some r ∧ r.seen = now := by
  obtain ⟨n,count⟩ := Nat.exists_eq_succ_of_ne_zero positive.ne'
  rw [burst,count,replicate_succ',after,foldl_append]
  exact ⟨_,get?_tryAdmit_self _ p k now,SessionSetupBuckets.served_seen _ k now⟩

def twoBursts (s : SessionSetupRateLimiter) (k : Msg1Class) : List Call :=
  s.burst 0 k 0 ++ (⟨1,k,setupBucketIdle⟩ :: s.burst 0 k setupBucketIdle)

section TwoBursts

variable {s : SessionSetupRateLimiter} {k : Msg1Class}

/-- The call of the other peer drops the record of the first one. -/
theorem get?_between_bursts (empty : s.buckets = ∅) (rate : 0 ≤ (s.params k).2)
    (positive : 0 < (s.params k).1) :
    ((s.after (s.burst 0 k 0)).tryAdmit 1 k setupBucketIdle).2.buckets.get? 0 = none := by
  have none (p : NodeAddr) : s.buckets.get? p = none := by rw [empty,OrderedMap.get?_empty]
  have params := congrFun (params_after s (s.burst 0 k 0)) k
  obtain ⟨r,found,seen⟩ := get?_after_burst s 0 0 positive
  have absent : (s.after (s.burst 0 k 0)).buckets.get? 1 = .none := by
    refine get?_after_none _ (none 1) ?_
    intro c member
    rw [eq_of_mem_replicate member]
    show (1 : NodeAddr) ≠ 0
    decide
  have full : (meter ((s.after (s.burst 0 k 0)).params k)).level ⟨(s.params k).1,asSecs setupBucketIdle⟩
      (asSecs setupBucketIdle) = (s.params k).1 := by
    rw [params]
    exact Meter.level_full (m := meter (s.params k)) rate le_rfl
  have admits : ((s.after (s.burst 0 k 0)).tryAdmit 1 k setupBucketIdle).1 = true := by
    have mirrors := mirrors_of_none (b := ⟨(s.params k).1,asSecs setupBucketIdle⟩) absent
      (by rw [params]; exact rate) le_rfl (by rw [full,params])
    have whole : (1 : ℚ) ≤ (s.params k).1 := by exact_mod_cast positive
    rw [mirrors.own_fst,Meter.acquire,full,if_pos whole]
  rw [get?_tryAdmit_other _ (by decide),if_pos admits,found]
  exact Option.filter_some_neg (by simp [seen])

theorem outcomes_twoBursts (empty : s.buckets = ∅) (rate : 0 ≤ (s.params k).2)
    (positive : 0 < (s.params k).1) :
    outcomes 0 k (s.serve (s.twoBursts k)) =
      replicate (s.params k).1 (asSecs 0,true) ++ replicate (s.params k).1 (asSecs setupBucketIdle,true) := by
  have between := get?_between_bursts empty rate positive
  have params := congrFun (params_after s (s.burst 0 k 0)) k
  have second : outcomes 0 k
      (((s.after (s.burst 0 k 0)).tryAdmit 1 k setupBucketIdle).2.serve (s.burst 0 k setupBucketIdle)) =
        replicate (s.params k).1 (asSecs setupBucketIdle,true) := by
    have kept := (congrFun (params_tryAdmit (s.after (s.burst 0 k 0)) 1 k setupBucketIdle) k).trans params
    have same : s.burst 0 k setupBucketIdle =
        ((s.after (s.burst 0 k 0)).tryAdmit 1 k setupBucketIdle).2.burst 0 k setupBucketIdle := by
      rw [burst,burst,kept]
    rw [same,outcomes_burst between (by rw [kept]; exact rate),kept]
  rw [twoBursts,serve_append,outcomes_append,outcomes_burst (by rw [empty,OrderedMap.get?_empty]) rate,
    ← second]
  rfl

theorem pairwise_twoBursts : (s.twoBursts k).Pairwise fun c d => c.now ≤ d.now := by
  refine pairwise_append.2 ⟨pairwise_replicate.2 (.inr le_rfl),pairwise_cons.2 ⟨?_,?_⟩,?_⟩
  · intro c member
    rw [eq_of_mem_replicate member]
  · exact pairwise_replicate.2 (.inr le_rfl)
  · intro c early d _
    rw [eq_of_mem_replicate early]
    exact Nat.zero_le _

theorem granted_twoBursts (n : Nat) :
    Meter.granted 0 (0 + 300) (replicate n (asSecs 0,true) ++ replicate n (asSecs setupBucketIdle,true)) =
      n + n := by
  norm_num [Meter.granted,countP_replicate,asSecs,setupBucketIdle]

end TwoBursts

theorem burst_pos_of_slow {params : Nat × ℚ} (rate : 0 ≤ params.2)
    (slow : ¬ (params.1 : ℚ) ≤ 300 * params.2) :
    0 < params.1 := by
  by_contra zero
  rw [Nat.eq_zero_of_not_pos zero,Nat.cast_zero] at slow
  linarith

/-- For a class the bound holds, and so does independence, exactly when its burst refills within the
300 seconds after which an idle record is dropped. -/
theorem setup_limit_iff (stranger established : Nat × ℚ) (k : Msg1Class)
    (rate : 0 < ((withParams stranger established).params k).2) :
    ((withParams stranger established).Bounded k ↔
      (((withParams stranger established).params k).1 : ℚ) ≤
        300 * ((withParams stranger established).params k).2) ∧
    ((withParams stranger established).Independent k ↔
      (((withParams stranger established).params k).1 : ℚ) ≤
        300 * ((withParams stranger established).params k).2) := by
  set s := withParams stranger established
  have mirrored {p : NodeAddr} {calls : List Call} :=
    serve_of_empty p calls (rfl : s.buckets = ∅) rate.le
  refine ⟨⟨?_,?_⟩,?_,?_⟩
  · intro bounded
    by_contra slow
    have positive := burst_pos_of_slow rate.le slow
    have bound := bounded 0 (s.twoBursts k) pairwise_twoBursts 0 300 (by norm_num)
    rw [admitted_eq,outcomes_twoBursts rfl rate.le positive,granted_twoBursts] at bound
    push_cast at bound
    linarith
  · intro fills p calls sorted start length nonneg
    exact bounded_of_mirrored rate.le sorted (mirrored (.inl fills) sorted) start nonneg
  · intro independent
    by_contra slow
    have positive := burst_pos_of_slow rate.le slow
    have sorted := (pairwise_twoBursts (s := s) (k := k)).sublist (filter_sublist (p := Call.isOf 0 k))
    have same := independent 0 (s.twoBursts k) pairwise_twoBursts
    have alone : ∀ c ∈ (s.twoBursts k).filter (Call.isOf 0 k), c.linkPeer = 0 := by
      intro c member
      exact (of_decide_eq_true (mem_filter.1 member).2).1
    have window : (0 : ℚ) ≤ 300 := by norm_num
    have bound := bounded_of_mirrored rate.le sorted (mirrored (.inr alone) sorted) 0 window
    rw [admitted_eq,← same,outcomes_twoBursts rfl rate.le positive,granted_twoBursts] at bound
    push_cast at bound
    linarith
  · intro fills p calls sorted
    have restricted := sorted.sublist (filter_sublist (p := Call.isOf p k))
    rw [mirrored (.inl fills) sorted,mirrored (.inl fills) restricted]
    simp only [times,filter_filter,Bool.and_self]

theorem setup_limit_default :
    (withParams (100,10) (100,10)).Bounded .stranger ∧ (withParams (100,10) (100,10)).Independent .stranger :=
  have fills : ((100 : Nat) : ℚ) ≤ 300 * 10 := by norm_num
  have limit := setup_limit_iff (100,10) (100,10) .stranger (by simp [params,withParams])
  ⟨limit.1.2 fills,limit.2.2 fills⟩

/-- With a burst of two and a token every thousand seconds, two peers that take turns get two bursts out of
the limiter within 300 seconds; without the call of the other peer the second burst is refused. -/
theorem second_burst_admitted :
    let s := withParams (2,1/1000) (2,1/1000)
    let burst (now : Nat) : List Call := [⟨0,.stranger,now⟩,⟨0,.stranger,now⟩]
    let calls := burst 0 ++ ⟨1,.stranger,setupBucketIdle⟩ :: burst setupBucketIdle
    admitted 0 .stranger 0 300 (s.serve calls) = 4 ∧ ¬ (4 : ℚ) ≤ 2 + 1/1000 * 300 ∧
      outcomes 0 .stranger (s.serve calls) = [(0,true),(0,true),(300,true),(300,true)] ∧
      outcomes 0 .stranger (s.serve (burst 0 ++ burst setupBucketIdle)) =
        [(0,true),(0,true),(300,false),(300,false)] := by
  decide +kernel

end SessionSetupRateLimiter

end Fips.Limits
