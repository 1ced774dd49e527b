import Mathlib

set_option autoImplicit false

/-! Buckets that refill at a constant rate and pay one token for each request they grant. -/

namespace Fips.RefillBucket

open List

variable {K : Type} [Field K] [LinearOrder K]

structure Meter (K : Type) where
  capacity : K
  rate : K

/-- The tokens a bucket had when it was last looked at. -/
@[ext] structure Bucket (K : Type) where
  tokens : K
  since : K

namespace Meter

def level (m : Meter K) (b : Bucket K) (now : K) : K := min (b.tokens + (now - b.since) * m.rate) m.capacity

/-- Refill, then pay for one request if there is a whole token. -/
def acquire (m : Meter K) (b : Bucket K) (now : K) : Bool × Bucket K :=
  if 1 ≤ m.level b now then (true,⟨m.level b now - 1,now⟩) else (false,⟨m.level b now,now⟩)

def serve (m : Meter K) (b : Bucket K) : List K → List (K × Bool)
  | [] => []
  | t :: ts => (t,(m.acquire b t).1) :: m.serve (m.acquire b t).2 ts

variable {m : Meter K} {now : K}

theorem acquire_congr {b b' : Bucket K} (h : m.level b now = m.level b' now) :
    m.acquire b now = m.acquire b' now := by
  simp only [acquire,h]

theorem level_le_capacity (m : Meter K) (b : Bucket K) (now : K) : m.level b now ≤ m.capacity :=
  min_le_right _ _

theorem acquire_since (m : Meter K) (b : Bucket K) (now : K) : (m.acquire b now).2.since = now := by
  unfold acquire
  split
  · rfl
  · rfl

theorem acquire_tokens (m : Meter K) (b : Bucket K) (now : K) :
    (m.acquire b now).2.tokens = m.level b now - if (m.acquire b now).1 then 1 else 0 := by
  unfold acquire
  by_cases enough : 1 ≤ m.level b now
  · simp [enough]
  · simp [enough]

variable {b : Bucket K}

theorem level_self (h : b.tokens ≤ m.capacity) : m.level b b.since = b.tokens := by
  simp [level,h]

/-- How many requests were granted from `start` to `stop`. -/
def granted (start stop : K) (served : List (K × Bool)) : Nat :=
  served.countP fun e => e.2 ∧ start ≤ e.1 ∧ e.1 ≤ stop

variable [IsStrictOrderedRing K]

theorem level_nonneg (capacity : 0 ≤ m.capacity) (rate : 0 ≤ m.rate)
    (tokens : 0 ≤ b.tokens) (later : b.since ≤ now) : 0 ≤ m.level b now := by
  refine le_min ?_ capacity
  have refill : 0 ≤ (now - b.since) * m.rate := mul_nonneg (sub_nonneg.2 later) rate
  linarith

theorem level_advance (rate : 0 ≤ m.rate) (b : Bucket K) {now later : K} (h : now ≤ later) :
    m.level b later = min (m.level b now + (later - now) * m.rate) m.capacity := by
  have refill : 0 ≤ (later - now) * m.rate := mul_nonneg (sub_nonneg.2 h) rate
  have split : b.tokens + (later - b.since) * m.rate =
      b.tokens + (now - b.since) * m.rate + (later - now) * m.rate := by ring
  unfold level
  rw [min_add,min_assoc]
  congr 1
  exact (min_eq_right (by linarith)).symm

theorem level_congr (rate : 0 ≤ m.rate) {b b' : Bucket K} {now later : K} (h : now ≤ later)
    (same : m.level b now = m.level b' now) : m.level b later = m.level b' later := by
  rw [level_advance rate b h,level_advance rate b' h,same]

theorem level_advance_le (rate : 0 ≤ m.rate) (b : Bucket K) {now later : K} (h : now ≤ later) :
    m.level b later ≤ m.level b now + (later - now) * m.rate := by
  rw [level_advance rate b h]
  exact min_le_left _ _

theorem level_of_idle {now idle : K} (rate : 0 ≤ m.rate) (tokens : 0 ≤ b.tokens)
    (fills : m.capacity ≤ idle * m.rate) (h : idle ≤ now - b.since) : m.level b now = m.capacity := by
  refine min_eq_right ?_
  have refill : idle * m.rate ≤ (now - b.since) * m.rate := mul_le_mul_of_nonneg_right h rate
  linarith

theorem level_full (rate : 0 ≤ m.rate) {since now : K} (h : since ≤ now) :
    m.level ⟨m.capacity,since⟩ now = m.capacity := by
  refine min_eq_right ?_
  have refill : 0 ≤ (now - since) * m.rate := mul_nonneg (sub_nonneg.2 h) rate
  linarith

theorem acquire_nonneg (capacity : 0 ≤ m.capacity) (rate : 0 ≤ m.rate)
    (tokens : 0 ≤ b.tokens) (later : b.since ≤ now) : 0 ≤ (m.acquire b now).2.tokens := by
  have level := level_nonneg capacity rate tokens later
  unfold acquire
  split
  · rename_i enough
    exact sub_nonneg.2 enough
  · exact level

theorem level_acquire (b : Bucket K) (now : K) :
    m.level (m.acquire b now).2 now = m.level b now - if (m.acquire b now).1 then 1 else 0 := by
  have since := acquire_since m b now
  have tokens := acquire_tokens m b now
  have le := level_le_capacity m b now
  have bound : (m.acquire b now).2.tokens ≤ m.capacity := by
    rw [tokens]
    split
    · linarith
    · linarith
  rw [← tokens,← level_self bound,since]

theorem serve_replicate (n : Nat) (h : (n : K) ≤ m.level b now) :
    m.serve b (replicate n now) = replicate n (now,true) := by
  induction n generalizing b with
  | zero => rfl
  | succ n ih =>
    rw [Nat.cast_succ] at h
    have enough : 1 ≤ m.level b now := le_trans (le_add_of_nonneg_left (Nat.cast_nonneg n)) h
    have grants : (m.acquire b now).1 = true := by rw [acquire,if_pos enough]
    have left : (n : K) ≤ m.level (m.acquire b now).2 now := by
      rw [level_acquire,if_pos grants]
      linarith
    rw [replicate_succ,replicate_succ,serve,grants,ih left]

/-- `spent start stop` is what was paid from `start` to `stop`, and `level` is left of it now: with what
was paid since any moment, that is no more than a full bucket and its refill. -/
structure Metered (m : Meter K) (spent : K → K → K) (now level : K) : Prop where
  past : ∀ start stop, now < start → spent start stop = 0
  bound : ∀ start stop, start ≤ now → now ≤ stop →
    spent start stop + level ≤ m.capacity + m.rate * (now - start)
  window : ∀ start length, 0 ≤ length → spent start (start + length) ≤ m.capacity + m.rate * length

variable {m : Meter K} {spent : K → K → K} {now level : K}

theorem Metered.pay (h : m.Metered spent now level) (rate : 0 ≤ m.rate) (cost : K)
    {t level' : K} {spent' : K → K → K} (later : now ≤ t)
    (refill : level' + cost ≤ level + m.rate * (t - now)) (full : level' + cost ≤ m.capacity)
    (left : 0 ≤ level')
    (paid : ∀ start stop, spent' start stop = spent start stop + if start ≤ t ∧ t ≤ stop then cost else 0) :
    m.Metered spent' t level' := by
  have bound (start stop : K) (begun : start ≤ t) (open_ : t ≤ stop) :
      spent' start stop + level' ≤ m.capacity + m.rate * (t - start) := by
    rw [paid,if_pos ⟨begun,open_⟩]
    by_cases early : start ≤ now
    · have before := h.bound start stop early (later.trans open_)
      linarith [mul_sub m.rate t now,mul_sub m.rate now start,mul_sub m.rate t start]
    · have grows := mul_nonneg rate (sub_nonneg.2 begun)
      rw [h.past start stop (not_le.1 early)]
      linarith
  refine ⟨fun start stop after => ?_,bound,fun start length nonneg => ?_⟩
  · rw [paid,h.past start stop (later.trans_lt after),if_neg fun inside => after.not_ge inside.1,add_zero]
  · by_cases inside : start ≤ t ∧ t ≤ start + length
    · have here := bound start (start + length) inside.1 inside.2
      have shorter : m.rate * (t - start) ≤ m.rate * length :=
        mul_le_mul_of_nonneg_left (by linarith [inside.2]) rate
      linarith
    · rw [paid,if_neg inside,add_zero]
      exact h.window start length nonneg

theorem Metered.lower (h : m.Metered spent now level) {level' : K} (le : level' ≤ level) :
    m.Metered spent now level' :=
  ⟨h.past,fun start stop early open_ => (add_le_add_right le _).trans
    (h.bound start stop early open_),h.window⟩

theorem metered_zero (capacity : 0 ≤ m.capacity) (rate : 0 ≤ m.rate) (now : K) :
    m.Metered (fun _ _ => 0) now m.capacity := by
  refine ⟨fun _ _ _ => rfl,fun start stop early _ => ?_,fun start length nonneg => ?_⟩
  · linarith [mul_nonneg rate (sub_nonneg.2 early)]
  · linarith [mul_nonneg rate nonneg]

omit [IsStrictOrderedRing K] in
theorem granted_cons (start stop : K) (b : Bucket K) (t : K) (ts : List K) :
    (granted start stop (m.serve b (t :: ts)) : K) =
    (if start ≤ t ∧ t ≤ stop then if (m.acquire b t).1 then 1 else 0 else 0) + granted start stop
      (m.serve (m.acquire b t).2 ts) := by
  by_cases inside : start ≤ t ∧ t ≤ stop <;> cases paid : (m.acquire b t).1 <;>
    simp [granted,serve,inside,paid,add_comm]

theorem Metered.serve (capacity : 0 ≤ m.capacity) (rate : 0 ≤ m.rate) {start length : K}
    (nonneg : 0 ≤ length) (ts : List K) {b : Bucket K} (h : m.Metered spent now (m.level b now))
    (tokens : 0 ≤ b.tokens) (since : b.since ≤ now) (sorted : ts.Pairwise (· ≤ ·))
    (later : ∀ t ∈ ts, now ≤ t) :
    spent start (start + length) + granted start (start + length)
      (m.serve b ts) ≤ m.capacity + m.rate * length := by
  induction ts generalizing b now spent with
  | nil => simpa [serve,granted] using h.window start length nonneg
  | cons t ts ih =>
    obtain ⟨first,rest⟩ := pairwise_cons.1 sorted
    have here := later t mem_cons_self
    have kept := acquire_nonneg capacity rate tokens (since.trans here)
    have total : m.level (m.acquire b t).2 t + (if (m.acquire b t).1 then 1 else 0) = m.level b t := by
      rw [level_acquire,sub_add_cancel]
    have paid := h.pay rate _ here (by rw [total,mul_comm]; exact level_advance_le rate b here)
      (total.trans_le (level_le_capacity m b t)) (level_nonneg capacity rate kept (acquire_since m b t).le)
        fun _ _ => rfl
    rw [granted_cons,← add_assoc]
    exact ih paid kept (acquire_since m b t).le rest first

/-- In no window is more granted than a full bucket and the refill of the window. -/
theorem granted_window (capacity : 0 ≤ m.capacity) (rate : 0 ≤ m.rate) {start length : K}
    (nonneg : 0 ≤ length) (ts : List K) (b : Bucket K) (tokens : 0 ≤ b.tokens) (sorted : ts.Pairwise (· ≤ ·))
    (later : ∀ t ∈ ts, b.since ≤ t) :
    (granted start (start + length) (m.serve b ts) : K) ≤ m.capacity + m.rate * length := by
  have fresh := (metered_zero capacity rate b.since).lower (level_le_capacity m b b.since)
  simpa using fresh.serve capacity rate nonneg ts tokens le_rfl sorted later

/-- A bucket that may have been dropped, and counts as full while it is, is as full as `b`. -/
structure Mirrors (m : Meter K) (stored : Option (Bucket K)) (b : Bucket K) (now : K) : Prop where
  since : b.since ≤ now
  storedSince : ∀ r, stored = some r → r.since ≤ now
  tokens : ∀ r, stored = some r → 0 ≤ r.tokens
  level : m.level (stored.getD ⟨m.capacity,now⟩) now = m.level b now

section Mirrors

variable {m : Meter K} {stored : Option (Bucket K)} {b : Bucket K} {now : K}

theorem mirrors_none (rate : 0 ≤ m.rate) (since : b.since ≤ now) (full : m.level b now = m.capacity) :
    m.Mirrors none b now where
  since := since
  storedSince := by simp
  tokens := by simp
  level := (level_full rate le_rfl).trans full.symm

omit [IsStrictOrderedRing K] in
theorem Mirrors.make (h : m.Mirrors none b now) (capacity : 0 ≤ m.capacity) :
    m.Mirrors (some ⟨m.capacity,now⟩) b now where
  since := h.since
  storedSince := by simp
  tokens := by
    rintro _ ⟨rfl⟩
    exact capacity
  level := h.level

theorem Mirrors.later (h : m.Mirrors stored b now) (rate : 0 ≤ m.rate) {now' : K} (le : now ≤ now') :
    m.Mirrors stored b now' := by
  have same := level_congr rate le h.level
  refine ⟨h.since.trans le,fun r found => (h.storedSince r found).trans le,h.tokens,?_⟩
  cases stored with
  | none =>
    rw [← same]
    exact (level_full rate le_rfl).trans (level_full rate le).symm
  | some r => exact same

theorem Mirrors.drop {r : Bucket K} (h : m.Mirrors (some r) b now) (rate : 0 ≤ m.rate) (idle : K)
    (fills : m.capacity ≤ idle * m.rate) (waited : idle ≤ now - r.since) : m.Mirrors none b now := by
  refine mirrors_none rate h.since ?_
  rw [← h.level]
  exact level_of_idle rate (h.tokens r rfl) fills waited

omit [IsStrictOrderedRing K] in
theorem Mirrors.acquire_eq (h : m.Mirrors stored b now) :
    m.acquire (stored.getD ⟨m.capacity,now⟩) now = m.acquire b now := acquire_congr h.level

theorem Mirrors.acquired (h : m.Mirrors stored b now) (capacity : 0 ≤ m.capacity) (rate : 0 ≤ m.rate) :
    m.Mirrors (some (m.acquire b now).2) (m.acquire b now).2 now := by
  refine ⟨(acquire_since m b now).le,?_,?_,rfl⟩
  · rintro _ ⟨rfl⟩
    exact (acquire_since m b now).le
  · rintro _ ⟨rfl⟩
    rw [← h.acquire_eq]
    cases stored with
    | none => exact acquire_nonneg capacity rate capacity le_rfl
    | some r => exact acquire_nonneg capacity rate (h.tokens r rfl) (h.storedSince r rfl)

end Mirrors

end Meter

end Fips.RefillBucket
