import Fips.Relay.Buyer.Changes

set_option autoImplicit false

/-! Sends and their outcomes, and that the state stays sound. -/

namespace Fips.Relay.Buyer

open OrderedMap Option List

namespace State

variable {s s' : State} {id : String} {q : PurchaseQuote} {c : PurchaseChannel}
  {digest : Digest} {units : Nat}

structure CanReserve (s : State) (id : String) (digest : Digest) (units : Nat)
    (q : PurchaseQuote) (c : PurchaseChannel) :
    Prop where
  nonzero : units ≠ 0
  room : s.pending.size < s.limits.maxPending
  held : s.quotes.get? id = some q
  channel : s.channels.get? q.contract.channelId = some c
  unseen : q.contract.billing.isLegacy = true → (c.provider,digest) ∉ s.seen
  plain : q.contract.billing.isLegacy = false → digest = 0
  token : s.nextToken + 1 < 2^64
  packets : q.contract.billing.isLegacy = true → q.attempts.length < s.limits.maxPacketsPerContract
  fits : q.observedUnits + units < 2^64
  allowed : q.observedUnits + units ≤ q.contract.maxUnits

def newAttempt (s : State) (q : PurchaseQuote) (digest : Digest) (units : Nat) : Attempt :=
  ⟨digest,units,.pending,if q.contract.billing.isLegacy then 0 else s.nextToken⟩

def reserved (s : State) (id : String) (digest : Digest) (units : Nat) (q : PurchaseQuote)
    (c : PurchaseChannel) : State :=
  { s with
    quotes := s.quotes.modify id fun p => { p with
      observedUnits := q.observedUnits + units
      attempts := p.attempts ++ [s.newAttempt q digest units] }
    pending := s.pending.insert s.nextToken (id,q.attempts.length)
    seen := if q.contract.billing.isLegacy then insert (c.provider,digest) s.seen else s.seen
    nextToken := s.nextToken + 1 }

def blocked (s : State) (id : String) (sourceAdmission : Bool) : State :=
  { s with quotes := s.quotes.modify id fun q =>
    { q with quotaBlocked := q.quotaBlocked || sourceAdmission } }

inductive Reservation (s : State) : State → Prop
  | kept : Reservation s s
  | blocked (id : String) (sourceAdmission : Bool) : Reservation s (s.blocked id sourceAdmission)
  | reserved {id : String} {digest : Digest} {units : Nat} {q : PurchaseQuote} {c : PurchaseChannel}
    (can : s.CanReserve id digest units q c) : Reservation s (s.reserved id digest units q c)

theorem reserveAttempt_cases (sourceAdmission admits : Bool)
    (plain : ∀ q, s.quotes.get? id = some q → q.contract.billing.isLegacy = false → digest = 0) :
    s.Reservation (s.reserveAttempt id digest units sourceAdmission admits).2 := by
  unfold reserveAttempt
  by_cases refused : units = 0 ∨ s.limits.maxPending ≤ s.pending.size
  · rw [if_pos refused]
    exact .kept
  rw [if_neg refused]
  cases held : s.quotes.get? id with
  | none => exact .kept
  | some q =>
    simp only
    cases channel : s.channels.get? q.contract.channelId with
    | none => exact .kept
    | some c =>
      simp only
      by_cases seen : q.contract.billing.isLegacy = true ∧ (c.provider,digest) ∈ s.seen
      · rw [if_pos seen]
        exact .kept
      by_cases token : 2^64 ≤ s.nextToken + 1
      · rw [if_neg seen,if_pos token]
        exact .kept
      by_cases packets : q.contract.billing.isLegacy = true ∧
        s.limits.maxPacketsPerContract ≤ q.attempts.length
      · rw [if_neg seen,if_neg token,if_pos packets]
        exact .kept
      rw [if_neg seen,if_neg token,if_neg packets]
      cases quota : (U64.checkedAdd q.observedUnits units).filter fun n => n ≤ q.contract.maxUnits with
      | none => exact .blocked id sourceAdmission
      | some observed =>
        simp only
        split
        · exact .kept
        · obtain ⟨added,allowed⟩ := filter_eq_some_iff.1 quota
          obtain ⟨fits,rfl⟩ := U64.checkedAdd_eq_some.1 added
          simp only [not_or,not_and,Nat.not_le,decide_eq_true_eq] at refused seen token packets allowed
          exact .reserved ⟨refused.1,refused.2,held,channel,seen,plain q held,token,packets,fits,allowed⟩

theorem beginAdmitted_cases (ext : Externals) (request : SessionRequest) (localOnly : Bool)
    (now : Nat) (admits : Bool) :
    s.Reservation (s.beginAdmitted ext request localOnly now admits).2 := by
  unfold beginAdmitted
  split
  · exact .kept
  · cases found : s.quotes.entries.find? fun e => s.serves request.nextHop request.destination now e.2 with
    | none => exact .kept
    | some entry =>
      obtain ⟨id,q⟩ := entry
      have held : s.quotes.get? id = some q := mem_entries.1 (mem_of_find?_eq_some found)
      simp only
      split
      · exact .kept
      · cases U64.tryFrom request.sessionPayload.length with
        | none => exact .kept
        | some units =>
          refine reserveAttempt_cases _ _ fun p hp modern => ?_
          cases held.symm.trans hp
          rw [if_neg (by simp [modern])]

theorem prepareIntent_cases (s : State) (intent : SessionIntent) (now : Nat) :
    s.Reservation (s.prepareIntent intent now).2 := by
  unfold prepareIntent
  split
  · exact .kept
  split
  · exact .kept
  simp only
  split
  · exact .kept
  split
  · exact .kept
  split
  · exact .kept
  · exact reserveAttempt_cases _ _ fun _ _ _ => rfl

section Updated

variable {f : String → PurchaseQuote → PurchaseQuote} {pending : OrderedMap Nat (String × Nat)}
  {seen : Finset (NodeAddr × Digest)} {nextToken : Nat}

def updated (s : State) (f : String → PurchaseQuote → PurchaseQuote) (pending : OrderedMap Nat (String × Nat))
    (seen : Finset (NodeAddr × Digest)) (nextToken : Nat) : State :=
  { s with quotes := s.quotes.mapWithKey f, pending, seen, nextToken }

theorem get?_updated (i : String) :
    (s.updated f pending seen nextToken).quotes.get? i = (s.quotes.get? i).map (f i) :=
  get?_mapWithKey _ _ _

/-- Quotes may count more, as long as they stay balanced and their attempts stay known. -/
theorem Sound.updated (h : s.Sound)
    (kept : ∀ i q, s.quotes.get? i = some q → (f i q).contract = q.contract ∧ (f i q).active = q.active)
    (balanced : ∀ i q, s.quotes.get? i = some q → (f i q).Balanced s.limits)
    (more : ∀ i q, s.quotes.get? i = some q → q.submittedUnits ≤ (f i q).submittedUnits)
    (token : nextToken ≠ 0) (tokens : (s.updated f pending seen nextToken).TokensSound)
    (known : (s.updated f pending seen nextToken).SeenSound) :
    (s.updated f pending seen nextToken).Sound := by
  have old {i : String} {q' : PurchaseQuote}
      (held : (s.updated f pending seen nextToken).quotes.get? i = some q') :
      ∃ q, s.quotes.get? i = some q ∧ q' = f i q ∧ q'.contract = q.contract ∧ q'.active = q.active := by
    rw [get?_updated] at held
    obtain ⟨q,before,rfl⟩ := map_eq_some_iff.1 held
    exact ⟨q,before,rfl,kept i q before⟩
  have providers {q' q : PurchaseQuote} (same : q'.contract = q.contract) :
      (s.updated f pending seen nextToken).providerOf q' = s.providerOf q := by
    simp only [providerOf,same]
    rfl
  have evidence (i : String) : s.evidence i ≤ (s.updated f pending seen nextToken).evidence i := by
    refine Nat.add_le_add_left ?_ _
    simp only [State.updated,total_mapWithKey]
    refine total_le_total fun j q held => ?_
    rw [(kept j q held).1]
    split_ifs
    · exact q.contract.price.due_mono (more j q held)
    · exact le_rfl
  refine ⟨{ h.header with token, quotes := ?_ },⟨fun i c held => { h.channels.facts i c held with },
    h.channels.active⟩,{ h.budget with earned := fun i c held => ?_ },⟨?_,?_,?_,?_⟩,tokens,known⟩
  · exact (size_mapWithKey _ _).trans_le h.header.quotes
  · exact (h.budget.earned i c held).trans (ceilSat_mono (Nat.add_le_add_right (evidence i) _))
  · intro i q' held
    obtain ⟨q,before,-,contract,-⟩ := old held
    rw [contract]
    exact h.quotes.key i q before
  · intro i q' held
    obtain ⟨q,before,-,contract,active⟩ := old held
    obtain ⟨c,e,facts⟩ := h.quotes.channel i q before
    refine ⟨c,e,?_,facts.retired,?_,?_,?_,active ▸ facts.active⟩ <;> rw [contract]
    exacts [facts.held,facts.valid,facts.live,facts.onward]
  · intro i q' held
    obtain ⟨q,before,rfl,-⟩ := old held
    exact balanced i q before
  · intro i q' i' p' held held' isActive isActive' same destination
    obtain ⟨q,before,-,contract,active⟩ := old held
    obtain ⟨p,before',-,contract',active'⟩ := old held'
    rw [providers contract,providers contract'] at same
    rw [contract,contract'] at destination
    exact h.quotes.active i q i' p before before' (active ▸ isActive) (active' ▸ isActive') same destination

end Updated

def marked (s : State) (mark : String → PurchaseQuote → Bool) : State :=
  { s with quotes := s.quotes.mapWithKey fun i q => { q with quotaBlocked := mark i q } }

theorem Sound.marked (h : s.Sound) (mark : String → PurchaseQuote → Bool) : (s.marked mark).Sound := by
  have same : SameAttempts s (s.marked mark) :=
    sameAttempts_of_quotes rfl rfl rfl rfl (fun i q => { q with quotaBlocked := mark i q })
      rfl (fun _ _ => ⟨rfl,rfl⟩)
      fun _ _ _ => rfl
  refine h.updated (f := fun i q => { q with quotaBlocked := mark i q })
    (fun _ _ _ => ⟨rfl,rfl⟩) (fun i q held => ?_)
    (fun _ _ _ => le_rfl) h.header.token (h.tokens.frame same) (h.seen.frame same)
  exact { h.quotes.balanced i q held with }

theorem blocked_eq_marked (s : State) (id : String) (sourceAdmission : Bool) : s.blocked id sourceAdmission =
    s.marked fun i q => if i = id then q.quotaBlocked || sourceAdmission else q.quotaBlocked := by
  unfold blocked marked OrderedMap.modify
  congr 2
  funext i q
  by_cases same : i = id <;> simp [same]

theorem Sound.blocked (h : s.Sound) (id : String) (sourceAdmission : Bool) :
    (s.blocked id sourceAdmission).Sound := by
  rw [blocked_eq_marked]
  exact h.marked _

theorem attemptAt_modify (held : s.quotes.get? id = some q) (g : PurchaseQuote → PurchaseQuote)
    (quotes : s'.quotes = s.quotes.modify id g) (i : String) (j : Nat) :
    s'.attemptAt i j = if i = id then (g q).attempts[j]?.map (g q,·) else s.attemptAt i j := by
  unfold attemptAt
  rw [quotes,get?_modify]
  by_cases same : i = id
  · subst same
    simp [held,map_eq_bind]
  · simp [same]

def CanReserve.quote (_ : s.CanReserve id digest units q c) : PurchaseQuote :=
  { q with observedUnits := q.observedUnits + units, attempts := q.attempts ++ [s.newAttempt q digest units] }

section Reservations

variable (can : s.CanReserve id digest units q c)
include can

theorem CanReserve.attemptAt_reserved (i : String) (j : Nat) :
    (s.reserved id digest units q c).attemptAt i j =
      if i = id then (q.attempts ++ [s.newAttempt q digest units])[j]?.map (can.quote,·)
        else s.attemptAt i j :=
  attemptAt_modify can.held (fun p => { p with
      observedUnits := q.observedUnits + units
      attempts := p.attempts ++ [s.newAttempt q digest units] }) rfl i j

theorem CanReserve.attemptAt_cases {i : String} {j : Nat} {q' : PurchaseQuote} {a : Attempt}
    (there : (s.reserved id digest units q c).attemptAt i j = some (q',a)) :
    (∃ p, s.attemptAt i j = some (p,a) ∧ q'.contract = p.contract) ∨
      (i,j) = (id,q.attempts.length) ∧ a = s.newAttempt q digest units ∧ q'.contract = q.contract := by
  rw [can.attemptAt_reserved] at there
  split_ifs at there with same
  · obtain ⟨_,found,equal⟩ := map_eq_some_iff.1 there
    cases equal
    rw [List.getElem?_append] at found
    split_ifs at found with old
    · exact .inl ⟨q,attemptAt_eq_some.2 ⟨same ▸ can.held,found⟩,rfl⟩
    · rw [List.getElem?_singleton] at found
      split_ifs at found with last
      cases found
      exact .inr ⟨by rw [same,show j = q.attempts.length by omega],rfl,rfl⟩
  · exact .inl ⟨q',there,rfl⟩

theorem CanReserve.exists_attemptAt {i : String} {j : Nat} {p : PurchaseQuote} {a : Attempt}
    (there : s.attemptAt i j = some (p,a)) :
    ∃ q', (s.reserved id digest units q c).attemptAt i j = some (q',a) ∧ q'.contract = p.contract := by
  rw [can.attemptAt_reserved]
  split_ifs with same
  · obtain ⟨held,found⟩ := attemptAt_eq_some.1 there
    cases can.held.symm.trans (same ▸ held)
    refine ⟨can.quote,?_,rfl⟩
    rw [List.getElem?_append_left (List.getElem?_eq_some_iff.1 found).1,found]
    rfl
  · exact ⟨p,there,rfl⟩

theorem CanReserve.attemptAt_last :
    (s.reserved id digest units q c).attemptAt id q.attempts.length =
      some (can.quote,s.newAttempt q digest units) := by
  rw [can.attemptAt_reserved]
  simp

theorem CanReserve.tokens (h : s.TokensSound) (token : s.nextToken ≠ 0) :
    (s.reserved id digest units q c).TokensSound := by
  have fresh : s.pending.get? s.nextToken = none := by
    by_contra held
    obtain ⟨p,used⟩ := ne_none_iff_exists'.1 held
    exact lt_irrefl _ (h.range _ p used).2
  have free (t : Nat) : s.pending.get? t ≠ some (id,q.attempts.length) := by
    intro used
    obtain ⟨p,a,there,-⟩ := h.held t _ _ used
    obtain ⟨held,found⟩ := attemptAt_eq_some.1 there
    cases can.held.symm.trans held
    simp at found
  have pending (t : Nat) : (s.reserved id digest units q c).pending.get? t =
      if t = s.nextToken then some (id,q.attempts.length) else s.pending.get? t := get?_insert _ _ _ _
  have size : (s.reserved id digest units q c).pending.size = s.pending.size + 1 := size_insert _ fresh
  refine ⟨?_,?_,?_,?_,?_,?_⟩
  · intro t i j used
    rw [pending] at used
    split_ifs at used with new
    · cases used
      exact ⟨_,_,can.attemptAt_last,rfl,fun modern => (if_neg (Bool.eq_false_iff.1 modern)).trans new.symm⟩
    · obtain ⟨p,a,there,waits,carries⟩ := h.held t i j used
      obtain ⟨q',there',same⟩ := can.exists_attemptAt there
      exact ⟨q',a,there',waits,fun modern => carries (same ▸ modern)⟩
  · intro i j q' a there waits
    obtain ⟨p,before,-⟩ | ⟨at_,-⟩ := can.attemptAt_cases there
    · obtain ⟨t,used⟩ := h.waits i j p a before waits
      refine ⟨t,?_⟩
      have other : t ≠ s.nextToken := (h.range t _ used).2.ne
      rw [pending,if_neg other,used]
    · exact ⟨s.nextToken,by rw [pending,if_pos rfl,at_]⟩
  · intro t t' p used used'
    rw [pending] at used used'
    split_ifs at used used' with new new'
    · exact new.trans new'.symm
    · exact absurd (used'.trans used.symm) (free t')
    · exact absurd (used.trans used'.symm) (free t)
    · exact h.unique t t' p used used'
  · intro t p used
    rw [pending] at used
    change t ≠ 0 ∧ t < s.nextToken + 1
    split_ifs at used with new
    · rw [new]
      exact ⟨token,Nat.lt_succ_self _⟩
    · obtain ⟨nonzero,less⟩ := h.range t p used
      exact ⟨nonzero,by omega⟩
  · have waiting := total_modify (fun p : PurchaseQuote => { p with
      observedUnits := q.observedUnits + units
      attempts := p.attempts ++ [s.newAttempt q digest units] }) (fun _ p => p.waiting) can.held
    have one : can.quote.waiting = q.waiting + 1 := by
      simp [CanReserve.quote,PurchaseQuote.waiting,newAttempt]
    have before := h.count
    change (s.reserved id digest units q c).quotes.total _ + _ = _ + can.quote.waiting at waiting
    omega
  · rw [size]
    exact can.room

theorem CanReserve.seen (h : s.SeenSound) : (s.reserved id digest units q c).SeenSound := by
  have old {i : String} {j : Nat} {provider : NodeAddr} {d : Digest}
      (there : (s.reserved id digest units q c).LegacyAt i j provider d) : s.LegacyAt i j provider d ∨
      (i,j) = (id,q.attempts.length) ∧ q.contract.billing.isLegacy = true ∧
        provider = c.provider ∧ d = digest := by
    obtain ⟨q',a,there,legacy,paid,rfl⟩ := there
    have paid' {p : PurchaseQuote} (same : q'.contract = p.contract) : s.providerOf p = some provider := by
      rw [← paid]
      simp only [providerOf,same]
      rfl
    obtain ⟨p,before,same⟩ | ⟨at_,rfl,same⟩ := can.attemptAt_cases there
    · exact .inl ⟨p,a,before,same ▸ legacy,paid' same,rfl⟩
    · have paid := paid' same
      simp only [providerOf,can.channel,map_some,some.injEq] at paid
      exact .inr ⟨at_,same ▸ legacy,paid.symm,rfl⟩
  have mem {entry : NodeAddr × Digest} (before : entry ∈ s.seen) :
      entry ∈ (s.reserved id digest units q c).seen := by
    change entry ∈ if q.contract.billing.isLegacy then insert (c.provider,digest) s.seen else s.seen
    split_ifs
    · exact Finset.mem_insert_of_mem before
    · exact before
  refine ⟨fun i j provider d there => ?_,fun i j i' j' provider d there there' => ?_⟩
  · obtain before | ⟨-,legacy,rfl,rfl⟩ := old there
    · exact mem (h.seen i j provider d before)
    · change _ ∈ if q.contract.billing.isLegacy then insert (c.provider,_) s.seen else s.seen
      rw [if_pos legacy]
      exact Finset.mem_insert_self _ _
  · obtain before | ⟨at_,legacy,rfl,rfl⟩ := old there
    · obtain before' | ⟨-,legacy,rfl,rfl⟩ := old there'
      · exact h.unique i j i' j' provider d before before'
      · exact absurd (h.seen i j _ _ before) (can.unseen legacy)
    · obtain before' | ⟨at_',-⟩ := old there'
      · exact absurd (h.seen i' j' _ _ before') (can.unseen legacy)
      · exact Prod.mk.injEq .. ▸ at_.trans at_'.symm

theorem CanReserve.balanced (h : q.Balanced s.limits) : can.quote.Balanced s.limits := by
  obtain ⟨observed,submitted,completed,allowed,fits,nonzero,legacy,modern⟩ := h
  refine ⟨?_,?_,completed,can.allowed,can.fits,fun a mem => ?_,fun isLegacy => ⟨(legacy isLegacy).1,?_⟩,
    fun isModern a mem => ?_⟩
  · simp only [CanReserve.quote,map_append,sum_append,newAttempt,map_cons,map_nil,
      sum_cons,sum_nil]
    omega
  · simpa [CanReserve.quote,newAttempt,Attempt.submittedUnits] using submitted
  · obtain before | rfl := mem_append.1 mem |>.imp_right mem_singleton.1
    · exact nonzero a before
    · exact can.nonzero
  · rw [show can.quote.attempts.length = q.attempts.length + 1 by simp [CanReserve.quote]]
    exact can.packets isLegacy
  · obtain before | rfl := mem_append.1 mem |>.imp_right mem_singleton.1
    · exact modern isModern a before
    · exact ⟨rfl,can.plain isModern⟩

end Reservations

theorem Sound.reserved (h : s.Sound) (can : s.CanReserve id digest units q c) :
    (s.reserved id digest units q c).Sound := by
  refine h.updated (f := fun i p => if i = id then { p with
      observedUnits := q.observedUnits + units
      attempts := p.attempts ++ [s.newAttempt q digest units] } else p) (fun i p _ => ?_)
        (fun i p held => ?_) (fun i p _ => ?_)
    (Nat.succ_ne_zero _) (can.tokens h.tokens h.header.token) (can.seen h.seen)
  · split_ifs <;> exact ⟨rfl,rfl⟩
  · split_ifs with same
    · cases can.held.symm.trans (same ▸ held)
      exact can.balanced (h.quotes.balanced i _ held)
    · exact h.quotes.balanced i p held
  · split_ifs <;> exact le_rfl

theorem Sound.reservation (h : s.Sound) (step : s.Reservation s') : s'.Sound := by
  cases step with
  | kept => exact h
  | blocked id sourceAdmission => exact h.blocked id sourceAdmission
  | reserved can => exact h.reserved can

end State

end Fips.Relay.Buyer
