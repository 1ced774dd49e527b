import Fips.Relay.Frames

set_option autoImplicit false

/-! Admissions and completions keep the books. -/

namespace Fips.Relay

open OrderedMap Option

namespace RelayLedger

variable {l l' : RelayLedger}

theorem attemptKey_injective {t t' : Nat} (bound : t < 2^64) (bound' : t' < 2^64)
    (h : attemptKey t = attemptKey t') :
    t = t' := by
  have values := congrArg Fin.val h
  simp only [attemptKey] at values
  omega

section Transacted

variable {id : String} {a : Account} {c : Channel} {f : Account → Account} {g : ChannelUsage → ChannelUsage}

/-- One account and the usage of its channel change, but neither a contract nor what is active. -/
structure Transacts (l l' : RelayLedger) (id : String) (a : Account) (c : Channel) (f : Account → Account)
    (g : ChannelUsage → ChannelUsage) : Prop where
  account : l.accounts.get? id = some a
  channel : l.channels.get? a.contract.channelId = some c
  accounts : l'.accounts = l.accounts.modify id f
  channels : l'.channels = l.channels.modify a.contract.channelId fun c => withUsage c g
  contract : (f a).contract = a.contract
  active : (f a).active = a.active
  limits : l'.limits = l.limits
  history : l'.history = l.history

variable (t : Transacts l l' id a c f g)
include t

theorem Transacts.get?_account (i : String) :
    l'.accounts.get? i = if i = id then some (f a) else l.accounts.get? i := by
  rw [t.accounts,get?_modify]
  by_cases same : i = id
  · subst same
    simp [t.account]
  · simp [same]

theorem Transacts.exists_account {i : String} {b' : Account} (hb' : l'.accounts.get? i = some b') :
    ∃ b, l.accounts.get? i = some b ∧ b'.active = b.active ∧ b'.contract = b.contract ∧
      ((f a).Balanced l.limits → b.Balanced l.limits → b'.Balanced l.limits) := by
  rw [t.get?_account] at hb'
  split_ifs at hb' with same
  · subst same
    obtain rfl := some.inj hb'
    exact ⟨a,t.account,t.active,t.contract,fun balanced _ => balanced⟩
  · exact ⟨b',hb',rfl,rfl,fun _ balanced => balanced⟩

theorem Transacts.dueOn (units : Usage → Nat) (i : String) :
    l'.dueOn units i + (if i = a.contract.channelId then a.contract.price.due (units a.usage) else 0) =
      l.dueOn units i + if i = a.contract.channelId then a.contract.price.due (units (f a).usage) else 0 := by
  have changed := dueOn_modify units t.accounts t.account i
  rw [t.contract] at changed
  simp only [eq_comm (a := i)]
  exact changed

theorem Transacts.accountsSound (h : l.AccountsSound) (balanced : (f a).Balanced l.limits) :
    l'.AccountsSound := by
  refine h.frame t.limits (sameTerms_of_usage t.channels) fun i b' hb' => ?_
  obtain ⟨b,hb,-,contract,kept⟩ := t.exists_account hb'
  exact ⟨b,hb,contract,kept balanced⟩

/-- The books stay sound when the channel reserves and submits what its account does, within its limits. -/
theorem Transacts.sound (h : l.Sound) (balanced : (f a).Balanced l.limits)
    (reserved : (g c.usage).reservedMsat + a.contract.price.due a.usage.reservedUnits =
      c.usage.reservedMsat + a.contract.price.due (f a).usage.reservedUnits)
    (submitted : (g c.usage).submittedMsat + a.contract.price.due a.usage.submittedUnits =
      c.usage.submittedMsat + a.contract.price.due (f a).usage.submittedUnits)
    (lost : (g c.usage).lostMsat = c.usage.lostMsat) (paid : (g c.usage).paidMsat = c.usage.paidMsat)
    (within : (g c.usage).reservedMsat = c.usage.reservedMsat ∨ c.active = true ∧
      (g c.usage).reservedMsat ≤ c.terms.capacitySat * 1000 ∧
        (g c.usage).reservedMsat ≤ U64.saturatingAdd c.usage.paidMsat c.terms.graceMsat - l.carried c.terms)
    (tokens : l'.TokensSound) (fingerprints : l'.FingerprintsSound) : l'.Sound := by
  have old := h.channels.facts t.channel
  have dueReserved : ∀ i, l'.reservedOn i + _ = l.reservedOn i + _ := t.dueOn (·.reservedUnits)
  have dueSubmitted : ∀ i, l'.submittedOn i + _ = l.submittedOn i + _ := t.dueOn (·.submittedUnits)
  refine ⟨t.accountsSound h.accounts balanced,?_,tokens,fingerprints,?_,?_,
    ⟨?_,?_,t.history ▸ t.limits ▸ h.bounds.history⟩⟩
  · have atReserved := dueReserved a.contract.channelId
    have atSubmitted := dueSubmitted a.contract.channelId
    rw [if_pos rfl,if_pos rfl] at atReserved atSubmitted
    have wasReserved := old.reserved
    have wasSubmitted := old.submitted
    have wasCapacity := old.capacity
    have wasCredit := old.credit
    unfold U64.saturatingAdd at within
    refine h.channels.update t.channel t.channels (fun i other => ?_)
      (fun i other => ?_) (by omega) (by omega)
      (paid ▸ old.paid) (by omega) (by omega)
    · simpa only [if_neg other,Nat.add_zero] using dueReserved i
    · simpa only [if_neg other,Nat.add_zero] using dueSubmitted i
  · refine h.activity.update t.channels fun i b' hb' => ?_
    obtain ⟨b,hb,active,contract,-⟩ := t.exists_account hb'
    exact ⟨b,hb,active,contract⟩
  · refine h.credit.update h.activity t.channel t.history t.channels ?_ fun _ => ?_
    · exact within.imp (fun same => by rw [ChannelUsage.debt,same,paid,ChannelUsage.debt]) fun more => more.1
    · exact within.imp (fun same => ⟨same.le,paid.ge⟩) fun more => paid.symm ▸ more.2.2
  · rw [t.channels,t.limits]
    exact (size_modify _ _ _).le.trans h.bounds.channels
  · rw [t.accounts,t.limits]
    exact (size_modify _ _ _).le.trans h.bounds.accounts

end Transacted

section Reserved

variable {ext : Externals} {r : ForwardingRequest} {nowUnix : Nat} {windows : Option (OrderedMap String Nat)}
  {id : String} {a : Account} {c : Channel} {digest : Digest}

def admitted (l : RelayLedger) (r : ForwardingRequest) (id : String) (a : Account)
    (c : Channel) (digest : Digest) :
    RelayLedger :=
  l.reserve r id a digest (l.nextToken + 1) r.sessionPayload.length
    (a.usage.reservedUnits + r.sessionPayload.length)
    (c.usage.reservedMsat + a.extraCost r.sessionPayload.length)

def served (l : RelayLedger) (r : ForwardingRequest) (a : Account) (digest : Digest) : Account :=
  { a with
    usage := { a.usage with reservedUnits := a.usage.reservedUnits + r.sessionPayload.length }
    attempts := a.attempts.insert digest ⟨l.nextToken + 1,r.sessionPayload.length,.pending⟩ }

section Admissions

variable (can : l.CanAdmit ext r nowUnix windows id a c digest)
include can

theorem CanAdmit.fresh (h : l.Sound) : a.attempts.get? digest = none := by
  rw [eq_none_iff_forall_ne_some]
  intro t ht
  cases legacy : a.contract.billing.isLegacy with
  | true =>
    refine can.unseen legacy ((h.fingerprints.seen _ _).2
      ⟨id,a,c,can.account,legacy,can.channel,can.buyer,?_⟩)
    rw [ht]
    rfl
  | false =>
    have balanced := h.accounts.balanced id a can.account
    have here : l.attemptAt id digest = some t := by simp [attemptAt,can.account,ht]
    have range := (h.tokens.range id digest t here).2
    have keyed := (balanced.keyed legacy digest t ht).symm.trans can.keyed
    rw [legacy] at keyed
    have same := attemptKey_injective (by have := h.tokens.next; omega) can.token keyed
    omega

theorem CanAdmit.transacts : Transacts l (l.admitted r id a c digest) id a c (fun b =>
    { b with
      usage := { b.usage with reservedUnits := a.usage.reservedUnits + r.sessionPayload.length }
      attempts := b.attempts.insert digest ⟨l.nextToken + 1,r.sessionPayload.length,.pending⟩ }) fun u =>
    { u with reservedMsat := c.usage.reservedMsat + a.extraCost r.sessionPayload.length } :=
  ⟨can.account,can.channel,rfl,rfl,rfl,rfl,rfl,rfl⟩

theorem CanAdmit.get?_account (i : String) :
    (l.admitted r id a c digest).accounts.get? i = if i = id then some (l.served r a digest)
      else l.accounts.get? i :=
  can.transacts.get?_account i

theorem CanAdmit.attemptAt (i : String) (d : Digest) :
    (l.admitted r id a c digest).attemptAt i d = if i = id ∧ d = digest then
      some ⟨l.nextToken + 1,r.sessionPayload.length,.pending⟩ else l.attemptAt i d := by
  unfold RelayLedger.attemptAt
  rw [can.get?_account]
  by_cases same : i = id
  · subst same
    simp only [if_true,bind_some,served,get?_insert,true_and,can.account]
  · simp [same]

theorem CanAdmit.balanced (h : l.Sound) : (l.served r a digest).Balanced l.limits := by
  refine (h.accounts.balanced id a can.account).reserve (can.fresh h) can.nonempty
    can.units can.fits can.packets ?_
  intro modern
  rw [can.keyed,modern]
  rfl

theorem CanAdmit.within (h : l.Sound) :
    c.usage.reservedMsat + a.extraCost r.sessionPayload.length ≤ c.terms.capacitySat * 1000 ∧
    c.usage.reservedMsat + a.extraCost r.sessionPayload.length ≤
      U64.saturatingAdd c.usage.paidMsat c.terms.graceMsat - l.carried c.terms := by
  obtain ⟨limit,limited,le⟩ := can.limit
  rw [h.bounds.reservationLimit_eq] at limited
  split_ifs at limited
  cases limited
  exact le_min_iff.1 le

theorem CanAdmit.fingerprinted (i : String) (buyer : NodeAddr) (d : Digest) :
    (l.admitted r id a c digest).Fingerprinted i buyer d ↔ l.Fingerprinted i buyer d ∨
      i = id ∧ buyer = r.ingress ∧ d = digest ∧ a.contract.billing.isLegacy = true := by
  have terms := sameTerms_of_usage can.transacts.channels
  constructor
  · rintro ⟨b',e',hb',legacy,he',owner,attempt⟩
    obtain ⟨e,he,sameTerms,-⟩ := terms.exists_old he'
    rw [can.get?_account] at hb'
    split_ifs at hb' with same
    · subst same
      obtain rfl := some.inj hb'
      cases can.channel.symm.trans he
      by_cases new : d = digest
      · exact .inr ⟨rfl,by rw [← owner,sameTerms,can.buyer],new,legacy⟩
      · refine .inl ⟨a,c,can.account,legacy,he,sameTerms ▸ owner,?_⟩
        simpa [served,get?_insert,new] using attempt
    · exact .inl ⟨b',e,hb',legacy,he,sameTerms ▸ owner,attempt⟩
  · rintro (⟨b,e,hb,legacy,he,owner,attempt⟩ | ⟨rfl,rfl,rfl,legacy⟩)
    · obtain ⟨e',he',sameTerms,-⟩ := terms.exists_new he
      by_cases same : i = id
      · subst same
        cases can.account.symm.trans hb
        refine ⟨l.served r a digest,e',by rw [can.get?_account,if_pos rfl],legacy,he',sameTerms ▸ owner,?_⟩
        simp only [served,get?_insert]
        split_ifs
        · rfl
        · exact attempt
      · exact ⟨b,e',by rw [can.get?_account,if_neg same,hb],legacy,he',sameTerms ▸ owner,attempt⟩
    · obtain ⟨e',he',sameTerms,-⟩ := terms.exists_new can.channel
      refine ⟨l.served r a d,e',by rw [can.get?_account,if_pos rfl],legacy,he',sameTerms ▸ can.buyer,?_⟩
      simp [served,get?_insert]

end Admissions

theorem Sound.admitted (h : l.Sound) (can : l.CanAdmit ext r nowUnix windows id a c digest) :
    (l.admitted r id a c digest).Sound := by
  have more := a.contract.price.due_mono (Nat.le_add_right a.usage.reservedUnits r.sessionPayload.length)
  have old {i d x} (here : l.attemptAt i d = some x) : x.token ≠ l.nextToken + 1 :=
    (Nat.lt_succ_of_le (h.tokens.range i d x here).2).ne
  refine can.transacts.sound h (can.balanced h) ?_ rfl rfl rfl (.inr ⟨can.open_,can.within h⟩)
    ⟨?_,?_,?_,?_,?_⟩ ⟨?_,?_⟩
  · simp only [Account.extraCost]
    omega
  · intro t i d
    have inserted : (l.admitted r id a c digest).pending.get? t =
        if t = l.nextToken + 1 then some (id,digest) else l.pending.get? t := get?_insert _ _ _ _
    rw [inserted,can.attemptAt]
    by_cases new : t = l.nextToken + 1
    · rw [if_pos new]
      constructor
      · intro same
        obtain ⟨rfl,rfl⟩ := Prod.mk.inj (some.inj same)
        exact ⟨_,if_pos ⟨rfl,rfl⟩,new.symm,rfl⟩
      · rintro ⟨x,here,token,-⟩
        split_ifs at here with same
        · rw [same.1,same.2]
        · exact absurd (token.trans new) (old here)
    · rw [if_neg new,h.tokens.pending]
      constructor
      · rintro ⟨x,here,token,waiting⟩
        refine ⟨x,?_,token,waiting⟩
        rw [if_neg,here]
        rintro ⟨rfl,rfl⟩
        have absent : l.attemptAt i d = none := by simp [RelayLedger.attemptAt,can.account,can.fresh h]
        rw [absent] at here
        cases here
      · rintro ⟨x,here,token,waiting⟩
        split_ifs at here
        · cases here
          exact absurd token.symm new
        · exact ⟨x,here,token,waiting⟩
  · intro i d x i' d' x' here here' token
    rw [can.attemptAt] at here here'
    split_ifs at here here' with new new'
    · exact ⟨new.1.trans new'.1.symm,new.2.trans new'.2.symm⟩
    · cases here
      exact absurd token.symm (old here')
    · cases here'
      exact absurd token (old here)
    · exact h.tokens.unique i d x i' d' x' here here' token
  · intro i d x here
    rw [can.attemptAt] at here
    split_ifs at here
    · cases here
      exact ⟨Nat.succ_ne_zero _,le_rfl⟩
    · obtain ⟨positive,le⟩ := h.tokens.range i d x here
      exact ⟨positive,le.trans (Nat.le_succ _)⟩
  · have fresh : l.pending.get? (l.nextToken + 1) = none := by
      rw [eq_none_iff_forall_ne_some]
      rintro ⟨i,d⟩ held
      obtain ⟨x,here,token,-⟩ := (h.tokens.pending _ i d).1 held
      exact old here token
    show (l.pending.insert (l.nextToken + 1) (id,digest)).size ≤ _
    rw [size_insert _ fresh]
    exact can.room
  · exact can.token
  · have seen : (l.admitted r id a c digest).seen =
        if a.contract.billing.isLegacy then insert (r.ingress,digest) l.seen else l.seen := rfl
    simp only [can.fingerprinted,exists_or,← h.fingerprints.seen,seen]
    cases a.contract.billing.isLegacy with
    | true => simp [or_comm]
    | false => simp
  · intro i i' buyer d first second
    rw [can.fingerprinted] at first second
    obtain first | ⟨rfl,rfl,rfl,legacy⟩ := first
    · obtain second | ⟨rfl,rfl,rfl,legacy⟩ := second
      · exact h.fingerprints.unique i i' buyer d first second
      · exact absurd ((h.fingerprints.seen _ _).2 ⟨i,first⟩) (can.unseen legacy)
    · obtain second | ⟨rfl,-⟩ := second
      · exact absurd ((h.fingerprints.seen _ _).2 ⟨i',second⟩) (can.unseen legacy)
      · rfl

end Reserved

theorem AccountsSound.submittedOn_le (h : l.AccountsSound) (i : String) :
    l.submittedOn i ≤ l.reservedOn i := by
  refine total_le_total fun id a ha => ?_
  split_ifs
  · have reserved := (h.balanced id a ha).reserved
    exact a.contract.price.due_mono (by omega)
  · exact le_rfl

theorem submitted_le_of_valid {e : RetiredRouteEvidence} {expiry : Nat} (h : e.valid expiry = true) :
    e.submittedMsat ≤ e.reservedMsat := by
  unfold RetiredRouteEvidence.valid at h
  split_ifs at h
  · obtain rfl : e = {} := by simpa using h
    exact le_rfl
  · simp only [decide_eq_true_eq] at h
    exact h.2.2

theorem Sound.submitted_add_lost_le (h : l.Sound) {id : String} {c : Channel}
    (hc : l.channels.get? id = some c) :
    c.usage.submittedMsat + c.usage.lostMsat ≤ c.usage.reservedMsat := by
  have reserved := h.channels.reserved id c hc
  have submitted := h.channels.submitted id c hc
  have accounts := h.accounts.submittedOn_le id
  have retired := submitted_le_of_valid (h.channels.evidence id c hc)
  omega

section Finished

variable {token : Nat} {id : String} {digest : Digest} {a : Account} {t : Attempt} {c : Channel}

/-- A token in use and what it stands for. -/
structure Waits (l : RelayLedger) (token : Nat) (id : String) (digest : Digest) (a : Account)
    (t : Attempt) (c : Channel) :
    Prop where
  held : l.pending.get? token = some (id,digest)
  account : l.accounts.get? id = some a
  attempt : a.attempts.get? digest = some t
  channel : l.channels.get? a.contract.channelId = some c

def submittedDelta (a : Account) (digest : Digest) (t : Attempt) (outcome : ForwardingOutcome) : Nat :=
  a.contract.price.due (a.finish digest t outcome).usage.submittedUnits -
    a.contract.price.due a.usage.submittedUnits

section Completions

variable (w : l.Waits token id digest a t c)
include w

theorem Waits.attemptAt : l.attemptAt id digest = some t := by
  simp [RelayLedger.attemptAt,w.account,w.attempt]

theorem Waits.pending (h : l.TokensSound) : t.token = token ∧ t.state = .pending := by
  obtain ⟨x,here,same,waiting⟩ := (h.pending token id digest).1 w.held
  cases w.attemptAt.symm.trans here
  exact ⟨same,waiting⟩

section Outcomes

variable (outcome : ForwardingOutcome)

theorem Waits.transacts : Transacts l (l.finished token id digest a t outcome) id a c
    (fun b => b.finish digest t outcome) fun u =>
    { u with submittedMsat := U64.wrappingAdd u.submittedMsat (submittedDelta a digest t outcome) } :=
  ⟨w.account,w.channel,rfl,rfl,Account.contract_finish _ _ _ _,Account.active_finish _ _ _ _,rfl,rfl⟩

theorem Waits.get?_account (i : String) :
    (l.finished token id digest a t outcome).accounts.get? i =
      if i = id then some (a.finish digest t outcome) else l.accounts.get? i :=
      (w.transacts outcome).get?_account i

theorem Waits.exists_of_finished {outcome : ForwardingOutcome} {i : String} {d : Digest} {x : Attempt}
    (here : (l.finished token id digest a t outcome).attemptAt i d = some x) :
    ∃ y, l.attemptAt i d = some y ∧ x.token = y.token ∧ x.units = y.units ∧
      (i = id ∧ d = digest ∧ x.state = outcome.state ∨ ¬ (i = id ∧ d = digest) ∧ x = y) := by
  unfold RelayLedger.attemptAt at here
  rw [w.get?_account] at here
  by_cases same : i = id
  · subst same
    rw [if_pos rfl] at here
    obtain ⟨y,old,tokens,units,⟨rfl,-,state⟩ | ⟨other,rfl⟩⟩ := Account.exists_attempt_of_finish here
    · exact ⟨y,by simpa [RelayLedger.attemptAt,w.account] using old,tokens,units,.inl ⟨rfl,rfl,state⟩⟩
    · exact ⟨x,by simpa [RelayLedger.attemptAt,w.account] using old,rfl,rfl,
        .inr ⟨fun both => other both.2,rfl⟩⟩
  · rw [if_neg same] at here
    exact ⟨x,here,rfl,rfl,.inr ⟨fun both => same both.1,rfl⟩⟩

theorem Waits.attemptAt_of_ne {i : String} {d : Digest}
    (other : ¬ (i = id ∧ d = digest)) :
    (l.finished token id digest a t outcome).attemptAt i d = l.attemptAt i d := by
  unfold RelayLedger.attemptAt
  rw [w.get?_account]
  by_cases same : i = id
  · subst same
    have apart : d ≠ digest := fun equal => other ⟨rfl,equal⟩
    rw [w.account]
    cases legacy : a.contract.billing.isLegacy with
    | true => simp [Account.get?_attempts_finish_legacy legacy,apart]
    | false => simp [Account.get?_attempts_finish_modern legacy,apart]
  · rw [if_neg same]

theorem Waits.traces (i : String) :
    ((l.finished token id digest a t outcome).accounts.get? i).map Account.traces =
      (l.accounts.get? i).map Account.traces := by
  rw [w.get?_account]
  by_cases same : i = id
  · subst same
    rw [if_pos rfl,w.account,map_some,map_some]
    unfold Account.traces
    rw [Account.contract_finish]
    cases legacy : a.contract.billing.isLegacy with
    | true => simp [Account.get?_attempts_finish_legacy legacy]
    | false => simp
  · rw [if_neg same]

end Outcomes

theorem Waits.due_mono (h : l.Sound) (outcome : ForwardingOutcome) :
    a.contract.price.due a.usage.submittedUnits ≤
      a.contract.price.due (a.finish digest t outcome).usage.submittedUnits := by
  refine a.contract.price.due_mono ?_
  rw [(h.accounts.balanced id a w.account).usage_finish w.attempt (w.pending h.tokens).2 outcome]
  exact Nat.le_add_right _ _

theorem Waits.submitted_eq (h : l.Sound) (outcome : ForwardingOutcome) :
    U64.wrappingAdd c.usage.submittedMsat (submittedDelta a digest t outcome) =
      c.usage.submittedMsat + submittedDelta a digest t outcome := by
  have balanced := h.accounts.balanced id a w.account
  have waiting := (w.pending h.tokens).2
  have le := ((w.transacts outcome).accountsSound h.accounts
    (balanced.finish w.attempt waiting outcome)).submittedOn_le
    a.contract.channelId
  have old := h.channels.facts w.channel
  have retired := submitted_le_of_valid old.evidence
  obtain ⟨-,fits,-⟩ := validateChannel_eq_ok old.terms
  have dueReserved : RelayLedger.reservedOn _ _ + _ = l.reservedOn _ + _ :=
    (w.transacts outcome).dueOn (·.reservedUnits) a.contract.channelId
  have dueSubmitted : RelayLedger.submittedOn _ _ + _ = l.submittedOn _ + _ :=
    (w.transacts outcome).dueOn (·.submittedUnits) a.contract.channelId
  have more := w.due_mono h outcome
  rw [if_pos rfl,if_pos rfl] at dueReserved dueSubmitted
  simp only [balanced.usage_finish w.attempt waiting outcome] at dueReserved
  have reserved := old.reserved
  have submitted := old.submitted
  have capacity := old.capacity
  refine U64.wrappingAdd_eq ?_
  unfold submittedDelta
  omega

end Completions

theorem Sound.finished (h : l.Sound) (w : l.Waits token id digest a t c) (outcome : ForwardingOutcome) :
    (l.finished token id digest a t outcome).Sound := by
  obtain ⟨owns,waiting⟩ := w.pending h.tokens
  have balanced := h.accounts.balanced id a w.account
  have settled : outcome.state ≠ .pending := by cases outcome <;> simp [ForwardingOutcome.state]
  refine (w.transacts outcome).sound h (balanced.finish w.attempt waiting outcome) ?_ ?_ rfl rfl (.inl rfl)
    ⟨?_,?_,?_,?_,h.tokens.next⟩ ?_
  · rw [balanced.usage_finish w.attempt waiting outcome]
  · have more := w.due_mono h outcome
    have same := w.submitted_eq h outcome
    simp only [submittedDelta] at same ⊢
    omega
  · intro s i d
    have erased : (l.finished token id digest a t outcome).pending.get? s =
        if s = token then none else l.pending.get? s := get?_erase _ _ _
    rw [erased]
    constructor
    · intro held
      split_ifs at held with same
      obtain ⟨x,here,tokens,waits⟩ := (h.tokens.pending s i d).1 held
      refine ⟨x,?_,tokens,waits⟩
      rw [w.attemptAt_of_ne outcome,here]
      rintro ⟨rfl,rfl⟩
      cases w.attemptAt.symm.trans here
      exact same (tokens.symm.trans owns)
    · rintro ⟨x,here,tokens,waits⟩
      obtain ⟨y,old,-,-,⟨-,-,state⟩ | ⟨other,rfl⟩⟩ := w.exists_of_finished here
      · exact absurd (state.symm.trans waits) settled
      · rw [if_neg,h.tokens.pending]
        · exact ⟨x,old,tokens,waits⟩
        · rintro rfl
          exact other (h.tokens.unique i d x id digest t old w.attemptAt (tokens.trans owns.symm))
  · intro i d x i' d' x' here here' tokens
    obtain ⟨y,old,same,-⟩ := w.exists_of_finished here
    obtain ⟨y',old',same',-⟩ := w.exists_of_finished here'
    exact h.tokens.unique i d y i' d' y' old old' (same ▸ same' ▸ tokens)
  · intro i d x here
    obtain ⟨y,old,same,-⟩ := w.exists_of_finished here
    rw [same]
    exact h.tokens.range i d y old
  · exact (size_erase_le _ _).trans h.tokens.room
  · exact h.fingerprints.frame rfl
      (fingerprinted_iff (sameTerms_of_usage (w.transacts outcome).channels) (w.traces outcome))

end Finished

end RelayLedger

end Fips.Relay
