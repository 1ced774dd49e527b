import Fips.Lib.Checked
import Fips.Relay.Buyer

set_option autoImplicit false

/-! What holds of the state of a buyer between any two calls. -/

namespace Fips.Relay.Buyer

def Attempt.submittedUnits (a : Attempt) : Nat := if a.outcome = .submitted then a.units else 0

theorem Attempt.sum_submittedUnits_le (l : List Attempt) :
    (l.map submittedUnits).sum ≤ (l.map (·.units)).sum := by
  refine List.sum_le_sum fun a _ => ?_
  unfold submittedUnits
  split_ifs <;> omega

namespace PurchaseQuote

def waiting (q : PurchaseQuote) : Nat := q.attempts.countP fun a => a.outcome = .pending

/-- A quote counts what its attempts carried, within its quota. -/
structure Balanced (q : PurchaseQuote) (limits : Limits) : Prop where
  observed : q.observedUnits = q.completed.observedUnits + (q.attempts.map (·.units)).sum
  submitted : q.submittedUnits = q.completed.submittedUnits + (q.attempts.map Attempt.submittedUnits).sum
  completed : q.completed.submittedUnits ≤ q.completed.observedUnits
  allowed : q.observedUnits ≤ q.contract.maxUnits
  fits : q.observedUnits < 2^64
  nonzero : ∀ a ∈ q.attempts, a.units ≠ 0
  legacy : q.contract.billing.isLegacy = true →
    q.completed.observedUnits = 0 ∧ q.attempts.length ≤ limits.maxPacketsPerContract
  modern : q.contract.billing.isLegacy = false → ∀ a ∈ q.attempts, a.outcome = .pending ∧ a.digest = 0

theorem Balanced.submitted_le {q : PurchaseQuote} {limits : Limits} (h : q.Balanced limits) :
    q.submittedUnits ≤ q.observedUnits := by
  have attempts := Attempt.sum_submittedUnits_le q.attempts
  have completed := h.completed
  rw [h.submitted,h.observed]
  omega

end PurchaseQuote

namespace State

def retiredMsat (s : State) (id : String) : Nat :=
  (((s.channels.get? id).bind (·.retired)).map (·.submittedMsat)).getD 0

def evidence (s : State) (id : String) : Nat :=
  s.retiredMsat id +
    s.quotes.total fun _ q => if q.contract.channelId = id then q.contract.price.due q.submittedUnits else 0

def authorized (s : State) : Nat :=
  (s.history.map (·.authorizedSat)).getD 0 + s.channels.total fun _ c => c.authorizedSat

structure HeaderSound (s : State) : Prop where
  version : s.version = if s.history.isSome then 4 else 3
  history : ∀ h, s.history = some h → h.valid = true
  budget : s.totalBudgetSat ≠ 0
  token : s.nextToken ≠ 0
  channels : s.channels.size ≤ s.limits.maxChannels
  quotes : s.quotes.size ≤ s.limits.maxContracts

/-- What a channel that was accepted keeps for good. -/
structure ChannelFacts (s : State) (id : String) (c : PurchaseChannel) : Prop where
  key : c.terms.id = id
  terms : validateChannel c.terms = .ok (c.terms.capacitySat * 1000)
  buyer : c.terms.buyer = s.localAddr
  provider : c.provider ≠ s.localAddr
  advance : c.advanceMsat ≤ c.terms.capacitySat * 1000
  capacity : c.authorizedSat ≤ c.terms.capacitySat
  retired : ∃ e, c.retired = some e ∧ e.valid c.terms.expiresUnix = true ∧ e.submittedMsat < 2^64

structure ChannelsSound (s : State) : Prop where
  facts : ∀ id c, s.channels.get? id = some c → s.ChannelFacts id c
  active : ∀ id c id' c', s.channels.get? id = some c → s.channels.get? id' = some c' →
    c.active = true → c'.active = true →
    c.provider = c'.provider → c.terms.mintUrl = c'.terms.mintUrl → id = id'

/-- The policy: the budget over all channels, and on each channel no more than was earned or advanced. -/
structure BudgetSound (s : State) : Prop where
  fits : s.authorized < 2^64
  within : s.authorized ≤ s.totalBudgetSat
  earned : ∀ id c, s.channels.get? id = some c → c.authorizedSat ≤ ceilSat (s.evidence id + c.advanceMsat)

/-- A quote and the channel it was accepted on. -/
structure QuoteFacts (s : State) (q : PurchaseQuote) (c : PurchaseChannel) (e : RetiredRouteEvidence) :
    Prop where
  held : s.channels.get? q.contract.channelId = some c
  retired : c.retired = some e
  valid : validateContract q.contract c.terms = .ok ()
  live : e.rejects q.contract.expiresUnix = false
  onward : q.contract.destination ≠ c.provider
  active : q.active = true → c.active = true

structure QuotesSound (s : State) : Prop where
  key : ∀ id q, s.quotes.get? id = some q → q.contract.id = id
  channel : ∀ id q, s.quotes.get? id = some q → ∃ c e, s.QuoteFacts q c e
  balanced : ∀ id q, s.quotes.get? id = some q → q.Balanced s.limits
  active : ∀ id q id' q', s.quotes.get? id = some q → s.quotes.get? id' = some q' →
    q.active = true → q'.active = true →
    s.providerOf q = s.providerOf q' → q.contract.destination = q'.contract.destination → id = id'

def attemptAt (s : State) (id : String) (i : Nat) : Option (PurchaseQuote × Attempt) := do
  let q ← s.quotes.get? id
  let a ← q.attempts[i]?
  some (q,a)

/-- Every token in use names the position of one waiting attempt, which carries it unless it is of a
legacy quote. -/
structure TokensSound (s : State) : Prop where
  held : ∀ t id i, s.pending.get? t = some (id,i) → ∃ q a, s.attemptAt id i = some (q,a) ∧
    a.outcome = .pending ∧
    (q.contract.billing.isLegacy = false → a.token = t)
  waits : ∀ id i q a, s.attemptAt id i = some (q,a) → a.outcome = .pending →
    ∃ t, s.pending.get? t = some (id,i)
  unique : ∀ t t' p, s.pending.get? t = some p → s.pending.get? t' = some p → t = t'
  range : ∀ t p, s.pending.get? t = some p → t ≠ 0 ∧ t < s.nextToken
  count : s.quotes.total (fun _ q => q.waiting) = s.pending.size
  room : s.pending.size ≤ s.limits.maxPending

/-- An attempt of a legacy quote, by its provider and digest. -/
def LegacyAt (s : State) (id : String) (i : Nat) (provider : NodeAddr) (digest : Digest) : Prop :=
  ∃ q a, s.attemptAt id i = some (q,a) ∧ q.contract.billing.isLegacy = true ∧ s.providerOf q = some provider ∧
    a.digest = digest

structure SeenSound (s : State) : Prop where
  seen : ∀ id i provider digest, s.LegacyAt id i provider digest → (provider,digest) ∈ s.seen
  unique : ∀ id i id' i' provider digest, s.LegacyAt id i provider digest →
    s.LegacyAt id' i' provider digest →
    id = id' ∧ i = i'

structure Sound (s : State) : Prop where
  header : s.HeaderSound
  channels : s.ChannelsSound
  budget : s.BudgetSound
  quotes : s.QuotesSound
  tokens : s.TokensSound
  seen : s.SeenSound

theorem attemptAt_eq_some {s : State} {id : String} {i : Nat} {q : PurchaseQuote} {a : Attempt} :
    s.attemptAt id i = some (q,a) ↔ s.quotes.get? id = some q ∧ q.attempts[i]? = some a := by
  simp only [attemptAt,Option.bind_eq_bind,Option.bind_eq_some_iff,Option.some.injEq,Prod.mk.injEq]
  constructor
  · rintro ⟨_,held,_,there,rfl,rfl⟩
    exact ⟨held,there⟩
  · rintro ⟨held,there⟩
    exact ⟨q,held,a,there,rfl,rfl⟩

variable {s : State} {id : String} {c : PurchaseChannel}

theorem retiredMsat_eq {e : RetiredRouteEvidence} (held : s.channels.get? id = some c)
    (retired : c.retired = some e) :
    s.retiredMsat id = e.submittedMsat := by simp [retiredMsat,held,retired]

theorem QuotesSound.amountDueMsat_eq (h : s.QuotesSound) {q : PurchaseQuote}
    (hq : s.quotes.get? id = some q) :
    q.contract.price.amountDueMsat q.submittedUnits = some (q.contract.price.due q.submittedUnits) := by
  obtain ⟨c,e,facts⟩ := h.channel id q hq
  have balanced := h.balanced id q hq
  exact BytePrice.amountDueMsat_of_le (validateContract_eq_ok facts.valid).2.1
    (balanced.submitted_le.trans balanced.allowed)

theorem Sound.evidenceMsat_eq (h : s.Sound) (held : s.channels.get? id = some c) :
    s.evidenceMsat id = U64.tryFrom (s.evidence id) := by
  obtain ⟨e,retired,-,fits⟩ := (h.channels.facts id c held).retired
  have summed : (s.quotes.values.filter fun q => q.contract.channelId = id).foldlM
      (fun sum q => do U64.checkedAdd sum (← q.contract.price.amountDueMsat q.submittedUnits))
        e.submittedMsat =
      (s.quotes.values.filter fun q => q.contract.channelId = id).foldlM
      (fun sum q => U64.checkedAdd sum (q.contract.price.due q.submittedUnits)) e.submittedMsat := by
    refine Checked.foldlM_congr (fun sum q mem => ?_) _
    obtain ⟨i,hq⟩ := OrderedMap.mem_values.1 (List.mem_of_mem_filter mem)
    rw [h.quotes.amountDueMsat_eq hq]
    rfl
  unfold evidenceMsat evidence
  rw [held,retiredMsat_eq held retired]
  simp only [Option.bind_eq_bind,Option.bind_some,retired] at summed ⊢
  rw [summed,U64.foldlM_checkedAdd _ _ _ fits,OrderedMap.sum_filter_values]
  simp only [decide_eq_true_eq]

end State

end Fips.Relay.Buyer
