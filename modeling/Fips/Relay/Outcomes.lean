import Fips.Lib.Checked
import Fips.Relay.Ledger

set_option autoImplicit false

/-! What each operation of the ledger does when it succeeds. -/

namespace Fips.Relay

open Checked Option

namespace RelayLedger

variable {l l' : RelayLedger}

def opened (l : RelayLedger) (terms : ChannelTerms) (paidMsat : Nat) : RelayLedger :=
  { l with channels := l.channels.insert terms.id ⟨terms,{},{ paidMsat },true⟩ }

structure CanOpen (l : RelayLedger) (terms : ChannelTerms) (paidMsat : Nat) : Prop where
  valid : validateChannel terms = .ok (terms.capacitySat * 1000)
  paid : paidMsat ≤ terms.capacitySat * 1000
  fresh : l.channels.get? terms.id = none
  later : ∀ h, l.history = some h → h.expiresThroughUnix < terms.expiresUnix
  idle : ∀ id c, l.channels.get? id = some c → c.terms.buyer = terms.buyer → c.terms.mintUrl = terms.mintUrl →
    c.active = false
  limit : l.reservationLimit terms paidMsat ≠ none
  room : l.channels.size < l.limits.maxChannels

theorem openChannelVerified_eq_ok {terms : ChannelTerms} {paidMsat : Nat}
    (h : l.openChannelVerified terms paidMsat = .ok l') :
    l' = l ∨ l.CanOpen terms paidMsat ∧ l' = l.opened terms paidMsat := by
  simp only [openChannelVerified,bind_eq_ok,throwIf_eq_ok] at h
  obtain ⟨cap,valid,overpaid,h⟩ := h
  obtain ⟨rfl,-⟩ := validateChannel_eq_ok valid
  cases present : l.channels.get? terms.id with
  | some existing =>
    simp only [present] at h
    split_ifs at h
    exact .inl (pure_eq_ok.1 h).symm
  | none =>
    simp only [present,throwIf_eq_ok] at h
    obtain ⟨early,bound,h⟩ := h
    cases available : l.reservationLimit terms paidMsat with
    | none =>
      simp only [available] at h
      exact (throw_eq_ok.1 h).elim
    | some limit =>
      simp only [available,throwIf_eq_ok,pure_eq_ok] at h
      obtain ⟨-,full,rfl⟩ := h
      refine .inr ⟨⟨valid,Nat.le_of_not_lt overpaid,present,?_,?_,by simp [available],Nat.lt_of_not_le full⟩,
        rfl⟩
      · intro history held
        simpa [held] using early
      · intro id c hc buyer mint
        have idle : ∀ old ∈ l.channels.values, old.terms.buyer = terms.buyer →
            old.terms.mintUrl = terms.mintUrl →
            old.active = false := by simpa using bound
        exact idle c (OrderedMap.mem_values.2 ⟨id,hc⟩) buyer mint

def installed (l : RelayLedger) (contract : Contract) : RelayLedger :=
  { l with accounts := l.accounts.insert contract.id ⟨contract,{},∅,{},true⟩ }

structure CanInstall (l : RelayLedger) (contract : Contract) (channel : Channel) : Prop where
  held : l.channels.get? contract.channelId = some channel
  valid : validateContract contract channel.terms = .ok ()
  live : channel.retired.rejects contract.expiresUnix = false
  fresh : l.accounts.get? contract.id = none
  active : channel.active = true
  unserved : ∀ id a, l.accounts.get? id = some a → a.active = true →
    a.contract.destination = contract.destination →
    l.buyerOf a ≠ some channel.terms.buyer
  room : l.accounts.size < l.limits.maxContracts

theorem addContract_eq_ok {contract : Contract} (h : l.addContract contract = .ok l') :
    l' = l ∨ ∃ channel, l.CanInstall contract channel ∧ l' = l.installed contract := by
  unfold addContract at h
  cases held : l.channels.get? contract.channelId with
  | none => simp [held] at h
  | some channel =>
    simp only [held,bind_eq_ok,throwIf_eq_ok] at h
    obtain ⟨⟨⟩,valid,retired,h⟩ := h
    cases present : l.accounts.get? contract.id with
    | some existing =>
      simp only [present] at h
      split_ifs at h
      exact .inl (pure_eq_ok.1 h).symm
    | none =>
      simp only [present,throwIf_eq_ok,pure_eq_ok] at h
      obtain ⟨inactive,served,full,rfl⟩ := h
      refine .inr ⟨channel,⟨held,valid,by simpa using retired,present,by simpa using inactive,?_,
        Nat.lt_of_not_le full⟩,rfl⟩
      intro id a ha active destination buyer
      exact served (OrderedMap.any_values.2 ⟨id,a,ha,by simp [active,destination,buyer]⟩)

def paid (l : RelayLedger) (id : String) (paidMsat : Nat) : RelayLedger :=
  { l with channels := l.channels.modify id fun c => { c with usage := { c.usage with paidMsat } } }

theorem applyVerifiedBalance_eq_ok {id : String} {paidMsat : Nat}
    (h : l.applyVerifiedBalance id paidMsat = .ok l') :
    ∃ c, l.channels.get? id = some c ∧ c.usage.paidMsat ≤ paidMsat ∧ paidMsat ≤ c.terms.capacitySat * 1000 ∧
      l' = l.paid id paidMsat := by
  unfold applyVerifiedBalance at h
  cases held : l.channels.get? id with
  | none => simp [held] at h
  | some channel =>
    simp only [held,bind_eq_ok,throwIf_eq_ok,pure_eq_ok] at h
    obtain ⟨decreased,cap,valid,excessive,rfl⟩ := h
    obtain ⟨rfl,-⟩ := validateChannel_eq_ok valid
    exact ⟨channel,rfl,Nat.le_of_not_lt decreased,Nat.le_of_not_lt excessive,rfl⟩

/-- The ledger with some channels and some accounts no longer active. -/
def deactivated (l : RelayLedger) (channel : String → Bool) (account : String → Account → Bool) :
    RelayLedger :=
  { l with
    channels := l.channels.mapWithKey fun id c => if channel id then { c with active := false } else c
    accounts := l.accounts.mapWithKey fun id a => if account id a then { a with active := false } else a }

theorem closeContract_eq_ok {id : String} {usage : Usage} (h : l.closeContract id = .ok (usage,l')) :
    l' = l.deactivated (fun _ => false) fun i _ => i = id := by
  unfold closeContract at h
  cases held : l.accounts.get? id with
  | none => simp [held] at h
  | some account =>
    simp only [held] at h
    obtain ⟨-,rfl⟩ := h
    simp [deactivated,OrderedMap.modify]

theorem closeChannel_eq_ok {id : String} {usage : ChannelUsage} (h : l.closeChannel id = .ok (usage,l')) :
    ∃ c, l.channels.get? id = some c ∧ usage = c.usage ∧
      l' = l.deactivated (fun i => i = id) fun _ a => a.contract.channelId = id := by
  unfold closeChannel at h
  cases held : l.channels.get? id with
  | none => simp [held] at h
  | some channel =>
    simp only [held] at h
    obtain ⟨rfl,rfl⟩ := h
    exact ⟨channel,rfl,rfl,by simp [deactivated,OrderedMap.modify,OrderedMap.mapValues]⟩

/-- The ledger with the attempts of some accounts given up: none of them will learn its outcome. -/
def abandoned (l : RelayLedger) (p : Account → Bool) : RelayLedger :=
  { l with
    accounts := l.accounts.mapValues fun a => if p a then a.sealed else a
    pending := ((l.accounts.values.filter p).flatMap Account.pendingTokens).foldl OrderedMap.erase l.pending }

theorem sealAttempts_eq (l : RelayLedger) (id : String) :
    l.sealAttempts id = l.abandoned fun a => a.contract.channelId = id := by simp [sealAttempts,abandoned]

theorem sealChannel_eq_ok {id : String} {usage : ChannelUsage} (h : l.sealChannel id = .ok (usage,l')) :
    ∃ c, l.channels.get? id = some c ∧ usage = c.usage ∧
      l' = (l.deactivated (fun i => i = id) fun _ a => a.contract.channelId = id).abandoned
        fun a => a.contract.channelId = id := by
  unfold sealChannel at h
  cases closing : l.closeChannel id with
  | error e => simp [closing] at h
  | ok result =>
    obtain ⟨paid,closed⟩ := result
    obtain ⟨c,held,rfl,rfl⟩ := closeChannel_eq_ok closing
    simp only [closing] at h
    obtain ⟨rfl,rfl⟩ := h
    refine ⟨c,held,?_,sealAttempts_eq _ id⟩
    simp [deactivated,held]

end RelayLedger

def Account.extraCost (a : Account) (units : Nat) : Nat :=
  a.contract.price.due (a.usage.reservedUnits + units) - a.contract.price.due a.usage.reservedUnits

namespace RelayLedger

variable {l l' : RelayLedger}

/-- What an admission needs: the account that serves the request, its channel, and the digest of the
attempt. -/
structure CanAdmit (l : RelayLedger) (ext : Externals) (r : ForwardingRequest) (nowUnix : Nat)
    (windows : Option (OrderedMap String Nat)) (id : String) (a : Account) (c : Channel) (digest : Digest) :
    Prop where
  nonempty : r.sessionPayload.length ≠ 0
  room : l.pending.size < l.limits.maxPending
  serving : l.serving r = some (id,a)
  account : l.accounts.get? id = some a
  active : a.active = true
  buyer : c.terms.buyer = r.ingress
  token : l.nextToken + 1 < 2^64
  packets : a.contract.billing.isLegacy = true → a.attempts.size < l.limits.maxPacketsPerContract
  keyed : digest = if a.contract.billing.isLegacy then
    sessionFingerprint ext r.source r.destination r.sessionPayload else attemptKey (l.nextToken + 1)
  unseen : a.contract.billing.isLegacy = true → (r.ingress,digest) ∉ l.seen
  fits : a.usage.reservedUnits + r.sessionPayload.length < 2^64
  units : a.usage.reservedUnits + r.sessionPayload.length ≤ a.contract.maxUnits
  channel : l.channels.get? a.contract.channelId = some c
  open_ : c.active = true
  limit : ∃ limit, l.reservationLimit c.terms c.usage.paidMsat = some limit ∧
    c.usage.reservedMsat + a.extraCost r.sessionPayload.length ≤ limit
  window : ∀ w, windows = some w →
    c.usage.reservedMsat + a.extraCost r.sessionPayload.length ≤ (w.get? a.contract.channelId).getD 0

theorem serving_eq_some {r : ForwardingRequest} {id : String} {a : Account} (h : l.serving r = some (id,a)) :
    l.accounts.get? id = some a ∧ a.active = true ∧ a.contract.destination = r.destination ∧
      l.buyerOf a = some r.ingress := by
  have found := List.find?_some h
  simp only [decide_eq_true_eq] at found
  exact ⟨OrderedMap.mem_entries.1 (List.mem_of_find?_eq_some h),found⟩

theorem admitWithWindows_eq_some {ext : Externals} {r : ForwardingRequest} {nowUnix token : Nat}
    {windows : Option (OrderedMap String Nat)}
    (h : l.admitWithWindows ext r nowUnix windows = some (token,l')) :
    token = l.nextToken + 1 ∧ ∃ id a c digest, l.CanAdmit ext r nowUnix windows id a c digest ∧
      l' = l.reserve r id a digest token r.sessionPayload.length
      (a.usage.reservedUnits + r.sessionPayload.length)
        (c.usage.reservedMsat + a.extraCost r.sessionPayload.length) := by
  simp only [admitWithWindows,bind_eq_bind,bind_eq_some_iff,guard_eq_some',exists_const,
    U64.tryFrom_eq_some,U64.checkedAdd_eq_some,U64.checkedSub_eq_some,BytePrice.amountDueMsat_eq_some] at h
  obtain ⟨units,⟨-,rfl⟩,nonempty,room,⟨id,a⟩,served,next,⟨bound,rfl⟩,-,-,packets,unseen,
      prospective,⟨fits,rfl⟩,units,
    due,⟨-,-,rfl⟩,reserved,⟨-,-,rfl⟩,cost,⟨-,rfl⟩,c,held,⟨active,-⟩,total,⟨-,rfl⟩,limit,
      limited,within,rfl,rfl⟩ := h
  obtain ⟨account,serving,-,buyer⟩ := serving_eq_some served
  have owner : c.terms.buyer = r.ingress := by simpa [buyerOf,held] using buyer
  refine ⟨rfl,id,a,c,_,⟨nonempty,room,served,account,serving,owner,bound,?_,rfl,?_,fits,units,
    held,active,?_,?_⟩,rfl⟩
  · intro legacy
    exact Nat.lt_of_not_le fun full => packets ⟨legacy,full⟩
  · exact fun legacy known => unseen ⟨legacy,known⟩
  · exact ⟨limit,limited,within.trans (min_le_left _ _)⟩
  · rintro w rfl
    exact within.trans (min_le_right _ _)

def finished (l : RelayLedger) (token : Nat) (id : String) (digest : Digest) (a : Account) (t : Attempt)
    (outcome : ForwardingOutcome) : RelayLedger :=
  { l with
    pending := l.pending.erase token
    accounts := l.accounts.modify id fun a => a.finish digest t outcome
    channels := l.channels.modify a.contract.channelId fun c => { c with usage := { c.usage with
      submittedMsat := U64.wrappingAdd c.usage.submittedMsat
        (a.contract.price.due (a.finish digest t outcome).usage.submittedUnits -
          a.contract.price.due a.usage.submittedUnits) } } }

theorem complete_eq_some {token : Nat} {outcome : ForwardingOutcome}
    (h : l.complete token outcome = some l') :
    l.pending.get? token = none ∧ l' = l ∨
    ∃ id digest a t c, l.pending.get? token = some (id,digest) ∧ l.accounts.get? id = some a ∧
      a.attempts.get? digest = some t ∧ l.channels.get? a.contract.channelId = some c ∧
      l' = l.finished token id digest a t outcome := by
  unfold complete at h
  cases waiting : l.pending.get? token with
  | none =>
    simp only [waiting,some.injEq] at h
    exact .inl ⟨rfl,h.symm⟩
  | some entry =>
    obtain ⟨id,digest⟩ := entry
    simp only [waiting,bind_eq_bind,bind_eq_some_iff,BytePrice.amountDueMsat_eq_some,
      U64.checkedSub_eq_some,some.injEq] at h
    obtain ⟨a,account,t,attempt,old,⟨-,-,rfl⟩,new,⟨-,-,rfl⟩,delta,⟨-,rfl⟩,c,channel,rfl⟩ := h
    exact .inr ⟨id,digest,a,t,c,rfl,account,attempt,channel,rfl⟩

end RelayLedger

end Fips.Relay
