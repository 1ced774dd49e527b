import Fips.Relay.Buyer.Accounting
import Fips.Relay.Retirement

set_option autoImplicit false

/-! What the controller changes, and that the state stays sound. -/

namespace Fips.Relay.Buyer

open Checked OrderedMap Option

theorem orElse_eq_ok {α : Type} {x : Option α} {error : BuyerError} {a : α} :
    orElse x error = .ok a ↔ x = some a :=
  elim_eq_ok

theorem orFail_eq_ok {α : Type} {x : Except LedgerError α} {error : BuyerError} {a : α} :
    orFail x error = .ok a ↔ x = .ok a := by
  cases x <;> simp [orFail,Except.mapError]

theorem ceilSat_mono {a b : Nat} (h : a ≤ b) : ceilSat a ≤ ceilSat b :=
  Nat.div_le_div_right (Nat.add_le_add_right h _)

namespace State

variable {s s' : State}

/-- The attempts and their tokens stay as they were, with the providers they were made for. -/
structure SameAttempts (s s' : State) : Prop where
  seen : s'.seen = s.seen
  pending : s'.pending = s.pending
  nextToken : s'.nextToken = s.nextToken
  limits : s'.limits = s.limits
  old : ∀ id i q' a, s'.attemptAt id i = some (q',a) → ∃ q, s.attemptAt id i = some (q,a) ∧
    q'.contract = q.contract ∧
    s'.providerOf q' = s.providerOf q
  new : ∀ id i q a, s.attemptAt id i = some (q,a) → ∃ q', s'.attemptAt id i = some (q',a) ∧
    q'.contract = q.contract
  count : s'.quotes.total (fun _ q => q.waiting) = s.quotes.total fun _ q => q.waiting

theorem TokensSound.frame (h : s.TokensSound) (f : SameAttempts s s') : s'.TokensSound := by
  refine ⟨?_,?_,?_,?_,?_,?_⟩
  · intro t id i held
    rw [f.pending] at held
    obtain ⟨q,a,there,waits,carries⟩ := h.held t id i held
    obtain ⟨q',there',same⟩ := f.new id i q a there
    exact ⟨q',a,there',waits,fun modern => carries (same ▸ modern)⟩
  · intro id i q' a there' waits
    obtain ⟨q,there,-⟩ := f.old id i q' a there'
    rw [f.pending]
    exact h.waits id i q a there waits
  · rw [f.pending]
    exact h.unique
  · rw [f.pending,f.nextToken]
    exact h.range
  · rw [f.count,f.pending]
    exact h.count
  · rw [f.pending,f.limits]
    exact h.room

theorem SeenSound.frame (h : s.SeenSound) (f : SameAttempts s s') : s'.SeenSound := by
  have old (id : String) (i : Nat) (provider : NodeAddr) (digest : Digest)
      (there : s'.LegacyAt id i provider digest) :
      s.LegacyAt id i provider digest := by
    obtain ⟨q',a,there,legacy,paid,same⟩ := there
    obtain ⟨q,before,contract,provider⟩ := f.old id i q' a there
    exact ⟨q,a,before,contract ▸ legacy,provider ▸ paid,same⟩
  refine ⟨fun id i provider digest there => ?_,fun id i id' i' provider digest there there' => ?_⟩
  · rw [f.seen]
    exact h.seen id i provider digest (old id i provider digest there)
  · exact h.unique id i id' i' provider digest (old _ _ _ _ there) (old _ _ _ _ there')

/-- A change of channels and quotes that keeps the quotes with their attempts. -/
theorem sameAttempts_of_quotes (seen : s'.seen = s.seen) (pending : s'.pending = s.pending)
    (nextToken : s'.nextToken = s.nextToken) (limits : s'.limits = s.limits)
    (f : String → PurchaseQuote → PurchaseQuote) (quotes : s'.quotes = s.quotes.mapWithKey f)
    (kept : ∀ id q, (f id q).attempts = q.attempts ∧ (f id q).contract = q.contract)
    (providers : ∀ id q, s.quotes.get? id = some q → s'.providerOf q = s.providerOf q) :
    SameAttempts s s' := by
  refine ⟨seen,pending,nextToken,limits,?_,?_,?_⟩
  · intro id i q' a there
    obtain ⟨held,at_⟩ := attemptAt_eq_some.1 there
    rw [quotes,get?_mapWithKey] at held
    obtain ⟨q,old,rfl⟩ := map_eq_some_iff.1 held
    rw [(kept id q).1] at at_
    refine ⟨q,attemptAt_eq_some.2 ⟨old,at_⟩,(kept id q).2,?_⟩
    have same := providers id q old
    simp only [providerOf,(kept id q).2] at same ⊢
    exact same
  · intro id i q a there
    obtain ⟨held,at_⟩ := attemptAt_eq_some.1 there
    refine ⟨f id q,attemptAt_eq_some.2 ⟨?_,?_⟩,(kept id q).2⟩
    · rw [quotes,get?_mapWithKey,held,map_some]
    · rw [(kept id q).1]
      exact at_
  · rw [quotes,total_mapWithKey]
    refine total_congr fun id q _ => ?_
    unfold PurchaseQuote.waiting
    rw [(kept id q).1]

/-- The quotes stay sound when other channels than theirs change. -/
theorem Sound.frame (h : s.Sound) (quotes : s'.quotes = s.quotes) (limits : s'.limits = s.limits)
    (seen : s'.seen = s.seen) (pending : s'.pending = s.pending) (nextToken : s'.nextToken = s.nextToken)
    (stays : ∀ id q, s.quotes.get? id = some q →
      s'.channels.get? q.contract.channelId = s.channels.get? q.contract.channelId)
    (header : s'.HeaderSound) (channels : s'.ChannelsSound) (budget : s'.BudgetSound) : s'.Sound := by
  have providers (id : String) (q : PurchaseQuote) (held : s.quotes.get? id = some q) :
      s'.providerOf q = s.providerOf q := by
    rw [providerOf,providerOf,stays id q held]
  have same : SameAttempts s s' :=
    sameAttempts_of_quotes seen pending nextToken limits (fun _ => id)
      (quotes.trans (mapWithKey_self _).symm) (fun _ _ => ⟨rfl,rfl⟩) providers
  refine ⟨header,channels,budget,⟨?_,?_,?_,?_⟩,h.tokens.frame same,h.seen.frame same⟩ <;> rw [quotes]
  · exact h.quotes.key
  · intro id q held
    obtain ⟨c,e,facts⟩ := h.quotes.channel id q held
    exact ⟨c,e,{ facts with held := (stays id q held).trans facts.held }⟩
  · rw [limits]
    exact h.quotes.balanced
  · intro id q id' q' held held' active active' same
    rw [providers id q held,providers id' q' held'] at same
    exact h.quotes.active id q id' q' held held' active active' same

structure CanAccept (s : State) (provider : NodeAddr) (terms : ChannelTerms) (advanceMsat : Nat) : Prop where
  valid : validateChannel terms = .ok (terms.capacitySat * 1000)
  buyer : terms.buyer = s.localAddr
  other : provider ≠ s.localAddr
  advance : advanceMsat ≤ terms.capacitySat * 1000
  fresh : s.channels.get? terms.id = none
  room : s.channels.size < s.limits.maxChannels
  idle : ∀ id c, s.channels.get? id = some c → c.active = true → c.provider = provider →
    c.terms.mintUrl ≠ terms.mintUrl

def accepted (s : State) (provider : NodeAddr) (terms : ChannelTerms) (advanceMsat : Nat) : State :=
  { s with channels := s.channels.insert terms.id ⟨provider,terms,advanceMsat,0,some {},true⟩ }

theorem acceptChannel_eq_ok {provider : NodeAddr} {terms : ChannelTerms} {advanceMsat : Nat}
    (h : s.acceptChannel provider terms advanceMsat = .ok s') :
    s' = s ∨ s.CanAccept provider terms advanceMsat ∧ s' = s.accepted provider terms advanceMsat := by
  simp only [acceptChannel,bind_eq_ok,throwIf_eq_ok,orFail_eq_ok,not_or,not_not,Nat.not_lt] at h
  obtain ⟨capacity,valid,⟨buyer,other,advance⟩,h⟩ := h
  obtain ⟨rfl,-⟩ := validateChannel_eq_ok valid
  cases held : s.channels.get? terms.id with
  | some c =>
    simp only [held] at h
    split_ifs at h
    exact .inl (pure_eq_ok.1 h).symm
  | none =>
    simp only [held,throwIf_eq_ok,pure_eq_ok,any_values,decide_eq_true_eq,Nat.not_le] at h
    obtain ⟨-,room,idle,rfl⟩ := h
    refine .inr ⟨⟨valid,buyer,other,advance,held,room,?_⟩,rfl⟩
    intro id c hc active same mint
    exact idle ⟨id,c,hc,active,same,mint⟩

section Accepted

variable {provider : NodeAddr} {terms : ChannelTerms} {advanceMsat : Nat} {c : PurchaseChannel}

theorem CanAccept.ne (can : s.CanAccept provider terms advanceMsat) {id : String}
    (held : s.channels.get? id = some c) : id ≠ terms.id := by
  rintro rfl
  cases can.fresh.symm.trans held

theorem CanAccept.get? (can : s.CanAccept provider terms advanceMsat) {id : String}
    (held : s.channels.get? id = some c) :
    (s.accepted provider terms advanceMsat).channels.get? id = some c := by
  simp only [accepted,get?_insert]
  rw [if_neg (can.ne held),held]

theorem accepted_split {id : String}
    (held : (s.accepted provider terms advanceMsat).channels.get? id = some c) :
    id = terms.id ∧ c = ⟨provider,terms,advanceMsat,0,some {},true⟩ ∨ s.channels.get? id = some c := by
  simp only [accepted,get?_insert] at held
  split_ifs at held with same
  · exact .inl ⟨same,(some.inj held).symm⟩
  · exact .inr held

theorem CanAccept.evidence (can : s.CanAccept provider terms advanceMsat) (id : String) :
    (s.accepted provider terms advanceMsat).evidence id = s.evidence id := by
  have retired : (s.accepted provider terms advanceMsat).retiredMsat id = s.retiredMsat id := by
    simp only [retiredMsat,accepted,get?_insert]
    split_ifs with same
    · rw [same,can.fresh]
      rfl
    · rfl
  unfold State.evidence
  rw [retired]
  rfl

theorem Sound.accepted (h : s.Sound) (can : s.CanAccept provider terms advanceMsat) :
    (s.accepted provider terms advanceMsat).Sound := by
  have total : (s.accepted provider terms advanceMsat).authorized = s.authorized := by
    have added : (s.accepted provider terms advanceMsat).channels.total (fun _ c => c.authorizedSat) = _ :=
      total_insert _ _ can.fresh
    unfold authorized
    rw [added]
    rfl
  refine h.frame rfl rfl rfl rfl rfl ?_ { h.header with channels := ?_ } ⟨?_,?_⟩ ⟨?_,?_,?_⟩
  · intro id q hq
    obtain ⟨c,e,facts⟩ := h.quotes.channel id q hq
    rw [facts.held,can.get? facts.held]
  · exact (size_insert _ can.fresh).trans_le can.room
  · intro id c held
    obtain ⟨rfl,rfl⟩ | old := accepted_split held
    · exact ⟨rfl,can.valid,can.buyer,can.other,can.advance,Nat.zero_le _,{},rfl,
        by simp [RetiredRouteEvidence.valid],by simp⟩
    · exact { h.channels.facts id c old with }
  · intro id c id' c' held held' active active' same mint
    obtain ⟨rfl,rfl⟩ | old := accepted_split held <;> obtain ⟨rfl,rfl⟩ | old' := accepted_split held'
    · rfl
    · exact absurd mint.symm (can.idle id' c' old' active' same.symm)
    · exact absurd mint (can.idle id c old active same)
    · exact h.channels.active id c id' c' old old' active active' same mint
  · rw [total]
    exact h.budget.fits
  · rw [total]
    exact h.budget.within
  · intro id c held
    rw [can.evidence]
    obtain ⟨rfl,rfl⟩ | old := accepted_split held
    · exact Nat.zero_le _
    · exact h.budget.earned id c old

end Accepted

structure CanQuote (s : State) (contract : Contract) (c : PurchaseChannel) (e : RetiredRouteEvidence) :
    Prop where
  held : s.channels.get? contract.channelId = some c
  retired : c.retired = some e
  valid : validateContract contract c.terms = .ok ()
  live : e.rejects contract.expiresUnix = false
  fresh : s.quotes.get? contract.id = none
  active : c.active = true
  onward : contract.destination ≠ c.provider
  room : s.quotes.size < s.limits.maxContracts
  unserved : ∀ id q, s.quotes.get? id = some q → q.active = true →
    q.contract.destination = contract.destination →
    s.providerOf q ≠ some c.provider

def quoted (s : State) (contract : Contract) : State :=
  { s with quotes := s.quotes.insert contract.id ⟨contract,true,[],0,0,false,{}⟩ }

theorem acceptQuote_eq_ok {contract : Contract} (h : s.acceptQuote contract = .ok s') :
    s' = s ∨ ∃ c e, s.CanQuote contract c e ∧ s' = s.quoted contract := by
  simp only [acceptQuote,bind_eq_ok,throwIf_eq_ok,orElse_eq_ok,orFail_eq_ok,Bool.not_eq_true] at h
  obtain ⟨c,found,_,valid,e,retired,live,h⟩ := h
  cases held : s.quotes.get? contract.id with
  | some q =>
    simp only [held] at h
    split_ifs at h
    exact .inl (pure_eq_ok.1 h).symm
  | none =>
    simp only [held,throwIf_eq_ok,pure_eq_ok,any_values,decide_eq_true_eq,Nat.not_le,not_or,Bool.not_eq_true',
      Bool.not_eq_false] at h
    obtain ⟨⟨active,onward⟩,room,unserved,rfl⟩ := h
    refine .inr ⟨c,e,⟨found,retired,valid,live,held,active,onward,room,?_⟩,rfl⟩
    intro id q hq open_ destination provider
    exact unserved ⟨id,q,hq,open_,destination,provider⟩

section Quoted

variable {contract : Contract} {c : PurchaseChannel} {e : RetiredRouteEvidence}

theorem quoted_split {id : String} {q : PurchaseQuote}
    (held : (s.quoted contract).quotes.get? id = some q) :
    id = contract.id ∧ q = ⟨contract,true,[],0,0,false,{}⟩ ∨ s.quotes.get? id = some q := by
  simp only [quoted,get?_insert] at held
  split_ifs at held with same
  · exact .inl ⟨same,(some.inj held).symm⟩
  · exact .inr held

theorem CanQuote.total (can : s.CanQuote contract c e) (f : PurchaseQuote → Nat)
    (zero : f ⟨contract,true,[],0,0,false,{}⟩ = 0) :
    (s.quoted contract).quotes.total (fun _ q => f q) = s.quotes.total fun _ q => f q := by
  have added : (s.quoted contract).quotes.total (fun _ q => f q) = _ := total_insert _ _ can.fresh
  rw [added,zero,Nat.add_zero]

theorem CanQuote.sameAttempts (can : s.CanQuote contract c e) : SameAttempts s (s.quoted contract) := by
  refine ⟨rfl,rfl,rfl,rfl,?_,?_,can.total (·.waiting) rfl⟩
  · intro id i q' a there
    obtain ⟨held,at_⟩ := attemptAt_eq_some.1 there
    obtain ⟨rfl,rfl⟩ | old := quoted_split held
    · cases at_
    · exact ⟨q',attemptAt_eq_some.2 ⟨old,at_⟩,rfl,rfl⟩
  · intro id i q a there
    obtain ⟨held,at_⟩ := attemptAt_eq_some.1 there
    refine ⟨q,attemptAt_eq_some.2 ⟨?_,at_⟩,rfl⟩
    have other : id ≠ contract.id := by
      rintro rfl
      cases can.fresh.symm.trans held
    simp only [quoted,get?_insert]
    rw [if_neg other,held]

theorem Sound.quoted (h : s.Sound) (can : s.CanQuote contract c e) : (s.quoted contract).Sound := by
  have evidence (id : String) : (s.quoted contract).evidence id = s.evidence id := by
    unfold State.evidence
    rw [can.total (fun q => if q.contract.channelId = id then q.contract.price.due q.submittedUnits else 0)
      (by simp)]
    rfl
  refine ⟨{ h.header with quotes := ?_ },⟨fun id d held => { h.channels.facts id d held with },
    h.channels.active⟩,{ h.budget with earned := fun id d held => ?_ },⟨?_,?_,?_,?_⟩,
    h.tokens.frame can.sameAttempts,h.seen.frame can.sameAttempts⟩
  · exact (size_insert _ can.fresh).trans_le can.room
  · rw [evidence]
    exact h.budget.earned id d held
  · intro id q held
    obtain ⟨rfl,rfl⟩ | old := quoted_split held
    · rfl
    · exact h.quotes.key id q old
  · intro id q held
    obtain ⟨rfl,rfl⟩ | old := quoted_split held
    · exact ⟨c,e,can.held,can.retired,can.valid,can.live,can.onward,fun _ => can.active⟩
    · obtain ⟨d,f,facts⟩ := h.quotes.channel id q old
      exact ⟨d,f,{ facts with }⟩
  · intro id q held
    obtain ⟨rfl,rfl⟩ | old := quoted_split held
    · constructor <;> simp
    · exact h.quotes.balanced id q old
  · intro id q id' q' held held' active active' same destination
    have paid : s.providerOf ⟨contract,true,[],0,0,false,{}⟩ = some c.provider := by
      simp [providerOf,can.held]
    obtain ⟨rfl,rfl⟩ | old := quoted_split held <;> obtain ⟨rfl,rfl⟩ | old' := quoted_split held'
    · rfl
    · exact absurd (same.symm.trans paid) (can.unserved id' q' old' active' destination.symm)
    · exact absurd (same.trans paid) (can.unserved id q old active destination)
    · exact h.quotes.active id q id' q' old old' active active' same destination

end Quoted

/-- Other balances, and some channels and quotes closed. -/
def adjusted (s : State) (channel : String → PurchaseChannel → PurchaseChannel)
    (quote : String → PurchaseQuote → PurchaseQuote) : State :=
  { s with channels := s.channels.mapWithKey channel, quotes := s.quotes.mapWithKey quote }

structure Adjusts (s : State) (channel : String → PurchaseChannel → PurchaseChannel)
    (quote : String → PurchaseQuote → PurchaseQuote) : Prop where
  channels : ∀ id c, channel id c =
    { c with authorizedSat := (channel id c).authorizedSat, active := (channel id c).active }
  quotes : ∀ id q, quote id q = { q with active := (quote id q).active }
  was : ∀ id c, (channel id c).active = true → c.active = true
  wasQuoted : ∀ id q, (quote id q).active = true → q.active = true
  stays : ∀ id q c, s.quotes.get? id = some q → (quote id q).active = true → c.active = true →
    (channel q.contract.channelId c).active = true
  capacity : ∀ id c, s.channels.get? id = some c → (channel id c).authorizedSat ≤ c.terms.capacitySat
  earned : ∀ id c, s.channels.get? id = some c →
    (channel id c).authorizedSat ≤ ceilSat (s.evidence id + c.advanceMsat)
  fits : (s.adjusted channel quote).authorized < 2^64
  within : (s.adjusted channel quote).authorized ≤ s.totalBudgetSat

section Adjusted

variable {channel : String → PurchaseChannel → PurchaseChannel}
  {quote : String → PurchaseQuote → PurchaseQuote} (a : s.Adjusts channel quote)
include a

theorem Adjusts.providerOf (q : PurchaseQuote) :
    (s.adjusted channel quote).providerOf q = s.providerOf q := by
  simp only [State.providerOf,adjusted,get?_mapWithKey,map_map]
  refine map_congr fun c _ => ?_
  exact congrArg (·.provider) (a.channels _ c)

theorem Adjusts.evidence (id : String) : (s.adjusted channel quote).evidence id = s.evidence id := by
  have retired : (s.adjusted channel quote).retiredMsat id = s.retiredMsat id := by
    simp only [retiredMsat,adjusted,get?_mapWithKey]
    cases s.channels.get? id with
    | none => rfl
    | some c =>
      rw [map_some,a.channels]
      rfl
  unfold State.evidence
  rw [retired]
  simp only [adjusted,total_mapWithKey]
  congr 1
  refine total_congr fun i q _ => ?_
  rw [a.quotes]

theorem Sound.adjusted (h : s.Sound) : (s.adjusted channel quote).Sound := by
  have channel_of {id : String} {c' : PurchaseChannel}
      (held : (s.adjusted channel quote).channels.get? id = some c') :
      ∃ c, s.channels.get? id = some c ∧ channel id c = c' :=
    map_eq_some_iff.1 ((get?_mapWithKey ..).symm.trans held)
  have quote_of {id : String} {q' : PurchaseQuote}
      (held : (s.adjusted channel quote).quotes.get? id = some q') :
      ∃ q, s.quotes.get? id = some q ∧ quote id q = q' :=
    map_eq_some_iff.1 ((get?_mapWithKey ..).symm.trans held)
  have same : SameAttempts s (s.adjusted channel quote) :=
    sameAttempts_of_quotes rfl rfl rfl rfl quote rfl
      (fun id q => by rw [a.quotes]; exact ⟨rfl,rfl⟩) fun _ q _ => a.providerOf q
  refine ⟨{ h.header with channels := ?_, quotes := ?_ },⟨?_,?_⟩,⟨a.fits,a.within,?_⟩,⟨?_,?_,?_,?_⟩,
    h.tokens.frame same,h.seen.frame same⟩
  · exact (size_mapWithKey _ _).trans_le h.header.channels
  · exact (size_mapWithKey _ _).trans_le h.header.quotes
  · intro id c' held
    obtain ⟨c,old,rfl⟩ := channel_of held
    rw [a.channels]
    exact { h.channels.facts id c old with capacity := a.capacity id c old }
  · intro id c' id' d' held held' active active' same mint
    obtain ⟨c,old,rfl⟩ := channel_of held
    obtain ⟨d,old',rfl⟩ := channel_of held'
    rw [a.channels id c,a.channels id' d] at same mint
    exact h.channels.active id c id' d old old' (a.was id c active) (a.was id' d active') same mint
  · intro id c' held
    obtain ⟨c,old,rfl⟩ := channel_of held
    rw [a.evidence,a.channels]
    exact a.earned id c old
  · intro id q' held
    obtain ⟨q,old,rfl⟩ := quote_of held
    rw [a.quotes]
    exact h.quotes.key id q old
  · intro id q' held
    obtain ⟨q,old,rfl⟩ := quote_of held
    obtain ⟨c,e,facts⟩ := h.quotes.channel id q old
    have found : (s.adjusted channel quote).channels.get? q.contract.channelId =
        some (channel q.contract.channelId c) := by
      simp only [State.adjusted,get?_mapWithKey,facts.held,map_some]
    have kept := a.channels q.contract.channelId c
    have stays (active : (quote id q).active = true) := a.stays id q c old active
      (facts.active (a.wasQuoted id q active))
    rw [kept] at found stays
    rw [a.quotes]
    exact ⟨_,e,{ facts with held := found, active := stays }⟩
  · intro id q' held
    obtain ⟨q,old,rfl⟩ := quote_of held
    rw [a.quotes]
    exact { h.quotes.balanced id q old with }
  · intro id q' id' p' held held' active active' same destination
    obtain ⟨q,old,rfl⟩ := quote_of held
    obtain ⟨p,old',rfl⟩ := quote_of held'
    rw [a.providerOf,a.providerOf,a.quotes id q,a.quotes id' p] at same
    rw [a.quotes id q,a.quotes id' p] at destination
    exact h.quotes.active id q id' p old old' (a.wasQuoted id q active) (a.wasQuoted id' p active') same
      destination

end Adjusted

def deactivated (s : State) (channel : String → Bool) (quote : String → PurchaseQuote → Bool) : State :=
  { s with
    channels := s.channels.mapWithKey fun id c => if channel id then { c with active := false } else c
    quotes := s.quotes.mapWithKey fun id q => if quote id q then { q with active := false } else q }

variable {id : String}

theorem closeQuote_eq_ok (h : s.closeQuote id = .ok s') :
    s' = s.deactivated (fun _ => false) fun i _ => i = id := by
  unfold closeQuote at h
  cases held : s.quotes.get? id with
  | none => simp [held] at h
  | some q =>
    simp only [held,Except.ok.injEq] at h
    rw [← h]
    simp [deactivated,OrderedMap.modify]

theorem closeChannel_eq_ok (h : s.closeChannel id = .ok s') :
    s' = s.deactivated (fun i => i = id) fun _ q => q.contract.channelId = id := by
  unfold closeChannel at h
  cases held : s.channels.get? id with
  | none => simp [held] at h
  | some c =>
    simp only [held,Except.ok.injEq] at h
    rw [← h]
    simp [deactivated,OrderedMap.modify,mapValues]

theorem Sound.deactivated (h : s.Sound) {channel : String → Bool} {quote : String → PurchaseQuote → Bool}
    (closes : ∀ id q, s.quotes.get? id = some q → channel q.contract.channelId = true → quote id q = true) :
    (s.deactivated channel quote).Sound := by
  have total : (s.deactivated channel quote).authorized = s.authorized := by
    simp only [authorized,State.deactivated,total_mapWithKey]
    congr 1
    refine total_congr fun id c _ => ?_
    split_ifs <;> rfl
  refine Sound.adjusted ⟨?_,?_,?_,?_,?_,?_,?_,total.trans_lt h.budget.fits,total.trans_le h.budget.within⟩ h
  · intro id c
    split_ifs <;> rfl
  · intro id q
    split_ifs <;> rfl
  · intro id c active
    split_ifs at active
    exact active
  · intro id q active
    split_ifs at active
    exact active
  · intro id q c held active open_
    split_ifs at active with kept
    rw [if_neg fun closed => kept (closes id q held closed)]
    exact open_
  · intro id c held
    split_ifs <;> exact (h.channels.facts id c held).capacity
  · intro id c held
    split_ifs <;> exact h.budget.earned id c held

structure CanAuthorize (s : State) (id : String) (balance : Nat) (c : PurchaseChannel) : Prop where
  held : s.channels.get? id = some c
  more : c.authorizedSat ≤ balance
  capacity : balance ≤ c.terms.capacitySat
  earned : balance ≤ ceilSat (s.evidence id + c.advanceMsat)
  fits : s.authorized + (balance - c.authorizedSat) < 2^64
  within : s.authorized + (balance - c.authorizedSat) ≤ s.totalBudgetSat

def withBalance (s : State) (id : String) (balance : Nat) : State :=
  { s with channels := s.channels.modify id fun c => { c with authorizedSat := balance } }

theorem BudgetSound.authorizedTotal_eq (h : s.BudgetSound) : s.authorizedTotal = some s.authorized := by
  have fits := h.fits
  unfold authorized at fits
  unfold authorizedTotal authorized
  rw [U64.foldlM_checkedAdd (fun c : PurchaseChannel => c.authorizedSat) _ _ (by omega)]
  rw [U64.tryFrom_eq_some,sum_values]
  exact ⟨fits,rfl⟩

theorem Sound.authorize_eq_ok (h : s.Sound) {provider : NodeAddr} {claimedMsat now balance : Nat}
    {includeFunding : Bool}
    (done : s.authorize provider id claimedMsat now includeFunding = .ok (balance,s')) :
    ∃ c, s.CanAuthorize id balance c ∧ s' = s.withBalance id balance := by
  simp only [authorize,bind_eq_ok,throwIf_eq_ok,orElse_eq_ok,filter_eq_some_iff] at done
  obtain ⟨c,⟨held,-⟩,-,evidence,earned,claimed,total,authorized,allowed,rfl,rfl⟩ := done
  rw [h.evidenceMsat_eq held,U64.tryFrom_eq_some] at earned
  rw [h.budget.authorizedTotal_eq] at authorized
  cases authorized
  have within : s.authorized + (max (ceilSat claimedMsat) c.authorizedSat - c.authorizedSat) < 2^64 ∧
      s.authorized + (max (ceilSat claimedMsat) c.authorizedSat - c.authorizedSat) ≤ s.totalBudgetSat := by
    simp only [U64.checkedAdd] at allowed
    split_ifs at allowed with fits
    · simp only [all_some,decide_eq_true_eq] at allowed
      omega
    · simp at allowed
  refine ⟨c,⟨held,le_max_right _ _,?_,max_le ?_ (h.budget.earned id c held),within.1,within.2⟩,rfl⟩
  · omega
  · refine ceilSat_mono ?_
    unfold U64.saturatingAdd at claimed
    omega

theorem Sound.withBalance (h : s.Sound) {balance : Nat} {c : PurchaseChannel}
    (can : s.CanAuthorize id balance c) : (s.withBalance id balance).Sound := by
  have adjusted : s.withBalance id balance = s.adjusted (fun i d =>
      if i = id then { d with authorizedSat := balance } else d) fun _ q => q := by
    rw [State.adjusted,mapWithKey_self]
    rfl
  have total : (s.withBalance id balance).authorized = s.authorized + (balance - c.authorizedSat) := by
    have updated : (s.withBalance id balance).channels.total (fun _ d => d.authorizedSat) + c.authorizedSat =
        s.channels.total (fun _ d => d.authorizedSat) + balance :=
      total_modify (fun d => { d with authorizedSat := balance }) (fun _ d => d.authorizedSat) can.held
    have more := can.more
    unfold authorized
    rw [show (s.withBalance id balance).history = s.history from rfl]
    omega
  have changed {i : String} {d : PurchaseChannel} (held : s.channels.get? i = some d) (same : i = id) :
      d = c := by
    cases can.held.symm.trans (same ▸ held)
    rfl
  rw [adjusted] at total ⊢
  refine Sound.adjusted ⟨?_,fun _ _ => rfl,?_,fun _ _ active => active,?_,?_,?_,total.trans_lt can.fits,
    total.trans_le can.within⟩ h
  · intro i d
    split_ifs <;> rfl
  · intro i d active
    split_ifs at active <;> exact active
  · intro i q d _ _ active
    split_ifs <;> exact active
  · intro i d held
    split_ifs with same
    · rw [changed held same]
      exact can.capacity
    · exact (h.channels.facts i d held).capacity
  · intro i d held
    split_ifs with same
    · rw [changed held same,same]
      exact can.earned
    · exact h.budget.earned i d held

end State

end Fips.Relay.Buyer
