import Fips.Relay.Buyer.Changes

set_option autoImplicit false

/-! Retirement of routes and channels on the buyer's side: nothing that was authorized or earned is
forgotten. -/

namespace Fips.Relay.Buyer

open Checked OrderedMap List

namespace State

variable {s s' : State} {channel : String} {throughUnix : Nat}

def closes (channel : String) (throughUnix : Nat) (q : PurchaseQuote) : Bool :=
  q.contract.channelId = channel ∧ q.contract.expiresUnix ≤ throughUnix

def item (q : PurchaseQuote) : Contract × Usage :=
  (q.contract,⟨q.observedUnits,q.submittedUnits,q.observedUnits - q.submittedUnits⟩)

def Idle (q : PurchaseQuote) : Prop :=
  q.active = false ∧ q.contract.billing.isLegacy = false ∧ q.attempts = []

theorem foldlM_planQuote {closed : List PurchaseQuote} {plan plan' : RouteRetirementPlan}
    (h : closed.foldlM planQuote plan = .ok plan') :
    (∀ q ∈ closed, Idle q) ∧ plan.after.addAll (closed.map item) = some plan'.after ∧
      plan'.contracts = plan.contracts ++ closed.map (·.contract) := by
  induction closed generalizing plan with
  | nil =>
    obtain rfl := pure_eq_ok.1 h
    exact ⟨by simp,rfl,by simp⟩
  | cons q rest ih =>
    simp only [foldlM_cons,planQuote,bind_eq_ok,throwIf_eq_ok,orElse_eq_ok,pure_eq_ok,
      U64.checkedSub_eq_some] at h
    obtain ⟨_,⟨busy,_,⟨-,rfl⟩,first,added,rfl⟩,h⟩ := h
    obtain ⟨idle,all,contracts⟩ := ih h
    simp only [not_or,Bool.not_eq_true,not_not] at busy
    refine ⟨forall_mem_cons.2 ⟨busy,idle⟩,RetiredRouteEvidence.addAll_cons added all,by simp [contracts]⟩

/-- What the retirement of the routes of a channel found and kept. -/
structure RetiresRoutes (s : State) (channel : String) (throughUnix : Nat) (c : PurchaseChannel)
    (e after : RetiredRouteEvidence) : Prop where
  held : s.channels.get? channel = some c
  retired : c.retired = some e
  idle : ∀ id q, s.quotes.get? id = some q → closes channel throughUnix q = true → Idle q
  evidence : e.Extends ((s.quotes.values.filter (closes channel throughUnix)).map item) after

def routesRetired (s : State) (channel : String) (throughUnix : Nat) (after : RetiredRouteEvidence) : State :=
  { s with
    quotes := s.quotes.filterValues fun q => !closes channel throughUnix q
    channels := s.channels.modify channel fun c => { c with retired := some after } }

theorem QuotesSound.retireClosedRoutes_eq_ok (h : s.QuotesSound)
    (done : s.retireClosedRoutes channel throughUnix = .ok s') :
    ∃ c e after, s.RetiresRoutes channel throughUnix c e after ∧
      s' = s.routesRetired channel throughUnix after := by
  simp only [retireClosedRoutes,retirementPlan,bind_eq_ok,orElse_eq_ok,pure_eq_ok] at done
  obtain ⟨plan,⟨c,held,e,retired,loop⟩,rfl⟩ := done
  obtain ⟨idle,all,contracts⟩ := foldlM_planQuote loop
  have closed : (s.quotes.values.filter fun q => q.contract.channelId = channel ∧
      q.contract.expiresUnix ≤ throughUnix) =
      s.quotes.values.filter (closes channel throughUnix) := rfl
  rw [closed] at idle all contracts
  refine ⟨c,e,plan.after,⟨held,retired,?_,RetiredRouteEvidence.extends_of_addAll all⟩,?_⟩
  · intro id q hq ends
    exact idle q (mem_filter.2 ⟨mem_values.2 ⟨id,hq⟩,ends⟩)
  · have erased := foldl_erase_eq_filterValues _ h.key (closes channel throughUnix) (forall_mem_nil _)
    simp only [routesRetired,← erased,contracts,append_nil,nil_append,foldl_map]

section RoutesRetired

variable {c : PurchaseChannel} {e after : RetiredRouteEvidence}

theorem get?_routesRetired {id : String} {q : PurchaseQuote} :
    (s.routesRetired channel throughUnix after).quotes.get? id = some q ↔
      s.quotes.get? id = some q ∧ closes channel throughUnix q = false := by
  simp only [routesRetired,get?_filterValues,Option.filter_eq_some_iff,Bool.not_eq_true']

theorem exists_channel_of_routesRetired {id : String} {d' : PurchaseChannel}
    (held : (s.routesRetired channel throughUnix after).channels.get? id = some d') :
    ∃ d, s.channels.get? id = some d ∧
      (id = channel ∧ d' = { d with retired := some after } ∨ id ≠ channel ∧ d' = d) := by
  simp only [routesRetired,get?_modify] at held
  obtain ⟨d,old,rfl⟩ := Option.map_eq_some_iff.1 held
  refine ⟨d,old,?_⟩
  split_ifs with same
  · exact .inl ⟨same,rfl⟩
  · exact .inr ⟨same,rfl⟩

theorem providerOf_routesRetired (q : PurchaseQuote) :
    (s.routesRetired channel throughUnix after).providerOf q = s.providerOf q := by
  simp only [providerOf,routesRetired,get?_modify,Option.map_map]
  split_ifs <;> rfl

section Retired

variable (r : s.RetiresRoutes channel throughUnix c e after)
include r

/-- The evidence of the quotes that go is in what the channel keeps. -/
theorem RetiresRoutes.evidence_eq (id : String) :
    (s.routesRetired channel throughUnix after).evidence id = s.evidence id := by
  have gone := r.evidence.submitted
  rw [map_map] at gone
  have kept : ((s.routesRetired channel throughUnix after).quotes.total fun _ q =>
      if q.contract.channelId = id then q.contract.price.due q.submittedUnits else 0) +
      (if id = channel then ((s.quotes.values.filter (closes channel throughUnix)).map
        fun q => q.contract.price.due q.submittedUnits).sum else 0) =
      s.quotes.total fun _ q => if q.contract.channelId = id then
        q.contract.price.due q.submittedUnits else 0 := by
    refine total_filterValues_add s.quotes (fun q => q.contract.price.due q.submittedUnits)
      (fun q ends => ?_) id
    simp only [closes,decide_eq_true_eq] at ends
    exact ends.1
  have retired : (s.routesRetired channel throughUnix after).retiredMsat id =
      s.retiredMsat id + if id = channel then ((s.quotes.values.filter (closes channel throughUnix)).map
        fun q => q.contract.price.due q.submittedUnits).sum else 0 := by
    by_cases same : id = channel
    · subst same
      rw [if_pos rfl,retiredMsat_eq r.held r.retired]
      simp only [retiredMsat,routesRetired,get?_modify,r.held,if_true]
      exact gone
    · simp only [retiredMsat,routesRetired,get?_modify,if_neg same,Option.map_id_fun',id_eq,Nat.add_zero]
  unfold State.evidence
  omega

theorem RetiresRoutes.evidence_valid (h : s.Sound) :
    after.valid c.terms.expiresUnix = true ∧ after.submittedMsat < 2^64 := by
  obtain ⟨f,retired,valid,fits⟩ := (h.channels.facts channel c r.held).retired
  cases r.retired.symm.trans retired
  have closed (i : Contract × Usage)
      (hi : i ∈ (s.quotes.values.filter (closes channel throughUnix)).map item) :
      ∃ id q, s.quotes.get? id = some q ∧ q.contract.channelId = channel ∧ i = item q := by
    obtain ⟨q,hq,rfl⟩ := mem_map.1 hi
    obtain ⟨present,ends⟩ := mem_filter.1 hq
    obtain ⟨id,held⟩ := mem_values.1 present
    simp only [closes,decide_eq_true_eq] at ends
    exact ⟨id,q,held,ends.1,rfl⟩
  refine ⟨r.evidence.valid valid ?_ ?_,?_⟩
  · intro i hi
    obtain ⟨id,q,held,on,rfl⟩ := closed i hi
    obtain ⟨d,f,facts⟩ := h.quotes.channel id q held
    cases r.held.symm.trans (on ▸ facts.held)
    exact (validateContract_eq_ok facts.valid).2.2
  · intro i hi
    obtain ⟨id,q,held,-,rfl⟩ := closed i hi
    have := (h.quotes.balanced id q held).submitted_le
    simp only [item]
    omega
  · by_cases none : (s.quotes.values.filter (closes channel throughUnix)).map item = []
    · rw [r.evidence.same none]
      exact fits
    · exact r.evidence.submittedFits none

theorem RetiresRoutes.live (h : s.Sound) {q : PurchaseQuote} (on : q.contract.channelId = channel)
    (before : e.rejects q.contract.expiresUnix = false) (stays : closes channel throughUnix q = false) :
    after.rejects q.contract.expiresUnix = false := by
  obtain ⟨f,retired,valid,-⟩ := (h.channels.facts channel c r.held).retired
  cases r.retired.symm.trans retired
  refine r.evidence.live valid before fun i hi => ?_
  obtain ⟨p,hp,rfl⟩ := mem_map.1 hi
  obtain ⟨-,ends⟩ := mem_filter.1 hp
  simp only [closes,decide_eq_true_eq] at ends
  simp only [closes,on,decide_eq_false_iff_not,true_and,Nat.not_le] at stays
  exact ends.2.trans_lt stays

theorem RetiresRoutes.sameAttempts : SameAttempts s (s.routesRetired channel throughUnix after) := by
  refine ⟨rfl,rfl,rfl,rfl,?_,?_,?_⟩
  · intro id i q a there
    obtain ⟨held,at_⟩ := attemptAt_eq_some.1 there
    exact ⟨q,attemptAt_eq_some.2 ⟨(get?_routesRetired.1 held).1,at_⟩,rfl,providerOf_routesRetired q⟩
  · intro id i q a there
    obtain ⟨held,at_⟩ := attemptAt_eq_some.1 there
    refine ⟨q,attemptAt_eq_some.2 ⟨get?_routesRetired.2 ⟨held,?_⟩,at_⟩,rfl⟩
    rw [Bool.eq_false_iff]
    intro ends
    rw [(r.idle id q held ends).2.2] at at_
    cases at_
  · simp only [routesRetired,total_filterValues]
    refine total_congr fun id q held => ?_
    by_cases ends : closes channel throughUnix q = true
    · simp [PurchaseQuote.waiting,(r.idle id q held ends).2.2]
    · simp [ends]

end Retired

theorem Sound.routesRetired (h : s.Sound) (r : s.RetiresRoutes channel throughUnix c e after) :
    (s.routesRetired channel throughUnix after).Sound := by
  have total : (s.routesRetired channel throughUnix after).authorized = s.authorized := by
    simp only [authorized,State.routesRetired,OrderedMap.modify,total_mapWithKey]
    congr 1
    refine total_congr fun id d _ => ?_
    split_ifs <;> rfl
  refine ⟨{ h.header with channels := ?_, quotes := ?_ },⟨?_,?_⟩,⟨?_,?_,?_⟩,⟨?_,?_,?_,?_⟩,
    h.tokens.frame r.sameAttempts,h.seen.frame r.sameAttempts⟩
  · exact (size_modify _ _ _).trans_le h.header.channels
  · exact (length_filter_le _ _).trans h.header.quotes
  · intro id d' held
    obtain ⟨d,old,⟨rfl,rfl⟩ | ⟨-,rfl⟩⟩ := exists_channel_of_routesRetired held
    · cases r.held.symm.trans old
      exact { h.channels.facts id c old with retired := ⟨after,rfl,r.evidence_valid h⟩ }
    · exact { h.channels.facts id d' old with }
  · intro id d id' d' held held' active active' same mint
    obtain ⟨f,old,⟨-,rfl⟩ | ⟨-,rfl⟩⟩ := exists_channel_of_routesRetired held <;>
    obtain ⟨f',old',⟨-,rfl⟩ | ⟨-,rfl⟩⟩ := exists_channel_of_routesRetired held' <;>
    exact h.channels.active id _ id' _ old old' active active' same mint
  · rw [total]
    exact h.budget.fits
  · rw [total]
    exact h.budget.within
  · intro id d' held
    rw [r.evidence_eq]
    obtain ⟨d,old,⟨-,rfl⟩ | ⟨-,rfl⟩⟩ := exists_channel_of_routesRetired held
    · exact h.budget.earned id d old
    · exact h.budget.earned id d' old
  · intro id q held
    exact h.quotes.key id q (get?_routesRetired.1 held).1
  · intro id q held
    obtain ⟨old,stays⟩ := get?_routesRetired.1 held
    obtain ⟨d,f,facts⟩ := h.quotes.channel id q old
    by_cases on : q.contract.channelId = channel
    · cases r.held.symm.trans (on ▸ facts.held)
      cases r.retired.symm.trans facts.retired
      refine ⟨{ c with retired := some after },after,?_,rfl,facts.valid,r.live h on facts.live stays,
        facts.onward,facts.active⟩
      simp only [State.routesRetired,get?_modify,on,r.held,Option.map_some,if_true]
    · refine ⟨d,f,{ facts with held := ?_ }⟩
      simp only [State.routesRetired,get?_modify,facts.held,Option.map_some,if_neg on]
  · intro id q held
    exact h.quotes.balanced id q (get?_routesRetired.1 held).1
  · intro id q id' q' held held' active active' same
    rw [providerOf_routesRetired,providerOf_routesRetired] at same
    exact h.quotes.active id q id' q' (get?_routesRetired.1 held).1
      (get?_routesRetired.1 held').1 active active' same

end RoutesRetired

end State

def RetiredChannel.authorizedSat : RetiredChannel → Nat
  | .installed c => c.authorizedSat
  | .neverInstalled _ => 0

theorem History.authorizedSat_added {h h' : History} {c : PurchaseChannel} (done : h.added c = .ok h') :
    h'.authorizedSat = h.authorizedSat + c.authorizedSat := by
  simp only [History.added,History.add,bind_eq_ok,orElse_eq_ok,pure_eq_ok,U64.checkedAdd_eq_some] at done
  obtain ⟨_,-,_,⟨-,rfl⟩,_,-,_,-,_,-,_,-,rfl⟩ := done
  rfl

theorem History.authorizedSat_addedAbsent {h h' : History} {terms : ChannelTerms}
    (done : h.addedAbsent terms = .ok h') :
    h'.authorizedSat = h.authorizedSat := by
  simp only [History.addedAbsent,bind_eq_ok,pure_eq_ok] at done
  obtain ⟨_,-,_,-,rfl⟩ := done
  rfl

namespace Plan

theorem checkChannel_eq_ok {ids ids' : List String} {h h' : History} {entry : RetiredChannel}
    (done : checkChannel (ids,h) entry = .ok (ids',h')) :
    entry.terms.id ∉ ids ∧ ids' = entry.terms.id :: ids ∧
      h'.authorizedSat = h.authorizedSat + entry.authorizedSat := by
  cases entry with
  | installed c =>
    simp only [checkChannel,bind_eq_ok,throwIf_eq_ok] at done
    obtain ⟨_,-,fresh,_,-,-,after,added,rfl,rfl⟩ := done
    exact ⟨fresh,rfl,History.authorizedSat_added added⟩
  | neverInstalled terms =>
    simp only [checkChannel,bind_eq_ok,throwIf_eq_ok] at done
    obtain ⟨_,-,fresh,after,added,rfl,rfl⟩ := done
    exact ⟨fresh,rfl,History.authorizedSat_addedAbsent added⟩

theorem foldlM_checkChannel {entries : List RetiredChannel} {ids ids' : List String} {h h' : History}
    (done : entries.foldlM checkChannel (ids,h) = .ok (ids',h')) :
    ((entries.map (·.terms.id)).Nodup ∧ ∀ e ∈ entries, e.terms.id ∉ ids) ∧
      h'.authorizedSat = h.authorizedSat + (entries.map RetiredChannel.authorizedSat).sum := by
  induction entries generalizing ids h with
  | nil =>
    obtain ⟨rfl,rfl⟩ := Prod.mk.inj (pure_eq_ok.1 done)
    simp
  | cons e rest ih =>
    rw [foldlM_cons,bind_eq_ok] at done
    obtain ⟨⟨ids₁,h₁⟩,first,later⟩ := done
    obtain ⟨fresh,rfl,added⟩ := checkChannel_eq_ok first
    obtain ⟨⟨nodup,apart⟩,total⟩ := ih later
    refine ⟨nodup_keys_cons fresh nodup apart,?_⟩
    rw [map_cons,sum_cons]
    omega

structure Valid (p : Plan) : Prop where
  nodup : (p.channels.map (·.terms.id)).Nodup
  authorized : p.after.authorizedSat =
    p.before.authorizedSat + (p.channels.map RetiredChannel.authorizedSat).sum
  after : p.after.valid = true

theorem validate_eq_ok {p : Plan} (done : p.validate = .ok ()) : p.Valid := by
  simp only [validate,bind_eq_ok,ite_throw_eq_ok,not_or,not_not] at done
  obtain ⟨⟨ids,after⟩,loop,⟨-,same,valid,-⟩,-⟩ := done
  obtain ⟨⟨nodup,-⟩,total⟩ := foldlM_checkChannel loop
  subst same
  exact ⟨nodup,total,by simpa using valid⟩

end Plan

namespace State

variable {s s' : State} {plan : Plan}

structure RetiresChannels (s : State) (plan : Plan) : Prop where
  before : s.history.getD {} = plan.before
  held : ∀ e ∈ plan.channels, s.planMatches e = true
  unquoted : ∀ e ∈ plan.channels, ∀ id q, s.quotes.get? id = some q → q.contract.channelId ≠ e.terms.id

def channelsRetired (s : State) (plan : Plan) : State :=
  { s with
    channels := plan.channels.foldl (fun channels e => channels.erase e.terms.id) s.channels
    history := some plan.after
    version := 4 }

theorem retireChannels_eq_ok (done : s.retireChannels plan = .ok (some s')) :
    plan.Valid ∧ s.RetiresChannels plan ∧ s' = s.channelsRetired plan := by
  simp only [retireChannels,bind_eq_ok] at done
  obtain ⟨⟨⟩,valid,done⟩ := done
  refine ⟨Plan.validate_eq_ok valid,?_⟩
  rw [ite_eq_iff] at done
  obtain ⟨-,again⟩ | ⟨-,done⟩ := done
  · cases again
  · rw [throwIf_eq_ok] at done
    obtain ⟨differs,done⟩ := done
    cases pure_eq_ok.1 done
    simp only [not_or,not_not,any_eq_true,not_exists,not_and,decide_eq_true_eq,Bool.not_eq_true',
      Bool.not_eq_false] at differs
    obtain ⟨before,all⟩ := differs
    refine ⟨⟨before,fun e he => (all e he).1,fun e he id q held on => ?_⟩,rfl⟩
    exact (all e he).2 q (mem_values.2 ⟨id,held⟩) on

theorem get?_channelsRetired (s : State) (plan : Plan) (id : String) :
    (s.channelsRetired plan).channels.get? id =
    if id ∈ plan.channels.map (·.terms.id) then none else s.channels.get? id := by
  have erased : (s.channelsRetired plan).channels = (plan.channels.map (·.terms.id)).foldl
      OrderedMap.erase s.channels := by
    rw [foldl_map]
    rfl
  rw [erased,get?_foldl_erase]

theorem RetiresChannels.stays (r : s.RetiresChannels plan) {id : String} {q : PurchaseQuote}
    (held : s.quotes.get? id = some q) : (s.channelsRetired plan).channels.get? q.contract.channelId =
      s.channels.get? q.contract.channelId := by
  rw [get?_channelsRetired,if_neg]
  intro listed
  obtain ⟨e,he,same⟩ := mem_map.1 listed
  exact r.unquoted e he id q held same.symm

/-- What leaves the channels enters the history. -/
theorem RetiresChannels.authorized_eq (r : s.RetiresChannels plan) (valid : plan.Valid) :
    (s.channelsRetired plan).authorized = s.authorized := by
  have left := total_foldl_erase valid.nodup s.channels fun _ c => c.authorizedSat
  rw [foldl_map,map_map] at left
  have entries : (plan.channels.map
      ((fun k => (s.channels.get? k).elim 0 fun c => c.authorizedSat) ∘ (·.terms.id))).sum =
      (plan.channels.map RetiredChannel.authorizedSat).sum := by
    congr 1
    refine map_congr_left fun e he => ?_
    have found := r.held e he
    cases e with
    | installed c =>
      simp only [planMatches,decide_eq_true_eq] at found
      simp [RetiredChannel.terms,RetiredChannel.authorizedSat,found]
    | neverInstalled terms =>
      simp only [planMatches,contains_eq,Bool.not_eq_true',Option.isSome_eq_false_iff,
        Option.isNone_iff_eq_none] at found
      simp [RetiredChannel.terms,RetiredChannel.authorizedSat,found]
  rw [entries] at left
  have before : (s.history.map (·.authorizedSat)).getD 0 = plan.before.authorizedSat := by
    rw [← r.before]
    cases s.history <;> rfl
  have after : ((s.channelsRetired plan).history.map (·.authorizedSat)).getD 0 =
      plan.after.authorizedSat := rfl
  have remaining : (s.channelsRetired plan).channels.total (fun _ c => c.authorizedSat) +
      (plan.channels.map RetiredChannel.authorizedSat).sum =
        s.channels.total fun _ c => c.authorizedSat := left
  unfold authorized
  rw [after,valid.authorized]
  omega

theorem Sound.channelsRetired (h : s.Sound) (valid : plan.Valid) (r : s.RetiresChannels plan) :
    (s.channelsRetired plan).Sound := by
  have old {id : String} {c : PurchaseChannel} (held : (s.channelsRetired plan).channels.get? id = some c) :
      s.channels.get? id = some c := by
    rw [get?_channelsRetired] at held
    split_ifs at held
    exact held
  refine h.frame rfl rfl rfl rfl rfl (fun _ _ => r.stays)
    { h.header with version := rfl, history := ?_, channels := ?_ } ⟨?_,?_⟩ ⟨?_,?_,?_⟩
  · rintro _ ⟨⟩
    exact valid.after
  · refine le_trans ?_ h.header.channels
    have left := total_foldl_erase valid.nodup s.channels fun _ _ => 1
    rw [foldl_map] at left
    have fewer : (s.channelsRetired plan).channels.total (fun _ _ => 1) ≤ s.channels.total fun _ _ => 1 :=
      (Nat.le_add_right _ _).trans_eq left
    rwa [← size_eq_total,← size_eq_total] at fewer
  · intro id c held
    exact { h.channels.facts id c (old held) with }
  · intro id c id' c' held held'
    exact h.channels.active id c id' c' (old held) (old held')
  · rw [r.authorized_eq valid]
    exact h.budget.fits
  · rw [r.authorized_eq valid]
    exact h.budget.within
  · intro id c held
    have evidence : (s.channelsRetired plan).evidence id = s.evidence id := by
      simp only [State.evidence,retiredMsat,held,old held]
      rfl
    rw [evidence]
    exact h.budget.earned id c (old held)

end State

end Fips.Relay.Buyer
