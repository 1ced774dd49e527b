import Fips.Relay.Billing

set_option autoImplicit false

/-! Retirement leaves every amount as it was and fences off what it retired. -/

namespace Fips.Relay

open Checked OrderedMap Option List

namespace RelayLedger

variable {ext : Externals} {l l' : RelayLedger} {op : Op}

/-- The channel is gone and its term is over. -/
structure Buried (l : RelayLedger) (terms : ChannelTerms) : Prop where
  gone : l.channels.get? terms.id = none
  past : (l.history.any fun h => terms.expiresUnix ≤ h.expiresThroughUnix) = true

/-- Agreements of a channel up to an expiry are kept out, by the channel or by the history that took it. -/
inductive Fenced (l : RelayLedger) (terms : ChannelTerms) (expiry : Nat) : Prop
  | channel {c : Channel} (held : l.channels.get? terms.id = some c) (same : c.terms = terms)
    (rejects : c.retired.rejects expiry = true)
  | history (buried : l.Buried terms)

/-- The identifier of a channel is opened with no other terms. -/
def Identifies (terms : ChannelTerms) (op : Op) : Prop :=
  ∀ other paidMsat, op = .openChannelVerified other paidMsat → other.id = terms.id → other = terms

theorem Effect.past (e : l.Effect ext op l') {expiry : Nat}
    (past : (l.history.any fun h => expiry ≤ h.expiresThroughUnix) = true) :
    (l'.history.any fun h => expiry ≤ h.expiresThroughUnix) = true := by
  cases e with
  | @channelsRetired plan valid retires result =>
    have adds := History.addsAll_of_foldlM valid.folded (History.valid_debts valid.before).1
    rw [← retires.before] at adds
    cases held : l.history with
    | none => simp [held] at past
    | some h =>
      have later := adds.later
      simp only [held,any_some,decide_eq_true_eq] at past later
      exact decide_eq_true (past.trans later)
  | recovered covers result =>
    rw [raised_eq]
    exact past
  | _ => exact past

/-- Only an opening brings a channel into the ledger. -/
theorem Effect.absent (e : l.Effect ext op l') {id : String} (gone : l.channels.get? id = none) :
    l'.channels.get? id = none ∨
      ∃ terms paidMsat, op = .openChannelVerified terms paidMsat ∧ terms.id = id ∧
        l.CanOpen terms paidMsat := by
  have mapped (f : String → Channel → Channel) : (l.channels.mapWithKey f).get? id = none := by
    rw [get?_mapWithKey,gone,map_none]
  cases e with
  | refused quiet => exact .inl gone
  | @opened terms paidMsat can =>
    by_cases same : id = terms.id
    · exact .inr ⟨terms,paidMsat,rfl,same.symm,can⟩
    · rw [get?_opened,if_neg same]
      exact .inl gone
  | installed can => exact .inl gone
  | paid found more cap => exact .inl (mapped _)
  | admitted can result => exact .inl (mapped _)
  | finished waits outcome => exact .inl (mapped _)
  | closedContract i => exact .inl (mapped _)
  | closedChannel i => exact .inl (mapped _)
  | sealed found => exact .inl (mapped _)
  | routesRetired retires => exact .inl (mapped _)
  | channelsRetired valid retires result =>
    rw [get?_channelsRetired,gone,ite_self]
    exact .inl rfl
  | restored => exact .inl (mapped _)
  | @recovered windows covers result =>
    have same : l.halted.channels.get? id = none := gone
    rw [get?_raised,same]
    exact .inl rfl

variable {terms : ChannelTerms}

theorem Buried.not_canOpen (b : l.Buried terms) {paidMsat : Nat} : ¬ l.CanOpen terms paidMsat := by
  intro can
  have past := b.past
  cases held : l.history with
  | none => simp [held] at past
  | some h =>
    rw [held] at past
    exact absurd (can.later h held) (Nat.not_lt.2 (of_decide_eq_true past))

theorem Buried.effect (b : l.Buried terms) (e : l.Effect ext op l') (ids : Identifies terms op) :
    l'.Buried terms := by
  refine ⟨?_,e.past b.past⟩
  obtain gone | ⟨other,paidMsat,rfl,same,can⟩ := e.absent b.gone
  · exact gone
  · obtain rfl := ids other paidMsat rfl same
    exact absurd can b.not_canOpen

theorem Fenced.effect {expiry : Nat} (f : l.Fenced terms expiry) (h : l.Sound) (e : l.Effect ext op l')
    (ids : Identifies terms op) : l'.Fenced terms expiry := by
  cases f with
  | @channel c held same rejects =>
    obtain ⟨c',stays⟩ | ⟨plan,s,retires⟩ := e.channel h held
    · exact .channel stays.held (stays.terms.trans same) (stays.fence expiry rejects)
    · refine .history ⟨retires.gone,?_⟩
      obtain ⟨after,adds⟩ := retires.history
      have through := adds.through s retires.mem
      rw [retires.terms,same] at through
      rw [after]
      exact decide_eq_true through
  | history buried => exact .history (buried.effect e ids)

theorem Buried.openChannelVerified (b : l.Buried terms) (paidMsat : Nat) (m : RelayLedger) :
    l.openChannelVerified terms paidMsat ≠ .ok m := by
  intro done
  simp only [RelayLedger.openChannelVerified,bind_eq_ok,throwIf_eq_ok,b.gone,b.past] at done
  obtain ⟨-,-,-,open_,-⟩ := done
  exact open_ trivial

theorem Fenced.addContract {contract : Contract} (f : l.Fenced terms contract.expiresUnix)
    (owner : contract.channelId = terms.id) (m : RelayLedger) : l.addContract contract ≠ .ok m := by
  intro done
  unfold RelayLedger.addContract at done
  cases f with
  | channel held same rejects =>
    simp only [owner,held,bind_eq_ok,throwIf_eq_ok,rejects] at done
    obtain ⟨-,-,live,-⟩ := done
    exact live trivial
  | history buried =>
    rw [owner,buried.gone] at done
    cases done

theorem Fenced.absent {contract : Contract} (f : l.Fenced terms contract.expiresUnix) (h : l.Sound)
    (owner : contract.channelId = terms.id) {i : String} {a : Account} (ha : l.accounts.get? i = some a) :
    a.contract ≠ contract := by
  rintro rfl
  obtain ⟨c,hc,-,live⟩ := h.accounts.channel i a ha
  rw [owner] at hc
  cases f with
  | channel held same rejects =>
    cases held.symm.trans hc
    rw [rejects] at live
    cases live
  | history buried =>
    rw [buried.gone] at hc
    cases hc

section Routes

variable {channel : String} {throughUnix : Nat} {uninstalled kept : List Contract} {c : Channel}
  {after : RetiredRouteEvidence}

variable (r : l.RetiresRoutes channel throughUnix uninstalled c kept after)
include r

theorem get?_routesRetired_channel :
    (l.routesRetired channel throughUnix after).channels.get? channel = some { c with retired := after } := by
  rw [routesRetired,get?_modify,r.held,map_some,if_pos rfl]

theorem RetiresRoutes.rejects {d : Contract} (hd : d ∈ uninstalled) : after.rejects d.expiresUnix = true := by
  obtain mem | old := r.covered d hd
  · exact r.evidence.rejects (i := (d,{})) (mem_append.2 (.inr (mem_map.2 ⟨d,mem,rfl⟩)))
  · exact r.evidence.rejects_of_rejects old

theorem RetiresRoutes.rejects_account {i : String} {a : Account} (ha : l.accounts.get? i = some a)
    (closed : closes channel throughUnix a = true) : after.rejects a.contract.expiresUnix = true := by
  refine r.evidence.rejects (i := (a.contract,a.usage)) (mem_append.2 (.inl (mem_map.2 ⟨a,?_,rfl⟩)))
  exact mem_filter.2 ⟨mem_values.2 ⟨i,ha⟩,closed⟩

theorem RetiresRoutes.plan_again :
    (l.routesRetired channel throughUnix after).retirementPlanWithUninstalled
      channel throughUnix uninstalled =
      .ok ⟨channel,throughUnix,[],after,after⟩ := by
  have closed : ((l.routesRetired channel throughUnix after).accounts.values.filter fun a =>
      a.contract.channelId = channel ∧ a.contract.expiresUnix ≤ throughUnix) = [] := by
    refine filter_eq_nil_iff.2 fun a mem chosen => ?_
    obtain ⟨i,ha⟩ := mem_values.1 mem
    have spared := (get?_routesRetired.1 ha).2
    exact absurd (chosen.symm.trans spared) (by simp)
  have loop := foldlM_follows (fun done : List Contract => ((done.map (·.id)).reverse,
      (⟨channel,throughUnix,[],after,after⟩ : RouteRetirementPlan))) uninstalled
    (f := (l.routesRetired channel throughUnix after).planUninstalled c.terms) ?_
  · unfold retirementPlanWithUninstalled
    rw [get?_routesRetired_channel r]
    simp only [closed,foldlM_nil]
    rw [map_nil,reverse_nil] at loop
    simp only [pure_bind,loop]
    rfl
  · intro done d part
    have mem : d ∈ uninstalled := part.mem (by simp)
    have facts := r.facts d mem
    refine planUninstalled_eq_ok.2 ⟨⟨facts.valid,facts.channel,facts.through,facts.modern,?_⟩,?_,
      .inl ⟨r.rejects mem,by simp⟩⟩
    · rw [eq_none_iff_forall_ne_some]
      intro a ha
      have old := (get?_routesRetired.1 ha).1
      rw [facts.absent] at old
      cases old
    · have nodup := r.ids.sublist (part.sublist.map Contract.id)
      rw [map_append] at nodup
      rw [mem_reverse]
      exact fun again => (nodup_append.1 nodup).2.2 d.id again d.id mem_cons_self rfl

theorem RetiresRoutes.again :
    (l.routesRetired channel throughUnix after).retireClosedRoutesWithUninstalled
      channel throughUnix uninstalled =
      .ok (0,l.routesRetired channel throughUnix after) := by
  have channels : (l.routesRetired channel throughUnix after).channels.modify channel
      (fun c => { c with retired := after }) =
      (l.routesRetired channel throughUnix after).channels := by
    refine OrderedMap.ext fun i => ?_
    rw [get?_modify,routesRetired,get?_modify,Option.map_map]
    refine map_congr fun d _ => ?_
    by_cases here : i = channel <;> simp [here]
  have few : ¬ (l.routesRetired channel throughUnix after).limits.maxContracts < uninstalled.length :=
    Nat.not_lt.2 r.few
  unfold retireClosedRoutesWithUninstalled
  rw [if_neg few,r.plan_again]
  show Except.ok (0,{ l.routesRetired channel throughUnix after with
    channels := (l.routesRetired channel throughUnix after).channels.modify channel fun c =>
      { c with retired := after } }) = _
  rw [channels]

end Routes

theorem RetiresChannels.again {plan : Plan} (valid : plan.validate l.limits.maxChannels = .ok ()) :
    (l.channelsRetired plan).retireChannels plan = .ok (false,l.channelsRetired plan) := by
  have gone : (plan.channels.all fun s => !(l.channelsRetired plan).channels.contains s.terms.id) = true := by
    refine all_eq_true.2 fun s mem => ?_
    rw [contains_eq,get?_channelsRetired,if_pos ⟨s,mem,rfl⟩]
    rfl
  have same : (l.channelsRetired plan).history = some plan.after := rfl
  have limits : (l.channelsRetired plan).limits = l.limits := rfl
  unfold retireChannels
  rw [limits,valid,same]
  simp only [gone]
  rfl

/-- What the retirement of routes leaves as it was, and what it keeps out afterwards. -/
structure RoutesInvisible (ext : Externals) (l : RelayLedger) (channel : String) (throughUnix : Nat)
    (uninstalled : List Contract) (l' : RelayLedger) : Prop where
  usage : ∀ id, (l'.channels.get? id).map (·.usage) = (l.channels.get? id).map (·.usage)
  limit : ∀ terms paidMsat, l'.reservationLimit terms paidMsat = l.reservationLimit terms paidMsat
  again : l'.retireClosedRoutesWithUninstalled channel throughUnix uninstalled = .ok (0,l')
  never : ∀ c contract, l.channels.get? channel = some c →
    contract ∈ uninstalled ∨ (∃ i a, l.accounts.get? i = some a ∧ a.contract = contract ∧
      closes channel throughUnix a = true) →
    ∀ later, (∀ op ∈ later, Identifies c.terms op) → ∃ m, run ext l' later = some m ∧
      (∀ i a, m.accounts.get? i = some a → a.contract ≠ contract) ∧ ∀ n, m.addContract contract ≠ .ok n

/-- What the retirement of channels leaves as it was, and what it keeps out afterwards. -/
structure ChannelsInvisible (ext : Externals) (l : RelayLedger) (plan : Plan) (l' : RelayLedger) : Prop where
  removed : ∀ id, l'.channels.get? id = if ∃ s ∈ plan.channels, s.terms.id = id then
    none else l.channels.get? id
  present : ∀ s ∈ plan.channels, (l.channels.get? s.terms.id).isSome = true
  limit : ∀ terms paidMsat, (∀ s ∈ plan.channels, s.terms.id ≠ terms.id) →
    l'.reservationLimit terms paidMsat = l.reservationLimit terms paidMsat
  opened : ∀ later m, (∀ s ∈ plan.channels, ∀ op ∈ later, Identifies s.terms op) → run ext l' later = some m →
    ∀ terms paidMsat n, (∀ s ∈ plan.channels, Identifies s.terms (.openChannelVerified terms paidMsat)) →
      m.openChannelVerified terms paidMsat = .ok n →
        l'.reservationLimit terms paidMsat = l.reservationLimit terms paidMsat
  again : l'.retireChannels plan = .ok (false,l')
  never : ∀ s ∈ plan.channels, ∀ later, (∀ op ∈ later, Identifies s.terms op) →
    ∃ m, run ext l' later = some m ∧
    m.channels.get? s.terms.id = none ∧ ∀ paidMsat n, m.openChannelVerified s.terms paidMsat ≠ .ok n

theorem channelUsages_routesRetired (l : RelayLedger) (channel : String) (throughUnix : Nat)
    (after : RetiredRouteEvidence) :
    (l.routesRetired channel throughUnix after).channelUsages = l.channelUsages := by
  unfold channelUsages values
  rw [RelayLedger.routesRetired,OrderedMap.modify,mapWithKey,List.map_map,List.map_map,List.map_map]
  refine map_congr_left fun e _ => ?_
  by_cases here : e.1 = channel <;> simp [here]

theorem Sound.routesInvisible (h : l.Sound) {channel : String} {throughUnix n : Nat}
    {uninstalled : List Contract} (ext : Externals)
    (done : l.retireClosedRoutesWithUninstalled channel throughUnix uninstalled = .ok (n,l')) :
    l.RoutesInvisible ext channel throughUnix uninstalled l' := by
  obtain ⟨c,kept,after,r,rfl⟩ := retireClosedRoutes_eq_ok h.accounts.key done
  refine ⟨?_,?_,r.again,?_⟩
  · intro id
    rw [RelayLedger.routesRetired,get?_modify,Option.map_map]
    refine map_congr fun d _ => ?_
    by_cases here : id = channel <;> simp [here]
  · intro terms paidMsat
    rw [reservationLimit,channelUsages_routesRetired]
    rfl
  · intro d contract held retired later ids
    cases r.held.symm.trans held
    have key := h.channels.key channel c r.held
    have facts : contract.channelId = channel ∧ after.rejects contract.expiresUnix = true := by
      obtain mem | ⟨i,a,ha,rfl,closed⟩ := retired
      · exact ⟨(r.facts contract mem).channel,r.rejects mem⟩
      · exact ⟨(of_decide_eq_true closed).1,r.rejects_account ha closed⟩
    have kept : (l.routesRetired channel throughUnix after).channels.get? c.terms.id =
        some { c with retired := after } := by
      rw [key]
      exact get?_routesRetired_channel r
    have fenced : (l.routesRetired channel throughUnix after).Fenced c.terms contract.expiresUnix :=
      .channel kept rfl facts.2
    obtain ⟨m,reached,sound,still⟩ := (h.routesRetired r).run_keeps ext (Identifies c.terms)
      (fun m => m.Fenced c.terms contract.expiresUnix) fenced
        (fun _ _ _ sound ids f e => f.effect sound e ids) ids
    have owner := facts.1.trans key.symm
    exact ⟨m,reached,fun i a ha => still.absent sound owner ha,still.addContract owner⟩

theorem Sound.channelsInvisible (h : l.Sound) {plan : Plan} (ext : Externals)
    (done : l.retireChannels plan = .ok (true,l')) : l.ChannelsInvisible ext plan l' := by
  have checked : plan.validate l.limits.maxChannels = .ok () := by
    simp only [retireChannels,bind_eq_ok] at done
    obtain ⟨⟨⟩,valid,-⟩ := done
    exact valid
  obtain ⟨valid,⟨impossible,-⟩ | ⟨-,r,rfl⟩⟩ := retireChannels_eq_ok done
  · cases impossible
  have adds := History.addsAll_of_foldlM valid.folded (History.valid_debts valid.before).1
  have limit : ∀ terms paidMsat, (∀ s ∈ plan.channels, s.terms.id ≠ terms.id) →
      (l.channelsRetired plan).reservationLimit terms paidMsat = l.reservationLimit terms paidMsat := by
    intro terms paidMsat other
    rw [(h.channelsRetired valid r).bounds.reservationLimit_eq,h.bounds.reservationLimit_eq,
      carried_channelsRetired valid r other]
  have buries : ∀ s ∈ plan.channels, ∀ later, (∀ op ∈ later, Identifies s.terms op) →
      ∃ m, RelayLedger.run ext (l.channelsRetired plan) later = some m ∧ m.Buried s.terms := by
    intro s mem later ids
    have buried : (l.channelsRetired plan).Buried s.terms := by
      refine ⟨?_,decide_eq_true (adds.through s mem)⟩
      rw [get?_channelsRetired,if_pos ⟨s,mem,rfl⟩]
    obtain ⟨m,reached,-,still⟩ := (h.channelsRetired valid r).run_keeps ext (Identifies s.terms)
      (fun m => m.Buried s.terms) buried (fun _ _ _ _ ids b e => b.effect e ids) ids
    exact ⟨m,reached,still⟩
  refine ⟨get?_channelsRetired l plan,?_,limit,?_,RetiresChannels.again checked,?_⟩
  · intro s mem
    obtain ⟨c,held,-⟩ := r.held s mem
    rw [held]
    rfl
  · intro later m ids reached terms paidMsat n own done
    refine limit terms paidMsat fun s mem same => ?_
    obtain ⟨m',reached',buried⟩ := buries s mem later (ids s mem)
    cases reached.symm.trans reached'
    obtain rfl := own s mem terms paidMsat rfl same.symm
    exact buried.openChannelVerified paidMsat n done
  · intro s mem later ids
    obtain ⟨m,reached,buried⟩ := buries s mem later ids
    exact ⟨m,reached,buried.gone,buried.openChannelVerified⟩

/-- Retirement is financially invisible after every run, as long as no identifier of a channel is opened
again with other terms. -/
theorem retirement_invisible (ext : Externals) (limits : Limits) (ops : List Op) :
    ∃ l, run ext (new limits) ops = some l ∧
      (∀ channel throughUnix uninstalled n l',
        l.retireClosedRoutesWithUninstalled channel throughUnix uninstalled = .ok (n,l') →
        l.RoutesInvisible ext channel throughUnix uninstalled l') ∧
      ∀ plan l', l.retireChannels plan = .ok (true,l') → l.ChannelsInvisible ext plan l' := by
  obtain ⟨l,reached,sound⟩ := (sound_new limits).run ext ops
  exact ⟨l,reached,fun _ _ _ _ _ done => sound.routesInvisible ext done,fun _ _ done =>
    sound.channelsInvisible ext done⟩

/-! The condition on identifiers is needed: a new channel under an old identifier knows nothing of the
agreements that were retired with the old one, and owes the debt that was its own before. -/

def quietExternals : Externals := ⟨fun _ => 0,fun _ _ _ => false⟩

def shortTerms : ChannelTerms := ⟨"channel",1,"mint",10,1,2⟩

def longTerms : ChannelTerms := { shortTerms with expiresUnix := 20 }

def shortRoute : Contract := ⟨"route","channel",2,3,5,⟨1,1⟩,1,.forwardingAttempt⟩

def servedRun : List Op :=
  [.openChannelVerified shortTerms 0,.addContract shortRoute,.admitWithWindows ⟨1,3,4,2,[0]⟩ 0 none,
    .complete 1 .submitted,.closeChannel "channel"]

def shortPlan : Plan :=
  let retired : RetiredRouteEvidence := ⟨5,1,⟨1,1,0⟩,1,1⟩
  let usage : ChannelUsage := ⟨1,1,0,0⟩
  ⟨{},⟨1,10,1,usage,retired,[⟨1,"mint",1⟩]⟩,[⟨some retired,shortTerms,usage,false⟩]⟩

theorem longTerms_reinstalls :
    (run quietExternals (new ⟨1,1,1,1⟩) servedRun).map
      (fun l => (l.retireClosedRoutes "channel" 5).toOption.map (·.1)) = some (some 1) ∧
    ((run quietExternals (new ⟨1,1,1,1⟩) (servedRun ++ [.retireClosedRoutes "channel" 5 []])).bind fun l =>
      (l.retireChannels shortPlan).toOption.map fun result =>
        (l.reservationLimit longTerms 0,result.2.reservationLimit longTerms 0)) = some (some 2,some 1) ∧
    (run quietExternals (new ⟨1,1,1,1⟩)
      (servedRun ++ [.retireClosedRoutes "channel" 5 [],.retireChannels shortPlan,
      .openChannelVerified longTerms 0,.addContract shortRoute])).map
      (fun l => (l.accounts.get? "route").map (·.contract)) = some (some shortRoute) := by
  decide +kernel

end RelayLedger

end Fips.Relay
