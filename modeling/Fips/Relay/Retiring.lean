import Fips.Relay.Frames

set_option autoImplicit false

/-! The two retirements keep the books. -/

namespace Fips.Relay

open OrderedMap List

namespace RelayLedger

variable {l l' : RelayLedger}

section Routes

variable {channel : String} {throughUnix : Nat} {uninstalled kept : List Contract} {c : Channel}
  {after : RetiredRouteEvidence}

theorem get?_routesRetired {id : String} {a : Account} :
    (l.routesRetired channel throughUnix after).accounts.get? id = some a ↔
      l.accounts.get? id = some a ∧ closes channel throughUnix a = false := by
  have filtered : (l.routesRetired channel throughUnix after).accounts.get? id = _ :=
    get?_filterValues _ _ _
  rw [filtered,Option.filter_eq_some_iff,Bool.not_eq_true']

theorem exists_of_routesRetired {id : String} {d' : Channel}
    (hd' : (l.routesRetired channel throughUnix after).channels.get? id = some d') :
    ∃ d, l.channels.get? id = some d ∧
      (id = channel ∧ d' = { d with retired := after } ∨ id ≠ channel ∧ d' = d) := by
  have modified : (l.routesRetired channel throughUnix after).channels.get? id = _ := get?_modify _ _ _ _
  rw [modified] at hd'
  obtain ⟨d,hd,rfl⟩ := Option.map_eq_some_iff.1 hd'
  by_cases same : id = channel
  · exact ⟨d,hd,.inl ⟨same,if_pos same⟩⟩
  · exact ⟨d,hd,.inr ⟨same,if_neg same⟩⟩

theorem get?_channel_routesRetired {id : String} {d : Channel} (hd : l.channels.get? id = some d) :
    (l.routesRetired channel throughUnix after).channels.get? id =
      some (if id = channel then { d with retired := after } else d) := by
  have modified : (l.routesRetired channel throughUnix after).channels.get? id = _ := get?_modify _ _ _ _
  rw [modified,hd]
  rfl

theorem RetiresRoutes.attemptAt (r : l.RetiresRoutes channel throughUnix uninstalled c kept after)
    (id : String) (d : Digest) :
    (l.routesRetired channel throughUnix after).attemptAt id d = l.attemptAt id d := by
  unfold RelayLedger.attemptAt
  cases account : l.accounts.get? id with
  | none =>
    have gone : (l.routesRetired channel throughUnix after).accounts.get? id = none := by
      rw [Option.eq_none_iff_forall_ne_some]
      intro a ha
      rw [(get?_routesRetired.1 ha).1] at account
      cases account
    rw [gone]
  | some a =>
    cases closed : closes channel throughUnix a with
    | true =>
      have gone : (l.routesRetired channel throughUnix after).accounts.get? id = none := by
        rw [Option.eq_none_iff_forall_ne_some]
        intro b hb
        obtain ⟨old,open_⟩ := get?_routesRetired.1 hb
        cases account.symm.trans old
        rw [open_] at closed
        cases closed
      rw [gone,Option.bind_some,(r.idle id a account closed).2.2]
      rfl
    | false => rw [get?_routesRetired.2 ⟨account,closed⟩]

/-- The amounts of the accounts that stay and of those that go make up the amounts of all. -/
theorem total_routesRetired (l : RelayLedger) (channel : String) (throughUnix : Nat)
    (after : RetiredRouteEvidence) (f : Account → Nat) (i : String) :
    ((l.routesRetired channel throughUnix after).accounts.total fun _ a =>
      if a.contract.channelId = i then f a else 0) +
      (if i = channel then ((l.accounts.values.filter (closes channel throughUnix)).map f).sum else 0) =
    l.accounts.total fun _ a => if a.contract.channelId = i then f a else 0 := by
  refine total_filterValues_add l.accounts f (fun a closed => ?_) i
  simp only [closes,decide_eq_true_eq] at closed
  exact closed.1

section Retired

variable (r : l.RetiresRoutes channel throughUnix uninstalled c kept after)
include r

theorem RetiresRoutes.amounts :
    after.reservedMsat = c.retired.reservedMsat + ((l.accounts.values.filter (closes channel throughUnix)).map
      fun a => a.contract.price.due a.usage.reservedUnits).sum ∧
    after.submittedMsat = c.retired.submittedMsat +
      ((l.accounts.values.filter (closes channel throughUnix)).map
      fun a => a.contract.price.due a.usage.submittedUnits).sum := by
  have reserved := r.evidence.reserved
  have submitted := r.evidence.submitted
  have unused : (kept.map fun d => d.price.due 0).sum = 0 := sum_eq_zero (by simp)
  simp only [map_append,map_map,sum_append,Function.comp_def,unused] at reserved submitted
  exact ⟨reserved,submitted⟩

theorem RetiresRoutes.evidence_valid (h : l.Sound) : after.valid c.terms.expiresUnix = true := by
  refine r.evidence.valid (h.channels.evidence _ c r.held) ?_ ?_
  · intro i hi
    obtain hi | hi := mem_append.1 hi
    · obtain ⟨a,ha,rfl⟩ := mem_map.1 hi
      obtain ⟨present,closed⟩ := mem_filter.1 ha
      obtain ⟨id,account⟩ := mem_values.1 present
      obtain ⟨d,hd,valid,-⟩ := h.accounts.channel id a account
      simp only [closes,decide_eq_true_eq] at closed
      cases r.held.symm.trans (closed.1 ▸ hd)
      exact (validateContract_eq_ok valid).2.2
    · obtain ⟨d,hd,rfl⟩ := mem_map.1 hi
      exact (validateContract_eq_ok (r.facts d (r.subset hd)).valid).2.2
  · intro i hi
    obtain hi | hi := mem_append.1 hi
    · obtain ⟨a,ha,rfl⟩ := mem_map.1 hi
      obtain ⟨present,closed⟩ := mem_filter.1 ha
      obtain ⟨id,account⟩ := mem_values.1 present
      have reserved := (h.accounts.balanced id a account).reserved
      have none : a.unitsIn .pending = 0 := by
        rw [Account.unitsIn,(r.idle id a account closed).2.2,total_empty]
      rw [none] at reserved
      exact reserved
    · obtain ⟨d,hd,rfl⟩ := mem_map.1 hi
      rfl

theorem RetiresRoutes.live (h : l.Sound) {id : String} {a : Account} (account : l.accounts.get? id = some a)
    (mine : a.contract.channelId = channel) (open_ : closes channel throughUnix a = false) :
    after.rejects a.contract.expiresUnix = false := by
  have later : throughUnix < a.contract.expiresUnix := by
    simpa [closes,mine] using open_
  obtain ⟨d,hd,-,live⟩ := h.accounts.channel id a account
  cases r.held.symm.trans (mine ▸ hd)
  refine r.evidence.live (h.channels.evidence _ c r.held) live fun i hi => ?_
  obtain hi | hi := mem_append.1 hi
  · obtain ⟨b,hb,rfl⟩ := mem_map.1 hi
    have closed := (mem_filter.1 hb).2
    simp only [closes,decide_eq_true_eq] at closed
    exact closed.2.trans_lt later
  · obtain ⟨d,hd,rfl⟩ := mem_map.1 hi
    exact (r.facts d (r.subset hd)).through.trans_lt later

end Retired

theorem Sound.routesRetired (h : l.Sound) (r : l.RetiresRoutes channel throughUnix uninstalled c kept after) :
    (l.routesRetired channel throughUnix after).Sound := by
  have channels : (l.routesRetired channel throughUnix after).channels =
      l.channels.mapWithKey fun id d => if id = channel then { d with retired := after } else d := rfl
  have buyers (a : Account) : (l.routesRetired channel throughUnix after).buyerOf a = l.buyerOf a := by
    unfold buyerOf
    rw [channels,get?_mapWithKey,Option.map_map]
    split_ifs <;> rfl
  refine ⟨⟨?_,?_,?_⟩,channelsSound_of_facts fun id d' hd' => ?_,h.tokens.frame r.attemptAt rfl rfl rfl,
    ?_,⟨?_,?_,?_⟩,?_,⟨?_,?_,h.bounds.history⟩⟩
  · intro id a ha
    exact h.accounts.key id a (get?_routesRetired.1 ha).1
  · intro id a ha
    exact h.accounts.balanced id a (get?_routesRetired.1 ha).1
  · intro id a ha
    obtain ⟨account,open_⟩ := get?_routesRetired.1 ha
    obtain ⟨d,hd,valid,live⟩ := h.accounts.channel id a account
    refine ⟨_,get?_channel_routesRetired hd,?_⟩
    split_ifs with same
    · exact ⟨valid,r.live h account same open_⟩
    · exact ⟨valid,live⟩
  · have reserved := total_routesRetired l channel throughUnix after
      (fun a => a.contract.price.due a.usage.reservedUnits) id
    have submitted := total_routesRetired l channel throughUnix after
      (fun a => a.contract.price.due a.usage.submittedUnits) id
    rw [← RelayLedger.reservedOn,← RelayLedger.reservedOn] at reserved
    rw [← RelayLedger.submittedOn,← RelayLedger.submittedOn] at submitted
    obtain ⟨d,hd,⟨rfl,rfl⟩ | ⟨other,rfl⟩⟩ := exists_of_routesRetired hd'
    · cases r.held.symm.trans hd
      obtain ⟨key,terms,-,wasReserved,wasSubmitted,paid,capacity,credit⟩ := h.channels.facts hd
      obtain ⟨reservedMore,submittedMore⟩ := r.amounts
      rw [if_pos rfl] at reserved submitted
      exact ⟨key,terms,r.evidence_valid h,by simp only; omega,by simp only; omega,paid,capacity,credit⟩
    · rw [if_neg other,Nat.add_zero] at reserved submitted
      rw [reserved,submitted]
      exact h.channels.facts hd
  · refine h.fingerprints.frame rfl fun id buyer d => ?_
    constructor
    · rintro ⟨a,e',ha,legacy,he',owner,attempt⟩
      obtain ⟨e,he,⟨-,rfl⟩ | ⟨-,rfl⟩⟩ := exists_of_routesRetired he'
      · exact ⟨a,e,(get?_routesRetired.1 ha).1,legacy,he,owner,attempt⟩
      · exact ⟨a,e',(get?_routesRetired.1 ha).1,legacy,he,owner,attempt⟩
    · rintro ⟨a,e,ha,legacy,he,owner,attempt⟩
      refine ⟨a,_,get?_routesRetired.2 ⟨ha,?_⟩,legacy,get?_channel_routesRetired he,?_,attempt⟩
      · by_contra closed
        have modern := (r.idle id a ha (by simpa using closed)).2.1
        rw [modern] at legacy
        cases legacy
      · split_ifs <;> exact owner
  · intro id d id' e hd he activeD activeE buyer mint
    obtain ⟨d₀,hd₀,⟨-,rfl⟩ | ⟨-,rfl⟩⟩ := exists_of_routesRetired hd <;>
      obtain ⟨e₀,he₀,⟨-,rfl⟩ | ⟨-,rfl⟩⟩ := exists_of_routesRetired he <;>
      exact h.activity.channels id _ id' _ hd₀ he₀ activeD activeE buyer mint
  · intro id a id' b ha hb activeA activeB buyer destination
    rw [buyers,buyers] at buyer
    exact h.activity.accounts id a id' b (get?_routesRetired.1 ha).1
      (get?_routesRetired.1 hb).1 activeA activeB buyer
      destination
  · intro id a ha active
    obtain ⟨d,hd,serves⟩ := h.activity.serves id a (get?_routesRetired.1 ha).1 active
    refine ⟨_,get?_channel_routesRetired hd,?_⟩
    split_ifs <;> exact serves
  · refine h.credit.map rfl channels (fun i d => by split_ifs <;> rfl) ?_ ?_ ?_
    · intro i d active
      split_ifs at active <;> exact active
    · intro i d i' d' _ _ _ _
      split_ifs <;> exact le_rfl
    · intro i d _ _
      left
      split_ifs <;> exact ⟨le_rfl,le_rfl⟩
  · exact (size_modify _ _ _).le.trans h.bounds.channels
  · exact (length_filter_le _ _).trans h.bounds.accounts

end Routes

section Channels

variable {plan : Plan}

theorem total_erase_channels (channels : OrderedMap String Channel) (f : ChannelTerms → ChannelUsage → Nat)
    {planned : List ChannelSnapshot} (nodup : (planned.map (·.terms.id)).Nodup)
    (held : ∀ c ∈ planned, ∃ s, channels.get? c.terms.id = some s ∧ s.terms = c.terms ∧ s.usage = c.usage) :
    (planned.foldl (fun channels c => channels.erase c.terms.id) channels).total
      (fun _ c => f c.terms c.usage) +
      (planned.map fun c => f c.terms c.usage).sum = channels.total fun _ c => f c.terms c.usage := by
  induction planned generalizing channels with
  | nil => simp
  | cons c rest ih =>
    obtain ⟨first,tail⟩ := nodup_cons.1 nodup
    obtain ⟨s,hs,terms,usage⟩ := held c mem_cons_self
    have gone := total_erase (fun _ c => f c.terms c.usage) hs
    have others := ih (channels.erase c.terms.id) tail fun d hd => by
      obtain ⟨t,ht,facts⟩ := held d (mem_cons_of_mem _ hd)
      refine ⟨t,?_,facts⟩
      rw [get?_erase,if_neg,ht]
      intro same
      exact first (mem_map.2 ⟨d,hd,same⟩)
    rw [foldl_cons,map_cons,sum_cons]
    rw [terms,usage] at gone
    omega

theorem mem_plan_iff {id : String} {c : Channel} : (l.channelsRetired plan).channels.get? id = some c ↔
    l.channels.get? id = some c ∧ ∀ d ∈ plan.channels, d.terms.id ≠ id := by
  rw [get?_channelsRetired]
  constructor
  · intro hc
    split_ifs at hc with planned
    exact ⟨hc,fun d hd same => planned ⟨d,hd,same⟩⟩
  · rintro ⟨hc,kept⟩
    rw [if_neg,hc]
    rintro ⟨d,hd,same⟩
    exact kept d hd same

/-- A retired debt keeps counting against every other channel of its buyer and mint. -/
theorem carried_channelsRetired (valid : plan.Valid l.limits.maxChannels)
    (r : l.RetiresChannels plan) {terms : ChannelTerms} (other : ∀ d ∈ plan.channels, d.terms.id ≠ terms.id) :
    (l.channelsRetired plan).carried terms = l.carried terms := by
  have before : (l.history.map (·.debt terms)).getD 0 = History.owed plan.before.debts terms.owner := by
    rw [← History.debt_eq_owed (History.valid_debts valid.before).1,← r.before]
    cases l.history <;> rfl
  have adds := History.addsAll_of_foldlM valid.folded (History.valid_debts valid.before).1
  have after : plan.after.debt terms = History.owed plan.before.debts terms.owner +
      (plan.channels.map fun c => if terms.owner = c.terms.owner then c.usage.debt else 0).sum := by
    rw [History.debt_eq_owed adds.owners,adds.owed]
  have split := total_erase_channels l.channels (fun t u => if t.id ≠ terms.id ∧ t.buyer = terms.buyer ∧
      t.mintUrl = terms.mintUrl then u.debt else 0) valid.ids fun c hc => by
    obtain ⟨s,hs,-,sameTerms,usage,-⟩ := r.held c hc
    exact ⟨s,hs,sameTerms,usage⟩
  have moved : (plan.channels.map fun c => if c.terms.id ≠ terms.id ∧ c.terms.buyer = terms.buyer ∧
      c.terms.mintUrl = terms.mintUrl then c.usage.debt else 0).sum =
      (plan.channels.map fun c => if terms.owner = c.terms.owner then c.usage.debt else 0).sum := by
    congr 1
    refine map_congr_left fun c hc => ?_
    have apart := other c hc
    refine if_congr ?_ rfl rfl
    simp only [ChannelTerms.owner,Prod.mk.injEq,ne_eq,apart,not_false_eq_true,true_and]
    exact ⟨fun same => ⟨same.1.symm,same.2.symm⟩,fun same => ⟨same.1.symm,same.2.symm⟩⟩
  unfold carried
  simp only [related,decide_eq_true_eq]
  show plan.after.debt terms + _ = _
  simp only [channelsRetired]
  omega

theorem RetiresChannels.kept (r : l.RetiresChannels plan) {id : String} {a : Account} {c : Channel}
    (ha : l.accounts.get? id = some a) (hc : l.channels.get? a.contract.channelId = some c) :
    (l.channelsRetired plan).channels.get? a.contract.channelId = some c :=
  mem_plan_iff.2 ⟨hc,fun d hd same => r.empty d hd id a ha same.symm⟩

theorem size_channelsRetired_le (planned : List ChannelSnapshot) (channels : OrderedMap String Channel) :
    (planned.foldl (fun channels c => channels.erase c.terms.id) channels).size ≤ channels.size := by
  induction planned generalizing channels with
  | nil => exact le_rfl
  | cons c rest ih => exact (ih _).trans (size_erase_le _ _)

theorem Sound.channelsRetired (h : l.Sound) (valid : plan.Valid l.limits.maxChannels)
    (r : l.RetiresChannels plan) :
    (l.channelsRetired plan).Sound := by
  have buyers (id : String) (a : Account) (ha : l.accounts.get? id = some a) :
      (l.channelsRetired plan).buyerOf a = l.buyerOf a := by
    obtain ⟨c,hc,-⟩ := h.accounts.channel id a ha
    unfold buyerOf
    rw [r.kept ha hc,hc]
  have carried (id : String) (c : Channel) (hc : (l.channelsRetired plan).channels.get? id = some c) :
      (l.channelsRetired plan).carried c.terms = l.carried c.terms := by
    obtain ⟨old,kept⟩ := mem_plan_iff.1 hc
    refine carried_channelsRetired valid r fun d hd => ?_
    rw [h.channels.key id c old]
    exact kept d hd
  refine ⟨⟨h.accounts.key,h.accounts.balanced,?_⟩,channelsSound_of_facts fun id c hc =>
    h.channels.facts (mem_plan_iff.1 hc).1,h.tokens.frame (fun _ _ => rfl) rfl rfl rfl,?_,⟨?_,?_,?_⟩,⟨?_,?_⟩,
      ⟨?_,h.bounds.accounts,?_⟩⟩
  · intro id a ha
    obtain ⟨c,hc,facts⟩ := h.accounts.channel id a ha
    exact ⟨c,r.kept ha hc,facts⟩
  · refine h.fingerprints.frame rfl fun id buyer d => ?_
    constructor
    · rintro ⟨a,c,ha,legacy,hc,owner,attempt⟩
      exact ⟨a,c,ha,legacy,(mem_plan_iff.1 hc).1,owner,attempt⟩
    · rintro ⟨a,c,ha,legacy,hc,owner,attempt⟩
      exact ⟨a,c,ha,legacy,r.kept ha hc,owner,attempt⟩
  · intro id c id' c' hc hc'
    exact h.activity.channels id c id' c' (mem_plan_iff.1 hc).1 (mem_plan_iff.1 hc').1
  · intro id a id' a' ha ha' active active' buyer
    rw [buyers id a ha,buyers id' a' ha'] at buyer
    exact h.activity.accounts id a id' a' ha ha' active active' buyer
  · intro id a ha active
    obtain ⟨c,hc,serves⟩ := h.activity.serves id a ha active
    exact ⟨c,r.kept ha hc,serves⟩
  · intro id c hc active
    rw [carried id c hc]
    exact h.credit.carried id c (mem_plan_iff.1 hc).1 active
  · intro id c hc active
    rw [carried id c hc]
    exact h.credit.within id c (mem_plan_iff.1 hc).1 active
  · exact (size_channelsRetired_le _ _).trans h.bounds.channels
  · intro history held
    cases held
    exact valid.after

end Channels

end RelayLedger

end Fips.Relay
