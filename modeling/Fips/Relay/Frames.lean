import Fips.Relay.Accounting

set_option autoImplicit false

/-! Which parts of the books depend on which parts of the ledger. -/

namespace Fips.Relay

open Option OrderedMap

def Channel.fixed (c : Channel) : ChannelTerms × RetiredRouteEvidence := (c.terms,c.retired)

def Account.traces (a : Account) : Contract × (Digest → Bool) :=
  (a.contract,fun d => a.contract.billing.isLegacy && (a.attempts.get? d).isSome)

namespace RelayLedger

variable {l l' : RelayLedger}

theorem exists_of_view {α β : Type} {v : α → β} {o o' : Option α} (h : o'.map v = o.map v)
    {a' : α} (ha : o' = some a') :
    ∃ a, o = some a ∧ v a' = v a := by
  subst ha
  obtain ⟨a,found,same⟩ := map_eq_some_iff.1 h.symm
  exact ⟨a,found,same.symm⟩

/-- What the books say of one channel when its accounts reserved and submitted these amounts. -/
structure ChannelFacts (id : String) (c : Channel) (reservedOn submittedOn : Nat) : Prop where
  key : c.terms.id = id
  terms : validateChannel c.terms = .ok (c.terms.capacitySat * 1000)
  evidence : c.retired.valid c.terms.expiresUnix = true
  reserved : c.usage.reservedMsat = c.usage.lostMsat + c.retired.reservedMsat + reservedOn
  submitted : c.usage.submittedMsat = c.retired.submittedMsat + submittedOn
  paid : c.usage.paidMsat ≤ c.terms.capacitySat * 1000
  capacity : c.usage.reservedMsat ≤ c.terms.capacitySat * 1000
  credit : c.usage.reservedMsat ≤ c.usage.paidMsat + c.terms.graceMsat

variable {id : String}

theorem ChannelsSound.facts (h : l.ChannelsSound) {c : Channel} (hc : l.channels.get? id = some c) :
    ChannelFacts id c (l.reservedOn id) (l.submittedOn id) :=
  ⟨h.key id c hc,h.terms id c hc,h.evidence id c hc,h.reserved id c hc,h.submitted id c hc,h.paid id c hc,
    h.capacity id c hc,h.credit id c hc⟩

theorem channelsSound_of_facts
    (h : ∀ id c, l.channels.get? id = some c → ChannelFacts id c (l.reservedOn id) (l.submittedOn id)) :
    l.ChannelsSound :=
  ⟨fun id c hc => (h id c hc).key,fun id c hc => (h id c hc).terms,fun id c hc => (h id c hc).evidence,
    fun id c hc => (h id c hc).reserved,fun id c hc => (h id c hc).submitted,fun id c hc => (h id c hc).paid,
    fun id c hc => (h id c hc).capacity,fun id c hc => (h id c hc).credit⟩

/-- The channels are the same up to their usage and activity. -/
def SameTerms (l l' : RelayLedger) : Prop :=
  ∀ id, (l'.channels.get? id).map Channel.fixed = (l.channels.get? id).map Channel.fixed

variable {f : String → Channel → Channel}

theorem sameTerms_map (channels : l'.channels = l.channels.mapWithKey f)
    (fixed : ∀ id c, (f id c).terms = c.terms ∧ (f id c).retired = c.retired) : SameTerms l l' := by
  intro id
  rw [channels,OrderedMap.get?_mapWithKey,map_map]
  congr 1
  funext c
  simp [Channel.fixed,fixed id c]

theorem SameTerms.exists_old (h : SameTerms l l') {c' : Channel} (hc : l'.channels.get? id = some c') :
    ∃ c, l.channels.get? id = some c ∧ c'.terms = c.terms ∧ c'.retired = c.retired := by
  obtain ⟨c,found,same⟩ := exists_of_view (h id) hc
  exact ⟨c,found,Prod.mk.inj same⟩

theorem SameTerms.exists_new (h : SameTerms l l') {c : Channel} (hc : l.channels.get? id = some c) :
    ∃ c', l'.channels.get? id = some c' ∧ c'.terms = c.terms ∧ c'.retired = c.retired := by
  obtain ⟨c',found,same⟩ := exists_of_view (h id).symm hc
  exact ⟨c',found,(Prod.mk.inj same).1.symm,(Prod.mk.inj same).2.symm⟩

theorem SameTerms.buyerOf (h : SameTerms l l') {a a' : Account} (contract : a'.contract = a.contract) :
    l'.buyerOf a' = l.buyerOf a := by
  unfold RelayLedger.buyerOf
  rw [contract]
  have same := congrArg (Option.map fun x : ChannelTerms × RetiredRouteEvidence => x.1.buyer)
    (h a.contract.channelId)
  rw [map_map,map_map] at same
  exact same

theorem AccountsSound.frame (h : l.AccountsSound) (limits : l'.limits = l.limits) (terms : SameTerms l l')
    (accounts : ∀ id a', l'.accounts.get? id = some a' → ∃ a, l.accounts.get? id = some a ∧
      a'.contract = a.contract ∧ (a.Balanced l.limits → a'.Balanced l.limits)) : l'.AccountsSound := by
  refine ⟨?_,?_,?_⟩
  · intro id a' ha'
    obtain ⟨a,ha,contract,-⟩ := accounts id a' ha'
    rw [contract]
    exact h.key id a ha
  · intro id a' ha'
    obtain ⟨a,ha,-,balanced⟩ := accounts id a' ha'
    rw [limits]
    exact balanced (h.balanced id a ha)
  · intro id a' ha'
    obtain ⟨a,ha,contract,-⟩ := accounts id a' ha'
    obtain ⟨c,hc,valid,live⟩ := h.channel id a ha
    obtain ⟨c',hc',sameTerms,retired⟩ := terms.exists_new hc
    rw [contract]
    exact ⟨c',hc',sameTerms ▸ valid,retired ▸ live⟩

theorem TokensSound.frame (h : l.TokensSound) (attempts : ∀ id d, l'.attemptAt id d = l.attemptAt id d)
    (pending : l'.pending = l.pending) (next : l'.nextToken = l.nextToken) (limits : l'.limits = l.limits) :
    l'.TokensSound := by
  refine ⟨?_,?_,?_,?_,?_⟩
  · intro t id d
    rw [pending,attempts]
    exact h.pending t id d
  · intro id d x id' d' x'
    rw [attempts,attempts]
    exact h.unique id d x id' d' x'
  · intro id d x
    rw [attempts,next]
    exact h.range id d x
  · rw [pending,limits]
    exact h.room
  · rw [next]
    exact h.next

theorem FingerprintsSound.frame (h : l.FingerprintsSound) (seen : l'.seen = l.seen)
    (same : ∀ id buyer d, l'.Fingerprinted id buyer d ↔ l.Fingerprinted id buyer d) :
    l'.FingerprintsSound := by
  refine ⟨?_,?_⟩
  · intro buyer d
    rw [seen,h.seen]
    exact exists_congr fun id => (same id buyer d).symm
  · intro id id' buyer d first second
    exact h.unique id id' buyer d ((same id buyer d).1 first) ((same id' buyer d).1 second)

theorem fingerprinted_of_traces (terms : SameTerms l l')
    (accounts : ∀ id, (l'.accounts.get? id).map Account.traces = (l.accounts.get? id).map Account.traces)
    {buyer : NodeAddr} {d : Digest} (h : l.Fingerprinted id buyer d) : l'.Fingerprinted id buyer d := by
  obtain ⟨a,c,ha,legacy,hc,owner,attempt⟩ := h
  obtain ⟨a',ha',same⟩ := exists_of_view (accounts id).symm ha
  obtain ⟨c',hc',sameTerms,-⟩ := terms.exists_new hc
  obtain ⟨contract,digests⟩ := Prod.mk.inj same
  have kept := congrFun digests d
  simp only [legacy,attempt,Bool.and_self] at kept
  rw [eq_comm,Bool.and_eq_true] at kept
  exact ⟨a',c',ha',kept.1,contract ▸ hc',sameTerms ▸ owner,kept.2⟩

theorem fingerprinted_iff (terms : SameTerms l l')
    (accounts : ∀ id, (l'.accounts.get? id).map Account.traces = (l.accounts.get? id).map Account.traces)
    (id : String) (buyer : NodeAddr) (d : Digest) :
    l'.Fingerprinted id buyer d ↔ l.Fingerprinted id buyer d :=
  ⟨fingerprinted_of_traces (fun id => (terms id).symm) fun id => (accounts id).symm,
    fingerprinted_of_traces terms accounts⟩

/-- Nothing becomes active that was not, and an account only while its channel is. -/
theorem ActivitySound.frame (h : l.ActivitySound) (terms : SameTerms l l')
    (channels : ∀ id c', l'.channels.get? id = some c' → c'.active = true → ∃ c, l.channels.get? id = some c ∧
      c.active = true)
    (accounts : ∀ id a', l'.accounts.get? id = some a' → a'.active = true → ∃ a, l.accounts.get? id = some a ∧
      a.active = true ∧ a'.contract = a.contract)
    (serves : ∀ id a', l'.accounts.get? id = some a' → a'.active = true →
      ∃ c', l'.channels.get? a'.contract.channelId = some c' ∧ c'.active = true) : l'.ActivitySound := by
  refine ⟨?_,?_,serves⟩
  · intro id c' id' d' hc' hd' activeC activeD buyer mint
    obtain ⟨c,hc,wasC⟩ := channels id c' hc' activeC
    obtain ⟨d,hd,wasD⟩ := channels id' d' hd' activeD
    obtain ⟨_,hc₀,termsC,-⟩ := terms.exists_old hc'
    obtain ⟨_,hd₀,termsD,-⟩ := terms.exists_old hd'
    cases hc.symm.trans hc₀
    cases hd.symm.trans hd₀
    rw [termsC,termsD] at buyer mint
    exact h.channels id c id' d hc hd wasC wasD buyer mint
  · intro id a' id' b' ha' hb' activeA activeB buyer destination
    obtain ⟨a,ha,wasA,contractA⟩ := accounts id a' ha' activeA
    obtain ⟨b,hb,wasB,contractB⟩ := accounts id' b' hb' activeB
    rw [terms.buyerOf contractA,terms.buyerOf contractB] at buyer
    rw [contractA,contractB] at destination
    exact h.accounts id a id' b ha hb wasA wasB buyer destination

theorem carried_mono {terms : ChannelTerms} (history : l'.history = l.history)
    (channels : l'.channels = l.channels.mapWithKey f) (fixed : ∀ id c, (f id c).terms = c.terms)
    (debts : ∀ id c, l.channels.get? id = some c → related terms c = true →
      (f id c).usage.debt ≤ c.usage.debt) :
    l'.carried terms ≤ l.carried terms := by
  unfold carried
  rw [history,channels,total_mapWithKey]
  refine Nat.add_le_add_left (total_le_total fun id c hc => ?_) _
  have same : related terms (f id c) = related terms c := by simp [related,fixed id c]
  rw [same]
  split_ifs with other
  · exact debts id c hc other
  · exact le_rfl

theorem saturatingAdd_mono {a b grace : Nat} (h : a ≤ b) :
    U64.saturatingAdd a grace ≤ U64.saturatingAdd b grace :=
  min_le_min_right _ (Nat.add_le_add_right h grace)

/-- The limit of an active channel keeps holding when no other channel of its relationship owes more than
before. -/
theorem CreditSound.map (h : l.CreditSound) (history : l'.history = l.history)
    (channels : l'.channels = l.channels.mapWithKey f) (fixed : ∀ id c, (f id c).terms = c.terms)
    (active : ∀ id c, (f id c).active = true → c.active = true)
    (debts : ∀ id c id' c', l.channels.get? id = some c → c.active = true → l.channels.get? id' = some c' →
      related c.terms c' = true → (f id' c').usage.debt ≤ c'.usage.debt)
    (usage : ∀ id c, l.channels.get? id = some c → c.active = true →
      (f id c).usage.reservedMsat ≤ c.usage.reservedMsat ∧ c.usage.paidMsat ≤ (f id c).usage.paidMsat ∨
        (f id c).usage.reservedMsat ≤ U64.saturatingAdd (f id c).usage.paidMsat c.terms.graceMsat - l.carried
          c.terms) : l'.CreditSound := by
  have old (id : String) (c' : Channel) (hc' : l'.channels.get? id = some c') (activeC' : c'.active = true) :
      ∃ c, l.channels.get? id = some c ∧ c.active = true ∧ f id c = c' ∧
        l'.carried c.terms ≤ l.carried c.terms := by
    rw [channels,OrderedMap.get?_mapWithKey] at hc'
    obtain ⟨c,hc,rfl⟩ := map_eq_some_iff.1 hc'
    have wasActive := active id c activeC'
    exact ⟨c,hc,wasActive,rfl,carried_mono history channels fixed fun id' c' hc' =>
      debts id c id' c' hc wasActive hc'⟩
  refine ⟨?_,?_⟩
  · intro id c' hc' activeC'
    obtain ⟨c,hc,wasActive,rfl,mono⟩ := old id c' hc' activeC'
    rw [fixed]
    exact mono.trans_lt (h.carried id c hc wasActive)
  · intro id c' hc' activeC'
    obtain ⟨c,hc,wasActive,rfl,mono⟩ := old id c' hc' activeC'
    rw [fixed]
    obtain ⟨less,more⟩ | direct := usage id c hc wasActive
    · calc (f id c).usage.reservedMsat ≤ c.usage.reservedMsat := less
        _ ≤ U64.saturatingAdd c.usage.paidMsat c.terms.graceMsat - l.carried c.terms :=
          h.within id c hc wasActive
        _ ≤ U64.saturatingAdd (f id c).usage.paidMsat c.terms.graceMsat - l.carried c.terms :=
          Nat.sub_le_sub_right (saturatingAdd_mono more) _
        _ ≤ _ := Nat.sub_le_sub_left mono _
    · exact direct.trans (Nat.sub_le_sub_left mono _)

section Usage

variable {id : String} {g : ChannelUsage → ChannelUsage}

def withUsage (c : Channel) (g : ChannelUsage → ChannelUsage) : Channel := { c with usage := g c.usage }

theorem exists_of_usage (channels : l'.channels = l.channels.modify id fun c => withUsage c g)
    {i : String} {d' : Channel} (hd' : l'.channels.get? i = some d') :
    ∃ d, l.channels.get? i = some d ∧ (i = id ∧ d' = withUsage d g ∨ i ≠ id ∧ d' = d) := by
  rw [channels,OrderedMap.get?_modify] at hd'
  obtain ⟨d,hd,rfl⟩ := map_eq_some_iff.1 hd'
  by_cases same : i = id
  · exact ⟨d,hd,.inl ⟨same,if_pos same⟩⟩
  · exact ⟨d,hd,.inr ⟨same,if_neg same⟩⟩

theorem sameTerms_of_usage (channels : l'.channels = l.channels.modify id fun c => withUsage c g) :
    SameTerms l l' :=
  sameTerms_map channels fun i d => by split_ifs <;> exact ⟨rfl,rfl⟩

theorem ChannelsSound.update (h : l.ChannelsSound) {c : Channel} (hc : l.channels.get? id = some c)
    (channels : l'.channels = l.channels.modify id fun c => withUsage c g)
    (reservedOn : ∀ i, i ≠ id → l'.reservedOn i = l.reservedOn i)
    (submittedOn : ∀ i, i ≠ id → l'.submittedOn i = l.submittedOn i)
    (reserved : (g c.usage).reservedMsat = (g c.usage).lostMsat + c.retired.reservedMsat + l'.reservedOn id)
    (submitted : (g c.usage).submittedMsat = c.retired.submittedMsat + l'.submittedOn id)
    (paid : (g c.usage).paidMsat ≤ c.terms.capacitySat * 1000)
    (capacity : (g c.usage).reservedMsat ≤ c.terms.capacitySat * 1000)
    (credit : (g c.usage).reservedMsat ≤ (g c.usage).paidMsat + c.terms.graceMsat) : l'.ChannelsSound := by
  refine channelsSound_of_facts fun i d' hd' => ?_
  obtain ⟨d,hd,⟨rfl,rfl⟩ | ⟨other,rfl⟩⟩ := exists_of_usage channels hd'
  · cases hc.symm.trans hd
    have old := h.facts hc
    exact ⟨old.key,old.terms,old.evidence,reserved,submitted,paid,capacity,credit⟩
  · rw [reservedOn i other,submittedOn i other]
    exact h.facts hd

theorem ActivitySound.update (h : l.ActivitySound)
    (channels : l'.channels = l.channels.modify id fun c => withUsage c g)
    (accounts : ∀ i a', l'.accounts.get? i = some a' → ∃ a, l.accounts.get? i = some a ∧
      a'.active = a.active ∧ a'.contract = a.contract) : l'.ActivitySound := by
  have terms := sameTerms_of_usage channels
  refine h.frame terms ?_ ?_ ?_
  · intro i d' hd' active
    obtain ⟨d,hd,⟨-,rfl⟩ | ⟨-,rfl⟩⟩ := exists_of_usage channels hd'
    · exact ⟨d,hd,active⟩
    · exact ⟨d',hd,active⟩
  · intro i a' ha' active
    obtain ⟨a,ha,same,contract⟩ := accounts i a' ha'
    exact ⟨a,ha,same ▸ active,contract⟩
  · intro i a' ha' active
    obtain ⟨a,ha,same,contract⟩ := accounts i a' ha'
    obtain ⟨d,hd,serves⟩ := h.serves i a ha (same ▸ active)
    obtain ⟨d',hd',-⟩ := terms.exists_new hd
    refine ⟨d',contract ▸ hd',?_⟩
    obtain ⟨e,he,⟨-,rfl⟩ | ⟨-,rfl⟩⟩ := exists_of_usage channels hd'
    · cases hd.symm.trans he
      exact serves
    · cases hd.symm.trans he
      exact serves

/-- One channel may owe more when it is active, since no other channel of its relationship is. -/
theorem CreditSound.update (h : l.CreditSound) (activity : l.ActivitySound) {c : Channel}
    (hc : l.channels.get? id = some c) (history : l'.history = l.history)
    (channels : l'.channels = l.channels.modify id fun c => withUsage c g)
    (debt : (g c.usage).debt ≤ c.usage.debt ∨ c.active = true)
    (usage : c.active = true → (g c.usage).reservedMsat ≤ c.usage.reservedMsat ∧
      c.usage.paidMsat ≤ (g c.usage).paidMsat ∨
        (g c.usage).reservedMsat ≤ U64.saturatingAdd (g c.usage).paidMsat
          c.terms.graceMsat - l.carried c.terms) :
    l'.CreditSound := by
  refine h.map history channels (fun i d => by split_ifs <;> rfl) ?_ ?_ ?_
  · intro i d active
    split_ifs at active <;> exact active
  · intro i d i' d' hd active hd' other
    split_ifs with same
    · subst same
      cases hc.symm.trans hd'
      obtain less | alsoActive := debt
      · exact less
      · simp only [related,decide_eq_true_eq] at other
        obtain ⟨differ,buyer,mint⟩ := other
        obtain rfl := activity.channels i' c i d hc hd alsoActive active buyer mint
        cases hc.symm.trans hd
        exact absurd rfl differ
    · exact le_rfl
  · intro i d hd active
    split_ifs with same
    · subst same
      cases hc.symm.trans hd
      exact usage active
    · exact .inl ⟨le_rfl,le_rfl⟩

end Usage

/-- What the accounts of a channel owe for the units that `units` counts. -/
def dueOn (l : RelayLedger) (units : Usage → Nat) (id : String) : Nat :=
  l.accounts.total fun _ a => if a.contract.channelId = id then a.contract.price.due (units a.usage) else 0

theorem dueOn_map {f : String → Account → Account} (units : Usage → Nat)
    (accounts : l'.accounts = l.accounts.mapWithKey f)
    (kept : ∀ id a, l.accounts.get? id = some a → (f id a).contract = a.contract ∧
      units (f id a).usage = units a.usage) (i : String) : l'.dueOn units i = l.dueOn units i := by
  unfold dueOn
  rw [accounts,total_mapWithKey]
  refine total_congr fun id a ha => ?_
  obtain ⟨contract,same⟩ := kept id a ha
  rw [contract,same]

theorem dueOn_modify {a : Account} {f : Account → Account} (units : Usage → Nat)
    (accounts : l'.accounts = l.accounts.modify id f) (ha : l.accounts.get? id = some a) (i : String) :
    l'.dueOn units i + (if a.contract.channelId = i then a.contract.price.due (units a.usage) else 0) =
      l.dueOn units i + if (f a).contract.channelId = i then (f a).contract.price.due
      (units (f a).usage) else 0 := by
  unfold dueOn
  rw [accounts]
  exact total_modify f
    (fun _ a => if a.contract.channelId = i then a.contract.price.due (units a.usage) else 0) ha

theorem ChannelsSound.frame (h : l.ChannelsSound) (reservedOn : ∀ i, l'.reservedOn i = l.reservedOn i)
    (submittedOn : ∀ i, l'.submittedOn i = l.submittedOn i)
    (channels : ∀ id c', l'.channels.get? id = some c' → ∃ c, l.channels.get? id = some c ∧
      c'.terms = c.terms ∧ c'.retired = c.retired ∧ c'.usage = c.usage) : l'.ChannelsSound := by
  refine channelsSound_of_facts fun id c' hc' => ?_
  obtain ⟨⟨terms,retired,usage,active⟩,hc,rfl,rfl,rfl⟩ := channels id c' hc'
  rw [reservedOn,submittedOn]
  exact { h.facts hc with }

end RelayLedger

end Fips.Relay
