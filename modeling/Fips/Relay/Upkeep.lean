import Fips.Relay.Frames

set_option autoImplicit false

/-! Opening, paying, closing and sealing keep the books. -/

namespace Fips.Relay

open OrderedMap Option

namespace RelayLedger

variable {l l' : RelayLedger}

section Opened

variable {terms : ChannelTerms} {paidMsat : Nat}

theorem get?_opened (id : String) : (l.opened terms paidMsat).channels.get? id =
    if id = terms.id then some ⟨terms,{},{ paidMsat },true⟩ else l.channels.get? id := get?_insert _ _ _ _

section Openings

variable (can : l.CanOpen terms paidMsat)
include can

theorem CanOpen.ne {id : String} {c : Channel} (hc : l.channels.get? id = some c) : id ≠ terms.id := by
  rintro rfl
  rw [can.fresh] at hc
  cases hc

theorem CanOpen.get?_old {id : String} {c : Channel} (hc : l.channels.get? id = some c) :
    (l.opened terms paidMsat).channels.get? id = some c := by
  rw [get?_opened,if_neg (can.ne hc),hc]

theorem CanOpen.account_ne (h : l.AccountsSound) {id : String} {a : Account}
    (ha : l.accounts.get? id = some a) :
    a.contract.channelId ≠ terms.id := by
  obtain ⟨c,hc,-⟩ := h.channel id a ha
  exact can.ne hc

theorem CanOpen.buyerOf (h : l.AccountsSound) {id : String} {a : Account} (ha : l.accounts.get? id = some a) :
    (l.opened terms paidMsat).buyerOf a = l.buyerOf a := by
  unfold RelayLedger.buyerOf
  rw [get?_opened,if_neg (can.account_ne h ha)]

theorem CanOpen.carried (t : ChannelTerms) : (l.opened terms paidMsat).carried t = l.carried t := by
  have added : (l.opened terms paidMsat).channels.total (fun _ c => if related t c then c.usage.debt else 0) =
      l.channels.total (fun _ c => if related t c then c.usage.debt else 0) + _ :=
    total_insert _ _ can.fresh
  unfold RelayLedger.carried
  rw [added]
  simp [opened,ChannelUsage.debt]

end Openings

theorem Sound.opened (h : l.Sound) (can : l.CanOpen terms paidMsat) : (l.opened terms paidMsat).Sound where
  accounts := by
    refine ⟨h.accounts.key,h.accounts.balanced,?_⟩
    intro id a ha
    obtain ⟨c,hc,valid,live⟩ := h.accounts.channel id a ha
    exact ⟨c,can.get?_old hc,valid,live⟩
  channels := by
    have none : ∀ f : Account → Nat,
        l.accounts.total (fun _ a => if a.contract.channelId = terms.id then f a else 0) = 0 :=
      fun f => total_eq_zero fun id a ha => if_neg (can.account_ne h.accounts ha)
    refine channelsSound_of_facts fun id c hc => ?_
    rw [get?_opened] at hc
    split_ifs at hc with same
    · cases hc
      refine ⟨same.symm,can.valid,by simp [RetiredRouteEvidence.valid],?_,?_,can.paid,
        Nat.zero_le _,Nat.zero_le _⟩
      · simpa [reservedOn,RelayLedger.opened,same] using (none _).symm
      · simpa [submittedOn,RelayLedger.opened,same] using (none _).symm
    · exact h.channels.facts hc
  tokens := h.tokens.frame (fun _ _ => rfl) rfl rfl rfl
  fingerprints := by
    refine h.fingerprints.frame rfl fun id buyer d => ?_
    constructor
    · rintro ⟨a,c,ha,legacy,hc,owner,attempt⟩
      rw [get?_opened,if_neg (can.account_ne h.accounts ha)] at hc
      exact ⟨a,c,ha,legacy,hc,owner,attempt⟩
    · rintro ⟨a,c,ha,legacy,hc,owner,attempt⟩
      exact ⟨a,c,ha,legacy,can.get?_old hc,owner,attempt⟩
  activity := by
    refine ⟨?_,?_,?_⟩
    · intro id c id' c' hc hc' active active' buyer mint
      rw [get?_opened] at hc hc'
      split_ifs at hc hc' with same same'
      · rw [same,same']
      · cases hc
        rw [can.idle id' c' hc' buyer.symm mint.symm] at active'
        cases active'
      · obtain rfl := Option.some.inj hc'
        rw [can.idle id c hc buyer mint] at active
        cases active
      · exact h.activity.channels id c id' c' hc hc' active active' buyer mint
    · intro id a id' a' ha ha' active active' buyer destination
      rw [can.buyerOf h.accounts ha,can.buyerOf h.accounts ha'] at buyer
      exact h.activity.accounts id a id' a' ha ha' active active' buyer destination
    · intro id a ha active
      obtain ⟨c,hc,serves⟩ := h.activity.serves id a ha active
      exact ⟨c,can.get?_old hc,serves⟩
  credit := by
    have fits : l.carried terms < 2^64 := by
      by_contra beyond
      refine can.limit ?_
      rw [h.bounds.reservationLimit_eq,if_neg fun both => beyond both.1]
    refine ⟨?_,?_⟩
    · intro id c hc active
      rw [can.carried]
      rw [get?_opened] at hc
      split_ifs at hc
      · cases hc
        exact fits
      · exact h.credit.carried id c hc active
    · intro id c hc active
      rw [can.carried]
      rw [get?_opened] at hc
      split_ifs at hc
      · cases hc
        exact Nat.zero_le _
      · exact h.credit.within id c hc active
  bounds := by
    refine ⟨?_,h.bounds.accounts,h.bounds.history⟩
    show (l.channels.insert terms.id _).size ≤ _
    rw [size_insert _ can.fresh]
    exact can.room

end Opened

section Installed

variable {contract : Contract} {channel : Channel}

theorem get?_installed (id : String) : (l.installed contract).accounts.get? id =
    if id = contract.id then some ⟨contract,{},∅,{},true⟩ else l.accounts.get? id := get?_insert _ _ _ _

theorem installed_split {id : String} {a : Account}
    (ha : (l.installed contract).accounts.get? id = some a) :
    id = contract.id ∧ a = ⟨contract,{},∅,{},true⟩ ∨ id ≠ contract.id ∧ l.accounts.get? id = some a := by
  rw [get?_installed] at ha
  split_ifs at ha with same
  · exact .inl ⟨same,(Option.some.inj ha).symm⟩
  · exact .inr ⟨same,ha⟩

theorem CanInstall.total (can : l.CanInstall contract channel) {f : Account → Nat}
    (zero : f ⟨contract,{},∅,{},true⟩ = 0) :
    (l.installed contract).accounts.total (fun _ a => f a) = l.accounts.total fun _ a => f a := by
  have added : (l.installed contract).accounts.total (fun _ a => f a) =
      l.accounts.total (fun _ a => f a) + _ :=
    total_insert _ _ can.fresh
  rw [added,zero,Nat.add_zero]

theorem CanInstall.attemptAt (can : l.CanInstall contract channel) (id : String) (d : Digest) :
    (l.installed contract).attemptAt id d = l.attemptAt id d := by
  unfold RelayLedger.attemptAt
  rw [get?_installed]
  split_ifs with same
  · rw [same,can.fresh]
    rfl
  · rfl

theorem Sound.installed (h : l.Sound) (can : l.CanInstall contract channel) :
    (l.installed contract).Sound where
  accounts := by
    refine ⟨?_,?_,?_⟩
    · intro id a ha
      obtain ⟨rfl,rfl⟩ | ⟨-,old⟩ := installed_split ha
      · rfl
      · exact h.accounts.key id a old
    · intro id a ha
      obtain ⟨rfl,rfl⟩ | ⟨-,old⟩ := installed_split ha
      · exact Account.balanced_new _ _
      · exact h.accounts.balanced id a old
    · intro id a ha
      obtain ⟨rfl,rfl⟩ | ⟨-,old⟩ := installed_split ha
      · exact ⟨channel,can.held,can.valid,can.live⟩
      · exact h.accounts.channel id a old
  channels := by
    refine ⟨h.channels.key,h.channels.terms,h.channels.evidence,?_,?_,h.channels.paid,h.channels.capacity,
      h.channels.credit⟩
    · intro id c hc
      unfold reservedOn
      rw [can.total (f := fun a => if a.contract.channelId = id then
        a.contract.price.due a.usage.reservedUnits else 0)
        (by simp)]
      exact h.channels.reserved id c hc
    · intro id c hc
      unfold submittedOn
      rw [can.total (f := fun a => if a.contract.channelId = id then
        a.contract.price.due a.usage.submittedUnits else 0)
        (by simp)]
      exact h.channels.submitted id c hc
  tokens := h.tokens.frame can.attemptAt rfl rfl rfl
  fingerprints := by
    refine h.fingerprints.frame rfl fun id buyer d => ?_
    constructor
    · rintro ⟨a,c,ha,legacy,hc,owner,attempt⟩
      obtain ⟨rfl,rfl⟩ | ⟨-,old⟩ := installed_split ha
      · simp at attempt
      · exact ⟨a,c,old,legacy,hc,owner,attempt⟩
    · rintro ⟨a,c,ha,legacy,hc,owner,attempt⟩
      refine ⟨a,c,?_,legacy,hc,owner,attempt⟩
      rw [get?_installed,if_neg,ha]
      rintro rfl
      rw [can.fresh] at ha
      cases ha
  activity := by
    have owner : l.buyerOf ⟨contract,{},∅,{},true⟩ = some channel.terms.buyer := by
      unfold RelayLedger.buyerOf
      rw [can.held]
      rfl
    refine ⟨h.activity.channels,?_,?_⟩
    · intro id a id' a' ha ha' active active' buyer destination
      obtain ⟨rfl,rfl⟩ | ⟨-,old⟩ := installed_split ha
      · obtain ⟨rfl,-⟩ | ⟨-,old'⟩ := installed_split ha'
        · rfl
        · exact absurd (buyer.symm.trans owner) (can.unserved id' a' old' active' destination.symm)
      · obtain ⟨rfl,rfl⟩ | ⟨-,old'⟩ := installed_split ha'
        · exact absurd (buyer.trans owner) (can.unserved id a old active destination)
        · exact h.activity.accounts id a id' a' old old' active active' buyer destination
    · intro id a ha active
      obtain ⟨rfl,rfl⟩ | ⟨-,old⟩ := installed_split ha
      · exact ⟨channel,can.held,can.active⟩
      · exact h.activity.serves id a old active
  credit := ⟨h.credit.carried,h.credit.within⟩
  bounds := by
    refine ⟨h.bounds.channels,?_,h.bounds.history⟩
    show (l.accounts.insert contract.id _).size ≤ _
    rw [size_insert _ can.fresh]
    exact can.room

end Installed

/-- The books stay sound when one channel alone changes its usage, within its capacity and its credit. -/
theorem Sound.update (h : l.Sound) {id : String} {c : Channel} {g : ChannelUsage → ChannelUsage}
    (hc : l.channels.get? id = some c)
    (reserved : (g c.usage).reservedMsat = (g c.usage).lostMsat + c.retired.reservedMsat + l.reservedOn id)
    (submitted : (g c.usage).submittedMsat = c.usage.submittedMsat)
    (paid : (g c.usage).paidMsat ≤ c.terms.capacitySat * 1000)
    (capacity : (g c.usage).reservedMsat ≤ c.terms.capacitySat * 1000)
    (credit : (g c.usage).reservedMsat ≤ (g c.usage).paidMsat + c.terms.graceMsat)
    (debt : (g c.usage).debt ≤ c.usage.debt ∨ c.active = true)
    (within : c.active = true → (g c.usage).reservedMsat ≤ c.usage.reservedMsat ∧
      c.usage.paidMsat ≤ (g c.usage).paidMsat ∨
        (g c.usage).reservedMsat ≤ U64.saturatingAdd (g c.usage).paidMsat
          c.terms.graceMsat - l.carried c.terms) :
    ({ l with channels := l.channels.modify id fun c => withUsage c g } : RelayLedger).Sound := by
  have channels : ({ l with channels := l.channels.modify id fun c => withUsage c g } :
    RelayLedger).channels =
      l.channels.modify id fun c => withUsage c g := rfl
  have terms := sameTerms_of_usage channels
  refine ⟨h.accounts.frame rfl terms fun i a ha => ⟨a,ha,rfl,fun balanced => balanced⟩,?_,
    h.tokens.frame (fun _ _ => rfl) rfl rfl rfl,h.fingerprints.frame rfl
      (fingerprinted_iff terms fun _ => rfl),
    h.activity.update channels fun i a ha => ⟨a,ha,rfl,rfl⟩,h.credit.update h.activity
      hc rfl channels debt within,
    ⟨?_,h.bounds.accounts,h.bounds.history⟩⟩
  · exact h.channels.update hc channels (fun _ _ => rfl) (fun _ _ => rfl) reserved
      (submitted.trans (h.channels.submitted id c hc)) paid capacity credit
  · exact (size_modify _ _ _).le.trans h.bounds.channels

theorem Sound.paid (h : l.Sound) {id : String} {c : Channel} {paidMsat : Nat}
    (hc : l.channels.get? id = some c) (more : c.usage.paidMsat ≤ paidMsat)
    (cap : paidMsat ≤ c.terms.capacitySat * 1000) : (l.paid id paidMsat).Sound := by
  have credit := h.channels.credit id c hc
  refine h.update (g := fun u => { u with paidMsat }) hc (h.channels.reserved id c hc) rfl cap
    (h.channels.capacity id c hc) ?_ (.inl (Nat.sub_le_sub_left more _)) fun _ => .inl ⟨le_rfl,more⟩
  simp only
  omega

theorem attemptAt_deactivated (l : RelayLedger) (channel : String → Bool)
    (account : String → Account → Bool) (id : String) (d : Digest) :
    (l.deactivated channel account).attemptAt id d = l.attemptAt id d := by
  unfold attemptAt deactivated
  rw [get?_mapWithKey]
  cases l.accounts.get? id with
  | none => rfl
  | some a =>
    simp only [map_some]
    split_ifs <;> rfl

/-- What may become of one account while its attempts and its units stay the same. -/
structure KeepsAccount (limits : Limits) (a a' : Account) : Prop where
  traces : a'.traces = a.traces
  balanced : a.Balanced limits → a'.Balanced limits
  reserved : a'.usage.reservedUnits = a.usage.reservedUnits
  submitted : a'.usage.submittedUnits = a.usage.submittedUnits
  active : a'.active = true → a.active = true

/-- The books stay sound when channels and accounts do no more than become inactive, a channel with its
accounts. -/
theorem Sound.mapped (h : l.Sound) {f : String → Account → Account} {g : String → Channel → Channel}
    (accounts : l'.accounts = l.accounts.mapWithKey f) (channels : l'.channels = l.channels.mapWithKey g)
    (limits : l'.limits = l.limits) (history : l'.history = l.history) (seen : l'.seen = l.seen)
    (account : ∀ id a, l.accounts.get? id = some a → KeepsAccount l.limits a (f id a))
    (channel : ∀ id c, g id c = c ∨ g id c = { c with active := false })
    (serves : ∀ id a, l.accounts.get? id = some a → (f id a).active = true →
      ∀ c, g a.contract.channelId c = c) (tokens : l'.TokensSound) : l'.Sound := by
  have terms : SameTerms l l' := by
    refine sameTerms_map channels fun id c => ?_
    obtain same | same := channel id c <;> rw [same] <;> exact ⟨rfl,rfl⟩
  have oldChannel (id : String) (c' : Channel) (hc' : l'.channels.get? id = some c') :
      ∃ c, l.channels.get? id = some c ∧ g id c = c' := by
    rw [channels,get?_mapWithKey] at hc'
    exact map_eq_some_iff.1 hc'
  have oldAccount (id : String) (a' : Account) (ha' : l'.accounts.get? id = some a') :
      ∃ a, l.accounts.get? id = some a ∧ f id a = a' ∧ a'.contract = a.contract := by
    rw [accounts,get?_mapWithKey] at ha'
    obtain ⟨a,ha,rfl⟩ := map_eq_some_iff.1 ha'
    exact ⟨a,ha,rfl,congrArg Prod.fst (account id a ha).traces⟩
  refine ⟨?_,?_,tokens,?_,?_,?_,⟨?_,?_,history ▸ limits ▸ h.bounds.history⟩⟩
  · refine h.accounts.frame limits terms fun i a' ha' => ?_
    obtain ⟨a,ha,rfl,contract⟩ := oldAccount i a' ha'
    exact ⟨a,ha,contract,(account i a ha).balanced⟩
  · refine h.channels.frame
      (dueOn_map (·.reservedUnits) accounts fun i a ha =>
        ⟨congrArg Prod.fst (account i a ha).traces,(account i a ha).reserved⟩)
      (dueOn_map (·.submittedUnits) accounts fun i a ha =>
        ⟨congrArg Prod.fst (account i a ha).traces,(account i a ha).submitted⟩)
      fun i c' hc' => ?_
    obtain ⟨c,hc,rfl⟩ := oldChannel i c' hc'
    obtain same | same := channel i c <;> rw [same] <;> exact ⟨c,hc,rfl,rfl,rfl⟩
  · refine h.fingerprints.frame seen (fingerprinted_iff terms fun i => ?_)
    rw [accounts,get?_mapWithKey]
    cases found : l.accounts.get? i with
    | none => rfl
    | some a => exact congrArg some (account i a found).traces
  · refine h.activity.frame terms ?_ ?_ ?_
    · intro i c' hc' active
      obtain ⟨c,hc,rfl⟩ := oldChannel i c' hc'
      obtain same | same := channel i c <;> rw [same] at active
      · exact ⟨c,hc,active⟩
      · cases active
    · intro i a' ha' active
      obtain ⟨a,ha,rfl,contract⟩ := oldAccount i a' ha'
      exact ⟨a,ha,(account i a ha).active active,contract⟩
    · intro i a' ha' active
      obtain ⟨a,ha,rfl,contract⟩ := oldAccount i a' ha'
      obtain ⟨c,hc,serving⟩ := h.activity.serves i a ha ((account i a ha).active active)
      refine ⟨c,?_,serving⟩
      rw [channels,get?_mapWithKey,contract,hc,map_some,serves i a ha active]
  · refine h.credit.map history channels (fun i c => ?_) (fun i c active => ?_)
      (fun i c i' c' _ _ _ _ => ?_) fun i c _ _ => ?_
    · obtain same | same := channel i c <;> rw [same]
    · obtain same | same := channel i c <;> rw [same] at active
      · exact active
      · cases active
    · obtain same | same := channel i' c' <;> rw [same]
    · obtain same | same := channel i c <;> rw [same] <;> exact .inl ⟨le_rfl,le_rfl⟩
  · rw [channels,limits]
    exact (size_mapWithKey _ _).le.trans h.bounds.channels
  · rw [accounts,limits]
    exact (size_mapWithKey _ _).le.trans h.bounds.accounts

theorem Sound.deactivated (h : l.Sound) {channel : String → Bool} {account : String → Account → Bool}
    (closed : ∀ id a, l.accounts.get? id = some a → channel a.contract.channelId = true → account id a = true)
      :
    (l.deactivated channel account).Sound := by
  refine h.mapped (f := fun id a => if account id a then { a with active := false } else a)
    (g := fun id c => if channel id then { c with active := false } else c) rfl rfl
      rfl rfl rfl (fun id a _ => ?_)
    (fun id c => ?_) (fun id a ha active c => ?_)
      (h.tokens.frame (attemptAt_deactivated l channel account) rfl rfl rfl)
  · split_ifs
    · exact ⟨rfl,fun balanced => balanced.setActive false,rfl,rfl,nofun⟩
    · exact ⟨rfl,fun balanced => balanced,rfl,rfl,fun active => active⟩
  · split_ifs
    · exact .inr rfl
    · exact .inl rfl
  · split_ifs at active with shut
    exact if_neg fun off => shut (closed id a ha off)

section Abandoned

variable {p : Account → Bool}

theorem get?_accounts_abandoned (id : String) : (l.abandoned p).accounts.get? id =
    (l.accounts.get? id).map fun a => if p a then a.sealed else a := get?_mapValues _ _ _

theorem mem_pendingTokens {a : Account} {t : Nat} :
    t ∈ a.pendingTokens ↔ ∃ d x, a.attempts.get? d = some x ∧ x.token = t ∧ x.state = .pending := by
  simp only [Account.pendingTokens,List.mem_map,List.mem_filter,mem_values,decide_eq_true_eq]
  constructor
  · rintro ⟨x,⟨⟨d,hd⟩,waiting⟩,token⟩
    exact ⟨d,x,hd,token,waiting⟩
  · rintro ⟨d,x,hd,token,waiting⟩
    exact ⟨x,⟨⟨d,hd⟩,waiting⟩,token⟩

/-- The tokens that stay are those of the accounts that are not given up. -/
theorem get?_pending_abandoned (h : l.TokensSound) (t : Nat) (id : String) (d : Digest) :
    (l.abandoned p).pending.get? t = some (id,d) ↔
      l.pending.get? t = some (id,d) ∧ ∀ a, l.accounts.get? id = some a → p a = false := by
  have erased : (l.abandoned p).pending.get? t =
      if t ∈ (l.accounts.values.filter p).flatMap Account.pendingTokens then none else l.pending.get? t :=
    get?_foldl_erase _ _ _
  have mem : t ∈ (l.accounts.values.filter p).flatMap Account.pendingTokens ↔
      ∃ i a e x, l.accounts.get? i = some a ∧ p a = true ∧ a.attempts.get? e = some x ∧ x.token = t ∧
        x.state = .pending := by
    simp only [List.mem_flatMap,List.mem_filter,mem_values,mem_pendingTokens]
    constructor
    · rintro ⟨a,⟨⟨i,hi⟩,chosen⟩,e,x,hx⟩
      exact ⟨i,a,e,x,hi,chosen,hx⟩
    · rintro ⟨i,a,e,x,hi,chosen,hx⟩
      exact ⟨a,⟨⟨i,hi⟩,chosen⟩,e,x,hx⟩
  rw [erased]
  split_ifs with gone
  · obtain ⟨i,a,e,x,hi,chosen,hx,rfl,waiting⟩ := mem.1 gone
    have here : l.attemptAt i e = some x := by simp [attemptAt,hi,hx]
    have there := (h.pending x.token i e).2 ⟨x,here,rfl,waiting⟩
    constructor
    · intro impossible
      cases impossible
    · rintro ⟨held,kept⟩
      obtain ⟨rfl,rfl⟩ := Prod.mk.inj (Option.some.inj (there.symm.trans held))
      rw [kept a hi] at chosen
      cases chosen
  · refine ⟨fun held => ⟨held,fun a ha => ?_⟩,fun held => held.1⟩
    obtain ⟨x,here,token,waiting⟩ := (h.pending t id d).1 held
    by_contra chosen
    refine gone (mem.2 ⟨id,a,d,x,ha,by simpa using chosen,?_,token,waiting⟩)
    simpa [attemptAt,ha] using here

theorem attemptAt_abandoned (id : String) (d : Digest) : (l.abandoned p).attemptAt id d =
    (l.accounts.get? id).bind fun a => if p a then a.sealed.attempts.get? d else a.attempts.get? d := by
  unfold attemptAt
  rw [get?_accounts_abandoned]
  cases l.accounts.get? id with
  | none => rfl
  | some a =>
    simp only [map_some,bind_some]
    split_ifs <;> rfl

theorem exists_of_abandoned {id : String} {d : Digest} {x : Attempt}
    (h : (l.abandoned p).attemptAt id d = some x) :
    ∃ y, l.attemptAt id d = some y ∧ x.token = y.token ∧ x.units = y.units ∧
      (x.state = .pending → x = y ∧ ∀ a, l.accounts.get? id = some a → p a = false) := by
  rw [attemptAt_abandoned] at h
  obtain ⟨a,ha,found⟩ := bind_eq_some_iff.1 h
  have here (e : Digest) : l.attemptAt id e = a.attempts.get? e := by simp [attemptAt,ha]
  by_cases chosen : p a = true
  · rw [if_pos chosen] at found
    have settled := Account.not_pending_of_sealed found
    rw [Account.get?_attempts_sealed] at found
    split_ifs at found
    obtain ⟨y,old,rfl⟩ := map_eq_some_iff.1 found
    exact ⟨y,(here d).trans old,Account.token_abandon y,Account.units_abandon y,
      fun waiting => absurd waiting settled⟩
  · rw [if_neg chosen] at found
    refine ⟨x,(here d).trans found,rfl,rfl,fun _ => ⟨rfl,fun b hb => ?_⟩⟩
    cases ha.symm.trans hb
    simpa using chosen

theorem size_foldl_erase_le (tokens : List Nat) (m : OrderedMap Nat (String × Digest)) :
    (tokens.foldl OrderedMap.erase m).size ≤ m.size := by
  induction tokens generalizing m with
  | nil => exact le_rfl
  | cons t rest ih => exact (ih _).trans (size_erase_le m t)

theorem Sound.abandoned (h : l.Sound) (p : Account → Bool) : (l.abandoned p).Sound := by
  refine h.mapped (f := fun _ a => if p a then a.sealed else a) (g := fun _ => id)
    rfl (mapWithKey_self _).symm
    rfl rfl rfl (fun i a ha => ?_) (fun _ _ => .inl rfl) (fun _ _ _ _ _ => rfl) ⟨?_,?_,?_,?_,h.tokens.next⟩
  · have usage := (h.accounts.balanced i a ha).usage_sealed
    split_ifs
    · refine ⟨?_,fun balanced => balanced.sealed,by rw [usage],by rw [usage],fun active =>
        Account.active_sealed a ▸ active⟩
      unfold Account.traces
      rw [Account.contract_sealed]
      congr 1
      funext d
      rw [Account.get?_attempts_sealed]
      cases a.contract.billing.isLegacy <;> simp
    · exact ⟨rfl,id,rfl,rfl,id⟩
  · intro t id d
    rw [get?_pending_abandoned h.tokens,h.tokens.pending]
    constructor
    · rintro ⟨⟨x,here,token,waiting⟩,kept⟩
      refine ⟨x,?_,token,waiting⟩
      obtain ⟨a,ha,found⟩ := bind_eq_some_iff.1 here
      rw [attemptAt_abandoned,ha,bind_some,if_neg (by simp [kept a ha])]
      exact found
    · rintro ⟨x,here,token,waiting⟩
      obtain ⟨y,there,-,-,facts⟩ := exists_of_abandoned here
      obtain ⟨rfl,kept⟩ := facts waiting
      exact ⟨⟨x,there,token,waiting⟩,kept⟩
  · intro id d x id' d' x' here here' token
    obtain ⟨y,there,same,-⟩ := exists_of_abandoned here
    obtain ⟨y',there',same',-⟩ := exists_of_abandoned here'
    exact h.tokens.unique id d y id' d' y' there there' (same ▸ same' ▸ token)
  · intro id d x here
    obtain ⟨y,there,same,-⟩ := exists_of_abandoned here
    rw [same]
    exact h.tokens.range id d y there
  · exact (size_foldl_erase_le _ _).trans h.tokens.room

end Abandoned

end RelayLedger

end Fips.Relay
