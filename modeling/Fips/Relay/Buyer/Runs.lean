import Fips.Relay.Buyer.Reloading
import Fips.Relay.Buyer.Retiring

set_option autoImplicit false

/-! What holds of a buyer and its file along every run. -/

namespace Fips.Relay.Buyer

open Option

def Grows (m m' : OrderedMap String PurchaseChannel) : Prop :=
  ∀ id c c', m.get? id = some c → m'.get? id = some c' → c.authorizedSat ≤ c'.authorizedSat

theorem Grows.of_eq {m m' : OrderedMap String PurchaseChannel} (same : m' = m) : Grows m m' := by
  intro id c c' held held'
  rw [same,held] at held'
  rw [some.inj held']

namespace State

variable {s s' : State}

theorem grows_mapWithKey {f : String → PurchaseChannel → PurchaseChannel}
    (more : ∀ id c, s.channels.get? id = some c → c.authorizedSat ≤ (f id c).authorizedSat) :
    Grows s.channels (s.channels.mapWithKey f) := by
  intro id c c' held held'
  rw [OrderedMap.get?_mapWithKey,held] at held'
  obtain rfl := some.inj held'
  exact more id c held

structure Keeps (s s' : State) : Prop where
  sound : s'.Sound
  grows : Grows s.channels s'.channels

theorem Sound.keeps (h : s.Sound) : s.Keeps s := ⟨h,.of_eq rfl⟩

theorem Sound.keeps_acceptChannel (h : s.Sound) {provider : NodeAddr}
    {terms : ChannelTerms} {advanceMsat : Nat} (done : s.acceptChannel provider terms advanceMsat = .ok s') :
    s.Keeps s' := by
  obtain rfl | ⟨can,rfl⟩ := acceptChannel_eq_ok done
  · exact h.keeps
  · refine ⟨h.accepted can,fun id c c' held held' => ?_⟩
    rw [can.get? held] at held'
    rw [some.inj held']

theorem Sound.keeps_acceptQuote (h : s.Sound) {contract : Contract} (done : s.acceptQuote contract = .ok s') :
    s.Keeps s' := by
  obtain rfl | ⟨c,e,can,rfl⟩ := acceptQuote_eq_ok done
  · exact h.keeps
  · exact ⟨h.quoted can,.of_eq rfl⟩

theorem grows_deactivated (s : State) (channel : String → Bool) (quote : String → PurchaseQuote → Bool) :
    Grows s.channels (s.deactivated channel quote).channels := by
  refine grows_mapWithKey fun id c _ => ?_
  split_ifs <;> exact le_rfl

theorem Sound.keeps_closeChannel (h : s.Sound) {id : String} (done : s.closeChannel id = .ok s') :
    s.Keeps s' := by
  obtain rfl := closeChannel_eq_ok done
  exact ⟨h.deactivated fun _ q _ closed => by simpa using closed,s.grows_deactivated _ _⟩

theorem Sound.keeps_closeQuote (h : s.Sound) {id : String} (done : s.closeQuote id = .ok s') :
    s.Keeps s' := by
  obtain rfl := closeQuote_eq_ok done
  exact ⟨h.deactivated (fun _ _ _ closed => nomatch closed),s.grows_deactivated _ _⟩

theorem Sound.keeps_retireClosedRoutes (h : s.Sound) {channel : String} {throughUnix : Nat}
    (done : s.retireClosedRoutes channel throughUnix = .ok s') : s.Keeps s' := by
  obtain ⟨c,e,after,retires,rfl⟩ := h.quotes.retireClosedRoutes_eq_ok done
  refine ⟨h.routesRetired retires,grows_mapWithKey fun id c _ => ?_⟩
  split_ifs <;> exact le_rfl

theorem Sound.keeps_retireChannels (h : s.Sound) {plan : Plan}
    (done : s.retireChannels plan = .ok (some s')) :
    s.Keeps s' := by
  obtain ⟨valid,retires,rfl⟩ := retireChannels_eq_ok done
  refine ⟨h.channelsRetired valid retires,fun id c c' held held' => ?_⟩
  rw [get?_channelsRetired] at held'
  split_ifs at held'
  rw [held] at held'
  rw [some.inj held']

theorem Sound.keeps_apply (h : s.Sound) {change : Change} (done : change.apply s = .ok s') : s.Keeps s' := by
  cases change with
  | checkpoint =>
    cases done
    exact h.keeps
  | acceptChannel provider terms advanceMsat => exact h.keeps_acceptChannel done
  | acceptQuote contract => exact h.keeps_acceptQuote done
  | closeChannel id => exact h.keeps_closeChannel done
  | retireClosedRoutes channel throughUnix => exact h.keeps_retireClosedRoutes done

theorem Sound.keeps_authorize (h : s.Sound) {provider : NodeAddr} {id : String}
    {claimedMsat now balance : Nat} {includeFunding : Bool}
    (done : s.authorize provider id claimedMsat now includeFunding = .ok (balance,s')) :
    s.Keeps s' ∧ ∃ c, s'.channels.get? id = some c ∧ c.authorizedSat = balance := by
  obtain ⟨c,can,rfl⟩ := h.authorize_eq_ok done
  refine ⟨⟨h.withBalance can,grows_mapWithKey fun i d held => ?_⟩,{ c with authorizedSat := balance },?_,rfl⟩
  · split_ifs with same
    · cases can.held.symm.trans (same ▸ held)
      exact can.more
    · exact le_rfl
  · simp only [State.withBalance,OrderedMap.get?_modify,can.held,map_some,if_true]

structure Forwards (s s' : State) : Prop where
  sound : s'.Sound
  channels : s'.channels = s.channels

theorem Sound.forwards_reservation (h : s.Sound) (step : s.Reservation s') : s.Forwards s' := by
  refine ⟨h.reservation step,?_⟩
  cases step <;> rfl

theorem Sound.forwards_complete (h : s.Sound) (token : Nat) (outcome : ForwardingOutcome) :
    ∃ s', s.complete token outcome = some s' ∧ s.Forwards s' := by
  obtain kept | ⟨id,index,q,a,ends,done⟩ := h.complete_cases token outcome
  · exact ⟨s,kept,h,rfl⟩
  · exact ⟨_,done,h.finished ends outcome,rfl⟩

end State

namespace BuyerAuthorizer

variable {b b' : BuyerAuthorizer} {sign : Option SignRequest}

/-- A state on its way to the file: what will be signed is in it, and it takes nothing back from the file. -/
structure Pending (b : BuyerAuthorizer) (snapshot : State) (sign : Option SignRequest) : Prop where
  suspended : b.writerReady = false
  sound : snapshot.Sound
  current : b.state.channels = snapshot.channels
  asked : ∀ r, sign = some r → ∃ c, snapshot.channels.get? r.id = some c ∧ c.authorizedSat = r.balance
  grows : ∀ saved, b.disk = some saved → Grows saved.channels snapshot.channels

structure Sound (b : BuyerAuthorizer) : Prop where
  state : b.state.Sound
  disk : ∀ saved, b.disk = some saved → ∃ t : State, t.Sound ∧ saved = t.saved
  pending : ∀ snapshot sign, b.writing = some (snapshot,sign) → b.Pending snapshot sign
  ready : b.writing = none → b.writerReady = true → ∃ saved, b.disk = some saved ∧
    saved.channels = b.state.channels

/-- What one event does to the authorized balances, and what it has signed. -/
structure Steps (b b' : BuyerAuthorizer) (sign : Option SignRequest) : Prop where
  sound : b'.Sound
  memory : Grows b.state.channels b'.state.channels
  disk : ∀ saved saved', b.disk = some saved → b'.disk = some saved' → Grows saved.channels saved'.channels
  asked : ∀ r, sign = some r → ∃ saved c, b'.disk = some saved ∧ saved.channels.get? r.id = some c ∧
    c.authorizedSat = r.balance

section Steps

variable (h : b.Sound)
include h

theorem Sound.stays : b.Steps b none := by
  refine ⟨h,.of_eq rfl,fun saved saved' held held' => ?_,nofun⟩
  rw [held] at held'
  exact .of_eq (by rw [some.inj held'])

theorem Sound.forwards {state : State} (step : b.state.Forwards state) : b.Steps { b with state } none := by
  refine ⟨⟨step.sound,h.disk,fun snapshot sign held => ?_,fun idle ready => ?_⟩,.of_eq step.channels,
    h.stays.disk,nofun⟩
  · obtain ⟨suspended,sound,current,asked,grows⟩ := h.pending snapshot sign held
    exact ⟨suspended,sound,step.channels.trans current,asked,grows⟩
  · obtain ⟨saved,held,same⟩ := h.ready idle ready
    exact ⟨saved,held,same.trans step.channels.symm⟩

theorem Sound.persist {state : State} (step : b.state.Keeps state) (idle : b.writing = none)
    (ready : b.writerReady = true)
    (asked : ∀ r, sign = some r → ∃ c, state.channels.get? r.id = some c ∧ c.authorizedSat = r.balance) :
    b.Steps (b.persist state sign) none := by
  obtain ⟨saved,held,same⟩ := h.ready idle ready
  refine ⟨⟨step.sound,h.disk,?_,nofun⟩,step.grows,h.stays.disk,nofun⟩
  rintro _ _ ⟨⟩
  refine ⟨rfl,step.sound,rfl,asked,fun saved' held' => ?_⟩
  cases held.symm.trans held'
  rw [same]
  exact step.grows

theorem Sound.change (change : Change) : b.Steps (b.change change) none := by
  unfold BuyerAuthorizer.change
  split
  · rename_i state idle ready done
    exact h.persist (h.state.keeps_apply done) idle ready nofun
  · exact h.stays

theorem Sound.closeQuote (id : String) : b.Steps (b.closeQuote id) none := by
  unfold BuyerAuthorizer.closeQuote
  split
  · rename_i state idle done
    have keeps := h.state.keeps_closeQuote done
    split_ifs with ready
    · exact h.persist keeps idle ready nofun
    · refine ⟨⟨keeps.sound,h.disk,fun _ _ held => ?_,fun _ ready' => absurd ready' ready⟩,
        keeps.grows,h.stays.disk,nofun⟩
      exact nomatch idle.symm.trans held
  · exact h.stays

theorem Sound.retireChannels (plan : Plan) : b.Steps (b.retireChannels plan) none := by
  unfold BuyerAuthorizer.retireChannels
  split
  · rename_i state idle ready done
    exact h.persist (h.state.keeps_retireChannels done) idle ready nofun
  · exact h.stays

theorem Sound.signClaim (provider : NodeAddr) (id : String) (claimedMsat now : Nat) (includeFunding : Bool) :
    b.Steps (b.signClaim provider id claimedMsat now includeFunding) none := by
  unfold BuyerAuthorizer.signClaim
  split
  · rename_i balance state idle ready done
    obtain ⟨keeps,c,held,same⟩ := h.state.keeps_authorize done
    refine h.persist keeps idle ready ?_
    rintro _ ⟨⟩
    exact ⟨c,held,same⟩
  · exact h.stays

theorem Sound.write (outcome : WriteOutcome) : b.Steps (b.write outcome).1 (b.write outcome).2 := by
  unfold BuyerAuthorizer.write
  split
  · rename_i snapshot sign writing
    obtain ⟨-,sound,current,asked,grows⟩ := h.pending snapshot sign writing
    refine ⟨⟨h.state,?_,nofun,fun _ _ => ⟨_,rfl,current.symm⟩⟩,.of_eq rfl,?_,fun r signs => ?_⟩
    · rintro _ ⟨⟩
      exact ⟨snapshot,sound,rfl⟩
    · rintro saved _ held ⟨⟩
      exact grows saved held
    · obtain ⟨c,held,same⟩ := asked r signs
      exact ⟨_,c,rfl,held,same⟩
  · rename_i snapshot writing
    have suspended := (h.pending _ _ writing).suspended
    exact ⟨⟨h.state,h.disk,nofun,fun _ ready => nomatch suspended.symm.trans ready⟩,
      .of_eq rfl,h.stays.disk,nofun⟩
  · rename_i snapshot sign writing
    obtain ⟨suspended,sound,-,-,grows⟩ := h.pending snapshot sign writing
    refine ⟨⟨h.state,?_,nofun,fun _ ready => nomatch suspended.symm.trans ready⟩,.of_eq rfl,?_,nofun⟩
    · rintro _ ⟨⟩
      exact ⟨snapshot,sound,rfl⟩
    · rintro saved _ held ⟨⟩
      exact grows saved held
  · exact h.stays

theorem Sound.exec (ext : Externals) {event : Event} (live : event ≠ .reload) :
    ∃ b' sign, b.exec ext event = some (b',sign) ∧ b.Steps b' sign := by
  cases event with
  | begin request localOnly now admits =>
    exact ⟨_,_,rfl,
      h.forwards (h.state.forwards_reservation (State.beginAdmitted_cases ext request localOnly now admits))⟩
  | prepare intent now =>
    exact ⟨_,_,rfl,h.forwards (h.state.forwards_reservation (b.state.prepareIntent_cases intent now))⟩
  | complete token outcome =>
    obtain ⟨state,done,step⟩ := h.state.forwards_complete token outcome
    exact ⟨_,_,by rw [BuyerAuthorizer.exec,done]; rfl,h.forwards step⟩
  | change change => exact ⟨_,_,rfl,h.change change⟩
  | closeQuote id => exact ⟨_,_,rfl,h.closeQuote id⟩
  | retireChannels plan => exact ⟨_,_,rfl,h.retireChannels plan⟩
  | signClaim provider id claimedMsat now includeFunding =>
    exact ⟨_,_,rfl,h.signClaim provider id claimedMsat now includeFunding⟩
  | write outcome => exact ⟨_,_,rfl,h.write outcome⟩
  | reload => exact absurd rfl live

end Steps

theorem validateAndRecover_saved {t loaded : State} (h : t.Sound) :
    t.saved.validateAndRecover = .ok loaded ↔ t.saved.EvidenceFits ∧
      loaded = (t.marked fun _ _ => false).settled :=
  (h.marked fun _ _ => false).validateAndRecover_eq_ok

theorem Sound.load (h : b.Sound) {saved : State} (held : b.disk = some saved) {b' : BuyerAuthorizer}
    (done : load saved = .ok b') : b'.Sound ∧ b'.disk = some saved := by
  obtain ⟨t,sound,rfl⟩ := h.disk saved held
  obtain ⟨loaded,recovered,done⟩ := Checked.bind_eq_ok.1 done
  obtain ⟨-,rfl⟩ := (validateAndRecover_saved sound).1 recovered
  obtain rfl := Checked.pure_eq_ok.1 done
  have settled := (sound.marked fun _ _ => false).settled
  refine ⟨⟨settled,?_,?_,nofun⟩,rfl⟩
  · rintro _ ⟨⟩
    exact ⟨t,sound,rfl⟩
  · rintro _ _ ⟨⟩
    refine ⟨rfl,settled,rfl,nofun,?_⟩
    rintro _ ⟨⟩
    exact .of_eq rfl

theorem Sound.reload (h : b.Sound) {ext : Externals} (done : b.exec ext .reload = some (b',sign)) :
    b'.Sound ∧ b'.disk = b.disk ∧ sign = none := by
  unfold BuyerAuthorizer.exec at done
  cases held : b.disk with
  | none =>
    simp only [held] at done
    obtain ⟨rfl,rfl⟩ := done
    exact ⟨h,held,rfl⟩
  | some saved =>
    simp only [held,map_eq_some_iff] at done
    obtain ⟨loaded,found,rfl,rfl⟩ := done
    cases result : BuyerAuthorizer.load saved with
    | error e => simp [result,Except.toOption] at found
    | ok value =>
      simp only [result,Except.toOption,some.injEq] at found
      subst found
      obtain ⟨sound,same⟩ := h.load held result
      exact ⟨sound,same,rfl⟩

theorem sound_create {localAddr : NodeAddr} {totalBudgetSat : Nat} {limits : Limits}
    (created : create localAddr totalBudgetSat limits = .ok b) : b.Sound := by
  unfold create at created
  split_ifs at created with zero
  cases created
  have fresh : (⟨3,localAddr,totalBudgetSat,limits,1,none,∅,∅,∅,∅⟩ : State).Sound := by
    refine ⟨⟨rfl,nofun,zero,one_ne_zero,Nat.zero_le _,Nat.zero_le _⟩,⟨nofun,nofun⟩,⟨?_,Nat.zero_le _,nofun⟩,
      ⟨nofun,nofun,nofun,nofun⟩,⟨nofun,nofun,nofun,nofun,rfl,Nat.zero_le _⟩,⟨?_,?_⟩⟩
    · exact Nat.two_pow_pos 64
    · rintro _ _ _ _ ⟨_,_,⟨⟩,-⟩
    · rintro _ _ _ _ _ _ ⟨_,_,⟨⟩,-⟩
  refine ⟨fresh,nofun,?_,nofun⟩
  rintro _ _ ⟨⟩
  exact ⟨rfl,fresh,rfl,nofun,nofun⟩

theorem Sound.run (h : b.Sound) {ext : Externals} {events : List Event} (done : b.run ext events = some b') :
    b'.Sound := by
  induction events generalizing b with
  | nil =>
    cases done
    exact h
  | cons event events ih =>
    simp only [BuyerAuthorizer.run,List.foldlM_cons,bind_eq_bind,bind_eq_some_iff,map_eq_some_iff]
      at done
    obtain ⟨_,⟨⟨b₁,sign⟩,first,rfl⟩,later⟩ := done
    by_cases live : event = .reload
    · subst live
      exact ih (h.reload first).1 later
    · obtain ⟨b₂,sign',done,step⟩ := h.exec ext live
      obtain ⟨rfl,rfl⟩ := Prod.mk.inj (some.inj (first.symm.trans done))
      exact ih step.sound later

/-- What a buyer may have authorized, and what it knows of its sends. -/
structure Policy (s : State) : Prop where
  budget : s.authorized ≤ s.totalBudgetSat
  capacity : ∀ id c, s.channels.get? id = some c → c.authorizedSat ≤ c.terms.capacitySat
  evidence : ∀ id c, s.channels.get? id = some c → s.evidenceMsat id = U64.tryFrom (s.evidence id)
  earned : ∀ id c, s.channels.get? id = some c → c.authorizedSat ≤ ceilSat (s.evidence id + c.advanceMsat)
  quota : ∀ id q, s.quotes.get? id = some q → q.submittedUnits ≤ q.observedUnits ∧
    q.observedUnits ≤ q.contract.maxUnits
  tokens : ∀ t id i, s.pending.get? t = some (id,i) → ∃ q a, s.attemptAt id i = some (q,a) ∧
    a.outcome = .pending ∧
    (q.contract.billing.isLegacy = false → a.token = t) ∧ ∀ t', s.pending.get? t' = some (id,i) → t' = t

theorem policy_of_sound {s : State} (h : s.Sound) : Policy s := by
  refine ⟨h.budget.within,fun id c held => (h.channels.facts id c held).capacity,
    fun id c held => h.evidenceMsat_eq held,h.budget.earned,fun id q held => ?_,fun t id i used => ?_⟩
  · have balanced := h.quotes.balanced id q held
    exact ⟨balanced.submitted_le,balanced.allowed⟩
  · obtain ⟨q,a,found,waits,carries⟩ := h.tokens.held t id i used
    exact ⟨q,a,found,waits,carries,fun t' used' => h.tokens.unique t' t _ used' used⟩

/-- What one more event does. A reload may forget a balance that was never signed, the file never does. -/
structure Continues (ext : Externals) (b : BuyerAuthorizer) (event : Event) : Prop where
  result : event ≠ .reload → (b.exec ext event).isSome = true
  memory : ∀ b' sign, b.exec ext event = some (b',sign) → event ≠ .reload →
    Grows b.state.channels b'.state.channels
  disk : ∀ b' sign saved saved', b.exec ext event = some (b',sign) →
    b.disk = some saved → b'.disk = some saved' →
    Grows saved.channels saved'.channels
  asked : ∀ b' r, b.exec ext event = some (b',some r) → ∃ saved c, b'.disk = some saved ∧
    saved.channels.get? r.id = some c ∧ c.authorizedSat = r.balance

theorem Sound.continues (h : b.Sound) (ext : Externals) (event : Event) : Continues ext b event := by
  by_cases live : event = .reload
  · subst live
    refine ⟨fun no => absurd rfl no,fun _ _ _ no => absurd rfl no,
      fun b' sign saved saved' done held held' => ?_,fun b' r done => nomatch (h.reload done).2.2⟩
    rw [(h.reload done).2.1,held] at held'
    exact .of_eq (by rw [some.inj held'])
  · obtain ⟨b₁,sign₁,done₁,step⟩ := h.exec ext live
    refine ⟨fun _ => by rw [done₁]; rfl,fun b' sign done _ => ?_,fun b' sign saved saved' done => ?_,
      fun b' r done => ?_⟩
    · obtain ⟨rfl,rfl⟩ := Prod.mk.inj (some.inj (done₁.symm.trans done))
      exact step.memory
    · obtain ⟨rfl,rfl⟩ := Prod.mk.inj (some.inj (done₁.symm.trans done))
      exact step.disk saved saved'
    · obtain ⟨rfl,rfl⟩ := Prod.mk.inj (some.inj (done₁.symm.trans done))
      exact step.asked r rfl

/-- Along every run the buyer keeps to its policy, asks for no signature ahead of its file, and its file
loads as long as the evidence on each channel fits in the counters. -/
theorem run_keeps_policy (ext : Externals) (localAddr : NodeAddr) (totalBudgetSat : Nat) (limits : Limits)
    (events : List Event) (created : create localAddr totalBudgetSat limits = .ok b)
    (done : b.run ext events = some b') :
    Policy b'.state ∧ (∀ event, Continues ext b' event) ∧
      ∀ saved, b'.disk = some saved →
      ((∃ loaded, saved.validateAndRecover = .ok loaded) ↔ saved.EvidenceFits) := by
  have sound := (sound_create created).run done
  refine ⟨policy_of_sound sound.state,sound.continues ext,fun saved held => ?_⟩
  obtain ⟨t,h,rfl⟩ := sound.disk saved held
  simp only [validateAndRecover_saved h]
  exact ⟨fun ⟨_,fits,_⟩ => fits,fun fits => ⟨_,fits,rfl⟩⟩

/-! Two sends at a price that fits alone can together make evidence that does not, and a legacy quote does
not write the token of a send into it. -/

def noHandshakes : Externals := ⟨fun _ => 0,fun _ _ _ => false⟩

def saves : List Event := [.write .done]

def boughtTerms : ChannelTerms := ⟨"channel",1,"mint",10,1,1⟩

def dearRoute (id : String) (destination : NodeAddr) (billing : BillingBasis) : Contract :=
  ⟨id,"channel",destination,3,5,⟨2^63,1⟩,1,billing⟩

def dearSends : List Event :=
  saves ++ .change (.acceptChannel 2 boughtTerms 0) :: saves ++
  .change (.acceptQuote (dearRoute "a" 4 .forwardingAttempt)) :: saves ++
  .change (.acceptQuote (dearRoute "b" 5 .uniqueSessionEnvelope)) :: saves ++
  [.begin ⟨1,4,2,[0]⟩ false 0 true,.begin ⟨1,5,2,[0]⟩ false 0 true]

theorem dearSends_overflow :
    ((create 1 1 ⟨1,2,1,2⟩).toOption.bind fun b => (b.run noHandshakes dearSends).bind fun b =>
      (b.run noHandshakes
        (.complete 1 .submitted :: .complete 2 .submitted :: .change .checkpoint :: saves)).map fun b' =>
        ((b.state.pending.get? 2).bind fun p => (b.state.attemptAt p.1 p.2).map (·.2.token),
          b'.disk.map fun saved => saved.validateAndRecover.toOption.isNone)) =
    some (some 0,some true) ∧
    ((create 1 1 ⟨1,2,1,2⟩).toOption.bind fun b => (b.run noHandshakes (dearSends ++
      [.complete 1 .submitted,.signClaim 2 "channel" 1 0 false,.write .failed])).bind fun b =>
        (b.run noHandshakes [.reload]).map fun b' =>
          ((b.state.channels.get? "channel").map (·.authorizedSat),
            (b'.state.channels.get? "channel").map (·.authorizedSat))) = some (some 1,some 0) := by
  decide +kernel

/-- The same sends, before their outcomes are known. -/
theorem run_keeps_policy_dearSends :
    ∃ b b', create 1 1 ⟨1,2,1,2⟩ = .ok b ∧ b.run noHandshakes dearSends = some b' ∧
    Policy b'.state := by
  have runs : ((create 1 1 ⟨1,2,1,2⟩).toOption.bind fun b => b.run noHandshakes dearSends).isSome = true := by
    decide +kernel
  obtain ⟨b',found⟩ := isSome_iff_exists.1 runs
  obtain ⟨b,created,done⟩ := bind_eq_some_iff.1 found
  have created : create 1 1 ⟨1,2,1,2⟩ = .ok b := by
    cases result : create 1 1 ⟨1,2,1,2⟩ with
    | error e => simp [result,Except.toOption] at created
    | ok value => simpa [result,Except.toOption] using created
  exact ⟨b,b',created,done,(run_keeps_policy noHandshakes 1 1 ⟨1,2,1,2⟩ dearSends created done).1⟩

/-- After a crash anywhere in a run no send is left open, and the channels and what they have earned are
those of the file. -/
theorem run_reloads (ext : Externals) (localAddr : NodeAddr) (totalBudgetSat : Nat)
    (limits : Limits) (events : List Event) (created : create localAddr totalBudgetSat limits = .ok b)
    (done : b.run ext events = some b') {saved loaded : State} (held : b'.disk = some saved)
    (ok : saved.validateAndRecover = .ok loaded) :
    Policy loaded ∧ loaded.pending = ∅ ∧
      (∀ id i q a, loaded.attemptAt id i = some (q,a) → a.outcome ≠ .pending) ∧
      loaded.channels = saved.channels ∧ ∀ id, loaded.evidence id = saved.evidence id := by
  obtain ⟨t,h,rfl⟩ := ((sound_create created).run done).disk saved held
  obtain ⟨-,rfl⟩ := (validateAndRecover_saved h).1 ok
  exact ⟨policy_of_sound (h.marked _).settled,rfl,fun _ _ _ _ => State.not_waits_settled,rfl,
    State.evidence_settled _⟩

theorem toOption_eq_some {ε α : Type} {x : Except ε α} {a : α} : x.toOption = some a ↔ x = .ok a := by
  cases x <;> simp [Except.toOption]

theorem run_reloads_dearSends : ∃ b b' saved loaded, create 1 1 ⟨1,2,1,2⟩ = .ok b ∧
    b.run noHandshakes (dearSends ++ .change .checkpoint :: saves) = some b' ∧ b'.disk = some saved ∧
    saved.validateAndRecover = .ok loaded ∧ loaded.pending = ∅ := by
  have runs : ((create 1 1 ⟨1,2,1,2⟩).toOption.bind fun b =>
      (b.run noHandshakes (dearSends ++ .change .checkpoint :: saves)).bind fun b' =>
        b'.disk.bind fun saved => saved.validateAndRecover.toOption).isSome = true := by decide +kernel
  obtain ⟨loaded,found⟩ := isSome_iff_exists.1 runs
  simp only [bind_eq_some_iff,toOption_eq_some] at found
  obtain ⟨b,created,b',done,saved,held,ok⟩ := found
  exact ⟨b,b',saved,loaded,created,done,held,ok,(run_reloads _ _ _ _ _ created done held ok).2.1⟩

end BuyerAuthorizer

end Fips.Relay.Buyer
