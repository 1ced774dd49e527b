import Fips.Relay.Runs

set_option autoImplicit false

/-! What a run counts, how often, and for how long. -/

namespace Fips.Relay

open OrderedMap List Option

namespace RelayLedger

variable {ext : Externals} {l l' : RelayLedger} {op : Op} {id : String} {c : Channel}

def WaitsOn (l : RelayLedger) (id : String) : Prop :=
  ∃ i a d t, l.accounts.get? i = some a ∧ a.contract.channelId = id ∧
    a.attempts.get? d = some t ∧ t.state = .pending

/-- An active channel with an active account: one that takes admissions. -/
def Forwards (l : RelayLedger) (id : String) : Prop :=
  ∃ c, l.channels.get? id = some c ∧ c.active = true ∧
    ∃ i a, l.accounts.get? i = some a ∧ a.active = true ∧ a.contract.channelId = id

/-- The calls that may raise what a channel reserved, and how far. -/
def MayReserve (l : RelayLedger) (id : String) (reservedMsat : Nat) : Op → Prop
  | .admitWithWindows _ _ windows => l.Forwards id ∧ ∀ w, windows = some w → reservedMsat ≤ (w.get? id).getD 0
  | .recoverWindows _ => True
  | _ => False

/-- What a call can do to the usage of a channel that stays. -/
inductive UsageEffect (l : RelayLedger) (op : Op) (id : String) (c : Channel) (u : ChannelUsage) : Prop
  | kept (same : u = c.usage)
  | paid (more : c.usage.paidMsat ≤ u.paidMsat) (reserved : u.reservedMsat = c.usage.reservedMsat)
    (submitted : u.submittedMsat = c.usage.submittedMsat)
  | reserved (active : c.active = true) (more : c.usage.reservedMsat ≤ u.reservedMsat)
    (submitted : u.submittedMsat = c.usage.submittedMsat) (paid : u.paidMsat = c.usage.paidMsat)
    (call : l.MayReserve id u.reservedMsat op)
  | submitted (waits : l.WaitsOn id) (more : c.usage.submittedMsat ≤ u.submittedMsat)
    (reserved : u.reservedMsat = c.usage.reservedMsat) (paid : u.paidMsat = c.usage.paidMsat)

structure Stays (l l' : RelayLedger) (op : Op) (id : String) (c c' : Channel) : Prop where
  held : l'.channels.get? id = some c'
  terms : c'.terms = c.terms
  active : c'.active = true → c.active = true
  fence : ∀ expiry, c.retired.rejects expiry = true → c'.retired.rejects expiry = true
  usage : UsageEffect l op id c c'.usage

structure Retires (l l' : RelayLedger) (op : Op) (id : String) (c : Channel) (plan : Plan)
    (s : ChannelSnapshot) : Prop where
  call : op = .retireChannels plan
  result : l.retireChannels plan = .ok (true,l')
  history : l'.history = some plan.after ∧ (l.history.getD {}).AddsAll plan.channels plan.after
  mem : s ∈ plan.channels
  terms : s.terms = c.terms
  usage : s.usage = c.usage
  gone : l'.channels.get? id = none

theorem stays_of_channels (held : l.channels.get? id = some c) (same : l'.channels = l.channels) :
    Stays l l' op id c c :=
  ⟨same ▸ held,rfl,fun active => active,fun _ rejects => rejects,.kept rfl⟩

theorem stays_map {f : String → Channel → Channel} (held : l.channels.get? id = some c)
    (channels : l'.channels = l.channels.mapWithKey f) (terms : (f id c).terms = c.terms)
    (active : (f id c).active = true → c.active = true)
    (fence : ∀ expiry, c.retired.rejects expiry = true → (f id c).retired.rejects expiry = true)
    (usage : UsageEffect l op id c (f id c).usage) : Stays l l' op id c (f id c) :=
  ⟨by rw [channels,get?_mapWithKey,held,map_some],terms,active,fence,usage⟩

theorem stays_deactivated (channel : String → Bool) (held : l.channels.get? id = some c)
    (channels : l'.channels = l.channels.mapWithKey fun i c => if channel i then
      { c with active := false } else c) :
    ∃ c', Stays l l' op id c c' := by
  refine ⟨_,stays_map held channels ?_ ?_ ?_ (.kept ?_)⟩
  · split_ifs <;> rfl
  · split_ifs
    · exact fun active => by cases active
    · exact fun active => active
  · split_ifs <;> exact fun _ rejects => rejects
  · split_ifs <;> rfl

theorem stays_update {i : String} {g : ChannelUsage → ChannelUsage} (held : l.channels.get? id = some c)
    (channels : l'.channels = l.channels.modify i fun c => withUsage c g)
    (usage : i = id → UsageEffect l op id c (g c.usage)) : ∃ c', Stays l l' op id c c' := by
  refine ⟨_,stays_map held channels ?_ ?_ ?_ ?_⟩
  · split_ifs <;> rfl
  · split_ifs <;> exact fun active => active
  · split_ifs <;> exact fun _ rejects => rejects
  · split_ifs with same
    · exact usage same.symm
    · exact .kept rfl

/-- What one call can do to one channel. -/
theorem Effect.channel (h : l.Sound) (e : Effect ext l op l') (held : l.channels.get? id = some c) :
    (∃ c', Stays l l' op id c c') ∨ ∃ plan s, Retires l l' op id c plan s := by
  cases e with
  | refused quiet => exact .inl ⟨c,stays_of_channels held rfl⟩
  | opened can => exact .inl ⟨c,can.get?_old held,rfl,fun active => active,fun _ rejects => rejects,.kept rfl⟩
  | installed can => exact .inl ⟨c,stays_of_channels held rfl⟩
  | @paid i paidMsat d found more cap =>
    refine .inl (stays_update (g := fun u => { u with paidMsat }) held rfl ?_)
    rintro rfl
    cases held.symm.trans found
    exact .paid more rfl rfl
  | admitted can result =>
    refine .inl (stays_update held can.transacts.channels ?_)
    rintro rfl
    cases held.symm.trans can.channel
    exact .reserved can.open_ (Nat.le_add_right _ _) rfl rfl
      ⟨⟨_,held,can.open_,_,_,can.account,can.active,rfl⟩,can.window⟩
  | finished waits outcome =>
    refine .inl (stays_update held (waits.transacts outcome).channels ?_)
    rintro rfl
    cases held.symm.trans waits.channel
    refine .submitted ⟨_,_,_,_,waits.account,rfl,waits.attempt,(waits.pending h.tokens).2⟩ ?_ rfl rfl
    simp only [waits.submitted_eq h]
    exact Nat.le_add_right _ _
  | closedContract i => exact .inl (stays_deactivated (fun _ => false) held rfl)
  | closedChannel i => exact .inl (stays_deactivated (fun j => j = i) held rfl)
  | @sealed i d found => exact .inl (stays_deactivated (fun j => j = i) held rfl)
  | @routesRetired channel _ _ d _ after retires =>
    refine .inl ⟨_,stays_map (f := fun i d => if i = channel then { d with retired := after } else d)
      held rfl ?_ ?_ ?_
      (.kept ?_)⟩
    · split_ifs <;> rfl
    · split_ifs <;> exact fun active => active
    · split_ifs with here
      · subst here
        cases held.symm.trans retires.held
        exact fun _ rejects => retires.evidence.rejects_of_rejects rejects
      · exact fun _ rejects => rejects
    · split_ifs <;> rfl
  | @channelsRetired plan valid retires result =>
    have adds : (l.history.getD {}).AddsAll plan.channels plan.after := by
      rw [retires.before]
      exact History.addsAll_of_foldlM valid.folded (History.valid_debts valid.before).1
    by_cases planned : ∃ s ∈ plan.channels, s.terms.id = id
    · obtain ⟨s,mem,rfl⟩ := planned
      obtain ⟨d,found,-,terms,usage,-⟩ := retires.held s mem
      cases held.symm.trans found
      refine .inr ⟨plan,s,rfl,result,⟨rfl,adds⟩,mem,terms.symm,usage.symm,?_⟩
      rw [get?_channelsRetired,if_pos ⟨s,mem,rfl⟩]
    · refine .inl ⟨c,?_,rfl,fun active => active,fun _ rejects => rejects,.kept rfl⟩
      rw [get?_channelsRetired,if_neg planned,held]
  | restored => exact .inl (stays_deactivated (fun _ => true) held rfl)
  | @recovered windows covers result =>
    have raised := get?_raised l.halted windows id
    have same : l.halted.channels.get? id = some c := held
    rw [same] at raised
    refine .inl ⟨_,raised,?_,?_,?_,?_⟩
    · cases windows.get? id <;> rfl
    · cases windows.get? id <;> exact fun active => active
    · cases windows.get? id <;> exact fun _ rejects => rejects
    · cases window : windows.get? id with
      | none => exact .kept rfl
      | some ceiling =>
        obtain ⟨d,can⟩ := covers.coverable id ceiling window
        cases same.symm.trans can.held
        exact .reserved can.active can.above rfl rfl trivial

end RelayLedger

structure Admission where
  token : Nat
  account : String
  units : Nat
  deriving DecidableEq

structure Credit where
  admission : Admission
  outcome : ForwardingOutcome
  deriving DecidableEq

def Admission.total (log : List Admission) (id : String) : Nat :=
  ((log.filter fun a => a.account = id).map (·.units)).sum

def Credit.total (log : List Credit) (id : String) (outcome : ForwardingOutcome) : Nat :=
  ((log.filter fun c => c.admission.account = id ∧ c.outcome = outcome).map (·.admission.units)).sum

def Account.givenUp (id : String) (a : Account) : List Credit :=
  (a.attempts.values.filter fun t => t.state = .pending).map fun t => ⟨⟨t.token,id,t.units⟩,.unconfirmed⟩

namespace RelayLedger

def givenUp (l : RelayLedger) (p : Account → Bool) : List Credit :=
  l.accounts.entries.flatMap fun e => if p e.2 then e.2.givenUp e.1 else []

def admissions (ext : Externals) (l : RelayLedger) : Op → List Admission
  | .admitWithWindows request nowUnix windows =>
    match l.admitWithWindows ext request nowUnix windows,l.serving request with
    | some (token,_),some (id,_) => [⟨token,id,request.sessionPayload.length⟩]
    | _,_ => []
  | _ => []

def credits (l : RelayLedger) : Op → List Credit
  | .complete token outcome =>
    ((l.pending.get? token).bind fun e => (l.attemptAt e.1 e.2).map fun t =>
      (⟨⟨token,e.1,t.units⟩,outcome⟩ : Credit)).toList
  | .sealChannel id => l.givenUp fun a => a.contract.channelId = id
  | .restore => l.givenUp fun _ => true
  | .recoverWindows windows =>
    if (recoverWindows l.snapshot windows).toOption.isSome then l.givenUp fun _ => true else []
  | _ => []

variable {ext : Externals} {l l' : RelayLedger} {op : Op} {id i : String} {a a' : Account} {c : Channel}

theorem total_givenUp_account (id i : String) (a : Account) (outcome : ForwardingOutcome) :
    Credit.total (a.givenUp id) i outcome = if id = i ∧ outcome = .unconfirmed then
      a.unitsIn .pending else 0 := by
  have units : ((a.attempts.values.filter fun t => t.state = .pending).map (·.units)).sum =
      a.unitsIn .pending := by
    rw [sum_filter_values]
    refine total_congr fun d t _ => ?_
    simp [Attempt.unitsIn]
  unfold Credit.total Account.givenUp
  rw [List.filter_map]
  by_cases both : id = i ∧ outcome = .unconfirmed
  · obtain ⟨rfl,rfl⟩ := both
    simpa [Function.comp_def] using units
  · rw [if_neg both]
    have nothing : (fun c : Credit => decide (c.admission.account = i ∧ c.outcome = outcome)) ∘
        (fun t : Attempt => (⟨⟨t.token,id,t.units⟩,.unconfirmed⟩ : Credit)) = fun _ => false := by
      funext t
      have apart : ¬ (id = i ∧ ForwardingOutcome.unconfirmed = outcome) :=
        fun same => both ⟨same.1,same.2.symm⟩
      simpa using apart
    rw [nothing]
    simp

theorem total_append (xs ys : List Credit) (i : String) (outcome : ForwardingOutcome) :
    Credit.total (xs ++ ys) i outcome = Credit.total xs i outcome + Credit.total ys i outcome := by
  simp [Credit.total]

variable {p : Account → Bool}

theorem total_givenUp (ha : l.accounts.get? i = some a) (outcome : ForwardingOutcome) :
    Credit.total (l.givenUp p) i outcome = if p a = true ∧ outcome = .unconfirmed then
      a.unitsIn .pending else 0 := by
  have each (entries : List (String × Account)) :
      Credit.total (entries.flatMap fun e => if p e.2 then e.2.givenUp e.1 else []) i outcome =
      (entries.map fun e => if e.1 = i then
        (if p e.2 = true ∧ outcome = .unconfirmed then e.2.unitsIn .pending else 0) else 0).sum := by
    induction entries with
    | nil => rfl
    | cons e rest ih =>
      rw [flatMap_cons,total_append,ih,map_cons]
      cases chosen : p e.2 with
      | false => simp [Credit.total]
      | true =>
        rw [if_pos rfl,total_givenUp_account]
        by_cases same : e.1 = i <;> simp [same]
  refine (each l.accounts.entries).trans ?_
  exact total_single (fun _ b => if p b = true ∧ outcome = .unconfirmed then b.unitsIn .pending else 0) ha

/-- The units of an account after a call: what the call admitted and counted for it, and nothing else. -/
structure Counted (ext : Externals) (l : RelayLedger) (op : Op) (i : String) (a a' : Account) : Prop where
  contract : a'.contract = a.contract
  reserved : a'.usage.reservedUnits = a.usage.reservedUnits + Admission.total (l.admissions ext op) i
  submitted : a'.usage.submittedUnits = a.usage.submittedUnits + Credit.total (l.credits op) i .submitted
  unconfirmed : a'.usage.unconfirmedUnits =
    a.usage.unconfirmedUnits + Credit.total (l.credits op) i .unconfirmed

theorem counted_of_usage (contract : a'.contract = a.contract) (usage : a'.usage = a.usage)
    (admissions : l.admissions ext op = []) (credits : l.credits op = []) : Counted ext l op i a a' := by
  refine ⟨contract,?_,?_,?_⟩ <;> rw [usage] <;> simp [admissions,credits,Admission.total,Credit.total]

theorem givenUp_eq_nil (h : ∀ i a, l.accounts.get? i = some a → p a = false) : l.givenUp p = [] := by
  refine flatMap_eq_nil_iff.2 ?_
  rintro ⟨i,a⟩ mem
  rw [h i a (mem_entries.1 mem)]
  rfl

theorem logs_of_refuses (h : l.Sound) (quiet : l.Refuses ext op) :
    l.admissions ext op = [] ∧ l.credits op = [] := by
  cases op with
  | admitWithWindows request nowUnix windows =>
    have none : l.admitWithWindows ext request nowUnix windows = none := quiet
    exact ⟨by simp [admissions,none],rfl⟩
  | complete token outcome =>
    have none : l.pending.get? token = none := quiet
    exact ⟨rfl,by simp [credits,none]⟩
  | sealChannel id =>
    refine ⟨rfl,givenUp_eq_nil (p := fun a => a.contract.channelId = id) fun i a ha => ?_⟩
    obtain ⟨c,hc,-⟩ := h.accounts.channel i a ha
    have none : l.channels.get? id = none := quiet
    have other : a.contract.channelId ≠ id := by
      rintro rfl
      rw [none] at hc
      cases hc
    exact decide_eq_false other
  | restore => exact quiet.elim
  | recoverWindows windows =>
    have none : (recoverWindows l.snapshot windows).toOption = none := quiet
    exact ⟨rfl,by simp [credits,none]⟩
  | _ => exact ⟨rfl,rfl⟩

theorem counted_sealed (balanced : a.Balanced l.limits) (ha : l.accounts.get? i = some a)
    (admissions : l.admissions ext op = []) (credits : l.credits op = l.givenUp p)
    (contract : a'.contract = a.contract) (usage : a'.usage = if p a then a.sealed.usage else a.usage) :
    Counted ext l op i a a' := by
  have sealed := balanced.usage_sealed
  refine ⟨contract,?_,?_,?_⟩ <;> rw [usage]
  · rw [admissions]
    split_ifs
    · rw [sealed]
      rfl
    · rfl
  · rw [credits,total_givenUp ha]
    split_ifs with chosen both
    · exact absurd both.2 (by simp)
    · rw [sealed]
      rfl
    · exact absurd ‹_› (by simp)
    · rfl
  · rw [credits,total_givenUp ha]
    split_ifs with chosen both
    · rw [sealed]
    · exact absurd ⟨chosen,rfl⟩ both
    · exact absurd ‹_ ∧ _›.1 chosen
    · rfl

def fresh (contract : Contract) : Account := ⟨contract,{},∅,{},true⟩

/-- What one call does to the units of one account. -/
theorem Effect.account (h : l.Sound) (e : Effect ext l op l') (held : l'.accounts.get? i = some a') :
    (l.accounts.get? i = none ∧ ∃ contract, op = .addContract contract ∧ a' = fresh contract) ∨
      ∃ a, l.accounts.get? i = some a ∧ Counted ext l op i a a' := by
  cases e with
  | refused quiet =>
    obtain ⟨admissions,credits⟩ := logs_of_refuses h quiet
    exact .inr ⟨a',held,counted_of_usage rfl rfl admissions credits⟩
  | opened can => exact .inr ⟨a',held,counted_of_usage rfl rfl rfl rfl⟩
  | installed can =>
    obtain ⟨rfl,rfl⟩ | ⟨-,old⟩ := installed_split held
    · exact .inl ⟨can.fresh,_,rfl,rfl⟩
    · exact .inr ⟨a',old,counted_of_usage rfl rfl rfl rfl⟩
  | paid found more cap => exact .inr ⟨a',held,counted_of_usage rfl rfl rfl rfl⟩
  | @admitted r nowUnix windows j b d digest can result =>
    have admissions : l.admissions ext (.admitWithWindows r nowUnix windows) =
        [⟨l.nextToken + 1,j,r.sessionPayload.length⟩] := by simp [admissions,result,can.serving]
    rw [can.get?_account] at held
    split_ifs at held with same
    · subst same
      cases held
      refine .inr ⟨b,can.account,rfl,?_,rfl,rfl⟩
      simp [admissions,Admission.total,served]
    · refine .inr ⟨a',held,rfl,?_,rfl,rfl⟩
      simp [admissions,Admission.total,Ne.symm same]
  | @finished token j digest b t d waits outcome =>
    have credits : l.credits (.complete token outcome) = [⟨⟨token,j,t.units⟩,outcome⟩] := by
      simp [credits,waits.held,waits.attemptAt]
    have usage := (h.accounts.balanced j b waits.account).usage_finish waits.attempt
      (waits.pending h.tokens).2 outcome
    rw [waits.get?_account] at held
    split_ifs at held with same
    · subst same
      cases held
      refine .inr ⟨b,waits.account,Account.contract_finish _ _ _ _,?_,?_,?_⟩ <;> rw [usage]
      · rfl
      · cases outcome <;> simp [credits,Credit.total]
      · cases outcome <;> simp [credits,Credit.total]
    · refine .inr ⟨a',held,rfl,rfl,?_,?_⟩ <;> simp [credits,Credit.total,Ne.symm same]
  | closedContract j =>
    rw [deactivated,get?_mapWithKey] at held
    obtain ⟨a,ha,rfl⟩ := map_eq_some_iff.1 held
    refine .inr ⟨a,ha,counted_of_usage ?_ ?_ rfl rfl⟩ <;> split_ifs <;> rfl
  | closedChannel j =>
    rw [deactivated,get?_mapWithKey] at held
    obtain ⟨a,ha,rfl⟩ := map_eq_some_iff.1 held
    refine .inr ⟨a,ha,counted_of_usage ?_ ?_ rfl rfl⟩ <;> split_ifs <;> rfl
  | @sealed j d found =>
    rw [get?_accounts_abandoned,deactivated,get?_mapWithKey,Option.map_map] at held
    obtain ⟨a,ha,rfl⟩ := map_eq_some_iff.1 held
    refine .inr ⟨a,ha,counted_sealed (h.accounts.balanced i a ha)
      (p := fun a => a.contract.channelId = j) ha rfl rfl ?_ ?_⟩
    · by_cases chosen : a.contract.channelId = j
      · simp [chosen]
      · simp [chosen]
    · by_cases chosen : a.contract.channelId = j
      · simpa [chosen,Account.settled] using usage_settled a
      · simp [chosen]
  | routesRetired retires =>
    exact .inr ⟨a',(get?_routesRetired.1 held).1,counted_of_usage rfl rfl rfl rfl⟩
  | channelsRetired valid retires result => exact .inr ⟨a',held,counted_of_usage rfl rfl rfl rfl⟩
  | restored =>
    rw [settled,get?_mapValues] at held
    obtain ⟨a,ha,rfl⟩ := map_eq_some_iff.1 held
    exact .inr ⟨a,ha,counted_sealed (h.accounts.balanced i a ha) (p := fun _ => true)
      ha rfl rfl (contract_settled a)
      (usage_settled a)⟩
  | @recovered windows covers result =>
    have accounts : (l.halted.raised windows).accounts = l.accounts.mapValues fun a => a.sealed :=
      accounts_raised _ _
    have credits : l.credits (.recoverWindows windows) = l.givenUp fun _ => true := by
      simp [credits,result,Except.toOption]
    rw [accounts,get?_mapValues] at held
    obtain ⟨a,ha,rfl⟩ := map_eq_some_iff.1 held
    exact .inr ⟨a,ha,counted_sealed (h.accounts.balanced i a ha) ha rfl credits
      (Account.contract_sealed a) rfl⟩

variable {d : Digest} {t : Attempt}

/-- An attempt that was there before a call, waiting at least as long. -/
def Before (l : RelayLedger) (i : String) (d : Digest) (t : Attempt) : Prop :=
  ∃ u, l.attemptAt i d = some u ∧ t.token = u.token ∧ t.units = u.units ∧
    (t.state = .pending → u.state = .pending)

theorem before_of_same (here : l'.attemptAt i d = some t) (same : ∀ i d, l'.attemptAt i d = l.attemptAt i d) :
    l.Before i d t := ⟨t,(same i d).symm.trans here,rfl,rfl,id⟩

theorem before_of_abandoned (here : (l.abandoned p).attemptAt i d = some t) : l.Before i d t := by
  obtain ⟨u,there,token,units,waits⟩ := exists_of_abandoned here
  exact ⟨u,there,token,units,fun waiting => (waits waiting).1 ▸ waiting⟩

/-- A new attempt is one the call admitted, on an active channel. -/
theorem Effect.attempt (h : l.Sound) (e : Effect ext l op l') (here : l'.attemptAt i d = some t) :
    l.Before i d t ∨ ⟨t.token,i,t.units⟩ ∈ l.admissions ext op ∧
      ∃ a c, l.accounts.get? i = some a ∧ l.channels.get? a.contract.channelId = some c ∧
        c.active = true := by
  cases e with
  | refused quiet => exact .inl (before_of_same here fun _ _ => rfl)
  | opened can => exact .inl (before_of_same here fun _ _ => rfl)
  | installed can => exact .inl (before_of_same here can.attemptAt)
  | paid found more cap => exact .inl (before_of_same here fun _ _ => rfl)
  | @admitted r nowUnix windows j b c digest can result =>
    rw [can.attemptAt] at here
    split_ifs at here with new
    · obtain ⟨rfl,rfl⟩ := new
      cases here
      refine .inr ⟨?_,b,c,can.account,can.channel,can.open_⟩
      simp [admissions,result,can.serving]
    · exact .inl ⟨t,here,rfl,rfl,id⟩
  | finished waits outcome =>
    obtain ⟨u,there,token,units,⟨-,-,state⟩ | ⟨-,rfl⟩⟩ := waits.exists_of_finished here
    · refine .inl ⟨u,there,token,units,fun waiting => ?_⟩
      cases outcome <;> simp [state,ForwardingOutcome.state] at waiting
    · exact .inl ⟨t,there,rfl,rfl,id⟩
  | closedContract j => exact .inl (before_of_same here (attemptAt_deactivated l _ _))
  | closedChannel j => exact .inl (before_of_same here (attemptAt_deactivated l _ _))
  | sealed found =>
    obtain ⟨u,there,same⟩ := before_of_abandoned here
    rw [attemptAt_deactivated] at there
    exact .inl ⟨u,there,same⟩
  | routesRetired retires => exact .inl (before_of_same here retires.attemptAt)
  | channelsRetired valid retires result => exact .inl (before_of_same here fun _ _ => rfl)
  | restored =>
    rw [h.settled_eq] at here
    obtain ⟨u,there,same⟩ := before_of_abandoned here
    rw [attemptAt_deactivated] at there
    exact .inl ⟨u,there,same⟩
  | @recovered windows covers result =>
    have accounts : (l.halted.raised windows).accounts = l.halted.accounts := accounts_raised _ _
    have same : (l.halted.raised windows).attemptAt i d = l.halted.attemptAt i d := by
      rw [attemptAt,accounts,attemptAt]
    rw [same] at here
    exact .inl (before_of_abandoned here)

variable {cr : Credit}

theorem mem_givenUp : cr ∈ l.givenUp p ↔ ∃ i a d t, l.accounts.get? i = some a ∧
    p a = true ∧ a.attempts.get? d = some t ∧ t.state = .pending ∧
      cr = ⟨⟨t.token,i,t.units⟩,.unconfirmed⟩ := by
  unfold givenUp Account.givenUp
  rw [mem_flatMap]
  constructor
  · rintro ⟨⟨i,a⟩,ha,mem⟩
    split_ifs at mem with chosen
    · obtain ⟨t,ht,rfl⟩ := mem_map.1 mem
      obtain ⟨value,waiting⟩ := mem_filter.1 ht
      obtain ⟨d,hd⟩ := mem_values.1 value
      exact ⟨i,a,d,t,mem_entries.1 ha,chosen,hd,of_decide_eq_true waiting,rfl⟩
    · cases mem
  · rintro ⟨i,a,d,t,ha,chosen,hd,waiting,rfl⟩
    refine ⟨(i,a),mem_entries.2 ha,?_⟩
    rw [if_pos chosen]
    exact mem_map.2 ⟨t,mem_filter.2 ⟨mem_values.2 ⟨d,hd⟩,decide_eq_true waiting⟩,rfl⟩

theorem nodup_givenUp (h : l.TokensSound) (p : Account → Bool) :
    ((l.givenUp p).map (·.admission.token)).Nodup := by
  refine h.nodup_tokensOf.sublist ?_
  unfold givenUp tokensOf
  rw [map_flatMap]
  refine List.Sublist.flatMap_right _ fun e _ => ?_
  split_ifs
  · rw [Account.givenUp,values,List.filter_map,List.map_map,List.map_map]
    exact filter_sublist.map _
  · exact nil_sublist _

theorem credits_cases (l : RelayLedger) (op : Op) :
    (∃ token outcome, op = .complete token outcome) ∨ ∃ p, l.credits op = l.givenUp p := by
  have nothing : [] = l.givenUp fun _ => false := (givenUp_eq_nil fun _ _ _ => rfl).symm
  cases op with
  | complete token outcome => exact .inl ⟨token,outcome,rfl⟩
  | sealChannel id => exact .inr ⟨fun a => a.contract.channelId = id,rfl⟩
  | restore => exact .inr ⟨fun _ => true,rfl⟩
  | recoverWindows windows =>
    simp only [credits]
    split_ifs
    · exact .inr ⟨_,rfl⟩
    · exact .inr ⟨_,nothing⟩
  | _ => exact .inr ⟨_,nothing⟩

theorem mem_credits_complete (h : l.TokensSound) {token : Nat} {outcome : ForwardingOutcome} :
    cr ∈ l.credits (.complete token outcome) ↔ ∃ i d t, l.attemptAt i d = some t ∧ t.token = token ∧
      t.state = .pending ∧ cr = ⟨⟨token,i,t.units⟩,outcome⟩ := by
  simp only [credits,mem_toList,bind_eq_some_iff,map_eq_some_iff,Prod.exists,h.pending]
  constructor
  · rintro ⟨i,d,⟨t,here,owns,waiting⟩,u,there,rfl⟩
    cases here.symm.trans there
    exact ⟨i,d,t,here,owns,waiting,rfl⟩
  · rintro ⟨i,d,t,here,owns,waiting,rfl⟩
    exact ⟨i,d,⟨t,here,owns,waiting⟩,t,here,rfl⟩

theorem nodup_credits (h : l.TokensSound) (op : Op) : ((l.credits op).map (·.admission.token)).Nodup := by
  obtain ⟨token,outcome,rfl⟩ | ⟨p,given⟩ := l.credits_cases op
  · simp only [credits]
    cases (l.pending.get? token).bind fun e => (l.attemptAt e.1 e.2).map fun t =>
      (⟨⟨token,e.1,t.units⟩,outcome⟩ : Credit) with
    | none => exact nodup_nil
    | some cr => exact nodup_singleton _
  · rw [given]
    exact nodup_givenUp h p

theorem waits_of_credits (h : l.TokensSound) (mem : cr ∈ l.credits op) :
    ∃ d t, l.attemptAt cr.admission.account d = some t ∧ t.state = .pending ∧
      cr.admission = ⟨t.token,cr.admission.account,t.units⟩ := by
  obtain ⟨token,outcome,rfl⟩ | ⟨p,given⟩ := l.credits_cases op
  · obtain ⟨i,d,t,here,rfl,waiting,rfl⟩ := (mem_credits_complete h).1 mem
    exact ⟨d,t,here,waiting,rfl⟩
  · rw [given] at mem
    obtain ⟨i,a,d,t,ha,-,hd,waiting,rfl⟩ := mem_givenUp.1 mem
    exact ⟨d,t,by simp [attemptAt,ha,hd],waiting,rfl⟩

/-- What a call counts does not wait any more. -/
theorem Effect.credited (h : l.Sound) (e : Effect ext l op l') (mem : cr ∈ l.credits op) :
    l'.pending.get? cr.admission.token = none := by
  cases e with
  | refused quiet =>
    rw [(logs_of_refuses h quiet).2] at mem
    cases mem
  | @finished token j digest b t c waits outcome =>
    obtain ⟨i,d,u,-,-,-,rfl⟩ := (mem_credits_complete h.tokens).1 mem
    exact (get?_erase _ _ _).trans (if_pos rfl)
  | @sealed j c found =>
    have up : cr ∈ l.givenUp fun a => a.contract.channelId = j := mem
    obtain ⟨i,a,d,t,ha,chosen,hd,waiting,rfl⟩ := mem_givenUp.1 up
    have closed : (l.deactivated (fun i => i = j) fun _ a => a.contract.channelId = j).Sound :=
      h.deactivated fun _ _ _ => id
    have held := (h.tokens.pending t.token i d).2 ⟨t,by simp [attemptAt,ha,hd],rfl,waiting⟩
    rw [eq_none_iff_forall_ne_some]
    rintro ⟨i',d'⟩ still
    obtain ⟨again,spared⟩ := (get?_pending_abandoned closed.tokens _ _ _).1 still
    obtain ⟨rfl,rfl⟩ := Prod.mk.inj (Option.some.inj (held.symm.trans again))
    have found : (l.deactivated (fun i => i = j) fun _ a => a.contract.channelId = j).accounts.get? i =
        some { a with active := false } := by
      rw [deactivated,get?_mapWithKey,ha,map_some,if_pos chosen]
    have kept := spared _ found
    exact absurd (chosen.symm.trans kept) (by simp)
  | restored => rfl
  | @recovered windows covers result =>
    have pending : l.halted.pending = ∅ := pending_abandoned h.tokens
    rw [raised_eq,pending]
    rfl
  | _ => cases mem

theorem Effect.nextToken (h : l.Sound) (e : Effect ext l op l') :
    l.admissions ext op = [] ∧ l'.nextToken = l.nextToken ∨
      ∃ i units, l.admissions ext op = [⟨l.nextToken + 1,i,units⟩] ∧ l'.nextToken = l.nextToken + 1 := by
  cases e with
  | refused quiet => exact .inl ⟨(logs_of_refuses h quiet).1,rfl⟩
  | @admitted r nowUnix windows j b d digest can result =>
    exact .inr ⟨j,r.sessionPayload.length,by simp [admissions,result,can.serving],rfl⟩
  | recovered covers result => exact .inl ⟨rfl,by rw [raised_eq]; rfl⟩
  | _ => exact .inl ⟨rfl,rfl⟩

structure Final (l : RelayLedger) (id : String) (c : Channel) : Prop where
  held : l.channels.get? id = some c
  closed : c.active = false
  idle : ¬ l.WaitsOn id

theorem Final.idle_of_effect (f : l.Final id c) (h : l.Sound) (e : l.Effect ext op l') : ¬ l'.WaitsOn id := by
  rintro ⟨i,a',d,t,ha',owner,hd,waiting⟩
  have here : l'.attemptAt i d = some t := by simp [attemptAt,ha',hd]
  obtain ⟨absent,-⟩ | ⟨a,ha,counted⟩ := e.account h ha'
  · obtain ⟨u,there,-⟩ | ⟨-,b,c',hb,-⟩ := e.attempt h here
    · simp [attemptAt,absent] at there
    · rw [absent] at hb
      cases hb
  · rw [counted.contract] at owner
    obtain ⟨u,there,-,-,waited⟩ | ⟨-,b,c',hb,hc',active⟩ := e.attempt h here
    · obtain ⟨b,hb,hu⟩ := bind_eq_some_iff.1 there
      cases ha.symm.trans hb
      exact f.idle ⟨i,a,d,u,ha,owner,hu,waited waiting⟩
    · cases ha.symm.trans hb
      rw [owner,f.held] at hc'
      obtain rfl := Option.some.inj hc'
      rw [f.closed] at active
      cases active

theorem Final.effect (f : l.Final id c) (h : l.Sound) (e : l.Effect ext op l') :
    (∃ c', l'.Final id c' ∧ c'.usage.reservedMsat = c.usage.reservedMsat ∧
      c'.usage.submittedMsat = c.usage.submittedMsat) ∨ ∃ plan s, Retires l l' op id c plan s := by
  obtain ⟨c',stays⟩ | retired := e.channel h f.held
  · refine .inl ⟨c',⟨stays.held,?_,f.idle_of_effect h e⟩,?_⟩
    · cases active : c'.active with
      | false => rfl
      | true => exact absurd (stays.active active) (by simp [f.closed])
    · cases stays.usage with
      | kept same => rw [same]; exact ⟨rfl,rfl⟩
      | paid more reserved submitted => exact ⟨reserved,submitted⟩
      | reserved active more submitted paid => exact absurd active (by simp [f.closed])
      | submitted waits more reserved paid => exact absurd waits f.idle
  · exact .inr retired

theorem idle_abandoned (id : String) : ¬ (l.abandoned fun a => a.contract.channelId = id).WaitsOn id := by
  rintro ⟨i,a',d,t,ha',owner,hd,waiting⟩
  have here : (l.abandoned fun a => a.contract.channelId = id).attemptAt i d = some t := by
    simp [attemptAt,ha',hd]
  obtain ⟨u,-,-,-,waits⟩ := exists_of_abandoned here
  rw [get?_accounts_abandoned] at ha'
  obtain ⟨a,ha,rfl⟩ := map_eq_some_iff.1 ha'
  have spared := (waits waiting).2 a ha
  exact absurd (decide_eq_true owner) (by simp [spared])

theorem final_of_seal (h : l.Sound) {u : ChannelUsage} (done : l.sealChannel id = .ok (u,l')) :
    l'.Sound ∧ ∃ c, l'.Final id c ∧ c.usage = u := by
  obtain ⟨c,held,rfl,rfl⟩ := sealChannel_eq_ok done
  refine ⟨(h.deactivated fun _ _ _ closed => closed).abandoned _,{ c with active := false },
    ⟨?_,rfl,idle_abandoned id⟩,rfl⟩
  show (l.deactivated (fun i => i = id) fun _ a => a.contract.channelId = id).channels.get? id = _
  rw [deactivated,get?_mapWithKey,held,map_some,if_pos (decide_eq_true rfl)]

/-- The amounts of a claim enter the history in the course of a run, with the channel they belong to. -/
def RetiresClaim (ext : Externals) (l : RelayLedger) (ops : List Op) (id : String) (u : ChannelUsage) :
    Prop :=
  ∃ before plan after m m' s, ops = before ++ .retireChannels plan :: after ∧ l.run ext before = some m ∧
    m.retireChannels plan = .ok (true,m') ∧ s ∈ plan.channels ∧ s.terms.id = id ∧
    s.usage.reservedMsat = u.reservedMsat ∧ s.usage.submittedMsat = u.submittedMsat ∧
    m'.history = some plan.after ∧ (m.history.getD {}).AddsAll plan.channels plan.after

theorem Final.run (f : l.Final id c) (h : l.Sound) (ext : Externals) (ops : List Op) :
    ∃ l', l.run ext ops = some l' ∧
    ((∃ c', l'.channels.get? id = some c' ∧ c'.usage.reservedMsat = c.usage.reservedMsat ∧
      c'.usage.submittedMsat = c.usage.submittedMsat) ∨ l.RetiresClaim ext ops id c.usage) := by
  induction ops generalizing l c with
  | nil => exact ⟨l,rfl,.inl ⟨c,f.held,rfl,rfl⟩⟩
  | cons op rest ih =>
    obtain ⟨l₁,done,effect⟩ := h.exec ext op
    have first (ops : List Op) : l.run ext (op :: ops) = l₁.run ext ops := by
      rw [RelayLedger.run,foldlM_cons,done]
      rfl
    obtain ⟨c₁,final,reserved,submitted⟩ | ⟨plan,s,retires⟩ := f.effect h effect
    · obtain ⟨l',later,holds⟩ := ih final (effect.sound h)
      refine ⟨l',(first rest).trans later,?_⟩
      obtain ⟨c',held,same⟩ | ⟨before,plan,after,m,m',s,rfl,reached,result,mem,key,amounts⟩ := holds
      · exact .inl ⟨c',held,same.1.trans reserved,same.2.trans submitted⟩
      · rw [reserved,submitted] at amounts
        exact .inr ⟨op :: before,plan,after,m,m',s,rfl,(first before).trans reached,result,mem,key,amounts⟩
    · obtain ⟨l',later,-⟩ := (effect.sound h).run ext rest
      obtain ⟨rfl,result,history,mem,terms,usage,-⟩ := retires
      have key : s.terms.id = id := terms ▸ h.channels.key id c f.held
      exact ⟨l',(first rest).trans later,.inr ⟨[],plan,rest,l,l₁,s,rfl,rfl,result,mem,key,by rw [usage],
        by rw [usage],history⟩⟩

end RelayLedger

/-- A ledger with a record of every admission and every outcome counted so far. -/
structure Book where
  ledger : RelayLedger
  admitted : List Admission
  credited : List Credit

namespace Book

def new (limits : Limits) : Book := ⟨RelayLedger.new limits,[],[]⟩

def exec (ext : Externals) (b : Book) (op : Op) : Option Book :=
  (b.ledger.exec ext op).map fun l =>
    ⟨l,b.admitted ++ b.ledger.admissions ext op,b.credited ++ b.ledger.credits op⟩

def run (ext : Externals) (b : Book) (ops : List Op) : Option Book := ops.foldlM (exec ext) b

/-- Every attempt was admitted once, and every outcome counted is that of an admitted attempt that does
not wait. -/
structure Sound (b : Book) : Prop where
  ledger : b.ledger.Sound
  issued : ∀ x ∈ b.admitted, x.token ≤ b.ledger.nextToken
  distinct : (b.admitted.map (·.token)).Nodup
  attempts : ∀ i d t, b.ledger.attemptAt i d = some t → ⟨t.token,i,t.units⟩ ∈ b.admitted
  once : (b.credited.map (·.admission.token)).Nodup
  known : ∀ cr ∈ b.credited, cr.admission ∈ b.admitted
  done : ∀ cr ∈ b.credited, b.ledger.pending.get? cr.admission.token = none

theorem sound_new (limits : Limits) : (new limits).Sound :=
  ⟨RelayLedger.sound_new limits,by simp [new],by simp [new],
    by simp [new,RelayLedger.new,RelayLedger.attemptAt],by simp [new],by simp [new],by simp [new]⟩

variable {ext : Externals} {b b' : Book} {op : Op}

theorem token_of_admissions {l l' : RelayLedger} (h : l.Sound) (e : l.Effect ext op l') {x : Admission}
    (mem : x ∈ l.admissions ext op) : x.token = l.nextToken + 1 ∧ l'.nextToken = l.nextToken + 1 := by
  obtain ⟨none,-⟩ | ⟨i,units,one,next⟩ := e.nextToken h
  · rw [none] at mem
    cases mem
  · rw [one,mem_singleton] at mem
    subst mem
    exact ⟨rfl,next⟩

theorem Sound.exec (h : b.Sound) (ext : Externals) (op : Op) : ∃ b', b.exec ext op = some b' ∧ b'.Sound ∧
    b.ledger.exec ext op = some b'.ledger ∧ b.ledger.Effect ext op b'.ledger := by
  obtain ⟨l',done,effect⟩ := h.ledger.exec ext op
  refine ⟨_,by rw [Book.exec,done,map_some],?_,done,effect⟩
  have sound := effect.sound h.ledger
  have later : b.ledger.nextToken ≤ l'.nextToken := by
    obtain ⟨-,same⟩ | ⟨i,units,-,same⟩ := effect.nextToken h.ledger <;> omega
  refine ⟨sound,?_,?_,?_,?_,?_,?_⟩
  · intro x mem
    obtain old | new := mem_append.1 mem
    · exact (h.issued x old).trans later
    · obtain ⟨token,next⟩ := token_of_admissions h.ledger effect new
      exact (token.trans next.symm).le
  · rw [map_append]
    refine nodup_append.2 ⟨h.distinct,?_,?_⟩
    · obtain ⟨none,-⟩ | ⟨i,units,one,-⟩ := effect.nextToken h.ledger
      · rw [none]
        exact nodup_nil
      · rw [one]
        exact nodup_singleton _
    · intro t old t' new same
      obtain ⟨x,hx,rfl⟩ := mem_map.1 old
      obtain ⟨y,hy,rfl⟩ := mem_map.1 new
      have token := (token_of_admissions h.ledger effect hy).1
      have issued := h.issued x hx
      omega
  · intro i d t here
    obtain ⟨u,there,token,units,-⟩ | ⟨new,-⟩ := effect.attempt h.ledger here
    · rw [token,units]
      exact mem_append.2 (.inl (h.attempts i d u there))
    · exact mem_append.2 (.inr new)
  · rw [map_append]
    refine nodup_append.2 ⟨h.once,RelayLedger.nodup_credits h.ledger.tokens op,?_⟩
    intro t old t' new same
    obtain ⟨cr,hcr,rfl⟩ := mem_map.1 old
    obtain ⟨cr',hcr',rfl⟩ := mem_map.1 new
    obtain ⟨d,x,here,waiting,admission⟩ := RelayLedger.waits_of_credits h.ledger.tokens hcr'
    have token : x.token = cr'.admission.token := by rw [admission]
    have held := (h.ledger.tokens.pending cr.admission.token _ d).2 ⟨x,here,token.trans same.symm,waiting⟩
    rw [h.done cr hcr] at held
    cases held
  · intro cr mem
    obtain old | new := mem_append.1 mem
    · exact mem_append.2 (.inl (h.known cr old))
    · obtain ⟨d,x,here,-,admission⟩ := RelayLedger.waits_of_credits h.ledger.tokens new
      rw [admission]
      exact mem_append.2 (.inl (h.attempts _ d x here))
  · intro cr mem
    obtain old | new := mem_append.1 mem
    · rw [eq_none_iff_forall_ne_some]
      rintro ⟨i,d⟩ held
      obtain ⟨x,here,token,waiting⟩ := (sound.tokens.pending _ i d).1 held
      obtain ⟨u,there,same,-,waited⟩ | ⟨new,-⟩ := effect.attempt h.ledger here
      · have waits := (h.ledger.tokens.pending cr.admission.token i d).2
          ⟨u,there,same.symm.trans token,waited waiting⟩
        rw [h.done cr old] at waits
        cases waits
      · have next := (token_of_admissions h.ledger effect new).1
        have issued := h.issued _ (h.known cr old)
        simp only at next
        omega
    · exact effect.credited h.ledger new

theorem Sound.run (h : b.Sound) (ext : Externals) (ops : List Op) :
    ∃ b', b.run ext ops = some b' ∧ b'.Sound := by
  induction ops generalizing b with
  | nil => exact ⟨b,rfl,h⟩
  | cons op rest ih =>
    obtain ⟨b₁,done,sound,-⟩ := h.exec ext op
    obtain ⟨b',later,sound'⟩ := ih sound
    refine ⟨b',?_,sound'⟩
    rw [Book.run,foldlM_cons,done]
    exact later

end Book

namespace RelayLedger

/-- The amounts of a channel after a call: none is smaller, or the channel is retired with the amounts it
had. -/
def NeverLess (l l' : RelayLedger) (op : Op) (id : String) (c : Channel) : Prop :=
  (∃ c', l'.channels.get? id = some c' ∧ c'.terms = c.terms ∧ c.usage.submittedMsat ≤ c'.usage.submittedMsat ∧
    c.usage.reservedMsat ≤ c'.usage.reservedMsat ∧ c.usage.paidMsat ≤ c'.usage.paidMsat) ∨
  ∃ plan s, Retires l l' op id c plan s

theorem Effect.neverLess {ext : Externals} {l l' : RelayLedger} {op : Op} {id : String}
    {c : Channel} (h : l.Sound) (e : l.Effect ext op l') (held : l.channels.get? id = some c) :
    l.NeverLess l' op id c := by
  obtain ⟨c',stays⟩ | retired := e.channel h held
  · refine .inl ⟨c',stays.held,stays.terms,?_⟩
    cases stays.usage with
    | kept same => rw [same]; exact ⟨le_rfl,le_rfl,le_rfl⟩
    | paid more reserved submitted => exact ⟨submitted.ge,reserved.ge,more⟩
    | reserved active more submitted paid => exact ⟨submitted.ge,more,paid.ge⟩
    | submitted waits more reserved paid => exact ⟨more,reserved.ge,paid.ge⟩
  · exact .inr retired

/-- Every token is new, every attempt is counted at most once, no amount shrinks, and a sealed claim is
final. -/
theorem run_bills_once (ext : Externals) (limits : Limits) (ops : List Op) :
    ∃ b, (Book.new limits).run ext ops = some b ∧
      (b.admitted.map (·.token)).Nodup ∧ (b.credited.map (·.admission.token)).Nodup ∧
      (∀ cr ∈ b.credited, cr.admission ∈ b.admitted) ∧
      (∀ op, ∃ l', b.ledger.exec ext op = some l' ∧
        (∀ i a', l'.accounts.get? i = some a' →
          b.ledger.accounts.get? i = none ∧ a'.usage = {} ∨
            ∃ a, b.ledger.accounts.get? i = some a ∧ Counted ext b.ledger op i a a') ∧
        ∀ id c, b.ledger.channels.get? id = some c → b.ledger.NeverLess l' op id c) ∧
      ∀ id u closed, b.ledger.sealChannel id = .ok (u,closed) →
        ∀ later, ∃ l', closed.run ext later = some l' ∧
        ((∃ c, l'.channels.get? id = some c ∧ c.usage.reservedMsat = u.reservedMsat ∧
          c.usage.submittedMsat = u.submittedMsat) ∨ closed.RetiresClaim ext later id u) := by
  obtain ⟨b,done,sound⟩ := (Book.sound_new limits).run ext ops
  refine ⟨b,done,sound.distinct,sound.once,sound.known,?_,?_⟩
  · intro op
    obtain ⟨l',result,effect⟩ := sound.ledger.exec ext op
    refine ⟨l',result,?_,fun id c held => effect.neverLess sound.ledger held⟩
    intro i a' held
    obtain ⟨absent,contract,-,rfl⟩ | counted := effect.account sound.ledger held
    · exact .inl ⟨absent,rfl⟩
    · exact .inr counted
  · intro id u closed result later
    obtain ⟨closedSound,c,final,rfl⟩ := final_of_seal sound.ledger result
    exact final.run closedSound ext later

end RelayLedger

end Fips.Relay
