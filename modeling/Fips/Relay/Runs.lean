import Fips.Relay.Recovering
import Fips.Relay.Retiring

set_option autoImplicit false

/-! Runs of the ledger, with operations in any order. -/

namespace Fips.Relay

open Checked

/-- A call of the ledger. A restart reads the snapshot of the ledger it replaces. -/
inductive Op where
  | openChannelVerified (terms : ChannelTerms) (paidMsat : Nat)
  | addContract (contract : Contract)
  | applyVerifiedBalance (channel : String) (paidMsat : Nat)
  | admitWithWindows (request : ForwardingRequest) (nowUnix : Nat) (windows : Option (OrderedMap String Nat))
  | complete (token : Nat) (outcome : ForwardingOutcome)
  | closeContract (id : String)
  | closeChannel (id : String)
  | sealChannel (id : String)
  | retireClosedRoutes (channel : String) (throughUnix : Nat) (uninstalled : List Contract)
  | retireChannels (plan : Plan)
  | restore
  | recoverWindows (windows : OrderedMap String Nat)

namespace RelayLedger

/-- What a call leaves behind. A refused call changes nothing, and there is no result when an `expect`
fails. -/
def exec (ext : Externals) (l : RelayLedger) : Op → Option RelayLedger
  | .openChannelVerified terms paidMsat => some ((l.openChannelVerified terms paidMsat).toOption.getD l)
  | .addContract contract => some ((l.addContract contract).toOption.getD l)
  | .applyVerifiedBalance channel paidMsat => some ((l.applyVerifiedBalance channel paidMsat).toOption.getD l)
  | .admitWithWindows request nowUnix windows =>
    some ((l.admitWithWindows ext request nowUnix windows).elim l (·.2))
  | .complete token outcome => l.complete token outcome
  | .closeContract id => some ((l.closeContract id).toOption.elim l (·.2))
  | .closeChannel id => some ((l.closeChannel id).toOption.elim l (·.2))
  | .sealChannel id => some ((l.sealChannel id).toOption.elim l (·.2))
  | .retireClosedRoutes channel throughUnix uninstalled =>
    some ((l.retireClosedRoutesWithUninstalled channel throughUnix uninstalled).toOption.elim l (·.2))
  | .retireChannels plan => some ((l.retireChannels plan).toOption.elim l (·.2))
  | .restore => some ((restore l.snapshot).toOption.getD l)
  | .recoverWindows windows => some ((recoverWindows l.snapshot windows).toOption.getD l)

def run (ext : Externals) (l : RelayLedger) (ops : List Op) : Option RelayLedger := ops.foldlM (exec ext) l

/-- When a call may leave the ledger as it was. -/
def Refuses (ext : Externals) (l : RelayLedger) : Op → Prop
  | .admitWithWindows request nowUnix windows => l.admitWithWindows ext request nowUnix windows = none
  | .complete token _ => l.pending.get? token = none
  | .sealChannel id => l.channels.get? id = none
  | .restore => False
  | .recoverWindows windows => (recoverWindows l.snapshot windows).toOption = none
  | _ => True

/-- Everything a call can do to a sound ledger. -/
inductive Effect (ext : Externals) (l : RelayLedger) : Op → RelayLedger → Prop
  | refused {op : Op} (quiet : l.Refuses ext op) : Effect ext l op l
  | opened {terms : ChannelTerms} {paidMsat : Nat} (can : l.CanOpen terms paidMsat) :
    Effect ext l (.openChannelVerified terms paidMsat) (l.opened terms paidMsat)
  | installed {contract : Contract} {channel : Channel} (can : l.CanInstall contract channel) :
    Effect ext l (.addContract contract) (l.installed contract)
  | paid {id : String} {paidMsat : Nat} {c : Channel} (held : l.channels.get? id = some c)
    (more : c.usage.paidMsat ≤ paidMsat) (cap : paidMsat ≤ c.terms.capacitySat * 1000) :
    Effect ext l (.applyVerifiedBalance id paidMsat) (l.paid id paidMsat)
  | admitted {r : ForwardingRequest} {nowUnix : Nat} {windows : Option (OrderedMap String Nat)}
    {id : String} {a : Account}
    {c : Channel} {digest : Digest} (can : l.CanAdmit ext r nowUnix windows id a c digest)
    (result : l.admitWithWindows ext r nowUnix windows = some (l.nextToken + 1,l.admitted r id a c digest)) :
    Effect ext l (.admitWithWindows r nowUnix windows) (l.admitted r id a c digest)
  | finished {token : Nat} {id : String} {digest : Digest} {a : Account} {t : Attempt} {c : Channel}
    (waits : l.Waits token id digest a t c) (outcome : ForwardingOutcome) :
    Effect ext l (.complete token outcome) (l.finished token id digest a t outcome)
  | closedContract (id : String) : Effect ext l (.closeContract id) (l.deactivated (fun _ =>
    false) fun i _ => i = id)
  | closedChannel (id : String) :
    Effect ext l (.closeChannel id) (l.deactivated (fun i => i = id) fun _ a => a.contract.channelId = id)
  | sealed {id : String} {c : Channel} (held : l.channels.get? id = some c) :
    Effect ext l (.sealChannel id)
      ((l.deactivated (fun i => i = id) fun _ a => a.contract.channelId = id).abandoned
      fun a => a.contract.channelId = id)
  | routesRetired {channel : String} {throughUnix : Nat} {uninstalled : List Contract}
    {c : Channel} {kept : List Contract}
    {after : RetiredRouteEvidence} (retires : l.RetiresRoutes channel throughUnix uninstalled c kept after) :
    Effect ext l (.retireClosedRoutes channel throughUnix uninstalled)
      (l.routesRetired channel throughUnix after)
  | channelsRetired {plan : Plan} (valid : plan.Valid l.limits.maxChannels) (retires : l.RetiresChannels plan)
    (result : l.retireChannels plan = .ok (true,l.channelsRetired plan)) :
    Effect ext l (.retireChannels plan) (l.channelsRetired plan)
  | restored : Effect ext l .restore l.settled
  | recovered {windows : OrderedMap String Nat} (covers : l.halted.Covers windows)
    (result : recoverWindows l.snapshot windows = .ok (l.halted.raised windows)) :
    Effect ext l (.recoverWindows windows) (l.halted.raised windows)

variable {ext : Externals} {l l' : RelayLedger} {op : Op}

theorem toOption_getD_cases {ε α : Type} {P : α → Prop} {x : Except ε α} {a : α} (error : P a)
    (ok : ∀ b, x = .ok b → P b) :
    P (x.toOption.getD a) := by
  cases x with
  | error e => exact error
  | ok b => exact ok b rfl

theorem toOption_elim_cases {ε α β : Type} {P : α → Prop} {x : Except ε (β × α)} {a : α} (error : P a)
    (ok : ∀ u b, x = .ok (u,b) → P b) : P (x.toOption.elim a (·.2)) := by
  cases x with
  | error e => exact error
  | ok b => exact ok b.1 b.2 rfl

/-- No `expect` of `complete` fails. -/
theorem Sound.exists_complete (h : l.Sound) (token : Nat) (outcome : ForwardingOutcome) :
    ∃ l', l.complete token outcome = some l' := by
  cases waiting : l.pending.get? token with
  | none => exact ⟨l,by simp [complete,waiting]⟩
  | some found =>
    obtain ⟨id,digest⟩ := found
    obtain ⟨t,here,-,waits⟩ := (h.tokens.pending token id digest).1 waiting
    obtain ⟨a,ha,ht⟩ := Option.bind_eq_some_iff.1 here
    obtain ⟨c,hc,valid,-⟩ := h.accounts.channel id a ha
    have balanced := h.accounts.balanced id a ha
    have priced := (validateContract_eq_ok valid).2.1
    have usage := balanced.usage_finish ht waits outcome
    have le := balanced.pending_le ht waits
    have allowed := balanced.allowed
    have before := BytePrice.amountDueMsat_of_le (a := a.usage.submittedUnits) priced (by omega)
    have more : a.usage.submittedUnits ≤ (a.finish digest t outcome).usage.submittedUnits := by
      rw [usage]
      exact Nat.le_add_right _ _
    have less : (a.finish digest t outcome).usage.submittedUnits ≤ a.contract.maxUnits := by
      rw [usage]
      simp only
      split_ifs <;> omega
    have after := BytePrice.amountDueMsat_of_le priced less
    have delta := U64.checkedSub_eq_some.2 ⟨a.contract.price.due_mono more,rfl⟩
    unfold complete
    simp only [waiting,ha,ht,hc,before,after,delta,Option.bind_eq_bind,Option.bind_some]
    exact ⟨_,rfl⟩

/-- A call on a sound ledger always comes to an end, with one of the effects listed. -/
theorem Sound.exec (h : l.Sound) (ext : Externals) (op : Op) :
    ∃ l', exec ext l op = some l' ∧ Effect ext l op l' := by
  cases op with
  | openChannelVerified terms paidMsat =>
    refine ⟨_,rfl,toOption_getD_cases (.refused trivial) fun l' done => ?_⟩
    obtain rfl | ⟨can,rfl⟩ := openChannelVerified_eq_ok done
    · exact .refused trivial
    · exact .opened can
  | addContract contract =>
    refine ⟨_,rfl,toOption_getD_cases (.refused trivial) fun l' done => ?_⟩
    obtain rfl | ⟨channel,can,rfl⟩ := addContract_eq_ok done
    · exact .refused trivial
    · exact .installed can
  | applyVerifiedBalance channel paidMsat =>
    refine ⟨_,rfl,toOption_getD_cases (.refused trivial) fun l' done => ?_⟩
    obtain ⟨c,held,more,cap,rfl⟩ := applyVerifiedBalance_eq_ok done
    exact .paid held more cap
  | admitWithWindows request nowUnix windows =>
    refine ⟨_,rfl,?_⟩
    cases admission : l.admitWithWindows ext request nowUnix windows with
    | none => exact .refused admission
    | some result =>
      obtain ⟨token,l'⟩ := result
      obtain ⟨rfl,id,a,c,digest,can,rfl⟩ := admitWithWindows_eq_some admission
      exact .admitted can admission
  | complete token outcome =>
    obtain ⟨l',done⟩ := h.exists_complete token outcome
    refine ⟨l',done,?_⟩
    obtain ⟨unknown,rfl⟩ | ⟨id,digest,a,t,c,held,account,attempt,channel,rfl⟩ := complete_eq_some done
    · exact .refused unknown
    · exact .finished ⟨held,account,attempt,channel⟩ outcome
  | closeContract id =>
    refine ⟨_,rfl,toOption_elim_cases (.refused trivial) fun usage l' done => ?_⟩
    rw [closeContract_eq_ok done]
    exact .closedContract id
  | closeChannel id =>
    refine ⟨_,rfl,toOption_elim_cases (.refused trivial) fun usage l' done => ?_⟩
    obtain ⟨c,held,-,rfl⟩ := closeChannel_eq_ok done
    exact .closedChannel id
  | sealChannel id =>
    refine ⟨_,rfl,?_⟩
    cases done : l.sealChannel id with
    | error e =>
      refine .refused ?_
      cases held : l.channels.get? id with
      | none => exact held
      | some c => simp [sealChannel,closeChannel,held] at done
    | ok result =>
      obtain ⟨c,held,-,same⟩ := sealChannel_eq_ok done
      show Effect ext l _ result.2
      rw [same]
      exact .sealed held
  | retireClosedRoutes channel throughUnix uninstalled =>
    refine ⟨_,rfl,toOption_elim_cases (.refused trivial) fun n l' done => ?_⟩
    obtain ⟨c,kept,after,retires,rfl⟩ := retireClosedRoutes_eq_ok h.accounts.key done
    exact .routesRetired retires
  | retireChannels plan =>
    refine ⟨_,rfl,toOption_elim_cases (.refused trivial) fun changed l' done => ?_⟩
    obtain ⟨valid,⟨-,rfl,-⟩ | ⟨rfl,retires,rfl⟩⟩ := retireChannels_eq_ok done
    · exact .refused trivial
    · exact .channelsRetired valid retires done
  | restore =>
    refine ⟨_,rfl,?_⟩
    rw [h.restore_snapshot]
    exact .restored
  | recoverWindows windows =>
    refine ⟨_,rfl,?_⟩
    cases done : recoverWindows l.snapshot windows with
    | error e => exact .refused (by simp [Refuses,done,Except.toOption])
    | ok result =>
      obtain ⟨covers,rfl⟩ := h.recoverWindows_eq_ok.1 done
      exact .recovered covers done

theorem Effect.sound (h : l.Sound) (e : Effect ext l op l') : l'.Sound := by
  cases e with
  | refused quiet => exact h
  | opened can => exact h.opened can
  | installed can => exact h.installed can
  | paid held more cap => exact h.paid held more cap
  | admitted can result => exact h.admitted can
  | finished waits outcome => exact h.finished waits outcome
  | closedContract id => exact h.deactivated fun i a ha closed => by cases closed
  | closedChannel id => exact h.deactivated fun i a ha closed => closed
  | sealed held => exact (h.deactivated fun i a ha closed => closed).abandoned _
  | routesRetired retires => exact h.routesRetired retires
  | channelsRetired valid retires result => exact h.channelsRetired valid retires
  | restored => exact h.settled
  | recovered covers result => exact h.halted.raised covers

theorem Sound.run_keeps (h : l.Sound) (ext : Externals) (allowed : Op → Prop)
    (motive : RelayLedger → Prop) (start : motive l)
    (step : ∀ l op l', l.Sound → allowed op → motive l → l.Effect ext op l' → motive l') {ops : List Op}
    (all : ∀ op ∈ ops, allowed op) : ∃ l', run ext l ops = some l' ∧ l'.Sound ∧ motive l' := by
  induction ops generalizing l with
  | nil => exact ⟨l,rfl,h,start⟩
  | cons op rest ih =>
    obtain ⟨l₁,done,effect⟩ := h.exec ext op
    obtain ⟨l',later,holds⟩ := ih (effect.sound h) (step l op l₁ h (all op List.mem_cons_self) start effect)
      fun o ho => all o (List.mem_cons_of_mem _ ho)
    refine ⟨l',?_,holds⟩
    rw [run,List.foldlM_cons,done]
    exact later

theorem Sound.run (h : l.Sound) (ext : Externals) (ops : List Op) :
    ∃ l', run ext l ops = some l' ∧ l'.Sound := by
  obtain ⟨l',done,sound,-⟩ :=
    h.run_keeps ext (fun _ => True) (fun _ => True) trivial (fun _ _ _ _ _ _ _ => trivial)
    fun op (_ : op ∈ ops) => trivial
  exact ⟨l',done,sound⟩

structure ConservedChannel (l : RelayLedger) (id : String) (c : Channel) : Prop where
  reserved : c.usage.reservedMsat = c.usage.lostMsat + c.retired.reservedMsat + l.reservedOn id
  submitted : c.usage.submittedMsat = c.retired.submittedMsat + l.submittedOn id
  covered : c.usage.submittedMsat + c.usage.lostMsat ≤ c.usage.reservedMsat
  bounded : c.usage.reservedMsat ≤ min (c.terms.capacitySat * 1000) (c.usage.paidMsat + c.terms.graceMsat)
  limited : c.active = true → ∃ limit, l.reservationLimit c.terms c.usage.paidMsat = some limit ∧
    c.usage.reservedMsat ≤ limit ∧
    (0 < c.usage.reservedMsat → c.usage.reservedMsat + l.carried c.terms ≤
      c.usage.paidMsat + c.terms.graceMsat)

structure Conserved (l : RelayLedger) : Prop where
  channels : ∀ id c, l.channels.get? id = some c → l.ConservedChannel id c
  accounts : ∀ id a, l.accounts.get? id = some a →
    a.usage.reservedUnits = a.usage.submittedUnits + a.usage.unconfirmedUnits + a.unitsIn .pending ∧
    a.usage.reservedUnits ≤ a.contract.maxUnits
  pending : ∀ t id d, l.pending.get? t = some (id,d) ↔ ∃ x, l.attemptAt id d = some x ∧
    x.token = t ∧ x.state = .pending
  unique : ∀ id d x id' d' x', l.attemptAt id d = some x → l.attemptAt id' d' = some x' → x.token = x'.token →
    id = id' ∧ d = d'
  room : l.pending.size ≤ l.limits.maxPending

theorem Sound.conserved (h : l.Sound) : l.Conserved := by
  refine ⟨?_,?_,h.tokens.pending,h.tokens.unique,h.tokens.room⟩
  · intro id c held
    refine ⟨h.channels.reserved id c held,h.channels.submitted id c held,h.submitted_add_lost_le held,
      le_min (h.channels.capacity id c held) (h.channels.credit id c held),?_⟩
    intro active
    obtain ⟨limit,limited,within⟩ := h.exists_limit held active
    refine ⟨limit,limited,within,?_⟩
    have credit := h.credit.within id c held active
    unfold U64.saturatingAdd at credit
    omega
  · intro id a held
    have balanced := h.accounts.balanced id a held
    exact ⟨balanced.reserved,balanced.allowed⟩

/-- The books balance and the credit limits hold after every run. -/
theorem run_conserves (ext : Externals) (limits : Limits) (ops : List Op) :
    ∃ l, run ext (new limits) ops = some l ∧ l.Conserved := by
  obtain ⟨l,done,sound⟩ := (sound_new limits).run ext ops
  exact ⟨l,done,sound.conserved⟩

structure Restored (l restored : RelayLedger) : Prop where
  limits : restored.limits = l.limits
  history : restored.history = l.history
  nextToken : restored.nextToken = l.nextToken
  seen : restored.seen = l.seen
  pending : restored.pending = ∅
  channels : ∀ id, restored.channels.get? id = (l.channels.get? id).map fun c => { c with active := false }
  absent : ∀ id, l.accounts.get? id = none → restored.accounts.get? id = none
  accounts : ∀ id a, l.accounts.get? id = some a → ∃ b, restored.accounts.get? id = some b ∧
    b.contract = a.contract ∧
    b.active = false ∧ b.usage.reservedUnits = a.usage.reservedUnits ∧
      b.usage.submittedUnits = a.usage.submittedUnits ∧
    b.usage.unconfirmedUnits = a.usage.unconfirmedUnits + a.unitsIn .pending ∧
    ∀ d t, b.attempts.get? d = some t → t.state ≠ .pending

theorem Sound.restored_settled (h : l.Sound) : Restored l l.settled := by
  refine ⟨rfl,rfl,rfl,rfl,rfl,fun id => OrderedMap.get?_mapValues _ _ _,?_,?_⟩
  · simp [RelayLedger.settled]
  · intro id a held
    refine ⟨a.settled,by simp [RelayLedger.settled,held],?_⟩
    have balanced := h.accounts.balanced id a held
    refine ⟨?_,?_,?_,?_,?_,fun d t ht => Account.not_pending_of_sealed ht⟩ <;> rw [balanced.settled_eq]

/-- The ledger after any run can be restored from its own snapshot, and a second restart changes nothing
more. -/
theorem run_restores (ext : Externals) (limits : Limits) (ops : List Op) :
    ∃ l restored, run ext (new limits) ops = some l ∧ restore l.snapshot = .ok restored ∧
      Restored l restored ∧
      restore restored.snapshot = .ok restored := by
  obtain ⟨l,done,sound⟩ := (sound_new limits).run ext ops
  refine ⟨l,l.settled,done,sound.restore_snapshot,sound.restored_settled,?_⟩
  rw [sound.settled.restore_snapshot,sound.settled_settled]

end RelayLedger

end Fips.Relay
