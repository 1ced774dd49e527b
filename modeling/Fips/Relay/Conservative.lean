import Fips.Relay.Crashes

set_option autoImplicit false

/-! A crash at any moment of any run: what the last journal recovers is never less than what was reserved. -/

namespace Fips.Relay

open Checked RelayLedger

/-- The journal recovers to `m`, and neither the ledger nor an admission within the published windows
exceeds that. -/
structure Backs (j : Journal) (m l : RelayLedger) (w : PublishedWindows) : Prop where
  recovers : ∃ source, j.Recovers source m
  below : l.Below m
  spares : w.ready = true → l.Spares m w.ceilings

/-- No call of the controller has changed the ledger since the journal was taken. -/
structure Unchanged (j : Journal) (m l : RelayLedger) : Prop where
  known : ∀ id, l.channels.get? id = none → m.channels.get? id = none
  limited : l.Limited j.ceilings

namespace DurableRelay

/-- What holds while the writer is at a step. -/
def PhaseSound (r : DurableRelay) : Phase → Prop
  | .idle => r.windows.ready = true →
    ∃ j m, r.disk = some j ∧ Backs j m r.ledger r.windows ∧ Unchanged j m r.ledger ∧
      r.windows.ceilings = j.ceilings
  | .sealing _ => r.ledger.Limited r.windows.ceilings
  | .changed allow =>
    (allow = true → r.ledger.Limited r.windows.ceilings) ∧ (r.windows.ready = true → allow = true)
  | .taken _ j => ∃ m, Backs j m r.ledger r.windows ∧ Unchanged j m r.ledger
  | .written _ j => r.disk = some j ∧ ∃ m, Backs j m r.ledger r.windows ∧ Unchanged j m r.ledger
  | .failed => True

structure Sound (r : DurableRelay) : Prop where
  ledger : r.ledger.Sound
  window : r.windowMsat ≠ 0
  disk : ∀ j, r.disk = some j → ∃ m, Backs j m r.ledger r.windows
  phase : r.PhaseSound r.phase

end DurableRelay

variable {ext : Externals} {r r' : DurableRelay} {l l' m : RelayLedger} {w : PublishedWindows}
  {op : Op} {allow : Bool}
  {j : Journal}

/-- The calls of the forwarding node. -/
inductive Forwarding (w : PublishedWindows) : Op → Prop
  | admission (request : ForwardingRequest) (nowUnix : Nat) (ready : w.ready = true) :
    Forwarding w (.admitWithWindows request nowUnix (some w.ceilings))
  | complete (token : Nat) (outcome : ForwardingOutcome) : Forwarding w (.complete token outcome)

theorem Forwarding.ne_open (f : Forwarding w op) (terms : ChannelTerms) (paidMsat : Nat) :
    op ≠ .openChannelVerified terms paidMsat := by cases f <;> exact Op.noConfusion

theorem Forwarding.ne_recover (f : Forwarding w op) (windows : OrderedMap String Nat) :
    op ≠ .recoverWindows windows := by
  cases f <;> exact Op.noConfusion

theorem Backs.forward (b : Backs j m l w) (h : l.Sound) (f : Forwarding w op) (e : l.Effect ext op l') :
    Backs j m l' w := by
  refine ⟨b.recovers,e.below h f.ne_recover b.below (fun _ _ call => absurd call (f.ne_open _ _)) ?_,?_⟩
  · rintro request nowUnix windows rfl
    cases f with
    | admission _ _ ready => exact ⟨_,rfl,b.spares ready⟩
  · intro ready id forwards
    refine b.spares ready id (e.forwards ?_ forwards)
    cases f with
    | admission request nowUnix _ => exact .inl ⟨_,_,_,rfl⟩
    | complete token outcome => exact .inr ⟨_,_,rfl⟩

theorem Unchanged.forward (u : Unchanged j m l) (h : l.Sound) (f : Forwarding w op) (e : l.Effect ext op l') :
    Unchanged j m l' := by
  refine ⟨fun id gone => u.known id ?_,e.limited h f.ne_recover u.limited fun _ _ call =>
    absurd call (f.ne_open _ _)⟩
  cases held : l.channels.get? id with
  | none => rfl
  | some c =>
    obtain ⟨c',stays⟩ | ⟨plan,s,retires⟩ := e.channel h held
    · cases stays.held.symm.trans gone
    · have call := retires.call
      subst call
      cases f

namespace DurableRelay

/-- Forwarding may go on between any two steps of the writer. -/
theorem Sound.forward (h : r.Sound) (f : Forwarding r.windows op) (e : r.ledger.Effect ext op l') :
    Sound { r with ledger := l' } where
  ledger := e.sound h.ledger
  window := h.window
  disk j held := by
    obtain ⟨m,backs⟩ := h.disk j held
    exact ⟨m,backs.forward h.ledger f e⟩
  phase := by
    have limited {windows : OrderedMap String Nat} (before : r.ledger.Limited windows) : l'.Limited windows :=
      e.limited h.ledger f.ne_recover before fun _ _ call => absurd call (f.ne_open _ _)
    have sound := h.phase
    cases at_ : r.phase with
    | idle =>
      rw [at_] at sound
      intro ready
      obtain ⟨j,m,held,backs,unchanged,same⟩ := sound ready
      exact ⟨j,m,held,backs.forward h.ledger f e,unchanged.forward h.ledger f e,same⟩
    | sealing id =>
      rw [at_] at sound
      exact limited sound
    | changed allow =>
      rw [at_] at sound
      exact ⟨fun allowed => limited (sound.1 allowed),sound.2⟩
    | taken allow j =>
      rw [at_] at sound
      obtain ⟨m,backs,unchanged⟩ := sound
      exact ⟨m,backs.forward h.ledger f e,unchanged.forward h.ledger f e⟩
    | written allow j =>
      rw [at_] at sound
      obtain ⟨held,m,backs,unchanged⟩ := sound
      exact ⟨held,m,backs.forward h.ledger f e,unchanged.forward h.ledger f e⟩
    | failed => trivial

/-- The call of the ledger behind a command. -/
def callOf : Command → Option Op
  | .checkpoint => none
  | .openChannelVerified terms paidMsat => some (.openChannelVerified terms paidMsat)
  | .addContract contract => some (.addContract contract)
  | .applyVerifiedBalance channel paidMsat => some (.applyVerifiedBalance channel paidMsat)
  | .closeContract id => some (.closeContract id)
  | .closeChannel id => some (.closeChannel id)
  | .sealChannel id => some (.closeChannel id)
  | .retireClosedRoutes channel throughUnix uninstalled =>
    some (.retireClosedRoutes channel throughUnix uninstalled)
  | .retireChannels plan => some (.retireChannels plan)

theorem exec_call (ext : Externals) {command : Command} {writes : Bool} (called : callOf command = some op)
    (done : command.change l = .ok (writes,l')) : RelayLedger.exec ext l op = some l' := by
  cases command with
  | checkpoint => cases called
  | retireChannels plan =>
    cases called
    have result : l.retireChannels plan = .ok (writes,l') := done
    simp [RelayLedger.exec,result,Except.toOption]
  | _ =>
    cases called
    obtain ⟨_,result,same⟩ := map_eq_ok.1 done
    cases same
    simp [RelayLedger.exec,result,Except.toOption]

/-- A call of the controller. -/
structure Controls (ext : Externals) (l : RelayLedger) (op : Op) (l' : RelayLedger) : Prop where
  effect : l.Effect ext op l'
  ne_recover : ∀ windows, op ≠ .recoverWindows windows
  ne_admission : ∀ request nowUnix windows, op ≠ .admitWithWindows request nowUnix windows

theorem change_eq_ok (ext : Externals) (h : l.Sound) {command : Command} {writes : Bool}
    (done : command.change l = .ok (writes,l')) : l' = l ∨ writes = true ∧ ∃ op, Controls ext l op l' := by
  cases called : callOf command with
  | none =>
    cases command with
    | checkpoint =>
      cases done
      exact .inl rfl
    | _ => cases called
  | some op =>
    obtain ⟨l'',same,effect⟩ := h.exec ext op
    cases (exec_call ext called done).symm.trans same
    have controls : Controls ext l op l' := by
      refine ⟨effect,?_,?_⟩ <;> cases command <;> cases called <;> intros <;> exact Op.noConfusion
    cases command with
    | retireChannels plan =>
      obtain ⟨-,⟨-,rfl,-⟩ | ⟨rfl,-,-⟩⟩ := retireChannels_eq_ok done
      · exact .inl rfl
      · exact .inr ⟨rfl,op,controls⟩
    | checkpoint => cases called
    | _ =>
      obtain ⟨_,-,same⟩ := map_eq_ok.1 done
      cases same
      exact .inr ⟨rfl,op,controls⟩

theorem Controls.changed (c : Controls ext l op l') (h : l.Sound) (backs : Backs j m l w)
    (unchanged : Unchanged j m l) (published : w.ceilings = j.ceilings) :
    Backs j m l' w ∧ l'.Limited w.ceilings := by
  obtain ⟨source,recovers⟩ := backs.recovers
  refine ⟨⟨backs.recovers,c.effect.below h c.ne_recover backs.below
    (fun terms paidMsat _ can => unchanged.known _ can.fresh)
    fun request nowUnix windows called => absurd called (c.ne_admission _ _ _),fun _ => ?_⟩,?_⟩
  · rw [published]
    exact recovers.spares l'
  · rw [published]
    refine c.effect.limited h c.ne_recover unchanged.limited fun terms paidMsat _ can => ?_
    cases window : j.ceilings.get? terms.id with
    | none => rfl
    | some ceiling =>
      obtain ⟨d,coverable⟩ := recovers.covers.coverable _ _ window
      have held : source.channels.get? terms.id = some d := coverable.held
      have gone := unchanged.known _ can.fresh
      rw [recovers.get?_eq,held] at gone
      cases gone

section Steps

variable (h : r.Sound)
include h

theorem Sound.call (ext : Externals) (command : Command) : (r.call command).Sound := by
  unfold DurableRelay.call
  split
  · rename_i l' at_ ready done
    have sound := h.phase
    rw [at_] at sound
    obtain ⟨j,m,held,backs,unchanged,published⟩ := sound ready
    have next : Backs j m l' r.windows ∧ l'.Limited r.windows.ceilings ∧ l'.Sound := by
      obtain rfl | ⟨-,op,controls⟩ := change_eq_ok ext h.ledger done
      · exact ⟨backs,published ▸ unchanged.limited,h.ledger⟩
      · obtain ⟨backs',limited⟩ := controls.changed h.ledger backs unchanged published
        exact ⟨backs',limited,controls.effect.sound h.ledger⟩
    obtain ⟨backs',limited,sound'⟩ := next
    have disk : ∀ j, r.disk = some j → ∃ m, Backs j m l' r.windows := by
      intro j' held'
      cases held.symm.trans held'
      exact ⟨m,backs'⟩
    split
    · exact ⟨sound',h.window,disk,limited⟩
    · exact ⟨sound',h.window,disk,fun _ => limited,fun _ => rfl⟩
  · rename_i l' at_ ready done
    obtain rfl | ⟨wrote,-⟩ := change_eq_ok ext h.ledger done
    · exact h
    · cases wrote
  · exact h

theorem Sound.suspend : r.suspend.Sound := by
  unfold DurableRelay.suspend
  split
  · refine ⟨h.ledger,h.window,fun j held => ?_,fun allowed => (by cases allowed),
      fun ready => (by cases ready)⟩
    obtain ⟨m,backs⟩ := h.disk j held
    exact ⟨m,backs.recovers,backs.below,fun ready => by cases ready⟩
  · exact h

theorem Sound.sealAttempts : r.sealAttempts.Sound := by
  unfold DurableRelay.sealAttempts
  split
  · rename_i id at_
    have limited := h.phase
    rw [at_] at limited
    rw [sealAttempts_eq]
    refine ⟨h.ledger.abandoned _,h.window,fun j held => ?_,fun _ => limited,fun _ => rfl⟩
    obtain ⟨m,backs⟩ := h.disk j held
    exact ⟨m,backs.recovers,backs.below,fun ready i forwards =>
      backs.spares ready i (forwards_of_abandoned _ forwards)⟩
  · exact h

theorem Sound.takeSnapshot : r.takeSnapshot.Sound := by
  unfold DurableRelay.takeSnapshot
  split
  · rename_i allow at_
    have sound := h.phase
    rw [at_] at sound
    obtain ⟨ceilings,next,covers⟩ := exists_persistNext h.ledger sound.1
    rw [next]
    let j : Journal := ⟨1,r.windowMsat,r.ledger.snapshot,ceilings⟩
    have recovers : j.Recovers r.ledger (r.ledger.halted.raised ceilings) :=
      ⟨rfl,h.window,h.ledger,rfl,covers.halted h.ledger,rfl⟩
    refine ⟨h.ledger,h.window,h.disk,_,⟨⟨_,recovers⟩,recovers.below,fun ready id forwards => ?_⟩,
      fun id gone => ?_,?_⟩
    · cases window : ceilings.get? id with
      | none =>
        have found := covers.complete id forwards
        rw [window] at found
        cases found
      | some ceiling =>
        rw [recovers.reserved_eq window]
        exact covers.above (sound.2 ready) id ceiling window
    · rw [recovers.get?_eq,gone]
      rfl
    · intro id ceiling c window held active
      obtain ⟨d,can⟩ := covers.coverable id ceiling window
      cases held.symm.trans can.held
      exact can.within
  · exact h

theorem Sound.writeJournal (outcome : WriteOutcome) : (r.writeJournal outcome).Sound := by
  unfold DurableRelay.writeJournal
  split
  · rename_i allow j at_
    have sound := h.phase
    rw [at_] at sound
    obtain ⟨m,backs,unchanged⟩ := sound
    refine ⟨h.ledger,h.window,?_,rfl,m,backs,unchanged⟩
    rintro _ ⟨⟩
    exact ⟨m,backs⟩
  · exact ⟨h.ledger,h.window,h.disk,trivial⟩
  · rename_i allow j at_
    have sound := h.phase
    rw [at_] at sound
    obtain ⟨m,backs,unchanged⟩ := sound
    refine ⟨h.ledger,h.window,?_,trivial⟩
    rintro _ ⟨⟩
    exact ⟨m,backs⟩
  · exact h

theorem Sound.publish : r.publish.Sound := by
  unfold DurableRelay.publish
  split
  · rename_i allow j at_
    have sound := h.phase
    rw [at_] at sound
    obtain ⟨held,m,backs,unchanged⟩ := sound
    obtain ⟨source,recovers⟩ := backs.recovers
    have next : Backs j m r.ledger ⟨j.ceilings,allow⟩ :=
      ⟨backs.recovers,backs.below,fun _ => recovers.spares r.ledger⟩
    refine ⟨h.ledger,h.window,fun j' held' => ?_,fun _ => ⟨j,m,held,next,unchanged,rfl⟩⟩
    cases held.symm.trans held'
    exact ⟨m,next⟩
  · exact h

theorem Sound.stop : r.stop.Sound := by
  unfold DurableRelay.stop
  split
  · refine ⟨h.ledger,h.window,fun j held => ?_,fun ready => (by cases ready)⟩
    obtain ⟨m,backs⟩ := h.disk j held
    exact ⟨m,backs.recovers,backs.below,fun ready => by cases ready⟩
  · exact h

theorem Sound.admission (ext : Externals) (request : ForwardingRequest) (nowUnix : Nat) :
    (r.admission ext request nowUnix).Sound := by
  unfold DurableRelay.admission
  split_ifs with ready
  · obtain ⟨l',done,effect⟩ := h.ledger.exec ext (.admitWithWindows request nowUnix (some r.windows.ceilings))
    cases done
    exact h.forward (.admission request nowUnix ready) effect
  · exact h

theorem Sound.complete (ext : Externals) (token : Nat) (outcome : ForwardingOutcome) :
    ∃ r', r.complete token outcome = some r' ∧ r'.Sound := by
  obtain ⟨l',done,effect⟩ := h.ledger.exec ext (.complete token outcome)
  have completed : r.ledger.complete token outcome = some l' := done
  exact ⟨{ r with ledger := l' },by simp [DurableRelay.complete,completed],
    h.forward (.complete token outcome) effect⟩

theorem Sound.restart : ∃ r', r.restart = some r' ∧ r'.Sound := by
  unfold DurableRelay.restart
  cases held : r.disk with
  | none => exact ⟨r,rfl,h⟩
  | some j =>
    obtain ⟨m,backs⟩ := h.disk j held
    obtain ⟨source,recovers⟩ := backs.recovers
    have loaded : load j =
        .ok { ledger := m, windowMsat := j.windowMsat, disk := some j, phase := .changed true } := by
      unfold load
      rw [if_neg (by simp [recovers.version,recovers.window]),recovers.recoverWindows]
    have again : Backs j m m {} := by
      refine ⟨⟨source,recovers⟩,fun id c found => ?_,fun ready => (by cases ready)⟩
      rw [usageOf_eq found]
      exact ⟨le_rfl,le_rfl⟩
    show ∃ r', (load j).toOption = some r' ∧ r'.Sound
    rw [loaded]
    refine ⟨_,rfl,recovers.sound_result,recovers.window,?_,fun _ => ?_,fun _ => rfl⟩
    · rintro _ ⟨⟩
      exact ⟨m,again⟩
    · rintro id ceiling c ⟨⟩

theorem Sound.exec (ext : Externals) (event : Event) : ∃ r', r.exec ext event = some r' ∧ r'.Sound := by
  cases event with
  | admission request nowUnix => exact ⟨_,rfl,h.admission ext request nowUnix⟩
  | complete token outcome => exact h.complete ext token outcome
  | call command => exact ⟨_,rfl,h.call ext command⟩
  | suspend => exact ⟨_,rfl,h.suspend⟩
  | sealAttempts => exact ⟨_,rfl,h.sealAttempts⟩
  | takeSnapshot => exact ⟨_,rfl,h.takeSnapshot⟩
  | writeJournal outcome => exact ⟨_,rfl,h.writeJournal outcome⟩
  | publish => exact ⟨_,rfl,h.publish⟩
  | stop => exact ⟨_,rfl,h.stop⟩
  | restart => exact h.restart

theorem Sound.run (ext : Externals) (events : List Event) : ∃ r', r.run ext events = some r' ∧ r'.Sound := by
  induction events generalizing r with
  | nil => exact ⟨r,rfl,h⟩
  | cons event rest ih =>
    obtain ⟨r₁,done,sound⟩ := h.exec ext event
    obtain ⟨r',later,sound'⟩ := ih sound
    refine ⟨r',?_,sound'⟩
    rw [DurableRelay.run,List.foldlM_cons,done]
    exact later

end Steps

theorem sound_create {limits : Limits} {windowMsat : Nat} (created : create limits windowMsat = .ok r) :
    r.Sound := by
  unfold create at created
  split_ifs at created with zero
  cases created
  refine ⟨sound_new limits,zero,?_,fun _ => ?_,fun _ => rfl⟩
  · rintro _ ⟨⟩
  · rintro id ceiling c ⟨⟩

/-- What a crash leaves: the ledger recovered from the journal against the one that was lost. A channel
that the journal does not know counts as unused. -/
structure Recovered (r : DurableRelay) (j : Journal) (m : RelayLedger) : Prop where
  result : recoverWindows j.ledger j.ceilings = .ok m
  reserved : ∀ id c, r.ledger.channels.get? id = some c → c.usage.reservedMsat ≤ (m.usageOf id).reservedMsat
  submitted : ∀ id c, r.ledger.channels.get? id = some c →
    (m.usageOf id).submittedMsat ≤ c.usage.submittedMsat
  limited : ∀ id c, m.channels.get? id = some c → c.active = true →
    ∃ limit, m.reservationLimit c.terms c.usage.paidMsat = some limit ∧ c.usage.reservedMsat ≤ limit

/-- After every run the last journal can be recovered, to no less than what was reserved, and the next
journal can be written. -/
theorem run_recovers (ext : Externals) (limits : Limits) (windowMsat : Nat) (events : List Event)
    (created : create limits windowMsat = .ok r) :
    ∃ r', r.run ext events = some r' ∧ (∀ j, r'.disk = some j → ∃ m, Recovered r' j m) ∧
      ∀ allow, r'.phase = .changed allow → ∃ j, r'.persistNext allow = .ok j := by
  obtain ⟨r',done,sound⟩ := (sound_create created).run ext events
  refine ⟨r',done,fun j held => ?_,fun allow at_ => ?_⟩
  · obtain ⟨m,backs⟩ := sound.disk j held
    obtain ⟨source,recovers⟩ := backs.recovers
    exact ⟨m,recovers.recoverWindows,fun id c found => (backs.below id c found).1,fun id c found =>
      (backs.below id c found).2,fun id c found active => recovers.sound_result.exists_limit found active⟩
  · have phase := sound.phase
    rw [at_] at phase
    obtain ⟨ceilings,next,-⟩ := exists_persistNext sound.ledger phase.1
    exact ⟨_,next⟩

/-! Only active channels keep within their limit. What a new channel reserves, or its window, counts
against the closed channels of the same buyer and mint as well. -/

def write : List Event := [.takeSnapshot,.writeJournal .done,.publish]

def oldTerms : ChannelTerms := ⟨"old",1,"mint",10,1,1⟩

def newTerms : ChannelTerms := ⟨"new",1,"mint",10,1,1000⟩

def routeOn (channel : String) : Contract := ⟨"route on " ++ channel,channel,2,3,5,⟨1,1⟩,1,.forwardingAttempt⟩

def replacedChannel : List Event :=
  write ++ .call (.openChannelVerified oldTerms 0) :: write ++
    .call (.addContract (routeOn "old")) :: write ++
  .admission ⟨1,3,4,2,[0]⟩ 0 :: .call (.closeChannel "old") :: write ++
  .call (.openChannelVerified newTerms 0) :: write ++ .call (.addContract (routeOn "new")) :: write

theorem replacedChannel_exceeds_limit :
    ((create ⟨2,2,1,1⟩ 100).toOption.bind fun r =>
      (r.run quietExternals replacedChannel).bind fun r =>
      r.disk.bind fun j => (recoverWindows j.ledger j.ceilings).toOption.map fun m =>
        ((m.channels.get? "old").map fun c => (c.active,c.usage.reservedMsat),
          m.reservationLimit oldTerms 0)) =
    some (some (false,1),some 0) := by
  decide +kernel

/-- The same run, with a crash after its last write. -/
theorem run_recovers_replacedChannel :
    ∃ r r', create ⟨2,2,1,1⟩ 100 = .ok r ∧ r.run quietExternals replacedChannel = some r' ∧
      ∀ j, r'.disk = some j → ∃ m, Recovered r' j m := by
  obtain ⟨r',done,recovers,-⟩ := run_recovers quietExternals ⟨2,2,1,1⟩ 100 replacedChannel
    (r := { ledger := .new ⟨2,2,1,1⟩, windowMsat := 100, phase := .changed true }) rfl
  exact ⟨_,r',rfl,done,recovers⟩

end DurableRelay

end Fips.Relay
