import Fips.Relay.Recovery

set_option autoImplicit false

/-! The relay that writes its ledger to disk before it lets anyone reserve more. The controller holds the
writer lock from the first to the last step of a call, while forwarding goes on between any two steps. -/

namespace Fips.Relay

inductive DurableError where
  | ledger (error : LedgerError)
  | io
  | format
  | inUse
  | suspended
  deriving DecidableEq

structure Journal where
  version : Nat
  windowMsat : Nat
  ledger : Snapshot
  ceilings : OrderedMap String Nat

structure PublishedWindows where
  ceilings : OrderedMap String Nat := ∅
  ready : Bool := false

/-- What the controller does through the writer lock. -/
inductive Command where
  | checkpoint
  | openChannelVerified (terms : ChannelTerms) (paidMsat : Nat)
  | addContract (contract : Contract)
  | applyVerifiedBalance (channel : String) (paidMsat : Nat)
  | closeContract (id : String)
  | closeChannel (id : String)
  | sealChannel (id : String)
  | retireClosedRoutes (channel : String) (throughUnix : Nat) (uninstalled : List Contract)
  | retireChannels (plan : Plan)

/-- The change of the ledger, and whether there is anything to write. -/
def Command.change (l : RelayLedger) : Command → Except LedgerError (Bool × RelayLedger)
  | .checkpoint => .ok (true,l)
  | .openChannelVerified terms paidMsat => (l.openChannelVerified terms paidMsat).map (true,·)
  | .addContract contract => (l.addContract contract).map (true,·)
  | .applyVerifiedBalance channel paidMsat => (l.applyVerifiedBalance channel paidMsat).map (true,·)
  | .closeContract id => (l.closeContract id).map fun x => (true,x.2)
  | .closeChannel id => (l.closeChannel id).map fun x => (true,x.2)
  -- the lock is released before the attempts are sealed
  | .sealChannel id => (l.closeChannel id).map fun x => (true,x.2)
  | .retireClosedRoutes channel throughUnix uninstalled =>
    (l.retireClosedRoutesWithUninstalled channel throughUnix uninstalled).map fun x => (true,x.2)
  | .retireChannels plan => l.retireChannels plan

/-- Where the holder of the writer lock is. -/
inductive Phase where
  | idle
  | sealing (id : String)
  | changed (allowNextWindow : Bool)
  | taken (allowNextWindow : Bool) (journal : Journal)
  | written (allowNextWindow : Bool) (journal : Journal)
  | failed

structure DurableRelay where
  ledger : RelayLedger
  windowMsat : Nat
  windows : PublishedWindows := {}
  /-- The file `ledger.json`. -/
  disk : Option Journal := none
  phase : Phase

/-- How the write of a journal ends: a failure of the last directory sync leaves the new file in place. -/
inductive WriteOutcome where
  | done
  | failed
  | unsynced

inductive Event where
  | admission (request : ForwardingRequest) (nowUnix : Nat)
  | complete (token : Nat) (outcome : ForwardingOutcome)
  | call (command : Command)
  | suspend
  | sealAttempts
  | takeSnapshot
  | writeJournal (outcome : WriteOutcome)
  | publish
  | stop
  | restart

namespace DurableRelay

def create (limits : Limits) (windowMsat : Nat) : Except DurableError DurableRelay :=
  if windowMsat = 0 then .error .format
  else .ok { ledger := .new limits, windowMsat, phase := .changed true }

def load (journal : Journal) : Except DurableError DurableRelay :=
  if journal.version ≠ 1 ∨ journal.windowMsat = 0 then .error .format
  else match RelayLedger.recoverWindows journal.ledger journal.ceilings with
    | .error e => .error (.ledger e)
    | .ok ledger =>
      .ok { ledger, windowMsat := journal.windowMsat, disk := some journal, phase := .changed true }

def nextCeiling (windowMsat : Nat) (allowNextWindow : Bool) (previous reserved maximum : Nat) :
    Except DurableError Nat :=
  let window := if allowNextWindow then windowMsat else 0
  let ceiling := min (U64.saturatingAdd reserved window) maximum
  if allowNextWindow then
    if maximum < max ceiling previous then .error .format else .ok (max ceiling previous)
  else .ok ceiling

def serves (s : Snapshot) (c : ChannelSnapshot) : Bool :=
  c.active && s.accounts.any fun a => a.active && a.contract.channelId = c.terms.id

/-- One turn of the loop of `persist_next`. -/
def coverChannel (windowMsat : Nat) (allowNextWindow : Bool) (previous : OrderedMap String Nat) (s : Snapshot)
    (ceilings : OrderedMap String Nat) (c : ChannelSnapshot) : Except DurableError (OrderedMap String Nat) :=
  if serves s c then do
    let maximum ← (s.reservationLimit c.terms.id).elim (.error .format) .ok
    let ceiling ← nextCeiling windowMsat allowNextWindow ((previous.get? c.terms.id).getD 0)
        c.usage.reservedMsat maximum
    return ceilings.insert c.terms.id ceiling
  else return ceilings

section Operations

variable (r : DurableRelay)

/-- `persist_next` up to the write: the journal that covers both the published ceilings and the next
windows. -/
def persistNext (allowNextWindow : Bool) : Except DurableError Journal := do
  let ledger := r.ledger.snapshot
  let ceilings ← ledger.channels.foldlM
      (coverChannel r.windowMsat allowNextWindow r.windows.ceilings ledger) ∅
  return ⟨1,r.windowMsat,ledger,ceilings⟩

/-! The steps of the process. A step that is not due changes nothing. -/

/-- The part of `mutate` before `persist`, and of `retire_channels`. -/
def call (command : Command) : DurableRelay :=
  match r.phase,r.windows.ready,command.change r.ledger with
  | .idle,true,.ok (true,ledger) =>
    match command with
    | .sealChannel id => { r with ledger, phase := .sealing id }
    | _ => { r with ledger, phase := .changed true }
  | .idle,true,.ok (false,ledger) => { r with ledger }
  | _,_,_ => r

def suspend : DurableRelay :=
  match r.phase,r.windows.ready with
  | .idle,true => { r with windows := { r.windows with ready := false }, phase := .changed false }
  | _,_ => r

def sealAttempts : DurableRelay :=
  match r.phase with
  | .sealing id => { r with ledger := r.ledger.sealAttempts id, phase := .changed true }
  | _ => r

def takeSnapshot : DurableRelay :=
  match r.phase with
  | .changed allow =>
    match r.persistNext allow with
    | .error _ => { r with phase := .failed }
    | .ok journal => { r with phase := .taken allow journal }
  | _ => r

def writeJournal (outcome : WriteOutcome) : DurableRelay :=
  match r.phase,outcome with
  | .taken allow journal,.done => { r with disk := some journal, phase := .written allow journal }
  | .taken _ _,.failed => { r with phase := .failed }
  | .taken _ journal,.unsynced => { r with disk := some journal, phase := .failed }
  | _,_ => r

def publish : DurableRelay :=
  match r.phase with
  | .written allow journal => { r with windows := ⟨journal.ceilings,allow⟩, phase := .idle }
  | _ => r

/-- What `persist` does after a failure. -/
def stop : DurableRelay :=
  match r.phase with
  | .failed => { r with windows := { r.windows with ready := false }, phase := .idle }
  | _ => r

def admission (ext : Externals) (r : DurableRelay) (request : ForwardingRequest) (nowUnix : Nat) :
    DurableRelay :=
  if r.windows.ready then
    let admitted := r.ledger.admitWithWindows ext request nowUnix (some r.windows.ceilings)
    { r with ledger := admitted.elim r.ledger (·.2) }
  else r

def complete (token : Nat) (outcome : ForwardingOutcome) : Option DurableRelay :=
  (r.ledger.complete token outcome).map fun ledger => { r with ledger }

/-- The death of the process, and the load of its journal by the next one. -/
def restart : Option DurableRelay :=
  match r.disk with
  | none => some r
  | some journal => (load journal).toOption

end Operations

/-- One event of a run. There is no result when an `expect` fails or a journal does not load. -/
def exec (ext : Externals) (r : DurableRelay) : Event → Option DurableRelay
  | .admission request nowUnix => some (r.admission ext request nowUnix)
  | .complete token outcome => r.complete token outcome
  | .call command => some (r.call command)
  | .suspend => some r.suspend
  | .sealAttempts => some r.sealAttempts
  | .takeSnapshot => some r.takeSnapshot
  | .writeJournal outcome => some (r.writeJournal outcome)
  | .publish => some r.publish
  | .stop => some r.stop
  | .restart => r.restart

def run (ext : Externals) (r : DurableRelay) (events : List Event) : Option DurableRelay :=
  events.foldlM (exec ext) r

end DurableRelay

end Fips.Relay
