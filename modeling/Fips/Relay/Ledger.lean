import Fips.Relay.Terms

set_option autoImplicit false

namespace Fips.Relay

/-- The 32 bytes of a digest, as the number they spell in big-endian order. -/
abbrev Digest := Fin (2^256)

instance neZero_digest : NeZero (2^256) := ⟨by decide⟩

inductive AttemptState where
  | pending
  | submitted
  | unconfirmed
  deriving DecidableEq

structure Attempt where
  token : Nat
  units : Nat
  state : AttemptState
  deriving DecidableEq

structure Account where
  contract : Contract
  usage : Usage
  attempts : OrderedMap Digest Attempt
  completed : Usage
  active : Bool
  deriving DecidableEq

structure Channel where
  terms : ChannelTerms
  retired : RetiredRouteEvidence
  usage : ChannelUsage
  active : Bool
  deriving DecidableEq

/-- The ledger of a seller, with the state behind its lock. -/
structure RelayLedger where
  limits : Limits
  history : Option History
  seen : Finset (NodeAddr × Digest)
  channels : OrderedMap String Channel
  accounts : OrderedMap String Account
  pending : OrderedMap Nat (String × Digest)
  nextToken : Nat
  deriving DecidableEq

structure ForwardingRequest where
  ingress : NodeAddr
  nextHop : NodeAddr
  source : NodeAddr
  destination : NodeAddr
  sessionPayload : List UInt8

inductive ForwardingOutcome where
  | submitted
  | unconfirmed
  deriving DecidableEq

/-- What admission takes from outside the ledger. -/
structure Externals where
  sha256 : List UInt8 → Digest
  isHandshake : List UInt8 → NodeAddr → NodeAddr → Bool

def sessionFingerprint (ext : Externals) (source destination : NodeAddr) (payload : List UInt8) : Digest :=
  ext.sha256 ("fips-relay/session-attempt/1".toUTF8.toList ++ source.asBytes ++
    destination.asBytes ++ payload)

/-- The token in the first eight bytes, zeros behind it. -/
def attemptKey (token : Nat) : Digest := ⟨token * 2^192 % 2^256,Nat.mod_lt _ (by decide)⟩

namespace RelayLedger

def new (limits : Limits) : RelayLedger := ⟨limits,none,∅,∅,∅,∅,0⟩

variable (l : RelayLedger)

/-- The terms and usages that `relationship_reservation_limit` reads. -/
def channelUsages : List (ChannelTerms × ChannelUsage) :=
  l.channels.values.map fun c => (c.terms,c.usage)

def reservationLimit (terms : ChannelTerms) (paidMsat : Nat) : Option Nat :=
  relationshipReservationLimit terms paidMsat l.channelUsages l.history

def openChannelVerified (terms : ChannelTerms) (paidMsat : Nat) : Except LedgerError RelayLedger := do
  let capacity ← validateChannel terms
  if capacity < paidMsat then throw .invalidPayment
  match l.channels.get? terms.id with
  | some existing =>
    if existing.terms = terms ∧ paidMsat ≤ existing.usage.paidMsat then return l
    throw .alreadyBound
  | none =>
    if l.history.any fun h => terms.expiresUnix ≤ h.expiresThroughUnix then throw .invalidContract
    let relationship := l.channels.values.filter fun c => c.terms.buyer = terms.buyer ∧
      c.terms.mintUrl = terms.mintUrl
    if relationship.any (·.active) then throw .alreadyBound
    let unpaid := (l.history.any fun h => 0 < h.debt terms) ||
      relationship.any fun old => old.usage.paidMsat < old.usage.reservedMsat
    match l.reservationLimit terms paidMsat with
    | none => throw .capacity
    | some available =>
      if unpaid ∧ available = 0 then throw .unsettledChannel
      if l.limits.maxChannels ≤ l.channels.size then throw .capacity
      return { l with channels := l.channels.insert terms.id ⟨terms,{},{ paidMsat },true⟩ }

/-- The buyer an account serves. Every account keeps its channel, so the index of the source is always
present. -/
def buyerOf (a : Account) : Option NodeAddr :=
  (l.channels.get? a.contract.channelId).map (·.terms.buyer)

def addContract (contract : Contract) : Except LedgerError RelayLedger :=
  match l.channels.get? contract.channelId with
  | none => .error .unknownContract
  | some channel => do
    validateContract contract channel.terms
    if channel.retired.rejects contract.expiresUnix then throw .invalidContract
    match l.accounts.get? contract.id with
    | some existing => if existing.contract = contract then return l else throw .alreadyBound
    | none =>
      if !channel.active then throw .invalidContract
      if l.accounts.values.any fun a => a.active ∧ a.contract.destination = contract.destination ∧
          l.buyerOf a = some channel.terms.buyer then throw .alreadyBound
      if l.limits.maxContracts ≤ l.accounts.size then throw .capacity
      return { l with accounts := l.accounts.insert contract.id ⟨contract,{},∅,{},true⟩ }

def applyVerifiedBalance (channelId : String) (paidMsat : Nat) : Except LedgerError RelayLedger :=
  match l.channels.get? channelId with
  | none => .error .unknownContract
  | some channel => do
    if paidMsat < channel.usage.paidMsat then throw .invalidPayment
    if (← validateChannel channel.terms) < paidMsat then throw .invalidPayment
    return { l with channels := l.channels.modify channelId fun c =>
      { c with usage := { c.usage with paidMsat } } }

def closeContract (id : String) : Except LedgerError (Usage × RelayLedger) :=
  match l.accounts.get? id with
  | none => .error .unknownContract
  | some account =>
    .ok (account.usage,{ l with accounts := l.accounts.modify id fun a => { a with active := false } })

def closeChannel (id : String) : Except LedgerError (ChannelUsage × RelayLedger) :=
  match l.channels.get? id with
  | none => .error .unknownContract
  | some channel =>
    .ok (channel.usage,{ l with
      channels := l.channels.modify id fun c => { c with active := false }
      accounts := l.accounts.mapValues fun a => if a.contract.channelId = id then
        { a with active := false } else a })

end RelayLedger

/-- An attempt that is still waiting for its outcome will never learn it. -/
def Attempt.abandon (t : Attempt) : Attempt :=
  if t.state = .pending then { t with state := .unconfirmed } else t

def Account.pendingTokens (a : Account) : List Nat :=
  (a.attempts.values.filter fun t => t.state = .pending).map (·.token)

/-- What sealing does to one account: the attempts without an outcome count as unconfirmed, and an account
that does not keep fingerprints forgets its attempts. -/
def Account.sealed (a : Account) : Account :=
  let usage := { a.usage with
    unconfirmedUnits := a.attempts.values.foldl
      (fun units t => if t.state = .pending then U64.wrappingAdd units t.units else units)
        a.usage.unconfirmedUnits }
  if a.contract.billing.isLegacy then { a with usage, attempts := a.attempts.mapValues Attempt.abandon }
  else { a with usage, completed := usage, attempts := ∅ }

namespace RelayLedger

/-- The part of `seal_channel` behind its own lock, once the channel is closed. -/
def sealAttempts (l : RelayLedger) (id : String) : RelayLedger :=
  let sealedTokens := (l.accounts.values.filter fun a => a.contract.channelId =
    id).flatMap Account.pendingTokens
  { l with
    accounts := l.accounts.mapValues fun a => if a.contract.channelId = id then a.sealed else a
    pending := sealedTokens.foldl (fun pending token => pending.erase token) l.pending }

def sealChannel (l : RelayLedger) (id : String) : Except LedgerError (ChannelUsage × RelayLedger) :=
  match l.closeChannel id with
  | .error e => .error e
  -- `close_channel` found the channel, so the index of the source is present
  | .ok (_,closed) => .ok (((closed.channels.get? id).map (·.usage)).getD {},closed.sealAttempts id)

/-- The first account, in the order of identifiers, that serves the request. -/
def serving (l : RelayLedger) (r : ForwardingRequest) : Option (String × Account) :=
  l.accounts.entries.find? fun e =>
    e.2.active ∧ e.2.contract.destination = r.destination ∧ l.buyerOf e.2 = some r.ingress

/-- The ledger with the units of an admitted request reserved. -/
def reserve (l : RelayLedger) (r : ForwardingRequest) (id : String) (a : Account) (digest : Digest)
    (token units prospective channelReserved : Nat) : RelayLedger :=
  { l with
    accounts := l.accounts.modify id fun a =>
      { a with
        usage := { a.usage with reservedUnits := prospective }
        attempts := a.attempts.insert digest ⟨token,units,.pending⟩ }
    channels := l.channels.modify a.contract.channelId fun c =>
      { c with usage := { c.usage with reservedMsat := channelReserved } }
    nextToken := token
    seen := if a.contract.billing.isLegacy then insert (r.ingress,digest) l.seen else l.seen
    pending := l.pending.insert token (id,digest) }

def admitWithWindows (l : RelayLedger) (ext : Externals) (r : ForwardingRequest) (nowUnix : Nat)
    (windows : Option (OrderedMap String Nat)) : Option (Nat × RelayLedger) := do
  let units ← U64.tryFrom r.sessionPayload.length
  guard (units ≠ 0)
  guard (l.pending.size < l.limits.maxPending)
  let (id,a) ← l.serving r
  let token ← U64.checkedAdd l.nextToken 1
  guard (¬ (a.contract.billing.hasFreeHandshakes ∧ ext.isHandshake r.sessionPayload r.source r.destination))
  guard (a.contract.nextHop = r.nextHop ∧ nowUnix < a.contract.expiresUnix)
  guard (¬ (a.contract.billing.isLegacy ∧ l.limits.maxPacketsPerContract ≤ a.attempts.size))
  let digest := if a.contract.billing.isLegacy then sessionFingerprint ext r.source
    r.destination r.sessionPayload
    else attemptKey token
  guard (¬ (a.contract.billing.isLegacy ∧ (r.ingress,digest) ∈ l.seen))
  let prospective ← U64.checkedAdd a.usage.reservedUnits units
  guard (prospective ≤ a.contract.maxUnits)
  let prospectiveCost ← a.contract.price.amountDueMsat prospective
  let reservedCost ← a.contract.price.amountDueMsat a.usage.reservedUnits
  let incrementalCost ← U64.checkedSub prospectiveCost reservedCost
  let channel ← l.channels.get? a.contract.channelId
  guard (channel.active ∧ nowUnix < channel.terms.expiresUnix)
  let channelReserved ← U64.checkedAdd channel.usage.reservedMsat incrementalCost
  let limit ← l.reservationLimit channel.terms channel.usage.paidMsat
  guard (channelReserved ≤ min limit (windows.elim u64Max fun w => (w.get? a.contract.channelId).getD 0))
  return (token,l.reserve r id a digest token units prospective channelReserved)

end RelayLedger

def ForwardingOutcome.state : ForwardingOutcome → AttemptState
  | .submitted => .submitted
  | .unconfirmed => .unconfirmed

def Usage.finish (u : Usage) (outcome : ForwardingOutcome) (units : Nat) : Usage :=
  match outcome with
  | .submitted => { u with submittedUnits := U64.wrappingAdd u.submittedUnits units }
  | .unconfirmed => { u with unconfirmedUnits := U64.wrappingAdd u.unconfirmedUnits units }

/-- What a completion does to the account of the attempt. -/
def Account.finish (a : Account) (digest : Digest) (attempt : Attempt) (outcome : ForwardingOutcome) :
    Account :=
  if a.contract.billing.isLegacy then
    { a with
      usage := a.usage.finish outcome attempt.units
      attempts := a.attempts.modify digest fun t => { t with state := outcome.state } }
  else
    { a with
      usage := a.usage.finish outcome attempt.units
      completed := { a.completed with
        reservedUnits := U64.wrappingAdd a.completed.reservedUnits attempt.units }.finish
          outcome attempt.units
      attempts := a.attempts.erase digest }

namespace RelayLedger

variable (l : RelayLedger)

/-- No result is a failed `expect` of the source. -/
def complete (token : Nat) (outcome : ForwardingOutcome) : Option RelayLedger :=
  match l.pending.get? token with
  | none => some l
  | some (id,digest) => do
    let a ← l.accounts.get? id
    let attempt ← a.attempts.get? digest
    let oldCost ← a.contract.price.amountDueMsat a.usage.submittedUnits
    let finished := a.finish digest attempt outcome
    let newCost ← a.contract.price.amountDueMsat finished.usage.submittedUnits
    let delta ← U64.checkedSub newCost oldCost
    let _ ← l.channels.get? a.contract.channelId
    some { l with
      pending := l.pending.erase token
      accounts := l.accounts.modify id fun a => a.finish digest attempt outcome
      channels := l.channels.modify a.contract.channelId fun c =>
        { c with usage := { c.usage with submittedMsat := U64.wrappingAdd c.usage.submittedMsat delta } } }

/-- One turn of the first loop of `retirement_plan_with_uninstalled`. -/
def planAccount (plan : RouteRetirementPlan) (a : Account) : Except LedgerError RouteRetirementPlan := do
  if a.active ∨ a.contract.billing.isLegacy ∨ 0 < a.attempts.size then throw .invalidContract
  let after ← (plan.after.added a.contract a.usage).elim (.error .capacity) .ok
  return { plan with after, contracts := plan.contracts ++ [a.contract] }

/-- One turn of its second loop, over the identifiers met so far and the plan. -/
def planUninstalled (terms : ChannelTerms) (acc : List String × RouteRetirementPlan)
    (contract : Contract) : Except LedgerError (List String × RouteRetirementPlan) := do
  validateContract contract terms
  if contract.channelId ≠ acc.2.channel ∨ acc.2.throughUnix < contract.expiresUnix ∨
    contract.billing.isLegacy ∨
      contract.id ∈ acc.1 ∨ l.accounts.contains contract.id then throw .invalidContract
  let ids := contract.id :: acc.1
  if acc.2.before.rejects contract.expiresUnix then return (ids,acc.2)
  let after ← (acc.2.after.added contract {}).elim (.error .capacity) .ok
  return (ids,{ acc.2 with after, contracts := acc.2.contracts ++ [contract] })

def retirementPlanWithUninstalled (channel : String) (throughUnix : Nat)
    (uninstalled : List Contract) : Except LedgerError RouteRetirementPlan :=
  match l.channels.get? channel with
  | none => .error .unknownContract
  | some c => do
    let closed := l.accounts.values.filter fun a =>
      a.contract.channelId = channel ∧ a.contract.expiresUnix ≤ throughUnix
    let plan ← closed.foldlM planAccount ⟨channel,throughUnix,[],c.retired,c.retired⟩
    let (_,plan) ← uninstalled.foldlM (l.planUninstalled c.terms) ([],plan)
    return plan

def retireClosedRoutesWithUninstalled (channel : String) (throughUnix : Nat)
    (uninstalled : List Contract) : Except LedgerError (Nat × RelayLedger) :=
  if l.limits.maxContracts < uninstalled.length then .error .capacity
  else do
    let plan ← l.retirementPlanWithUninstalled channel throughUnix uninstalled
    return (plan.contracts.length,{ l with
      accounts := plan.contracts.foldl (fun accounts contract => accounts.erase contract.id) l.accounts
      channels := l.channels.modify channel fun c => { c with retired := plan.after } })

def retireClosedRoutes (channel : String) (throughUnix : Nat) :
    Except LedgerError (Nat × RelayLedger) := l.retireClosedRoutesWithUninstalled channel throughUnix []

/-- The ledger still holds the channel as the plan has it, and no account of it. -/
def planMatches (c : ChannelSnapshot) : Bool :=
  ((l.channels.get? c.terms.id).any fun s =>
    !s.active ∧ s.terms = c.terms ∧ s.usage = c.usage ∧ some s.retired = c.retired) ∧
  !l.accounts.values.any fun a => a.contract.channelId = c.terms.id

def retireChannels (plan : Plan) : Except LedgerError (Bool × RelayLedger) := do
  plan.validate l.limits.maxChannels
  if l.history = some plan.after ∧ plan.channels.all fun c => !l.channels.contains c.terms.id then
    return (false,l)
  if l.history.getD {} ≠ plan.before ∨ !plan.channels.all l.planMatches then throw .invalidSnapshot
  return (true,{ l with
    channels := plan.channels.foldl (fun channels c => channels.erase c.terms.id) l.channels
    history := some plan.after })

end RelayLedger

end Fips.Relay
