import Fips.Relay.Ledger

set_option autoImplicit false

namespace Fips.Relay

structure AccountSnapshot where
  contract : Contract
  usage : Usage
  active : Bool
  attempts : List (Digest × Attempt)
  completed : Usage

structure Snapshot where
  version : Nat
  limits : Limits
  nextToken : Nat
  history : Option History
  channels : List ChannelSnapshot
  accounts : List AccountSnapshot

def Snapshot.reservationLimit (s : Snapshot) (id : String) : Option Nat := do
  let channel ← s.channels.find? fun c => c.terms.id = id
  relationshipReservationLimit channel.terms channel.usage.paidMsat
    (s.channels.map fun c => (c.terms,c.usage)) s.history

def Channel.snapshot (c : Channel) : ChannelSnapshot := ⟨some c.retired,c.terms,c.usage,c.active⟩

def Account.snapshot (a : Account) : AccountSnapshot :=
  ⟨a.contract,a.usage,a.active,a.attempts.entries,a.completed⟩

namespace RelayLedger

def snapshot (l : RelayLedger) : Snapshot :=
  { version := if l.history.isSome then 6 else 5
    limits := l.limits
    nextToken := l.nextToken
    history := l.history
    channels := l.channels.values.map Channel.snapshot
    accounts := l.accounts.values.map Account.snapshot }

/-- The failure of every check that recovery makes. -/
def orInvalid {α : Type} (x : Option α) : Except LedgerError α := x.elim (.error .invalidSnapshot) .ok

/-- One turn of the loop over the saved channels. -/
def restoreChannel (version : Nat) (channels : OrderedMap String Channel) (saved : ChannelSnapshot) :
    Except LedgerError (OrderedMap String Channel) := do
  let retired ← orInvalid (RetiredRouteEvidence.recovered saved.retired (5 ≤ version) saved.terms.expiresUnix)
  let cap ← orInvalid (validateChannel saved.terms).toOption
  if cap < saved.usage.paidMsat ∨ cap < saved.usage.reservedMsat ∨
      U64.saturatingAdd saved.usage.paidMsat saved.terms.graceMsat < saved.usage.reservedMsat ∨
      saved.usage.reservedMsat < saved.usage.lostMsat ∨
        channels.contains saved.terms.id then throw .invalidSnapshot
  let reservedMsat ← orInvalid (U64.checkedAdd saved.usage.lostMsat retired.reservedMsat)
  return channels.insert saved.terms.id
    ⟨saved.terms,retired,⟨reservedMsat,retired.submittedMsat,saved.usage.lostMsat,saved.usage.paidMsat⟩,false⟩

/-- What the loop over the attempts of one account carries. -/
structure AttemptTotals where
  reserved : Nat
  submitted : Nat
  unconfirmed : Nat
  previouslyUnconfirmed : Nat
  attempts : OrderedMap Digest Attempt
  tokens : Finset Nat
  seen : Finset (NodeAddr × Digest)
  outstanding : Nat

/-- One turn of the loop over the attempts of one account. -/
def restoreAttempt (limits : Limits) (nextToken : Nat) (legacy : Bool)
    (buyer : NodeAddr) (acc : AttemptTotals) (entry : Digest × Attempt) :
    Except LedgerError AttemptTotals := do
  let (digest,attempt) := entry
  if attempt.token = 0 ∨ nextToken < attempt.token ∨ attempt.token ∈ acc.tokens ∨ attempt.units = 0 ∨
      acc.attempts.contains digest ∨
      !legacy ∧ (digest ≠ attemptKey attempt.token ∨ attempt.state ≠ .pending) then throw .invalidSnapshot
  let reserved ← orInvalid (U64.checkedAdd acc.reserved attempt.units)
  if legacy ∧ (buyer,digest) ∈ acc.seen then throw .invalidSnapshot
  let outstanding := if attempt.state = .pending then acc.outstanding + 1 else acc.outstanding
  if attempt.state = .pending ∧ limits.maxPending < outstanding then throw .invalidSnapshot
  return {
    reserved, outstanding
    submitted := if attempt.state = .submitted then U64.wrappingAdd acc.submitted
      attempt.units else acc.submitted
    unconfirmed := if attempt.state = .submitted then acc.unconfirmed
      else U64.wrappingAdd acc.unconfirmed attempt.units
    previouslyUnconfirmed :=
      if attempt.state = .unconfirmed then U64.wrappingAdd acc.previouslyUnconfirmed attempt.units
      else acc.previouslyUnconfirmed
    attempts := if legacy then acc.attempts.insert digest attempt.abandon else acc.attempts
    tokens := insert attempt.token acc.tokens
    seen := if legacy then insert (buyer,digest) acc.seen else acc.seen }

/-- What the loop over the saved accounts carries. -/
structure AccountTotals where
  channels : OrderedMap String Channel
  accounts : OrderedMap String Account
  tokens : Finset Nat
  seen : Finset (NodeAddr × Digest)
  outstanding : Nat

/-- The checks on one saved account that come before its attempts. -/
def admissible (limits : Limits) (version : Nat) (accounts : OrderedMap String Account)
    (saved : AccountSnapshot) : Bool :=
  !accounts.contains saved.contract.id ∧
  ¬ (saved.contract.billing.isLegacy ∧ limits.maxPacketsPerContract < saved.attempts.length) ∧
  ¬ (version = 3 ∧ !saved.contract.billing.isLegacy) ∧
  U64.checkedAdd saved.completed.submittedUnits saved.completed.unconfirmedUnits =
    some saved.completed.reservedUnits ∧
  ¬ (saved.contract.billing.isLegacy ∧ saved.completed.reservedUnits ≠ 0)

/-- One turn of the loop over the saved accounts. -/
def restoreAccount (limits : Limits) (version nextToken : Nat) (acc : AccountTotals)
    (saved : AccountSnapshot) :
    Except LedgerError AccountTotals := do
  let legacy := saved.contract.billing.isLegacy
  if !admissible limits version acc.accounts saved then throw .invalidSnapshot
  let channel ← orInvalid (acc.channels.get? saved.contract.channelId)
  if channel.retired.rejects saved.contract.expiresUnix then throw .invalidSnapshot
  let _ ← orInvalid (validateContract saved.contract channel.terms).toOption
  let totals ← saved.attempts.foldlM (restoreAttempt limits nextToken legacy channel.terms.buyer)
    ⟨saved.completed.reservedUnits,saved.completed.submittedUnits,saved.completed.unconfirmedUnits,
      saved.completed.unconfirmedUnits,∅,acc.tokens,acc.seen,acc.outstanding⟩
  if totals.reserved ≠ saved.usage.reservedUnits ∨ totals.submitted ≠ saved.usage.submittedUnits ∨
      saved.usage.unconfirmedUnits ≠ totals.previouslyUnconfirmed ∨ saved.contract.maxUnits < totals.reserved
  then throw .invalidSnapshot
  let reservedCost ← orInvalid (saved.contract.price.amountDueMsat totals.reserved)
  let submittedCost ← orInvalid (saved.contract.price.amountDueMsat totals.submitted)
  let reservedMsat ← orInvalid (U64.checkedAdd channel.usage.reservedMsat reservedCost)
  let submittedMsat ← orInvalid (U64.checkedAdd channel.usage.submittedMsat submittedCost)
  return {
    channels := acc.channels.modify saved.contract.channelId fun c =>
      { c with usage := { c.usage with reservedMsat, submittedMsat } }
    accounts := acc.accounts.insert saved.contract.id
      { contract := saved.contract
        usage := { saved.usage with unconfirmedUnits := totals.unconfirmed }
        completed := if legacy then {} else ⟨totals.reserved,totals.submitted,totals.unconfirmed⟩
        attempts := totals.attempts
        active := false }
    tokens := totals.tokens
    seen := totals.seen
    outstanding := totals.outstanding }

def restore (s : Snapshot) : Except LedgerError RelayLedger := do
  if ¬ (3 ≤ s.version ∧ s.version ≤ 6) ∨ s.limits.maxChannels < s.channels.length ∨
      s.limits.maxContracts < s.accounts.length then throw .invalidSnapshot
  match s.history with
  | some h => if ¬ (s.version = 6 ∧ h.valid s.limits.maxChannels) then throw .invalidSnapshot
  | none => if ¬ s.version < 6 then throw .invalidSnapshot
  let channels ← s.channels.foldlM (restoreChannel s.version) ∅
  let totals ← s.accounts.foldlM (restoreAccount s.limits s.version s.nextToken) ⟨channels,∅,∅,∅,0⟩
  if !s.channels.all fun saved => (totals.channels.get? saved.terms.id).map (·.usage) = some saved.usage
  then throw .invalidSnapshot
  return ⟨s.limits,s.history,totals.seen,totals.channels,totals.accounts,∅,s.nextToken⟩

/-- One turn of the loop of `recover_windows` that reactivates channels. -/
def reactivateChannel (acc : List (NodeAddr × String) × OrderedMap String Channel) (saved : ChannelSnapshot) :
    Except LedgerError (List (NodeAddr × String) × OrderedMap String Channel) := do
  let owner := (saved.terms.buyer,saved.terms.mintUrl)
  if saved.active ∧ owner ∈ acc.1 then throw .invalidSnapshot
  return (if saved.active then owner :: acc.1 else acc.1,
    acc.2.modify saved.terms.id fun c => { c with active := saved.active })

/-- One turn of the loop that reactivates accounts. -/
def reactivateAccount (channels : OrderedMap String Channel)
    (acc : List (NodeAddr × NodeAddr) × OrderedMap String Account) (saved : AccountSnapshot) :
    Except LedgerError (List (NodeAddr × NodeAddr) × OrderedMap String Account) := do
  let channel ← orInvalid (channels.get? saved.contract.channelId)
  let served := (channel.terms.buyer,saved.contract.destination)
  if saved.active ∧ (!channel.active ∨ served ∈ acc.1) then throw .invalidSnapshot
  return (if saved.active then served :: acc.1 else acc.1,
    acc.2.modify saved.contract.id fun a => { a with active := saved.active })

/-- One turn of the loop that gives up the unrecorded rest of a window. -/
def recoverWindow (l : RelayLedger) (window : String × Nat) : Except LedgerError RelayLedger := do
  let (id,ceiling) := window
  let hasQuote := l.accounts.values.any fun a => a.active ∧ a.contract.channelId = id
  let channel ← orInvalid (l.channels.get? id)
  let maximum ← orInvalid (l.reservationLimit channel.terms channel.usage.paidMsat)
  if !channel.active ∨ !hasQuote ∨ ceiling < channel.usage.reservedMsat ∨ maximum < ceiling then
    throw .invalidSnapshot
  return { l with channels := l.channels.modify id fun c => { c with usage := { c.usage with
    lostMsat := U64.wrappingAdd c.usage.lostMsat (ceiling - c.usage.reservedMsat)
    reservedMsat := ceiling } } }

def recoverWindows (s : Snapshot) (windows : OrderedMap String Nat) : Except LedgerError RelayLedger := do
  let restored ← restore s
  let (_,channels) ← s.channels.foldlM reactivateChannel ([],restored.channels)
  let (_,accounts) ← s.accounts.foldlM (reactivateAccount channels) ([],restored.accounts)
  let recovered ← windows.entries.foldlM recoverWindow { restored with channels, accounts }
  if recovered.accounts.values.any fun a => a.active ∧ !windows.contains a.contract.channelId
  then throw .invalidSnapshot
  return recovered

end RelayLedger

end Fips.Relay
