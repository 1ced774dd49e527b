import Fips.Basic
import Fips.Lib.OrderedMap
import Fips.Lib.U64

set_option autoImplicit false

/-! What a relay and its neighbours agree on, and the evidence that outlives an agreement. -/

namespace Fips.Relay

structure ChannelTerms where
  id : String
  buyer : NodeAddr
  mintUrl : String
  expiresUnix : Nat
  capacitySat : Nat
  graceMsat : Nat
  deriving DecidableEq

structure BytePrice where
  msat : Nat
  perBytes : Nat
  deriving DecidableEq

namespace BytePrice

/-- The price of a number of bytes, rounded up. -/
def due (p : BytePrice) (bytes : Nat) : Nat := (bytes * p.msat + p.perBytes - 1) / p.perBytes

def amountDueMsat (p : BytePrice) (bytes : Nat) : Option Nat :=
  if p.perBytes = 0 then none else U64.tryFrom (p.due bytes)

@[simp] theorem due_zero (p : BytePrice) : p.due 0 = 0 := by
  unfold due
  rw [Nat.div_eq_zero_iff]
  omega

theorem due_mono (p : BytePrice) {a b : Nat} (h : a ≤ b) : p.due a ≤ p.due b :=
  Nat.div_le_div_right (Nat.sub_le_sub_right (Nat.add_le_add_right (Nat.mul_le_mul_right _ h) _) _)

theorem amountDueMsat_eq_some {p : BytePrice} {bytes msat : Nat} :
    p.amountDueMsat bytes = some msat ↔ p.perBytes ≠ 0 ∧ p.due bytes < 2^64 ∧ p.due bytes = msat := by
  unfold amountDueMsat
  split_ifs with zero
  · simp [zero]
  · simp [zero]

theorem amountDueMsat_of_le {p : BytePrice} {a b : Nat} (h : p.amountDueMsat b ≠ none) (le : a ≤ b) :
    p.amountDueMsat a = some (p.due a) := by
  obtain ⟨msat,priced⟩ := Option.ne_none_iff_exists'.1 h
  obtain ⟨nonzero,fits,-⟩ := amountDueMsat_eq_some.1 priced
  exact amountDueMsat_eq_some.2 ⟨nonzero,(p.due_mono le).trans_lt fits,rfl⟩

end BytePrice

inductive BillingBasis where
  | uniqueSessionEnvelope
  | forwardingAttempt
  | forwardingData
  deriving DecidableEq

def BillingBasis.hasFreeHandshakes (b : BillingBasis) : Bool := b = .forwardingData

def BillingBasis.isLegacy (b : BillingBasis) : Bool := b = .uniqueSessionEnvelope

structure Contract where
  id : String
  channelId : String
  destination : NodeAddr
  nextHop : NodeAddr
  expiresUnix : Nat
  price : BytePrice
  maxUnits : Nat
  billing : BillingBasis
  deriving DecidableEq

structure Limits where
  maxChannels : Nat
  maxContracts : Nat
  maxPacketsPerContract : Nat
  maxPending : Nat
  deriving DecidableEq

structure Usage where
  reservedUnits : Nat := 0
  submittedUnits : Nat := 0
  unconfirmedUnits : Nat := 0
  deriving DecidableEq

structure ChannelUsage where
  reservedMsat : Nat := 0
  submittedMsat : Nat := 0
  lostMsat : Nat := 0
  paidMsat : Nat := 0
  deriving DecidableEq

def ChannelUsage.debt (u : ChannelUsage) : Nat := u.reservedMsat - u.paidMsat

inductive LedgerError where
  | invalidContract
  | alreadyBound
  | unsettledChannel
  | capacity
  | unknownContract
  | invalidPayment
  | invalidSnapshot
  deriving DecidableEq

def validateChannel (c : ChannelTerms) : Except LedgerError Nat :=
  match U64.checkedMul c.capacitySat 1000 with
  | none => .error .invalidContract
  | some cap =>
    if c.id.isEmpty ∨ 128 < c.id.utf8ByteSize ∨ c.mintUrl.isEmpty ∨ 512 < c.mintUrl.utf8ByteSize ∨
        c.mintUrl.endsWith '/' ∨ cap = 0 ∨ cap < c.graceMsat then .error .invalidContract
    else .ok cap

def validateContract (c : Contract) (channel : ChannelTerms) : Except LedgerError Unit :=
  if c.id.isEmpty ∨ 128 < c.id.utf8ByteSize ∨ c.maxUnits = 0 ∨ c.price.msat = 0 ∨
      c.price.amountDueMsat c.maxUnits = none ∨ c.nextHop = channel.buyer ∨
      channel.expiresUnix < c.expiresUnix then .error .invalidContract
  else .ok ()

theorem validateChannel_eq_ok {c : ChannelTerms} {cap : Nat} (h : validateChannel c = .ok cap) :
    cap = c.capacitySat * 1000 ∧ cap < 2^64 ∧ cap ≠ 0 ∧ c.graceMsat ≤ cap ∧ c.mintUrl.isEmpty = false ∧
      c.mintUrl.utf8ByteSize ≤ 512 := by
  unfold validateChannel at h
  cases priced : U64.checkedMul c.capacitySat 1000 with
  | none => simp [priced] at h
  | some product =>
    obtain ⟨fits,rfl⟩ := U64.checkedMul_eq_some.1 priced
    simp only [priced] at h
    split_ifs at h with bad
    obtain rfl := Except.ok.inj h
    simp only [not_or,Bool.not_eq_true] at bad
    exact ⟨rfl,fits,bad.2.2.2.2.2.1,Nat.le_of_not_lt bad.2.2.2.2.2.2,bad.2.2.1,Nat.le_of_not_lt bad.2.2.2.1⟩

theorem validateContract_eq_ok {c : Contract} {channel : ChannelTerms}
    (h : validateContract c channel = .ok ()) :
    c.price.msat ≠ 0 ∧ c.price.amountDueMsat c.maxUnits ≠ none ∧ c.expiresUnix ≤ channel.expiresUnix := by
  unfold validateContract at h
  split_ifs at h with bad
  simp only [not_or] at bad
  exact ⟨bad.2.2.2.1,bad.2.2.2.2.1,Nat.le_of_not_lt bad.2.2.2.2.2.2⟩

/-- What is kept of the routes of a channel whose accounts have been retired. -/
structure RetiredRouteEvidence where
  throughUnix : Nat := 0
  contracts : Nat := 0
  units : Usage := {}
  reservedMsat : Nat := 0
  submittedMsat : Nat := 0
  deriving DecidableEq

namespace RetiredRouteEvidence

def addUsage (a b : Usage) : Option Usage := do
  let reservedUnits ← U64.checkedAdd a.reservedUnits b.reservedUnits
  let submittedUnits ← U64.checkedAdd a.submittedUnits b.submittedUnits
  let unconfirmedUnits ← U64.checkedAdd a.unconfirmedUnits b.unconfirmedUnits
  some { reservedUnits, submittedUnits, unconfirmedUnits }

def merged (e other : RetiredRouteEvidence) : Option RetiredRouteEvidence := do
  let contracts ← U64.checkedAdd e.contracts other.contracts
  let units ← addUsage e.units other.units
  let reservedMsat ← U64.checkedAdd e.reservedMsat other.reservedMsat
  let submittedMsat ← U64.checkedAdd e.submittedMsat other.submittedMsat
  some { throughUnix := max e.throughUnix other.throughUnix, contracts, units, reservedMsat, submittedMsat }

/-- Each contract is rounded on its own, as before its retirement. -/
def added (e : RetiredRouteEvidence) (contract : Contract) (usage : Usage) : Option RetiredRouteEvidence := do
  let contracts ← U64.checkedAdd e.contracts 1
  let units ← addUsage e.units usage
  let reservedMsat ← U64.checkedAdd e.reservedMsat (← contract.price.amountDueMsat usage.reservedUnits)
  let submittedMsat ← U64.checkedAdd e.submittedMsat (← contract.price.amountDueMsat usage.submittedUnits)
  some {
    throughUnix := max e.throughUnix contract.expiresUnix
    contracts, units, reservedMsat, submittedMsat }

def rejects (e : RetiredRouteEvidence) (expiry : Nat) : Bool := e.contracts ≠ 0 ∧ expiry ≤ e.throughUnix

def valid (e : RetiredRouteEvidence) (channelExpiry : Nat) : Bool :=
  if e.contracts = 0 then e = {}
  else e.throughUnix ≤ channelExpiry ∧
    U64.checkedAdd e.units.submittedUnits e.units.unconfirmedUnits = some e.units.reservedUnits ∧
    e.submittedMsat ≤ e.reservedMsat

def recovered (saved : Option RetiredRouteEvidence) (modern : Bool) (expiry : Nat) :
    Option RetiredRouteEvidence :=
  match saved with
  | some value => if value.valid expiry ∧ (modern ∨ value = {}) then some value else none
  | none => if modern then none else some {}

end RetiredRouteEvidence

/-- The accounts a retirement takes away, and the evidence before and after it. -/
structure RouteRetirementPlan where
  channel : String
  throughUnix : Nat
  contracts : List Contract
  before : RetiredRouteEvidence
  after : RetiredRouteEvidence

structure ChannelSnapshot where
  retired : Option RetiredRouteEvidence
  terms : ChannelTerms
  usage : ChannelUsage
  active : Bool
  deriving DecidableEq

structure Debt where
  buyer : NodeAddr
  mint : String
  msat : Nat
  deriving DecidableEq

/-- The totals of the channels that have been retired, with their debts kept by buyer and mint. -/
structure History where
  channels : Nat := 0
  expiresThroughUnix : Nat := 0
  capacitySat : Nat := 0
  usage : ChannelUsage := {}
  routes : RetiredRouteEvidence := {}
  debts : List Debt := []
  deriving DecidableEq

namespace History

def debt (h : History) (terms : ChannelTerms) : Nat :=
  ((h.debts.find? fun d => d.buyer = terms.buyer ∧ d.mint = terms.mintUrl).map (·.msat)).getD 0

/-- One turn of the fold of `valid`, over the owners seen so far and the sum. -/
def checkDebt (acc : List (NodeAddr × String) × Nat) (d : Debt) : Option (List (NodeAddr × String) × Nat) :=
  if d.msat = 0 ∨ d.mint.isEmpty ∨ 512 < d.mint.utf8ByteSize ∨ (d.buyer,d.mint) ∈ acc.1 then none
  else (U64.checkedAdd acc.2 d.msat).map fun sum => ((d.buyer,d.mint) :: acc.1,sum)

def valid (h : History) (maxDebts : Nat) : Bool :=
  if h.channels = 0 then h = {}
  else
    h.debts.length ≤ maxDebts ∧ h.debts.length ≤ h.channels ∧ h.channels ≤ h.capacitySat ∧
    h.expiresThroughUnix ≠ 0 ∧ h.usage.paidMsat ≤ h.capacitySat * 1000 ∧
    h.usage.reservedMsat ≤ h.capacitySat * 1000 ∧ h.routes.valid h.expiresThroughUnix ∧
    U64.checkedAdd h.routes.reservedMsat h.usage.lostMsat = some h.usage.reservedMsat ∧
    h.routes.submittedMsat = h.usage.submittedMsat ∧
    (h.debts.foldlM checkDebt ([],0)).any fun acc =>
      acc.2 ≤ h.usage.reservedMsat ∧ h.usage.reservedMsat - h.usage.paidMsat ≤ acc.2

def add (a b : Nat) : Except LedgerError Nat := (U64.checkedAdd a b).elim (.error .capacity) .ok

/-- The first debt of the same buyer and mint grows; without one a new debt is sorted in. -/
def addDebt (debts : List Debt) (terms : ChannelTerms) (msat : Nat) : Except LedgerError (List Debt) :=
  if debts.any fun d => d.buyer = terms.buyer ∧ d.mint = terms.mintUrl then
    raise debts
  else
    .ok (List.insertionSort (fun a b : Debt => a.buyer < b.buyer ∨ a.buyer = b.buyer ∧ a.mint ≤ b.mint)
      (debts ++ [⟨terms.buyer,terms.mintUrl,msat⟩]))
where
  raise : List Debt → Except LedgerError (List Debt)
    | [] => .ok []
    | d :: rest =>
      if d.buyer = terms.buyer ∧ d.mint = terms.mintUrl then
        (add d.msat msat).map fun sum => { d with msat := sum } :: rest
      else (raise rest).map (d :: ·)

def added (h : History) (c : ChannelSnapshot) : Except LedgerError History := do
  let channels ← add h.channels 1
  let capacitySat ← add h.capacitySat c.terms.capacitySat
  let reservedMsat ← add h.usage.reservedMsat c.usage.reservedMsat
  let submittedMsat ← add h.usage.submittedMsat c.usage.submittedMsat
  let lostMsat ← add h.usage.lostMsat c.usage.lostMsat
  let paidMsat ← add h.usage.paidMsat c.usage.paidMsat
  let retired ← c.retired.elim (.error .invalidSnapshot) .ok
  let routes ← (h.routes.merged retired).elim (.error .capacity) .ok
  let debts ← if c.usage.debt ≠ 0 then addDebt h.debts c.terms c.usage.debt else .ok h.debts
  return {
    channels, capacitySat, routes, debts
    expiresThroughUnix := max h.expiresThroughUnix c.terms.expiresUnix
    usage := { reservedMsat, submittedMsat, lostMsat, paidMsat } }

end History

structure Plan where
  before : History
  after : History
  channels : List ChannelSnapshot

namespace Plan

/-- One turn of the loop of `validate`. -/
def checkChannel (acc : List String × History) (c : ChannelSnapshot) :
    Except LedgerError (List String × History) := do
  let capacity ← validateChannel c.terms
  let routes ← c.retired.elim (.error .invalidSnapshot) .ok
  if c.active ∨ c.terms.id ∈ acc.1 ∨ !routes.valid c.terms.expiresUnix ∨ capacity < c.usage.paidMsat ∨
      capacity < c.usage.reservedMsat ∨
      U64.saturatingAdd c.usage.paidMsat c.terms.graceMsat < c.usage.reservedMsat ∨
      U64.checkedAdd routes.reservedMsat c.usage.lostMsat ≠ some c.usage.reservedMsat ∨
      routes.submittedMsat ≠ c.usage.submittedMsat then throw .invalidSnapshot
  return (c.terms.id :: acc.1,← acc.2.added c)

def validate (p : Plan) (limit : Nat) : Except LedgerError Unit := do
  let (_,after) ← p.channels.foldlM checkChannel ([],p.before)
  if p.channels.isEmpty ∨ limit < p.channels.length ∨ after ≠ p.after ∨
    !p.before.valid limit ∨ !p.after.valid limit
  then throw .capacity

end Plan

/-- How much a channel may have reserved: its own capacity, payments and grace, less what the other
channels of the same buyer and mint still owe. -/
def relationshipReservationLimit (terms : ChannelTerms) (paidMsat : Nat)
    (channels : List (ChannelTerms × ChannelUsage)) (history : Option History) : Option Nat := do
  let carried ← (channels.filter fun c =>
      c.1.id ≠ terms.id ∧ c.1.buyer = terms.buyer ∧ c.1.mintUrl = terms.mintUrl).foldlM
    (fun sum c => U64.checkedAdd sum c.2.debt) ((history.map (·.debt terms)).getD 0)
  let capacity ← U64.checkedMul terms.capacitySat 1000
  some (min capacity (U64.saturatingAdd paidMsat terms.graceMsat - carried))

end Fips.Relay
