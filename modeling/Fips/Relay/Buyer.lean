import Fips.Lib.Lists
import Fips.Relay.Durable

set_option autoImplicit false

/-! What a node that buys forwarding keeps of its sends, and how far it lets its wallet sign. -/

namespace Fips.Relay.Buyer

inductive BuyerError where
  | journal (error : DurableError)
  | unknownAgreement
  | invalidAgreement
  | unearnedClaim
  | budget
  | expired
  | capacity
  | format
  deriving DecidableEq

structure PurchaseChannel where
  provider : NodeAddr
  terms : ChannelTerms
  advanceMsat : Nat
  authorizedSat : Nat
  retired : Option RetiredRouteEvidence
  active : Bool
  deriving DecidableEq

inductive AttemptOutcome where
  | pending
  | submitted
  | unconfirmed
  deriving DecidableEq

structure Attempt where
  digest : Digest
  units : Nat
  outcome : AttemptOutcome
  token : Nat
  deriving DecidableEq

structure CompletedEvidence where
  observedUnits : Nat := 0
  submittedUnits : Nat := 0
  deriving DecidableEq

structure PurchaseQuote where
  contract : Contract
  active : Bool
  attempts : List Attempt
  observedUnits : Nat
  submittedUnits : Nat
  quotaBlocked : Bool
  completed : CompletedEvidence
  deriving DecidableEq

structure History where
  channels : Nat := 0
  expiresThroughUnix : Nat := 0
  authorizedSat : Nat := 0
  capacitySat : Nat := 0
  advanceMsat : Nat := 0
  routes : RetiredRouteEvidence := {}
  deriving DecidableEq

structure State where
  version : Nat
  localAddr : NodeAddr
  totalBudgetSat : Nat
  limits : Limits
  nextToken : Nat
  history : Option History
  channels : OrderedMap String PurchaseChannel
  quotes : OrderedMap String PurchaseQuote
  seen : Finset (NodeAddr × Digest)
  pending : OrderedMap Nat (String × Nat)
  deriving DecidableEq

/-- A failed conversion of an `Option`. -/
def orElse {α : Type} (x : Option α) (error : BuyerError) : Except BuyerError α := x.elim (.error error) .ok

/-- A failed check of an agreement, whatever the reason. -/
def orFail {α : Type} (x : Except LedgerError α) (error : BuyerError) : Except BuyerError α :=
  x.mapError fun _ => error

def ceilSat (msat : Nat) : Nat := (msat + 999) / 1000

inductive RetiredChannel where
  | installed (channel : PurchaseChannel)
  | neverInstalled (terms : ChannelTerms)
  deriving DecidableEq

def RetiredChannel.terms : RetiredChannel → ChannelTerms
  | .installed c => c.terms
  | .neverInstalled terms => terms

namespace History

def add (a b : Nat) : Except BuyerError Nat := orElse (U64.checkedAdd a b) .capacity

def addedAbsent (h : History) (terms : ChannelTerms) : Except BuyerError History := do
  let channels ← add h.channels 1
  let capacitySat ← add h.capacitySat terms.capacitySat
  return { h with channels, expiresThroughUnix := max h.expiresThroughUnix terms.expiresUnix, capacitySat }

def added (h : History) (c : PurchaseChannel) : Except BuyerError History := do
  let channels ← add h.channels 1
  let authorizedSat ← add h.authorizedSat c.authorizedSat
  let capacitySat ← add h.capacitySat c.terms.capacitySat
  let advanceMsat ← add h.advanceMsat c.advanceMsat
  let retired ← orElse c.retired .format
  let routes ← orElse (h.routes.merged retired) .capacity
  return {
    channels, authorizedSat, capacitySat, advanceMsat, routes
    expiresThroughUnix := max h.expiresThroughUnix c.terms.expiresUnix }

def valid (h : History) : Bool :=
  if h.channels = 0 then h = {}
  else
    h.expiresThroughUnix ≠ 0 ∧ h.channels ≤ h.capacitySat ∧ h.authorizedSat ≤ h.capacitySat ∧
    h.authorizedSat ≤ U64.saturatingAdd (ceilSat (U64.saturatingAdd h.routes.submittedMsat h.advanceMsat))
      (h.channels - 1) ∧
    h.routes.valid h.expiresThroughUnix

end History

structure Plan where
  before : History
  after : History
  channels : List RetiredChannel

namespace Plan

/-- One turn of the loop of `validate`. -/
def checkChannel (acc : List String × History) (entry : RetiredChannel) :
    Except BuyerError (List String × History) := do
  let _ ← orFail (validateChannel entry.terms) .format
  if entry.terms.id ∈ acc.1 then throw .format
  let after ← match entry with
    | .installed c => do
      let routes ← orElse c.retired .format
      if c.active ∨ !routes.valid c.terms.expiresUnix ∨ c.terms.capacitySat < c.authorizedSat ∨
          ceilSat (U64.saturatingAdd routes.submittedMsat c.advanceMsat) < c.authorizedSat then throw .format
      acc.2.added c
    | .neverInstalled terms => acc.2.addedAbsent terms
  return (entry.terms.id :: acc.1,after)

def validate (p : Plan) : Except BuyerError Unit := do
  let (_,after) ← p.channels.foldlM checkChannel ([],p.before)
  if p.channels.isEmpty ∨ after ≠ p.after ∨ !after.valid ∨ !p.before.valid then throw .format

end Plan

namespace State

variable (s : State)

/-- What `serde` keeps of the state. -/
def saved : State :=
  { s with quotes := s.quotes.mapValues fun q => { q with quotaBlocked := false }, seen := ∅, pending := ∅ }

def evidenceMsat (id : String) : Option Nat := do
  let c ← s.channels.get? id
  let retired ← c.retired
  (s.quotes.values.filter fun q => q.contract.channelId = id).foldlM
    (fun sum q => do U64.checkedAdd sum (← q.contract.price.amountDueMsat q.submittedUnits))
      retired.submittedMsat

def authorizedTotal : Option Nat :=
  s.channels.values.foldlM (fun sum c => U64.checkedAdd sum c.authorizedSat)
    ((s.history.map (·.authorizedSat)).getD 0)

def validateChannelHistory : Except BuyerError Unit :=
  match s.history with
  | some h => if s.version = 4 ∧ h.valid then .ok () else .error .format
  | none => if s.version < 4 then .ok () else .error .format

/-- One turn of the first loop over the channels. -/
def recoverChannel (acc : List (NodeAddr × String) × Nat) (entry : String × PurchaseChannel) :
    Except BuyerError (List (NodeAddr × String) × Nat) := do
  let (id,c) := entry
  let capacity ← orFail (validateChannel c.terms) .format
  if id ≠ c.terms.id ∨ c.terms.buyer ≠ s.localAddr ∨ c.provider = s.localAddr ∨ capacity < c.advanceMsat ∨
      c.terms.capacitySat < c.authorizedSat ∨
        (c.active ∧ (c.provider,c.terms.mintUrl) ∈ acc.1) then throw .format
  let total ← orElse (U64.checkedAdd acc.2 c.authorizedSat) .format
  return (if c.active then (c.provider,c.terms.mintUrl) :: acc.1 else acc.1,total)

/-- What the loop over the attempts of one quote carries. -/
structure AttemptTotals where
  seen : Finset (NodeAddr × Digest)
  tokens : List Nat
  outstanding : Nat
  observed : Nat
  submitted : Nat
  attempts : List Attempt

/-- One turn of the loop over the attempts of one quote. -/
def recoverAttempt (legacy : Bool) (provider : NodeAddr) (t : AttemptTotals) (a : Attempt) :
    Except BuyerError AttemptTotals := do
  if a.units = 0 ∨ (legacy ∧ (provider,a.digest) ∈ t.seen) ∨
      (!legacy ∧ (a.token = 0 ∨ s.nextToken ≤ a.token ∨ a.token ∈ t.tokens ∨
        a.digest ≠ 0 ∨ a.outcome ≠ .pending))
  then throw .format
  let outstanding := if a.outcome = .pending then t.outstanding + 1 else t.outstanding
  if a.outcome = .pending ∧ s.limits.maxPending < outstanding then throw .format
  let observed ← orElse (U64.checkedAdd t.observed a.units) .format
  let submitted ← if a.outcome = .submitted then orElse (U64.checkedAdd t.submitted a.units) .format
      else .ok t.submitted
  return {
    seen := if legacy then insert (provider,a.digest) t.seen else t.seen
    tokens := if legacy then t.tokens else a.token :: t.tokens
    outstanding, observed, submitted
    attempts := t.attempts ++ [if a.outcome = .submitted then a else { a with outcome := .unconfirmed }] }

/-- What the loop over the quotes carries. -/
structure QuoteTotals where
  seen : Finset (NodeAddr × Digest) := ∅
  activeQuotes : List (NodeAddr × NodeAddr) := []
  tokens : List Nat := []
  outstanding : Nat := 0
  quotes : OrderedMap String PurchaseQuote := ∅

/-- One turn of the loop over the quotes. -/
def recoverQuote (t : QuoteTotals) (entry : String × PurchaseQuote) : Except BuyerError QuoteTotals := do
  let (id,q) := entry
  let legacy := q.contract.billing.isLegacy
  let c ← orElse (s.channels.get? q.contract.channelId) .format
  orFail (validateContract q.contract c.terms) .format
  let retired ← orElse c.retired .format
  if retired.rejects q.contract.expiresUnix ∨ id ≠ q.contract.id ∨ q.contract.destination = c.provider ∨
      (legacy ∧ s.limits.maxPacketsPerContract < q.attempts.length) ∨ (s.version = 1 ∧ !legacy) ∨
      q.completed.observedUnits < q.completed.submittedUnits ∨ (legacy ∧ q.completed.observedUnits ≠ 0) ∨
      (q.active ∧ (!c.active ∨ (c.provider,q.contract.destination) ∈ t.activeQuotes)) then throw .format
  let counted ← q.attempts.foldlM (recoverAttempt s legacy c.provider)
    ⟨t.seen,t.tokens,t.outstanding,q.completed.observedUnits,q.completed.submittedUnits,[]⟩
  if counted.observed ≠ q.observedUnits ∨ counted.submitted ≠ q.submittedUnits ∨
    q.contract.maxUnits < counted.observed
  then throw .format
  return {
    seen := counted.seen
    activeQuotes := if q.active then (c.provider,q.contract.destination) :: t.activeQuotes else t.activeQuotes
    tokens := counted.tokens
    outstanding := counted.outstanding
    quotes := t.quotes.insert id (if legacy then { q with attempts := counted.attempts }
      else { q with attempts := [], completed := ⟨counted.observed,counted.submitted⟩ }) }

/-- One turn of the last loop over the channels. -/
def checkAuthorized (_ : Unit) (entry : String × PurchaseChannel) : Except BuyerError Unit := do
  let evidence ← orElse (s.evidenceMsat entry.1) .format
  if ceilSat (U64.saturatingAdd evidence entry.2.advanceMsat) < entry.2.authorizedSat then throw .format

def validateAndRecover : Except BuyerError State := do
  if ¬ (1 ≤ s.version ∧ s.version ≤ 4) ∨ s.totalBudgetSat = 0 ∨ s.nextToken = 0 ∨
      s.limits.maxChannels < s.channels.size ∨ s.limits.maxContracts < s.quotes.size then throw .format
  let retired := fun c : PurchaseChannel => RetiredRouteEvidence.recovered c.retired
    (3 ≤ s.version) c.terms.expiresUnix
  if s.channels.values.any fun c => retired c = none then throw .format
  let s := { s with channels := s.channels.mapValues fun c => { c with retired := retired c } }
  s.validateChannelHistory
  let (_,total) ← s.channels.entries.foldlM (recoverChannel s) ([],(s.history.map (·.authorizedSat)).getD 0)
  if s.totalBudgetSat < total then throw .format
  let t ← s.quotes.entries.foldlM (recoverQuote s) {}
  let s := { s with quotes := t.quotes, seen := t.seen, pending := ∅ }
  s.channels.entries.foldlM (checkAuthorized s) ()
  return { s with version := max s.version 3 }

def acceptChannel (provider : NodeAddr) (terms : ChannelTerms) (advanceMsat : Nat) (s : State) :
    Except BuyerError State := do
  let capacity ← orFail (validateChannel terms) .invalidAgreement
  if terms.buyer ≠ s.localAddr ∨ provider = s.localAddr ∨ capacity < advanceMsat then throw .invalidAgreement
  match s.channels.get? terms.id with
  | some c =>
    if c.provider = provider ∧ c.terms = terms ∧ c.advanceMsat = advanceMsat then return s
      else throw .invalidAgreement
  | none =>
    if s.history.any fun h => terms.expiresUnix ≤ h.expiresThroughUnix then throw .expired
    if s.limits.maxChannels ≤ s.channels.size then throw .capacity
    if s.channels.values.any fun c => c.active ∧ c.provider = provider ∧ c.terms.mintUrl = terms.mintUrl then
      throw .invalidAgreement
    return { s with channels := s.channels.insert terms.id ⟨provider,terms,advanceMsat,0,some {},true⟩ }

def providerOf (q : PurchaseQuote) : Option NodeAddr :=
  (s.channels.get? q.contract.channelId).map (·.provider)

def acceptQuote (contract : Contract) (s : State) : Except BuyerError State := do
  let c ← orElse (s.channels.get? contract.channelId) .unknownAgreement
  orFail (validateContract contract c.terms) .invalidAgreement
  let retired ← orElse c.retired .format
  if retired.rejects contract.expiresUnix then throw .expired
  match s.quotes.get? contract.id with
  | some q => if q.contract = contract then return s else throw .invalidAgreement
  | none =>
    if !c.active ∨ contract.destination = c.provider then throw .invalidAgreement
    if s.limits.maxContracts ≤ s.quotes.size then throw .capacity
    if s.quotes.values.any fun q =>
        q.active ∧ q.contract.destination = contract.destination ∧ s.providerOf q = some c.provider then
      throw .invalidAgreement
    return { s with quotes := s.quotes.insert contract.id ⟨contract,true,[],0,0,false,{}⟩ }

def closeQuote (id : String) : Except BuyerError State :=
  match s.quotes.get? id with
  | none => .error .unknownAgreement
  | some _ => .ok { s with quotes := s.quotes.modify id fun q => { q with active := false } }

def closeChannel (id : String) (s : State) : Except BuyerError State :=
  match s.channels.get? id with
  | none => .error .unknownAgreement
  | some _ => .ok { s with
      channels := s.channels.modify id fun c => { c with active := false }
      quotes := s.quotes.mapValues fun q => if q.contract.channelId = id then
        { q with active := false } else q }

/-- One turn of the loop of `retirement_plan`. -/
def planQuote (plan : RouteRetirementPlan) (q : PurchaseQuote) : Except BuyerError RouteRetirementPlan := do
  if q.active ∨ q.contract.billing.isLegacy ∨ q.attempts ≠ [] then throw .invalidAgreement
  let unconfirmedUnits ← orElse (U64.checkedSub q.observedUnits q.submittedUnits) .format
  let after ← orElse (plan.after.added q.contract ⟨q.observedUnits,q.submittedUnits,unconfirmedUnits⟩)
      .capacity
  return { plan with contracts := plan.contracts ++ [q.contract], after }

def retirementPlan (channel : String) (throughUnix : Nat) : Except BuyerError RouteRetirementPlan := do
  let c ← orElse (s.channels.get? channel) .unknownAgreement
  let before ← orElse c.retired .format
  (s.quotes.values.filter fun q => q.contract.channelId = channel ∧
    q.contract.expiresUnix ≤ throughUnix).foldlM planQuote
    ⟨channel,throughUnix,[],before,before⟩

def retireClosedRoutes (channel : String) (throughUnix : Nat) (s : State) : Except BuyerError State := do
  let plan ← s.retirementPlan channel throughUnix
  return { s with
    quotes := plan.contracts.foldl (fun quotes contract => quotes.erase contract.id) s.quotes
    channels := s.channels.modify channel fun c => { c with retired := some plan.after } }

def planMatches : RetiredChannel → Bool
  | .installed c => s.channels.get? c.terms.id = some c
  | .neverInstalled terms => !s.channels.contains terms.id

def retireChannels (plan : Plan) : Except BuyerError (Option State) := do
  plan.validate
  let quoted := fun e : RetiredChannel => s.quotes.values.any fun q => q.contract.channelId = e.terms.id
  if s.history = some plan.after ∧ plan.channels.all fun e => !s.channels.contains e.terms.id ∧
    !quoted e then return none
  if s.history.getD {} ≠ plan.before ∨ plan.channels.any fun e => !s.planMatches e ∨ quoted e then
    throw .invalidAgreement
  return some { s with
    channels := plan.channels.foldl (fun channels e => channels.erase e.terms.id) s.channels
    history := some plan.after
    version := 4 }

/-- The part of `sign_claim_inner` behind the lock of the state: the balance to sign, and the state to
save first. -/
def authorize (provider : NodeAddr) (id : String) (claimedMsat now : Nat) (includeFunding : Bool) :
    Except BuyerError (Nat × State) := do
  let c ← orElse ((s.channels.get? id).filter fun c => c.provider = provider) .unknownAgreement
  if c.terms.expiresUnix ≤ now ∧ ¬ (includeFunding ∧ claimedMsat = 0) then throw .expired
  let evidence ← orElse (s.evidenceMsat id) .format
  if U64.saturatingAdd evidence c.advanceMsat < claimedMsat then throw .unearnedClaim
  let balance := max (ceilSat claimedMsat) c.authorizedSat
  let total ← orElse s.authorizedTotal .budget
  if c.terms.capacitySat < balance ∨
      (U64.checkedAdd total (balance - c.authorizedSat)).all fun n => s.totalBudgetSat < n then throw .budget
  return (balance,{ s with channels := s.channels.modify id fun c => { c with authorizedSat := balance } })

structure SessionRequest where
  source : NodeAddr
  destination : NodeAddr
  nextHop : NodeAddr
  sessionPayload : List UInt8

structure SessionIntent where
  source : NodeAddr
  destination : NodeAddr
  nextHop : NodeAddr
  sessionBytes : Nat

/-- A quote that pays for this hop now. The channel of every quote is there. -/
def serves (nextHop destination : NodeAddr) (now : Nat) (q : PurchaseQuote) : Bool :=
  (s.channels.get? q.contract.channelId).any fun c =>
    q.active ∧ c.active ∧ c.provider = nextHop ∧ q.contract.destination = destination ∧
    now < q.contract.expiresUnix ∧ now < c.terms.expiresUnix

/-- `admits` is the answer of the seller's side, asked last. A quota that is exhausted is marked even
though nothing is admitted. -/
def reserveAttempt (id : String) (digest : Digest) (units : Nat) (sourceAdmission admits : Bool) :
    Option Nat × State :=
  if units = 0 ∨ s.limits.maxPending ≤ s.pending.size then (none,s)
  else match s.quotes.get? id with
    | none => (none,s)
    | some q => match s.channels.get? q.contract.channelId with
      | none => (none,s)
      | some c =>
        let legacy := q.contract.billing.isLegacy
        let token := s.nextToken
        if legacy ∧ (c.provider,digest) ∈ s.seen then (none,s)
        else if 2^64 ≤ token + 1 then (none,s)
        else if legacy ∧ s.limits.maxPacketsPerContract ≤ q.attempts.length then (none,s)
        else match (U64.checkedAdd q.observedUnits units).filter fun n => n ≤ q.contract.maxUnits with
          | none =>
            (none,{ s with quotes := s.quotes.modify id fun q =>
              { q with quotaBlocked := q.quotaBlocked || sourceAdmission } })
          | some observed =>
            if !admits then (none,s)
            else (some token,{ s with
              quotes := s.quotes.modify id fun q => { q with
                observedUnits := observed
                attempts := q.attempts ++ [⟨digest,units,.pending,if legacy then 0 else token⟩] }
              pending := s.pending.insert token (id,q.attempts.length)
              seen := if legacy then insert (c.provider,digest) s.seen else s.seen
              nextToken := token + 1 })

def beginAdmitted (ext : Externals) (s : State) (request : SessionRequest) (localOnly : Bool)
    (now : Nat) (admits : Bool) :
    Option Nat × State :=
  if (localOnly ∧ request.source ≠ s.localAddr) ∨ request.nextHop = request.destination ∨
    request.sessionPayload = [] then
    (none,s)
  else match s.quotes.entries.find? fun e => s.serves request.nextHop request.destination now e.2 with
    | none => (none,s)
    | some (id,q) =>
      if q.contract.billing.hasFreeHandshakes ∧
        ext.isHandshake request.sessionPayload request.source request.destination
      then (none,s)
      else
        let digest := if q.contract.billing.isLegacy then
          sessionFingerprint ext request.source request.destination request.sessionPayload else 0
        match U64.tryFrom request.sessionPayload.length with
        | none => (none,s)
        | some units => s.reserveAttempt id digest units localOnly admits

inductive Admission where
  | defer
  | reject
  | track (token : Nat)
  deriving DecidableEq

def prepareIntent (intent : SessionIntent) (now : Nat) : Admission × State :=
  if intent.source ≠ s.localAddr then (.reject,s)
  else if intent.nextHop = intent.destination then (.defer,s)
  else
    let matching := s.quotes.values.filter fun q =>
      s.providerOf q = some intent.nextHop ∧ q.contract.destination = intent.destination
    match matching.find? (s.serves intent.nextHop intent.destination now) with
    | none => (if matching.any fun q => !q.contract.billing.isLegacy then .reject else .defer,s)
    | some q =>
      if q.contract.billing.isLegacy then (.defer,s)
      else match U64.tryFrom intent.sessionBytes with
        | none => (.reject,s)
        | some units =>
          let (token,s') := s.reserveAttempt q.contract.id 0 units true true
          (token.elim .reject .track,s')

/-- The quote after the outcome of its attempt at `index`. -/
def finishQuote (q : PurchaseQuote) (index : Nat) (a : Attempt) (outcome : ForwardingOutcome) :
    PurchaseQuote :=
  let submitted := outcome = .submitted
  let submittedUnits := if submitted then U64.wrappingAdd q.submittedUnits a.units else q.submittedUnits
  if q.contract.billing.isLegacy then
    { q with
      submittedUnits
      attempts := q.attempts.set index { a with outcome := if submitted then .submitted else .unconfirmed } }
  else
    { q with
      submittedUnits
      attempts := swapRemove q.attempts index
      completed :=
        { observedUnits := U64.wrappingAdd q.completed.observedUnits a.units
          submittedUnits :=
            if submitted then U64.wrappingAdd q.completed.submittedUnits a.units
              else q.completed.submittedUnits } }

/-- There is no result when an `expect` fails. -/
def complete (token : Nat) (outcome : ForwardingOutcome) : Option State :=
  match s.pending.get? token with
  | none => some s
  | some (id,index) => do
    let q ← s.quotes.get? id
    let a ← q.attempts[index]?
    let finished := finishQuote q index a outcome
    let s := { s with pending := s.pending.erase token, quotes := s.quotes.modify id fun _ => finished }
    if q.contract.billing.isLegacy then some s
    else match finished.attempts[index]? with
      | none => some s
      | some moved => do
        let _ ← s.pending.get? moved.token
        some { s with pending := s.pending.modify moved.token fun position => (position.1,index) }

end State

/-- What the controller changes through the lock of the writer. -/
inductive Change where
  | checkpoint
  | acceptChannel (provider : NodeAddr) (terms : ChannelTerms) (advanceMsat : Nat)
  | acceptQuote (contract : Contract)
  | closeChannel (id : String)
  | retireClosedRoutes (channel : String) (throughUnix : Nat)

def Change.apply (s : State) : Change → Except BuyerError State
  | .checkpoint => .ok s
  | .acceptChannel provider terms advanceMsat => s.acceptChannel provider terms advanceMsat
  | .acceptQuote contract => s.acceptQuote contract
  | .closeChannel id => s.closeChannel id
  | .retireClosedRoutes channel throughUnix => s.retireClosedRoutes channel throughUnix

/-- What the payment signer is asked for. -/
structure SignRequest where
  id : String
  balance : Nat
  includeFunding : Bool

/-- The buyer, and the file `buyer.json`. While `writing` is set, its holder has the lock of the writer. -/
structure BuyerAuthorizer where
  state : State
  writerReady : Bool := true
  disk : Option State := none
  writing : Option (State × Option SignRequest) := none

inductive Event where
  | begin (request : State.SessionRequest) (localOnly : Bool) (now : Nat) (admits : Bool)
  | prepare (intent : State.SessionIntent) (now : Nat)
  | complete (token : Nat) (outcome : ForwardingOutcome)
  | change (change : Change)
  | closeQuote (id : String)
  | retireChannels (plan : Plan)
  | signClaim (provider : NodeAddr) (id : String) (claimedMsat now : Nat) (includeFunding : Bool)
  | write (outcome : WriteOutcome)
  | reload

namespace BuyerAuthorizer

section Authorizer

variable (b : BuyerAuthorizer)

/-- The state to be saved by `persist`, which suspends the writer until the write is done. -/
def persist (state : State) (sign : Option SignRequest) : BuyerAuthorizer :=
  { b with state, writerReady := false, writing := some (state,sign) }

def create (localAddr : NodeAddr) (totalBudgetSat : Nat) (limits : Limits) :
    Except BuyerError BuyerAuthorizer :=
  if totalBudgetSat = 0 then .error .budget
  else
    let state := ⟨3,localAddr,totalBudgetSat,limits,1,none,∅,∅,∅,∅⟩
    .ok (persist { state } state none)

def load (saved : State) : Except BuyerError BuyerAuthorizer := do
  let state ← saved.validateAndRecover
  return persist { state, disk := some saved } state none

def change (change : Change) : BuyerAuthorizer :=
  match b.writing,b.writerReady,change.apply b.state with
  | none,true,.ok state => b.persist state none
  | _,_,_ => b

/-- A quote is closed in memory even while the writer is suspended. -/
def closeQuote (id : String) : BuyerAuthorizer :=
  match b.writing,b.state.closeQuote id with
  | none,.ok state => if b.writerReady then b.persist state none else { b with state }
  | _,_ => b

def retireChannels (plan : Plan) : BuyerAuthorizer :=
  match b.writing,b.writerReady,b.state.retireChannels plan with
  | none,true,.ok (some state) => b.persist state none
  | _,_,_ => b

def signClaim (provider : NodeAddr) (id : String) (claimedMsat now : Nat) (includeFunding : Bool) :
    BuyerAuthorizer :=
  match b.writing,b.writerReady,b.state.authorize provider id claimedMsat now includeFunding with
  | none,true,.ok (balance,state) => b.persist state (some ⟨id,balance,includeFunding⟩)
  | _,_,_ => b

/-- The end of a write, and what is signed then. -/
def write (outcome : WriteOutcome) : BuyerAuthorizer × Option SignRequest :=
  match b.writing,outcome with
  | some (snapshot,sign),.done =>
    ({ b with disk := some snapshot.saved, writerReady := true, writing := none },sign)
  | some _,.failed => ({ b with writing := none },none)
  | some (snapshot,_),.unsynced => ({ b with disk := some snapshot.saved, writing := none },none)
  | none,_ => (b,none)

end Authorizer

/-- One event, and what the signer is asked for. There is no result when an `expect` fails or the file
does not load. -/
def exec (ext : Externals) (b : BuyerAuthorizer) : Event → Option (BuyerAuthorizer × Option SignRequest)
  | .begin request localOnly now admits =>
    some ({ b with state := (b.state.beginAdmitted ext request localOnly now admits).2 },none)
  | .prepare intent now => some ({ b with state := (b.state.prepareIntent intent now).2 },none)
  | .complete token outcome => (b.state.complete token outcome).map fun state => ({ b with state },none)
  | .change change => some (b.change change,none)
  | .closeQuote id => some (b.closeQuote id,none)
  | .retireChannels plan => some (b.retireChannels plan,none)
  | .signClaim provider id claimedMsat now includeFunding =>
    some (b.signClaim provider id claimedMsat now includeFunding,none)
  | .write outcome => some (b.write outcome)
  | .reload =>
    match b.disk with
    | none => some (b,none)
    | some saved => (load saved).toOption.map fun b => (b,none)

def run (ext : Externals) (b : BuyerAuthorizer) (events : List Event) : Option BuyerAuthorizer :=
  events.foldlM (fun b event => (b.exec ext event).map (·.1)) b

end BuyerAuthorizer

end Fips.Relay.Buyer
