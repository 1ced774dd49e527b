import Fips.Relay.Balance
import Fips.Relay.Retirement

set_option autoImplicit false

/-! The books of the whole ledger, and that every operation keeps them. -/

namespace Fips.Relay

namespace RelayLedger

section Accounts

variable (l : RelayLedger)

def attemptAt (id : String) (d : Digest) : Option Attempt :=
  (l.accounts.get? id).bind fun a => a.attempts.get? d

def reservedOn (id : String) : Nat :=
  l.accounts.total fun _ a => if a.contract.channelId = id then
    a.contract.price.due a.usage.reservedUnits else 0

def submittedOn (id : String) : Nat :=
  l.accounts.total fun _ a => if a.contract.channelId = id then
    a.contract.price.due a.usage.submittedUnits else 0

def related (terms : ChannelTerms) (c : Channel) : Bool :=
  c.terms.id ≠ terms.id ∧ c.terms.buyer = terms.buyer ∧ c.terms.mintUrl = terms.mintUrl

/-- What the buyer of a channel still owes on other channels of the same mint. -/
def carried (terms : ChannelTerms) : Nat :=
  (l.history.map (·.debt terms)).getD 0 + l.channels.total fun _ c =>
    if related terms c then c.usage.debt else 0

/-- The attempts of legacy accounts, by the buyer they were made for. -/
def Fingerprinted (id : String) (buyer : NodeAddr) (d : Digest) : Prop :=
  ∃ a c, l.accounts.get? id = some a ∧ a.contract.billing.isLegacy = true ∧
    l.channels.get? a.contract.channelId = some c ∧ c.terms.buyer = buyer ∧ (a.attempts.get? d).isSome = true

/-- Every account is balanced and belongs to a channel that allows it. -/
structure AccountsSound (l : RelayLedger) : Prop where
  key : ∀ id a, l.accounts.get? id = some a → a.contract.id = id
  balanced : ∀ id a, l.accounts.get? id = some a → a.Balanced l.limits
  channel : ∀ id a, l.accounts.get? id = some a → ∃ c, l.channels.get? a.contract.channelId = some c ∧
    validateContract a.contract c.terms = .ok () ∧ c.retired.rejects a.contract.expiresUnix = false

/-- Every channel has reserved what its accounts, its retired routes and its lost windows reserved, within its
capacity and its credit. -/
structure ChannelsSound (l : RelayLedger) : Prop where
  key : ∀ id c, l.channels.get? id = some c → c.terms.id = id
  terms : ∀ id c, l.channels.get? id = some c → validateChannel c.terms = .ok (c.terms.capacitySat * 1000)
  evidence : ∀ id c, l.channels.get? id = some c → c.retired.valid c.terms.expiresUnix = true
  reserved : ∀ id c, l.channels.get? id = some c →
    c.usage.reservedMsat = c.usage.lostMsat + c.retired.reservedMsat + l.reservedOn id
  submitted : ∀ id c, l.channels.get? id = some c →
    c.usage.submittedMsat = c.retired.submittedMsat + l.submittedOn id
  paid : ∀ id c, l.channels.get? id = some c → c.usage.paidMsat ≤ c.terms.capacitySat * 1000
  capacity : ∀ id c, l.channels.get? id = some c → c.usage.reservedMsat ≤ c.terms.capacitySat * 1000
  credit : ∀ id c, l.channels.get? id = some c → c.usage.reservedMsat ≤ c.usage.paidMsat + c.terms.graceMsat

/-- The tokens in use are those of the attempts that wait for their outcome, each of one attempt only. -/
structure TokensSound (l : RelayLedger) : Prop where
  pending : ∀ t id d, l.pending.get? t = some (id,d) ↔ ∃ x, l.attemptAt id d = some x ∧
    x.token = t ∧ x.state = .pending
  unique : ∀ id d x id' d' x', l.attemptAt id d = some x → l.attemptAt id' d' = some x' → x.token = x'.token →
    id = id' ∧ d = d'
  range : ∀ id d x, l.attemptAt id d = some x → x.token ≠ 0 ∧ x.token ≤ l.nextToken
  room : l.pending.size ≤ l.limits.maxPending
  next : l.nextToken < 2^64

/-- The fingerprints seen are those of the attempts of legacy accounts, each of one account only. -/
structure FingerprintsSound (l : RelayLedger) : Prop where
  seen : ∀ buyer d, (buyer,d) ∈ l.seen ↔ ∃ id, l.Fingerprinted id buyer d
  unique : ∀ id id' buyer d, l.Fingerprinted id buyer d → l.Fingerprinted id' buyer d → id = id'

/-- At most one channel of a buyer and mint is active, and at most one account of a buyer and destination. -/
structure ActivitySound (l : RelayLedger) : Prop where
  channels : ∀ id c id' c', l.channels.get? id = some c → l.channels.get? id' = some c' → c.active = true →
    c'.active = true → c.terms.buyer = c'.terms.buyer → c.terms.mintUrl = c'.terms.mintUrl → id = id'
  accounts : ∀ id a id' a', l.accounts.get? id = some a → l.accounts.get? id' = some a' → a.active = true →
    a'.active = true → l.buyerOf a = l.buyerOf a' →
      a.contract.destination = a'.contract.destination → id = id'
  serves : ∀ id a, l.accounts.get? id = some a → a.active = true →
    ∃ c, l.channels.get? a.contract.channelId = some c ∧ c.active = true

/-- An active channel reserves no more than its relationship allows. -/
structure CreditSound (l : RelayLedger) : Prop where
  carried : ∀ id c, l.channels.get? id = some c → c.active = true → l.carried c.terms < 2^64
  within : ∀ id c, l.channels.get? id = some c → c.active = true →
    c.usage.reservedMsat ≤ U64.saturatingAdd c.usage.paidMsat c.terms.graceMsat - l.carried c.terms

structure BoundsSound (l : RelayLedger) : Prop where
  channels : l.channels.size ≤ l.limits.maxChannels
  accounts : l.accounts.size ≤ l.limits.maxContracts
  history : ∀ h, l.history = some h → h.valid l.limits.maxChannels = true

structure Sound (l : RelayLedger) : Prop where
  accounts : l.AccountsSound
  channels : l.ChannelsSound
  tokens : l.TokensSound
  fingerprints : l.FingerprintsSound
  activity : l.ActivitySound
  credit : l.CreditSound
  bounds : l.BoundsSound

theorem sound_new (limits : Limits) : (new limits).Sound := by
  refine ⟨⟨?_,?_,?_⟩,⟨?_,?_,?_,?_,?_,?_,?_,?_⟩,⟨?_,?_,?_,?_,?_⟩,⟨?_,?_⟩,⟨?_,?_,?_⟩,⟨?_,?_⟩,⟨?_,?_,?_⟩⟩ <;>
    simp [new,attemptAt,Fingerprinted]

theorem sum_related (terms : ChannelTerms) :
    ((l.channelUsages.filter fun c => c.1.id ≠ terms.id ∧ c.1.buyer = terms.buyer ∧
      c.1.mintUrl = terms.mintUrl).map
      fun c => c.2.debt).sum = l.channels.total fun _ c => if related terms c then c.usage.debt else 0 := by
  rw [channelUsages,List.filter_map,List.map_map]
  exact OrderedMap.sum_filter_values l.channels (related terms) fun c => c.usage.debt

end Accounts

variable {l l' : RelayLedger}

theorem BoundsSound.debt_lt (h : l.BoundsSound) (terms : ChannelTerms) :
    (l.history.map (·.debt terms)).getD 0 < 2^64 := by
  cases held : l.history with
  | none => simp
  | some history =>
    obtain ⟨nodup,fits⟩ := History.valid_debts (h.history history held)
    have part : History.owed history.debts terms.owner ≤ (history.debts.map (·.msat)).sum :=
      List.sum_le_sum fun d _ => by split_ifs <;> omega
    simp only [Option.map_some,Option.getD_some,History.debt_eq_owed nodup]
    omega

theorem BoundsSound.reservationLimit_eq (h : l.BoundsSound) (terms : ChannelTerms) (paidMsat : Nat) :
    l.reservationLimit terms paidMsat = if l.carried terms < 2^64 ∧ terms.capacitySat * 1000 < 2^64 then
      some (min (terms.capacitySat * 1000) (U64.saturatingAdd paidMsat terms.graceMsat - l.carried terms))
        else none := by
  have folded : (l.channelUsages.filter fun c =>
      c.1.id ≠ terms.id ∧ c.1.buyer = terms.buyer ∧ c.1.mintUrl = terms.mintUrl).foldlM
      (fun sum c => U64.checkedAdd sum c.2.debt) ((l.history.map (·.debt terms)).getD 0) =
      U64.tryFrom (l.carried terms) := by
    rw [U64.foldlM_checkedAdd _ _ _ (h.debt_lt terms),sum_related]
    rfl
  unfold reservationLimit relationshipReservationLimit
  rw [folded,U64.tryFrom,U64.checkedMul]
  by_cases carries : l.carried terms < 2^64
  · by_cases fits : terms.capacitySat * 1000 < 2^64
    · rw [if_pos carries,if_pos fits,if_pos ⟨carries,fits⟩]
      rfl
    · have beyond : ¬ (l.carried terms < 2^64 ∧ terms.capacitySat * 1000 < 2^64) := fun both => fits both.2
      rw [if_pos carries,if_neg fits,if_neg beyond]
      rfl
  · have beyond : ¬ (l.carried terms < 2^64 ∧ terms.capacitySat * 1000 < 2^64) := fun both => carries both.1
    rw [if_neg carries,if_neg beyond]
    rfl

theorem Sound.reservationLimit_eq (h : l.Sound) {id : String} {c : Channel} (hc : l.channels.get? id = some c)
    (active : c.active = true) : l.reservationLimit c.terms c.usage.paidMsat =
      some (min (c.terms.capacitySat * 1000)
        (U64.saturatingAdd c.usage.paidMsat c.terms.graceMsat - l.carried c.terms)) := by
  obtain ⟨-,fits,-⟩ := validateChannel_eq_ok (h.channels.terms id c hc)
  rw [h.bounds.reservationLimit_eq,if_pos ⟨h.credit.carried id c hc active,fits⟩]

theorem Sound.exists_limit (h : l.Sound) {id : String} {c : Channel} (hc : l.channels.get? id = some c)
    (active : c.active = true) :
    ∃ limit, l.reservationLimit c.terms c.usage.paidMsat = some limit ∧ c.usage.reservedMsat ≤ limit := by
  exact ⟨_,h.reservationLimit_eq hc active,le_min (h.channels.capacity id c hc)
    (h.credit.within id c hc active)⟩

end RelayLedger

end Fips.Relay
