import Fips.Relay.Forwarding
import Fips.Relay.Recovery
import Fips.Relay.Upkeep

set_option autoImplicit false

/-! A ledger is restored from its own snapshot. -/

namespace Fips.Relay

open Checked OrderedMap Account List

namespace Account

def prints (a : Account) (buyer : NodeAddr) (attempts : List (Digest × Attempt)) : List (NodeAddr × Digest) :=
  if a.contract.billing.isLegacy then attempts.map fun e => (buyer,e.1) else []

theorem prints_concat (a : Account) (buyer : NodeAddr) (attempts : List (Digest × Attempt))
    (d : Digest) (t : Attempt) :
    a.prints buyer (attempts ++ [(d,t)]) =
      a.prints buyer attempts ++ if a.contract.billing.isLegacy then [(buyer,d)] else [] := by
  unfold prints
  split_ifs <;> simp

def kept (a : Account) (attempts : List (Digest × Attempt)) : OrderedMap Digest Attempt :=
  if a.contract.billing.isLegacy then ofList (attempts.map fun e => (e.1,e.2.abandon)) else ∅

theorem kept_concat (a : Account) (attempts : List (Digest × Attempt)) (d : Digest) (t : Attempt) :
    a.kept (attempts ++ [(d,t)]) =
      if a.contract.billing.isLegacy then (a.kept attempts).insert d t.abandon else a.kept attempts := by
  unfold kept
  split_ifs
  · rw [map_append]
    exact ofList_concat (attempts.map fun e => (e.1,e.2.abandon)) d t.abandon
  · rfl

theorem get?_kept_of_lt (a : Account) {attempts : List (Digest × Attempt)} {d : Digest}
    (sorted : attempts.Pairwise fun e e' => e.1 < e'.1) (fresh : ∀ e ∈ attempts, e.1 < d) :
    (a.kept attempts).get? d = none := by
  unfold kept
  split_ifs
  · exact get?_ofList_of_lt sorted fresh fun _ => Attempt.abandon
  · rfl

def waiting (attempts : List (Digest × Attempt)) : Nat :=
  (attempts.filter fun e => e.2.state = .pending).length

theorem waiting_concat (attempts : List (Digest × Attempt)) (d : Digest) (t : Attempt) :
    waiting (attempts ++ [(d,t)]) = if t.state = .pending then waiting attempts + 1
      else waiting attempts := by
  unfold waiting
  by_cases h : t.state = .pending <;> simp [h]

end Account

namespace RelayLedger

/-- What the loop over the attempts of an account has collected after some of them, on top of the tokens,
fingerprints and number of waiting attempts it started with. -/
def attemptTotals (a : Account) (buyer : NodeAddr) (tokens : List Nat) (prints : List (NodeAddr × Digest))
    (outstanding : Nat) (done : List (Digest × Attempt)) : AttemptTotals :=
  { reserved := a.completed.reservedUnits + (done.map (·.2.units)).sum
    submitted := a.completed.submittedUnits + (done.map (·.2.unitsIn .submitted)).sum
    unconfirmed := a.completed.unconfirmedUnits +
      (done.map fun e => e.2.unitsIn .unconfirmed + e.2.unitsIn .pending).sum
    previouslyUnconfirmed := a.completed.unconfirmedUnits + (done.map (·.2.unitsIn .unconfirmed)).sum
    attempts := a.kept done
    tokens := (tokens ++ done.map (·.2.token)).toFinset
    seen := (prints ++ a.prints buyer done).toFinset
    outstanding := outstanding + waiting done }

/-- What recovery checks of one attempt. -/
structure Restorable (limits : Limits) (nextToken : Nat) (a : Account) (buyer : NodeAddr) (tokens : List Nat)
    (prints : List (NodeAddr × Digest)) (outstanding : Nat) (done : List (Digest × Attempt))
    (d : Digest) (t : Attempt) :
    Prop where
  token : t.token ≠ 0 ∧ t.token ≤ nextToken
  freshToken : t.token ∉ tokens ++ done.map (·.2.token)
  positive : t.units ≠ 0
  freshDigest : ∀ e ∈ done, e.1 < d
  modern : a.contract.billing.isLegacy = false → d = attemptKey t.token ∧ t.state = .pending
  fits : a.completed.reservedUnits + (done.map (·.2.units)).sum + t.units < 2^64
  freshPrint : a.contract.billing.isLegacy = true → (buyer,d) ∉ prints ++ a.prints buyer done
  room : t.state = .pending → outstanding + waiting done + 1 ≤ limits.maxPending

theorem sum_unitsIn (done : List (Digest × Attempt)) :
    (done.map (·.2.units)).sum = (done.map (·.2.unitsIn .submitted)).sum +
      (done.map fun e => e.2.unitsIn .unconfirmed + e.2.unitsIn .pending).sum := by
  rw [← sum_map_add]
  congr 1
  refine map_congr_left fun e _ => ?_
  cases state : e.2.state <;> simp [Attempt.unitsIn,state]

theorem sum_unconfirmed_le (done : List (Digest × Attempt)) :
    (done.map (·.2.unitsIn .unconfirmed)).sum ≤
      (done.map fun e => e.2.unitsIn .unconfirmed + e.2.unitsIn .pending).sum :=
  sum_le_sum fun _ _ => Nat.le_add_right _ _

variable {limits : Limits} {a : Account} {buyer : NodeAddr} {tokens : List Nat}
  {prints : List (NodeAddr × Digest)} {outstanding nextToken : Nat}

theorem restoreAttempt_follows {done : List (Digest × Attempt)} {d : Digest} {t : Attempt}
    (completed : a.completed.reservedUnits = a.completed.submittedUnits + a.completed.unconfirmedUnits)
    (sorted : done.Pairwise fun e e' => e.1 < e'.1)
    (r : Restorable limits nextToken a buyer tokens prints outstanding done d t) :
    restoreAttempt limits nextToken a.contract.billing.isLegacy buyer
      (attemptTotals a buyer tokens prints outstanding done) (d,t) =
      .ok (attemptTotals a buyer tokens prints outstanding (done ++ [(d,t)])) := by
  have split := sum_unitsIn done
  have less := sum_unconfirmed_le done
  have fits := r.fits
  have unknown : (attemptTotals a buyer tokens prints outstanding done).attempts.get? d = none :=
    a.get?_kept_of_lt sorted r.freshDigest
  have known : ¬ (t.token = 0 ∨ nextToken < t.token ∨
      t.token ∈ (attemptTotals a buyer tokens prints outstanding done).tokens ∨ t.units = 0 ∨
      (attemptTotals a buyer tokens prints outstanding done).attempts.contains d = true ∨
      (!a.contract.billing.isLegacy) = true ∧ (d ≠ attemptKey t.token ∨ t.state ≠ .pending)) := by
    rintro (zero | late | again | none | twice | ⟨modern,wrong⟩)
    · exact r.token.1 zero
    · exact absurd r.token.2 (Nat.not_le.2 late)
    · exact r.freshToken (mem_toFinset.1 again)
    · exact r.positive none
    · simp [unknown] at twice
    · obtain ⟨keyed,waiting⟩ := r.modern (by simpa using modern)
      exact wrong.elim (fun h => h keyed) fun h => h waiting
  have unprinted : ¬ (a.contract.billing.isLegacy = true ∧
      (buyer,d) ∈ (attemptTotals a buyer tokens prints outstanding done).seen) :=
    fun both => r.freshPrint both.1 (mem_toFinset.1 both.2)
  unfold restoreAttempt
  simp only [throwIf_eq_ok,bind_eq_ok,orInvalid,elim_eq_ok]
  refine ⟨known,_,U64.checkedAdd_eq_some.2 ⟨fits,rfl⟩,unprinted,?_,?_⟩
  · rintro ⟨waiting,beyond⟩
    rw [if_pos waiting] at beyond
    exact absurd (r.room waiting) (Nat.not_le.2 beyond)
  · refine congrArg Except.ok ?_
    simp only [attemptTotals,AttemptTotals.mk.injEq,map_append,map_cons,map_nil,sum_append,
      sum_cons,sum_nil,Nat.add_zero,← Nat.add_assoc,true_and,kept_concat,waiting_concat]
    refine ⟨?_,?_,?_,?_,?_,?_⟩
    · by_cases state : t.state = .submitted
      · rw [if_pos state,Attempt.unitsIn,if_pos state,U64.wrappingAdd_eq (by omega)]
      · rw [if_neg state,Attempt.unitsIn,if_neg state,Nat.add_zero]
    · by_cases state : t.state = .submitted
      · simp [state,Attempt.unitsIn]
      · rw [U64.wrappingAdd_eq (by omega)]
        cases other : t.state <;> simp [other,Attempt.unitsIn] at state ⊢
    · by_cases state : t.state = .unconfirmed
      · rw [if_pos state,Attempt.unitsIn,if_pos state,U64.wrappingAdd_eq (by omega)]
      · rw [if_neg state,Attempt.unitsIn,if_neg state,Nat.add_zero]
    · rw [← append_assoc,toFinset_concat]
    · rw [prints_concat,← append_assoc]
      split_ifs
      · exact (toFinset_concat _ _).symm
      · simp
    · split_ifs <;> rfl

theorem sum_unitsIn_entries (a : Account) (s : AttemptState) :
    (a.attempts.entries.map (·.2.unitsIn s)).sum = a.unitsIn s := rfl

theorem sum_lost_entries (a : Account) :
    (a.attempts.entries.map fun e => e.2.unitsIn .unconfirmed + e.2.unitsIn .pending).sum =
      a.unitsIn .unconfirmed + a.unitsIn .pending := sum_map_add

theorem sum_units_entries (balanced : a.Balanced limits) :
    a.completed.reservedUnits + (a.attempts.entries.map (·.2.units)).sum = a.usage.reservedUnits := by
  have reserved := balanced.reserved
  have submitted := balanced.submitted
  have unconfirmed := balanced.unconfirmed
  have completed := balanced.completed
  rw [sum_unitsIn,sum_unitsIn_entries,sum_lost_entries]
  omega

theorem attemptTotals_nil : attemptTotals a buyer tokens prints outstanding [] =
      ⟨a.completed.reservedUnits,a.completed.submittedUnits,a.completed.unconfirmedUnits,
        a.completed.unconfirmedUnits,∅,
        tokens.toFinset,prints.toFinset,outstanding⟩ := by
  have empty : a.kept [] = ∅ := by
    unfold kept
    split_ifs <;> rfl
  simp [attemptTotals,empty,Account.prints,Account.waiting]

theorem attemptTotals_entries (balanced : a.Balanced limits) :
    attemptTotals a buyer tokens prints outstanding a.attempts.entries =
      { reserved := a.usage.reservedUnits
        submitted := a.usage.submittedUnits
        unconfirmed := a.usage.unconfirmedUnits + a.unitsIn .pending
        previouslyUnconfirmed := a.usage.unconfirmedUnits
        attempts := a.kept a.attempts.entries
        tokens := (tokens ++ a.attempts.entries.map (·.2.token)).toFinset
        seen := (prints ++ a.prints buyer a.attempts.entries).toFinset
        outstanding := outstanding + waiting a.attempts.entries } := by
  unfold attemptTotals
  rw [sum_units_entries balanced,sum_lost_entries,sum_unitsIn_entries,sum_unitsIn_entries,balanced.submitted,
    balanced.unconfirmed,Nat.add_assoc]

/-- The attempts of a balanced account are restored when their tokens and fingerprints are new and there
is room for those that wait. -/
theorem foldlM_restoreAttempt (balanced : a.Balanced limits)
    (range : ∀ d t, a.attempts.get? d = some t → t.token ≠ 0 ∧ t.token ≤ nextToken)
    (freshTokens : (tokens ++ a.attempts.entries.map (·.2.token)).Nodup)
    (freshPrints : (prints ++ a.prints buyer a.attempts.entries).Nodup)
    (room : outstanding + waiting a.attempts.entries ≤ limits.maxPending) :
    a.attempts.entries.foldlM (restoreAttempt limits nextToken a.contract.billing.isLegacy buyer)
      (attemptTotals a buyer tokens prints outstanding []) =
      .ok (attemptTotals a buyer tokens prints outstanding a.attempts.entries) := by
  refine foldlM_follows (attemptTotals a buyer tokens prints outstanding) a.attempts.entries ?_
  rintro before ⟨d,t⟩ part
  have held := get?_of_part part
  have sorted := a.attempts.sorted.sublist part.sublist
  refine restoreAttempt_follows balanced.completed (pairwise_append.1 sorted).1 ⟨range d t held,
    notMem_of_part part freshTokens,balanced.positive d t held,
    fun e he => (earlier_of_part part he).2,?_,?_,?_,?_⟩
  · intro modern
    exact ⟨balanced.keyed modern d t held,balanced.waiting modern d t held⟩
  · have fits := balanced.fits
    have total := sum_units_entries balanced
    have units : (before.map (·.2.units)).sum + t.units ≤ _ := sum_le_of_part part _
    omega
  · intro legacy
    simp only [Account.prints,legacy] at freshPrints ⊢
    exact notMem_of_part part freshPrints
  · intro waiting
    have less : Account.waiting (before ++ [(d,t)]) ≤ Account.waiting a.attempts.entries :=
      (part.sublist.filter _).length_le
    rw [waiting_concat,if_pos waiting] at less
    omega

end RelayLedger

def Account.settled (a : Account) : Account := sealed { a with active := false }

theorem Account.kept_entries (a : Account) :
    a.kept a.attempts.entries = if a.contract.billing.isLegacy then
      a.attempts.mapValues Attempt.abandon else ∅ := by
  unfold kept
  split_ifs
  · exact ofList_entries (a.attempts.mapValues Attempt.abandon)
  · rfl

theorem Account.Balanced.settled_eq {limits : Limits} {a : Account} (h : a.Balanced limits) :
    a.settled =
      let usage := { a.usage with unconfirmedUnits := a.usage.unconfirmedUnits + a.unitsIn .pending }
      ⟨a.contract,usage,a.kept a.attempts.entries,if a.contract.billing.isLegacy then
        {} else usage,false⟩ := by
  have usage : a.settled.usage = _ := (h.setActive false).usage_sealed
  have forgotten := h.forgotten
  unfold Account.settled Account.sealed at usage ⊢
  rw [a.kept_entries]
  split_ifs at usage ⊢ with legacy
  · simp only at usage ⊢
    rw [usage,forgotten legacy]
    rfl
  · simp only at usage ⊢
    rw [usage]
    rfl

namespace RelayLedger

def costOn (units : Usage → Nat) (id : String) (accounts : List (String × Account)) : Nat :=
  (accounts.map fun e =>
    if e.2.contract.channelId = id then e.2.contract.price.due (units e.2.usage) else 0).sum

def tokensOf (accounts : List (String × Account)) : List Nat :=
  accounts.flatMap fun e => e.2.attempts.entries.map (·.2.token)

def printsOf (l : RelayLedger) (accounts : List (String × Account)) : List (NodeAddr × Digest) :=
  accounts.flatMap fun e => (l.buyerOf e.2).elim [] fun buyer => e.2.prints buyer e.2.attempts.entries

def waitingOf (accounts : List (String × Account)) : Nat :=
  (accounts.map fun e => waiting e.2.attempts.entries).sum

/-- What the loop over the accounts has collected after some of them. -/
def accountTotals (l : RelayLedger) (done : List (String × Account)) : AccountTotals :=
  { channels := l.channels.mapWithKey fun id c => { c with
      active := false
      usage := { c.usage with
        reservedMsat := c.usage.lostMsat + c.retired.reservedMsat + costOn (·.reservedUnits) id done
        submittedMsat := c.retired.submittedMsat + costOn (·.submittedUnits) id done } }
    accounts := ofList (done.map fun e => (e.1,e.2.settled))
    tokens := (tokensOf done).toFinset
    seen := (l.printsOf done).toFinset
    outstanding := waitingOf done }

variable {l : RelayLedger} {id : String} {a : Account}

theorem attemptAt_of_mem {d : Digest} {t : Attempt} (ha : (id,a) ∈ l.accounts.entries)
    (ht : (d,t) ∈ a.attempts.entries) : l.attemptAt id d = some t := by
  simp [attemptAt,mem_entries.1 ha,mem_entries.1 ht]

theorem TokensSound.nodup_tokensOf (h : l.TokensSound) : (tokensOf l.accounts.entries).Nodup := by
  refine nodup_flatMap.2 ⟨?_,?_⟩
  · rintro ⟨id,a⟩ ha
    have nodup : a.attempts.entries.Nodup := a.attempts.sorted.imp fun less same => (same ▸ less).false
    refine nodup.map_on ?_
    rintro ⟨d,t⟩ ht ⟨e,u⟩ hu same
    have ht' := attemptAt_of_mem ha ht
    have hu' := attemptAt_of_mem ha hu
    obtain ⟨-,rfl⟩ := h.unique _ _ _ _ _ _ ht' hu' same
    rw [ht'] at hu'
    rw [Option.some.inj hu']
  · refine l.accounts.sorted.imp_of_mem ?_
    rintro ⟨id,a⟩ ⟨id',a'⟩ ha ha' less token hm hm'
    obtain ⟨⟨d,t⟩,ht,rfl⟩ := mem_map.1 hm
    obtain ⟨⟨e,u⟩,hu,same⟩ := mem_map.1 hm'
    obtain ⟨rfl,-⟩ := h.unique _ _ _ _ _ _ (attemptAt_of_mem ha ht) (attemptAt_of_mem ha' hu) same.symm
    exact less.false

theorem mem_prints_iff (ha : l.accounts.get? id = some a) (buyer : NodeAddr) (d : Digest) :
    ((buyer,d) ∈ (l.buyerOf a).elim [] fun b => a.prints b a.attempts.entries) ↔
      l.Fingerprinted id buyer d := by
  constructor
  · intro hm
    cases owner : l.buyerOf a with
    | none => simp [owner] at hm
    | some b =>
      simp only [owner,prints] at hm
      split_ifs at hm with legacy
      · obtain ⟨⟨e,t⟩,ht,same⟩ := mem_map.1 hm
        obtain ⟨rfl,rfl⟩ := Prod.mk.inj same
        obtain ⟨c,hc,rfl⟩ := Option.map_eq_some_iff.1 owner
        exact ⟨a,c,ha,legacy,hc,rfl,by simp [mem_entries.1 ht]⟩
      · cases hm
  · rintro ⟨a',c,ha',legacy,hc,rfl,attempt⟩
    cases ha.symm.trans ha'
    obtain ⟨t,ht⟩ := Option.isSome_iff_exists.1 attempt
    have owner : l.buyerOf a = some c.terms.buyer := by rw [buyerOf,hc,Option.map_some]
    simp only [owner,prints,legacy]
    exact mem_map.2 ⟨(d,t),mem_entries.2 ht,rfl⟩

theorem FingerprintsSound.nodup_printsOf (h : l.FingerprintsSound) :
    (l.printsOf l.accounts.entries).Nodup := by
  refine nodup_flatMap.2 ⟨?_,?_⟩
  · rintro ⟨id,a⟩ -
    cases l.buyerOf a with
    | none => exact nodup_nil
    | some b =>
      unfold prints
      split_ifs
      · exact List.Pairwise.map _ (fun e e' (less : e.1 < e'.1) same => less.ne (Prod.mk.inj same).2)
          a.attempts.sorted
      · exact nodup_nil
  · refine l.accounts.sorted.imp_of_mem ?_
    rintro ⟨id,a⟩ ⟨id',a'⟩ ha ha' less ⟨buyer,d⟩ hm hm'
    have print := (mem_prints_iff (mem_entries.1 ha) buyer d).1 hm
    have print' := (mem_prints_iff (mem_entries.1 ha') buyer d).1 hm'
    exact less.ne (h.unique id id' buyer d print print')

/-- No more attempts wait for their outcome than there are tokens in use. -/
theorem TokensSound.waitingOf_le (h : l.TokensSound) :
    waitingOf l.accounts.entries ≤ l.limits.maxPending := by
  have length : waitingOf l.accounts.entries =
      (l.accounts.entries.flatMap fun e => e.2.pendingTokens).length := by
    unfold waitingOf
    simp [waiting,pendingTokens,values,filter_map,Function.comp_def]
  have nodup : (l.accounts.entries.flatMap fun e => e.2.pendingTokens).Nodup := by
    refine h.nodup_tokensOf.sublist (List.Sublist.flatMap_right _ ?_)
    intro e _
    rw [pendingTokens,values,filter_map,map_map]
    exact filter_sublist.map _
  have inUse : (l.accounts.entries.flatMap fun e => e.2.pendingTokens) ⊆ l.pending.entries.map Prod.fst := by
    intro token hm
    obtain ⟨⟨id,a⟩,ha,waits⟩ := mem_flatMap.1 hm
    obtain ⟨d,t,ht,rfl,waiting⟩ := mem_pendingTokens.1 waits
    have held := (h.pending t.token id d).2 ⟨t,attemptAt_of_mem ha (mem_entries.2 ht),rfl,waiting⟩
    exact mem_map.2 ⟨_,mem_entries.2 held,rfl⟩
  have few := (subperm_of_subset nodup inUse).length_le
  rw [length_map] at few
  exact length.trans_le (few.trans h.room)

variable {c : Channel}

theorem get?_accountTotals (done : List (String × Account)) (hc : l.channels.get? id = some c) :
    (l.accountTotals done).channels.get? id = some { c with
      active := false
      usage := { c.usage with
        reservedMsat := c.usage.lostMsat + c.retired.reservedMsat + costOn (·.reservedUnits) id done
        submittedMsat := c.retired.submittedMsat + costOn (·.submittedUnits) id done } } := by
  rw [accountTotals,get?_mapWithKey,hc]
  rfl

theorem costOn_concat (units : Usage → Nat) (i : String) (done : List (String × Account))
    (id : String) (a : Account) :
    costOn units i (done ++ [(id,a)]) =
      costOn units i done + if a.contract.channelId = i then a.contract.price.due (units a.usage) else 0 := by
  simp [costOn]

variable {done : List (String × Account)}

theorem costOn_le (units : Usage → Nat) {all : List (String × Account)} (part : done ++ [(id,a)] <+: all) :
    costOn units a.contract.channelId done + a.contract.price.due (units a.usage) ≤
      costOn units a.contract.channelId all := by
  have less := sum_le_of_part part fun e =>
    if e.2.contract.channelId = a.contract.channelId then e.2.contract.price.due (units e.2.usage) else 0
  rwa [if_pos rfl] at less

variable {version : Nat}

theorem Sound.admissible (h : l.Sound) (modern : version ≠ 3)
    (part : done ++ [(id,a)] <+: l.accounts.entries) :
    admissible l.limits version (l.accountTotals done).accounts a.snapshot = true := by
  have held := get?_of_part part
  have balanced := h.accounts.balanced id a held
  have key := h.accounts.key id a held
  have unknown : (l.accountTotals done).accounts.get? id = none := get?_ofList_of_part part fun _ => settled
  have fits := balanced.fits
  have reserved := balanced.reserved
  have submitted := balanced.submitted
  have unconfirmed := balanced.unconfirmed
  have completed := balanced.completed
  unfold RelayLedger.admissible Account.snapshot
  simp only [decide_eq_true_eq,Bool.not_eq_true',contains_eq,key,unknown,Option.isSome_none]
  refine ⟨trivial,?_,?_,?_,?_⟩
  · rintro ⟨legacy,beyond⟩
    exact absurd (balanced.packets legacy) (Nat.not_le.2 beyond)
  · exact fun both => modern both.1
  · exact U64.checkedAdd_eq_some.2 ⟨by omega,completed.symm⟩
  · rintro ⟨legacy,nonzero⟩
    rw [balanced.forgotten legacy] at nonzero
    exact nonzero rfl

theorem Sound.restoreAttempts_follows (h : l.Sound) {buyer : NodeAddr}
    (part : done ++ [(id,a)] <+: l.accounts.entries) (owner : l.buyerOf a = some buyer) :
    a.attempts.entries.foldlM (restoreAttempt l.limits l.nextToken a.contract.billing.isLegacy buyer)
      (attemptTotals a buyer (tokensOf done) (l.printsOf done) (waitingOf done) []) =
      .ok (attemptTotals a buyer (tokensOf done) (l.printsOf done) (waitingOf done) a.attempts.entries) := by
  have held := get?_of_part part
  have prints := nodup_flatMap_of_part part h.fingerprints.nodup_printsOf
  rw [owner] at prints
  refine foldlM_restoreAttempt (h.accounts.balanced id a held) ?_
    (nodup_flatMap_of_part part h.tokens.nodup_tokensOf) prints
    ((sum_le_of_part part _).trans h.tokens.waitingOf_le)
  intro d t ht
  exact h.tokens.range id d t (attemptAt_of_mem (mem_entries.2 held) (mem_entries.2 ht))

/-- The price of what an account reserved, and of what it submitted, can still be added to its channel. -/
theorem Sound.costs_fit (h : l.Sound) (part : done ++ [(id,a)] <+: l.accounts.entries)
    (hc : l.channels.get? a.contract.channelId = some c) :
    c.usage.lostMsat + c.retired.reservedMsat + costOn (·.reservedUnits) a.contract.channelId done +
        a.contract.price.due a.usage.reservedUnits < 2^64 ∧
      c.retired.submittedMsat + costOn (·.submittedUnits) a.contract.channelId done +
        a.contract.price.due a.usage.submittedUnits < 2^64 := by
  have reserved := h.channels.reserved _ c hc
  have submitted := h.channels.submitted _ c hc
  have capacity := h.channels.capacity _ c hc
  obtain ⟨-,fits,-⟩ := validateChannel_eq_ok (h.channels.terms _ c hc)
  have less := h.submitted_add_lost_le hc
  have reservedPart := costOn_le (·.reservedUnits) part
  have submittedPart := costOn_le (·.submittedUnits) part
  have all : l.reservedOn a.contract.channelId =
      costOn (·.reservedUnits) a.contract.channelId l.accounts.entries := rfl
  have all' : l.submittedOn a.contract.channelId =
      costOn (·.submittedUnits) a.contract.channelId l.accounts.entries := rfl
  omega

theorem Sound.restoreAccount_follows (h : l.Sound) (modern : version ≠ 3)
    (part : done ++ [(id,a)] <+: l.accounts.entries) :
    restoreAccount l.limits version l.nextToken (l.accountTotals done) a.snapshot =
      .ok (l.accountTotals (done ++ [(id,a)])) := by
  have held := get?_of_part part
  have balanced := h.accounts.balanced id a held
  have key := h.accounts.key id a held
  have admissible := h.admissible modern part
  obtain ⟨c,hc,valid,live⟩ := h.accounts.channel id a held
  have owner : l.buyerOf a = some c.terms.buyer := by rw [buyerOf,hc,Option.map_some]
  have attempts := h.restoreAttempts_follows part owner
  rw [attemptTotals_nil,attemptTotals_entries balanced] at attempts
  obtain ⟨reservedFits,submittedFits⟩ := h.costs_fit part hc
  have priced := (validateContract_eq_ok valid).2.1
  have allowed := balanced.allowed
  have less : a.usage.submittedUnits ≤ a.usage.reservedUnits := by
    have reserved := balanced.reserved
    omega
  unfold restoreAccount
  simp only [throwIf_eq_ok,bind_eq_ok,orInvalid,elim_eq_ok]
  refine ⟨by simp [admissible],_,get?_accountTotals done hc,by simpa [Account.snapshot] using live,
    (),?_,_,attempts,?_,_,BytePrice.amountDueMsat_of_le priced allowed,_,BytePrice.amountDueMsat_of_le
      priced (less.trans allowed),_,
    U64.checkedAdd_eq_some.2 ⟨reservedFits,rfl⟩,_,U64.checkedAdd_eq_some.2 ⟨submittedFits,rfl⟩,?_⟩
  · show (validateContract a.contract c.terms).toOption = some ()
    rw [valid]
    rfl
  · rintro (wrong | wrong | wrong | beyond)
    · exact wrong rfl
    · exact wrong rfl
    · exact wrong rfl
    · exact absurd allowed (Nat.not_le.2 beyond)
  · refine congrArg Except.ok ?_
    simp only [accountTotals,AccountTotals.mk.injEq]
    refine ⟨?_,?_,?_,?_,?_⟩
    · refine OrderedMap.ext fun i => ?_
      rw [get?_modify,get?_mapWithKey,get?_mapWithKey,Option.map_map]
      refine Option.map_congr fun d hd => ?_
      rw [Function.comp_apply]
      split_ifs with here
      · replace here : a.contract.channelId = i := here.symm
        subst here
        rw [hc] at hd
        cases hd
        rw [costOn_concat,costOn_concat,if_pos rfl,if_pos rfl,← Nat.add_assoc,← Nat.add_assoc]
        rfl
      · have other : a.contract.channelId ≠ i := fun same => here same.symm
        rw [costOn_concat,costOn_concat,if_neg other,if_neg other,Nat.add_zero,Nat.add_zero]
    · rw [map_append]
      refine Eq.trans ?_ (ofList_concat (done.map fun e => (e.1,e.2.settled)) id a.settled).symm
      rw [balanced.settled_eq]
      show OrderedMap.insert _ a.contract.id _ = _
      rw [key]
      rfl
    · simp [tokensOf]
    · simp [printsOf,owner]
    · simp [waitingOf]

def withoutAccounts (c : Channel) : Channel := { c with
  active := false
  usage := { c.usage with
    reservedMsat := c.usage.lostMsat + c.retired.reservedMsat
    submittedMsat := c.retired.submittedMsat } }

theorem ChannelsSound.restoreChannel_follows (h : l.ChannelsSound) (modern : 5 ≤ version)
    {done : List (String × Channel)} (part : done ++ [(id,c)] <+: l.channels.entries) :
    restoreChannel version (ofList (done.map fun e => (e.1,withoutAccounts e.2))) c.snapshot =
      .ok (ofList ((done ++ [(id,c)]).map fun e => (e.1,withoutAccounts e.2))) := by
  have held := get?_of_part part
  have key := h.key id c held
  have unknown : (ofList (done.map fun e => (e.1,withoutAccounts e.2))).get? id = none :=
    get?_ofList_of_part part fun _ => withoutAccounts
  have evidence : RetiredRouteEvidence.recovered (some c.retired) (5 ≤ version) c.terms.expiresUnix =
      some c.retired := by
    simp [RetiredRouteEvidence.recovered,h.evidence id c held,modern]
  have cap : (validateChannel c.terms).toOption = some (c.terms.capacitySat * 1000) := by
    rw [h.terms id c held]
    rfl
  have paid := h.paid id c held
  have capacity := h.capacity id c held
  have credit := h.credit id c held
  have reserved := h.reserved id c held
  obtain ⟨-,fits,-⟩ := validateChannel_eq_ok (h.terms id c held)
  unfold restoreChannel
  simp only [throwIf_eq_ok,bind_eq_ok,orInvalid,elim_eq_ok]
  refine ⟨_,evidence,_,cap,?_,_,U64.checkedAdd_eq_some.2 ⟨?_,rfl⟩,?_⟩
  · rintro (beyond | beyond | beyond | less | again)
    · exact absurd paid (Nat.not_le.2 beyond)
    · exact absurd capacity (Nat.not_le.2 beyond)
    · have saturated : U64.saturatingAdd c.usage.paidMsat c.terms.graceMsat < c.usage.reservedMsat := beyond
      unfold U64.saturatingAdd at saturated
      omega
    · have lost : c.usage.reservedMsat < c.usage.lostMsat := less
      omega
    · have found : (ofList (done.map fun e => (e.1,withoutAccounts e.2))).contains c.terms.id = true := again
      rw [contains_eq,key,unknown] at found
      cases found
  · show c.usage.lostMsat + c.retired.reservedMsat < 2^64
    omega
  · refine congrArg Except.ok ?_
    rw [map_append]
    refine Eq.trans ?_ (ofList_concat (done.map fun e => (e.1,withoutAccounts e.2))
      id (withoutAccounts c)).symm
    show OrderedMap.insert _ c.terms.id _ = _
    rw [key]
    rfl

def settled (l : RelayLedger) : RelayLedger :=
  { l with
    channels := l.channels.mapValues fun c => { c with active := false }
    accounts := l.accounts.mapValues Account.settled
    pending := ∅ }

theorem ChannelsSound.accountTotals_entries (h : l.ChannelsSound) :
    (l.accountTotals l.accounts.entries).channels = l.settled.channels := by
  refine OrderedMap.ext fun id => ?_
  cases held : l.channels.get? id with
  | none => simp [accountTotals,settled,held]
  | some c =>
    have reserved : c.usage.lostMsat + c.retired.reservedMsat +
        costOn (·.reservedUnits) id l.accounts.entries =
        c.usage.reservedMsat := (h.reserved id c held).symm
    have submitted : c.retired.submittedMsat + costOn (·.submittedUnits) id l.accounts.entries =
        c.usage.submittedMsat := (h.submitted id c held).symm
    rw [get?_accountTotals _ held,reserved,submitted,settled,get?_mapValues,held]
    rfl

theorem FingerprintsSound.accountTotals_entries (h : l.FingerprintsSound) :
    (l.accountTotals l.accounts.entries).seen = l.seen := by
  ext ⟨buyer,d⟩
  show (buyer,d) ∈ (l.printsOf l.accounts.entries).toFinset ↔ _
  rw [mem_toFinset,printsOf,mem_flatMap,h.seen]
  constructor
  · rintro ⟨⟨id,a⟩,ha,hm⟩
    exact ⟨id,(mem_prints_iff (mem_entries.1 ha) buyer d).1 hm⟩
  · rintro ⟨id,print⟩
    have found := print
    obtain ⟨a,-,ha,-⟩ := found
    exact ⟨(id,a),mem_entries.2 ha,(mem_prints_iff ha buyer d).2 print⟩

theorem ChannelsSound.foldlM_restoreChannel (h : l.ChannelsSound) (modern : 5 ≤ version) :
    l.snapshot.channels.foldlM (restoreChannel version) ∅ = .ok (l.channels.mapValues withoutAccounts) := by
  have loop := foldlM_follows
    (fun done : List (String × Channel) => ofList (done.map fun e => (e.1,withoutAccounts e.2)))
    l.channels.entries (f := fun m e => restoreChannel version m e.2.snapshot)
    fun done x part => h.restoreChannel_follows modern part
  have whole : ofList (l.channels.entries.map fun e => (e.1,withoutAccounts e.2)) =
      l.channels.mapValues withoutAccounts := ofList_entries (l.channels.mapValues withoutAccounts)
  rw [whole] at loop
  show (l.channels.values.map Channel.snapshot).foldlM _ _ = _
  rw [values,map_map,foldlM_map]
  exact loop

theorem Sound.foldlM_restoreAccount (h : l.Sound) (modern : 5 ≤ version) :
    l.snapshot.accounts.foldlM (restoreAccount l.limits version l.nextToken)
      ⟨l.channels.mapValues withoutAccounts,∅,∅,∅,0⟩ = .ok (l.accountTotals l.accounts.entries) := by
  have loop := foldlM_follows l.accountTotals l.accounts.entries
    (f := fun acc e => restoreAccount l.limits version l.nextToken acc e.2.snapshot)
    fun done x part => h.restoreAccount_follows (by omega) part
  show (l.accounts.values.map Account.snapshot).foldlM _ _ = _
  rw [values,map_map,foldlM_map]
  exact loop

theorem version_snapshot (l : RelayLedger) : l.snapshot.version = if l.history.isSome then 6 else 5 := rfl

/-- A ledger is restored from its own snapshot, with nothing active and nothing waiting. -/
theorem Sound.restore_snapshot (h : l.Sound) : restore l.snapshot = .ok l.settled := by
  have version : 5 ≤ l.snapshot.version ∧ l.snapshot.version ≤ 6 := by
    rw [version_snapshot]
    split_ifs <;> decide
  have sizes : ¬ (¬ (3 ≤ l.snapshot.version ∧ l.snapshot.version ≤ 6) ∨
      l.snapshot.limits.maxChannels < l.snapshot.channels.length ∨
      l.snapshot.limits.maxContracts < l.snapshot.accounts.length) := by
    have channels : l.snapshot.channels.length = l.channels.size := by simp [snapshot,values,OrderedMap.size]
    have accounts : l.snapshot.accounts.length = l.accounts.size := by simp [snapshot,values,OrderedMap.size]
    have room := h.bounds.channels
    have room' := h.bounds.accounts
    show ¬ (_ ∨ l.limits.maxChannels < _ ∨ l.limits.maxContracts < _)
    omega
  have agree : ¬ (!l.snapshot.channels.all fun saved =>
      ((l.accountTotals l.accounts.entries).channels.get? saved.terms.id).map (·.usage) = some saved.usage) =
        true := by
    rw [h.channels.accountTotals_entries,Bool.not_eq_true',Bool.not_eq_false,all_eq_true]
    intro saved hs
    obtain ⟨c,hc,rfl⟩ := mem_map.1 hs
    obtain ⟨id,held⟩ := mem_values.1 hc
    have key : c.snapshot.terms.id = id := h.channels.key id c held
    rw [key,settled,get?_mapValues,held]
    exact decide_eq_true rfl
  have same : (⟨l.limits,l.history,(l.accountTotals l.accounts.entries).seen,
      (l.accountTotals l.accounts.entries).channels,(l.accountTotals l.accounts.entries).accounts,
        ∅,l.nextToken⟩ :
      RelayLedger) = l.settled := by
    rw [h.channels.accountTotals_entries,h.fingerprints.accountTotals_entries]
    have accounts : (l.accountTotals l.accounts.entries).accounts = l.accounts.mapValues Account.settled :=
      ofList_entries (l.accounts.mapValues Account.settled)
    rw [accounts]
    rfl
  have saved : l.snapshot.history = l.history := rfl
  unfold restore
  cases held : l.history with
  | none =>
    have early : ¬ ¬ l.snapshot.version < 6 := by simp [version_snapshot,held]
    rw [held] at same
    simp only [throwIf_eq_ok,bind_eq_ok,saved,held]
    exact ⟨sizes,early,_,h.channels.foldlM_restoreChannel version.1,_,h.foldlM_restoreAccount version.1,agree,
      congrArg Except.ok same⟩
  | some past =>
    have late : ¬ ¬ (l.snapshot.version = 6 ∧ past.valid l.snapshot.limits.maxChannels = true) :=
      not_not_intro ⟨by simp [version_snapshot,held],h.bounds.history past held⟩
    rw [held] at same
    simp only [throwIf_eq_ok,bind_eq_ok,saved,held]
    exact ⟨sizes,late,_,h.channels.foldlM_restoreChannel version.1,_,h.foldlM_restoreAccount version.1,agree,
      congrArg Except.ok same⟩

end RelayLedger

end Fips.Relay
