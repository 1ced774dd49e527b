import Fips.Relay.Outcomes

set_option autoImplicit false

/-! The books of one account. -/

namespace Fips.Relay

open OrderedMap

def Attempt.unitsIn (s : AttemptState) (t : Attempt) : Nat := if t.state = s then t.units else 0

namespace Account

def unitsIn (a : Account) (s : AttemptState) : Nat := a.attempts.total fun _ t => t.unitsIn s

/-- Every unit reserved on an account is submitted, unconfirmed or waiting for its outcome, and no more
are reserved than the agreement allows. -/
structure Balanced (limits : Limits) (a : Account) : Prop where
  reserved : a.usage.reservedUnits = a.usage.submittedUnits + a.usage.unconfirmedUnits + a.unitsIn .pending
  submitted : a.usage.submittedUnits = a.completed.submittedUnits + a.unitsIn .submitted
  unconfirmed : a.usage.unconfirmedUnits = a.completed.unconfirmedUnits + a.unitsIn .unconfirmed
  completed : a.completed.reservedUnits = a.completed.submittedUnits + a.completed.unconfirmedUnits
  allowed : a.usage.reservedUnits ≤ a.contract.maxUnits
  fits : a.usage.reservedUnits < 2^64
  forgotten : a.contract.billing.isLegacy = true → a.completed = {}
  packets : a.contract.billing.isLegacy = true → a.attempts.size ≤ limits.maxPacketsPerContract
  keyed : a.contract.billing.isLegacy = false → ∀ d t, a.attempts.get? d = some t → d = attemptKey t.token
  waiting : a.contract.billing.isLegacy = false → ∀ d t, a.attempts.get? d = some t → t.state = .pending
  positive : ∀ d t, a.attempts.get? d = some t → t.units ≠ 0

variable {limits : Limits} {a : Account}

theorem balanced_new (limits : Limits) (contract : Contract) : Balanced limits ⟨contract,{},∅,{},true⟩ := by
  constructor <;> simp [unitsIn]

theorem Balanced.setActive (h : Balanced limits a) (active : Bool) : Balanced limits { a with active } :=
  { h with }

/-- A new attempt raises what is reserved and what is waiting alike. -/
theorem Balanced.reserve (h : Balanced limits a) {digest : Digest} {token units : Nat}
    (fresh : a.attempts.get? digest = none) (positive : units ≠ 0)
    (allowed : a.usage.reservedUnits + units ≤ a.contract.maxUnits)
    (fits : a.usage.reservedUnits + units < 2^64)
    (packets : a.contract.billing.isLegacy = true → a.attempts.size < limits.maxPacketsPerContract)
    (keyed : a.contract.billing.isLegacy = false → digest = attemptKey token) :
    Balanced limits { a with
      usage := { a.usage with reservedUnits := a.usage.reservedUnits + units }
      attempts := a.attempts.insert digest ⟨token,units,.pending⟩ } := by
  have inserted (d : Digest) (t : Attempt)
      (ht : (a.attempts.insert digest ⟨token,units,.pending⟩).get? d = some t) :
      d = digest ∧ t = ⟨token,units,.pending⟩ ∨ a.attempts.get? d = some t := by
    rw [get?_insert] at ht
    split_ifs at ht with same
    · exact .inl ⟨same,(Option.some.inj ht).symm⟩
    · exact .inr ht
  have totals (s : AttemptState) (completed usage : Usage) :
      unitsIn { a with usage, completed, attempts := a.attempts.insert digest ⟨token,units,.pending⟩ } s =
        a.unitsIn s + if AttemptState.pending = s then units else 0 := total_insert _ _ fresh
  refine ⟨?_,?_,?_,h.completed,allowed,fits,h.forgotten,?_,?_,?_,?_⟩
  · have reserved := h.reserved
    simp only [totals,if_true]
    omega
  · simpa [totals] using h.submitted
  · simpa [totals] using h.unconfirmed
  · intro legacy
    have room := packets legacy
    simp only [size_insert _ fresh]
    omega
  · intro modern d t ht
    obtain ⟨rfl,rfl⟩ | old := inserted d t ht
    · exact keyed modern
    · exact h.keyed modern d t old
  · intro modern d t ht
    obtain ⟨rfl,rfl⟩ | old := inserted d t ht
    · rfl
    · exact h.waiting modern d t old
  · intro d t ht
    obtain ⟨rfl,rfl⟩ | old := inserted d t ht
    · exact positive
    · exact h.positive d t old

variable {d : Digest} {t : Attempt}

theorem Balanced.pending_le (h : Balanced limits a) (ht : a.attempts.get? d = some t)
    (waiting : t.state = .pending) :
    a.usage.submittedUnits + a.usage.unconfirmedUnits + t.units ≤ a.usage.reservedUnits := by
  have part : t.units ≤ a.unitsIn .pending := by
    have le : t.unitsIn .pending ≤ a.unitsIn .pending := le_total (fun _ t => t.unitsIn .pending) ht
    rwa [Attempt.unitsIn,if_pos waiting] at le
  have reserved := h.reserved
  omega

theorem Balanced.usage_finish (h : Balanced limits a) (ht : a.attempts.get? d = some t)
    (waiting : t.state = .pending) (outcome : ForwardingOutcome) :
    (a.finish d t outcome).usage =
      ⟨a.usage.reservedUnits,a.usage.submittedUnits + (if outcome = .submitted then t.units else 0),
        a.usage.unconfirmedUnits + (if outcome = .unconfirmed then t.units else 0)⟩ := by
  have le := h.pending_le ht waiting
  have fits := h.fits
  have same : (a.finish d t outcome).usage = a.usage.finish outcome t.units := by
    unfold finish
    split_ifs <;> rfl
  rw [same]
  cases outcome with
  | submitted =>
    simp [Usage.finish,U64.wrappingAdd_eq (show a.usage.submittedUnits + t.units < 2^64 by omega)]
  | unconfirmed =>
    simp [Usage.finish,U64.wrappingAdd_eq (show a.usage.unconfirmedUnits + t.units < 2^64 by omega)]

@[simp] theorem contract_finish (a : Account) (d : Digest) (t : Attempt) (outcome : ForwardingOutcome) :
    (a.finish d t outcome).contract = a.contract := by
  unfold finish
  split_ifs <;> rfl

@[simp] theorem active_finish (a : Account) (d : Digest) (t : Attempt) (outcome : ForwardingOutcome) :
    (a.finish d t outcome).active = a.active := by
  unfold finish
  split_ifs <;> rfl

variable {outcome : ForwardingOutcome}

theorem attempts_finish_legacy (legacy : a.contract.billing.isLegacy = true) :
    (a.finish d t outcome).attempts = a.attempts.modify d fun t => { t with state := outcome.state } := by
  simp [finish,legacy]

theorem attempts_finish_modern (modern : a.contract.billing.isLegacy = false) :
    (a.finish d t outcome).attempts = a.attempts.erase d := by
  simp [finish,modern]

variable {e : Digest}

theorem get?_attempts_finish_legacy (legacy : a.contract.billing.isLegacy = true) :
    (a.finish d t outcome).attempts.get?
    e =
      (a.attempts.get? e).map fun t => if e = d then { t with state := outcome.state } else t := by
  rw [attempts_finish_legacy legacy,get?_modify]

theorem get?_attempts_finish_modern (modern : a.contract.billing.isLegacy = false) :
    (a.finish d t outcome).attempts.get? e = if e = d then none else a.attempts.get? e := by
  rw [attempts_finish_modern modern,get?_erase]

theorem unitsIn_finish_legacy (ht : a.attempts.get? d = some t) (outcome : ForwardingOutcome)
    (legacy : a.contract.billing.isLegacy = true) (s : AttemptState) :
    (a.finish d t outcome).unitsIn s + t.unitsIn s =
      a.unitsIn s + if outcome.state = s then t.units else 0 := by
  rw [unitsIn,attempts_finish_legacy legacy]
  exact total_modify _ (fun _ t => t.unitsIn s) ht

theorem unitsIn_finish_modern (ht : a.attempts.get? d = some t) (outcome : ForwardingOutcome)
    (modern : a.contract.billing.isLegacy = false) (s : AttemptState) :
    (a.finish d t outcome).unitsIn s + t.unitsIn s = a.unitsIn s := by
  rw [unitsIn,attempts_finish_modern modern]
  exact total_erase (fun _ t => t.unitsIn s) ht

theorem exists_attempt_of_finish {u : Attempt} (h : (a.finish d t outcome).attempts.get? e = some u) :
    ∃ v, a.attempts.get? e = some v ∧ u.token = v.token ∧ u.units = v.units ∧
      (e = d ∧ a.contract.billing.isLegacy = true ∧ u.state = outcome.state ∨ e ≠ d ∧ u = v) := by
  cases legacy : a.contract.billing.isLegacy with
  | true =>
    rw [get?_attempts_finish_legacy legacy] at h
    obtain ⟨v,old,rfl⟩ := Option.map_eq_some_iff.1 h
    by_cases same : e = d
    · exact ⟨v,old,by simp [same],by simp [same],.inl ⟨same,rfl,by simp [same]⟩⟩
    · exact ⟨v,old,by simp [same],by simp [same],.inr ⟨same,by simp [same]⟩⟩
  | false =>
    rw [get?_attempts_finish_modern legacy] at h
    split_ifs at h with same
    exact ⟨u,h,rfl,rfl,.inr ⟨same,rfl⟩⟩

theorem Balanced.completed_finish (h : Balanced limits a) (ht : a.attempts.get? d = some t)
    (waiting : t.state = .pending) (outcome : ForwardingOutcome)
    (modern : a.contract.billing.isLegacy = false) :
    (a.finish d t outcome).completed =
      ⟨a.completed.reservedUnits + t.units,a.completed.submittedUnits +
        (if outcome = .submitted then t.units else 0),
        a.completed.unconfirmedUnits + (if outcome = .unconfirmed then t.units else 0)⟩ := by
  have le := h.pending_le ht waiting
  have fits := h.fits
  have submitted := h.submitted
  have unconfirmed := h.unconfirmed
  have completed := h.completed
  have reserved : U64.wrappingAdd a.completed.reservedUnits t.units = a.completed.reservedUnits + t.units :=
    U64.wrappingAdd_eq (by omega)
  cases outcome with
  | submitted =>
    simp [Account.finish,modern,Usage.finish,reserved,
      U64.wrappingAdd_eq (show a.completed.submittedUnits + t.units < 2^64 by omega)]
  | unconfirmed =>
    simp [Account.finish,modern,Usage.finish,reserved,
      U64.wrappingAdd_eq (show a.completed.unconfirmedUnits + t.units < 2^64 by omega)]

theorem Balanced.finish (h : Balanced limits a) (ht : a.attempts.get? d = some t)
    (waiting : t.state = .pending) (outcome : ForwardingOutcome) :
    Balanced limits (a.finish d t outcome) := by
  have usage := h.usage_finish ht waiting outcome
  have reserved := h.reserved
  have submitted := h.submitted
  have unconfirmed := h.unconfirmed
  have completed := h.completed
  have fits := h.fits
  have held : t.unitsIn .pending = t.units ∧ t.unitsIn .submitted = 0 ∧ t.unitsIn .unconfirmed = 0 := by
    simp [Attempt.unitsIn,waiting]
  have kept : (a.finish d t outcome).usage.reservedUnits = a.usage.reservedUnits := by rw [usage]
  cases legacy : a.contract.billing.isLegacy with
  | true =>
    have units := unitsIn_finish_legacy ht outcome legacy
    have same : (a.finish d t outcome).completed = a.completed := by simp [Account.finish,legacy]
    have forgotten := h.forgotten legacy
    refine ⟨?_,?_,?_,?_,?_,?_,?_,?_,?_,?_,?_⟩
    · have inPending := units .pending
      rw [usage]
      cases outcome <;> simp [ForwardingOutcome.state] at inPending ⊢ <;> omega
    · have inSubmitted := units .submitted
      rw [usage,same]
      cases outcome <;> simp [ForwardingOutcome.state] at inSubmitted ⊢ <;> omega
    · have inUnconfirmed := units .unconfirmed
      rw [usage,same]
      cases outcome <;> simp [ForwardingOutcome.state] at inUnconfirmed ⊢ <;> omega
    · rw [same]
      exact completed
    · rw [kept,contract_finish]
      exact h.allowed
    · rw [kept]
      exact fits
    · rw [same]
      exact fun _ => forgotten
    · intro _
      rw [attempts_finish_legacy legacy,size_modify]
      exact h.packets legacy
    · simp [legacy]
    · simp [legacy]
    · intro e u hu
      obtain ⟨v,old,-,units,-⟩ := exists_attempt_of_finish hu
      rw [units]
      exact h.positive e v old
  | false =>
    have units := unitsIn_finish_modern ht outcome legacy
    have done := h.completed_finish ht waiting outcome legacy
    refine ⟨?_,?_,?_,?_,?_,?_,?_,?_,?_,?_,?_⟩
    · have inPending := units .pending
      rw [usage]
      cases outcome <;> simp <;> omega
    · have inSubmitted := units .submitted
      rw [usage,done]
      cases outcome <;> simp <;> omega
    · have inUnconfirmed := units .unconfirmed
      rw [usage,done]
      cases outcome <;> simp <;> omega
    · rw [done]
      cases outcome <;> simp <;> omega
    · rw [kept,contract_finish]
      exact h.allowed
    · rw [kept]
      exact fits
    · simp [legacy]
    · simp [legacy]
    · intro _ e u hu
      obtain ⟨v,old,token,-,-⟩ := exists_attempt_of_finish hu
      rw [token]
      exact h.keyed legacy e v old
    · intro _ e u hu
      obtain ⟨v,old,-,-,⟨-,impossible,-⟩ | ⟨-,rfl⟩⟩ := exists_attempt_of_finish hu
      · rw [legacy] at impossible
        cases impossible
      · exact h.waiting legacy e u old
    · intro e u hu
      obtain ⟨v,old,-,units,-⟩ := exists_attempt_of_finish hu
      rw [units]
      exact h.positive e v old

theorem foldl_wrappingAdd (attempts : List Attempt) (start : Nat)
    (fits : start + (attempts.map (Attempt.unitsIn .pending)).sum < 2^64) :
    attempts.foldl (fun units t => if t.state = .pending then
      U64.wrappingAdd units t.units else units) start =
      start + (attempts.map (Attempt.unitsIn .pending)).sum := by
  induction attempts generalizing start with
  | nil => rfl
  | cons t rest ih =>
    rw [List.map_cons,List.sum_cons] at fits ⊢
    rw [List.foldl_cons]
    by_cases waiting : t.state = .pending
    · rw [Attempt.unitsIn,if_pos waiting] at fits ⊢
      rw [if_pos waiting,U64.wrappingAdd_eq (by omega),ih _ (by omega)]
      omega
    · rw [Attempt.unitsIn,if_neg waiting] at fits ⊢
      rw [if_neg waiting,ih _ (by omega)]
      omega

theorem sum_values (m : OrderedMap Digest Attempt) (f : Attempt → Nat) :
    (m.values.map f).sum = m.total fun _ t => f t := by
  simp [values,OrderedMap.total,Function.comp_def]

theorem Balanced.usage_sealed (h : Balanced limits a) :
    a.sealed.usage = { a.usage with unconfirmedUnits := a.usage.unconfirmedUnits + a.unitsIn .pending } := by
  have reserved := h.reserved
  have fits := h.fits
  have total : (a.attempts.values.map (Attempt.unitsIn .pending)).sum = a.unitsIn .pending := sum_values _ _
  have folded := foldl_wrappingAdd a.attempts.values a.usage.unconfirmedUnits (by omega)
  rw [total] at folded
  unfold sealed
  split_ifs <;> simp only [folded]

@[simp] theorem contract_sealed (a : Account) : a.sealed.contract = a.contract := by
  unfold sealed
  split_ifs <;> rfl

@[simp] theorem active_sealed (a : Account) : a.sealed.active = a.active := by
  unfold sealed
  split_ifs <;> rfl

theorem get?_attempts_sealed (a : Account) (d : Digest) :
    a.sealed.attempts.get? d =
      if a.contract.billing.isLegacy then (a.attempts.get? d).map Attempt.abandon else none := by
  unfold sealed
  split_ifs <;> simp

theorem state_abandon (t : Attempt) : t.abandon.state ≠ .pending := by
  unfold Attempt.abandon
  split_ifs with waiting
  · simp
  · exact waiting

@[simp] theorem token_abandon (t : Attempt) : t.abandon.token = t.token := by
  unfold Attempt.abandon
  split_ifs <;> rfl

@[simp] theorem units_abandon (t : Attempt) : t.abandon.units = t.units := by
  unfold Attempt.abandon
  split_ifs <;> rfl

theorem not_pending_of_sealed (h : a.sealed.attempts.get? d = some t) : t.state ≠ .pending := by
  rw [get?_attempts_sealed] at h
  split_ifs at h
  obtain ⟨u,-,rfl⟩ := Option.map_eq_some_iff.1 h
  exact state_abandon u

theorem unitsIn_pending_sealed (a : Account) : a.sealed.unitsIn .pending = 0 :=
  total_eq_zero fun _ _ ht => if_neg (not_pending_of_sealed ht)

theorem Balanced.sealed (h : Balanced limits a) : Balanced limits a.sealed := by
  have usage := h.usage_sealed
  have reserved := h.reserved
  have submitted := h.submitted
  have unconfirmed := h.unconfirmed
  have none := unitsIn_pending_sealed a
  have kept : a.sealed.usage.reservedUnits = a.usage.reservedUnits := by rw [usage]
  cases legacy : a.contract.billing.isLegacy with
  | true =>
    have attempts : a.sealed.attempts = a.attempts.mapValues Attempt.abandon := by
      simp [Account.sealed,legacy]
    have same : a.sealed.completed = a.completed := by simp [Account.sealed,legacy]
    have inSubmitted : a.sealed.unitsIn .submitted = a.unitsIn .submitted := by
      rw [unitsIn,attempts,total_mapValues]
      refine total_congr fun _ t _ => ?_
      cases state : t.state <;> simp [Attempt.unitsIn,Attempt.abandon,state]
    have inUnconfirmed : a.sealed.unitsIn .unconfirmed = a.unitsIn .unconfirmed + a.unitsIn .pending := by
      rw [unitsIn,attempts,total_mapValues,unitsIn,unitsIn,← total_add]
      refine total_congr fun _ t _ => ?_
      cases state : t.state <;> simp [Attempt.unitsIn,Attempt.abandon,state]
    refine ⟨?_,?_,?_,?_,?_,?_,?_,?_,?_,?_,?_⟩
    · rw [usage]
      simp only
      omega
    · rw [usage,same,inSubmitted]
      exact submitted
    · rw [usage,same]
      simp only
      omega
    · rw [same]
      exact h.completed
    · rw [kept,contract_sealed]
      exact h.allowed
    · rw [kept]
      exact h.fits
    · rw [same]
      exact fun _ => h.forgotten legacy
    · intro _
      rw [attempts,size_mapValues]
      exact h.packets legacy
    · simp [legacy]
    · simp [legacy]
    · intro d t ht
      rw [attempts,get?_mapValues] at ht
      obtain ⟨u,old,rfl⟩ := Option.map_eq_some_iff.1 ht
      rw [units_abandon]
      exact h.positive d u old
  | false =>
    have attempts : a.sealed.attempts = ∅ := by simp [Account.sealed,legacy]
    have done : a.sealed.completed = a.sealed.usage := by simp [Account.sealed,legacy]
    have nothing (s : AttemptState) : a.sealed.unitsIn s = 0 := by rw [unitsIn,attempts,total_empty]
    refine ⟨?_,?_,?_,?_,?_,?_,?_,?_,?_,?_,?_⟩
    · rw [usage]
      simp only
      omega
    · rw [done,nothing,Nat.add_zero]
    · rw [done,nothing,Nat.add_zero]
    · rw [done,usage]
      simp only
      omega
    · rw [kept,contract_sealed]
      exact h.allowed
    · rw [kept]
      exact h.fits
    · simp [legacy]
    · simp [legacy]
    · simp [attempts]
    · simp [attempts]
    · simp [attempts]

end Account

end Fips.Relay
