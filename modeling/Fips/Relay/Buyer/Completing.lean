import Fips.Relay.Buyer.Forwarding

set_option autoImplicit false

/-! The outcome of a send: which attempt it ends, and that the others keep their tokens. -/

namespace Fips.Relay.Buyer

open OrderedMap List Option

def Attempt.ended (a : Attempt) (outcome : ForwardingOutcome) : Attempt :=
  { a with outcome := if outcome = .submitted then .submitted else .unconfirmed }

theorem Attempt.ended_ne_pending (a : Attempt) (outcome : ForwardingOutcome) :
    (a.ended outcome).outcome ≠ .pending := by
  simp only [ended]
  split_ifs <;> simp

theorem Attempt.submittedUnits_ended (a : Attempt) (outcome : ForwardingOutcome) :
    (a.ended outcome).submittedUnits = if outcome = .submitted then a.units else 0 := by
  by_cases h : outcome = .submitted <;> simp [ended,submittedUnits]

namespace State

variable {s s' : State} {id : String} {index token : Nat} {q : PurchaseQuote} {a : Attempt}
  {outcome : ForwardingOutcome}

/-- Where an attempt is after the one at `index` has ended. Only the last one of a quote that drops its
attempts moves. -/
def reposition (q : PurchaseQuote) (id : String) (index : Nat) (p : String × Nat) : String × Nat :=
  if q.contract.billing.isLegacy = false ∧ p = (id,q.attempts.length - 1) then (id,index) else p

theorem reposition_inj {p p' : String × Nat} (other : p ≠ (id,index)) (other' : p' ≠ (id,index))
    (h : reposition q id index p = reposition q id index p') : p = p' := by
  unfold reposition at h
  split_ifs at h with moves moves'
  · exact moves.2.trans moves'.2.symm
  · exact absurd h.symm other'
  · exact absurd h other
  · exact h

def finished (s : State) (token : Nat) (id : String) (index : Nat) (q : PurchaseQuote) (a : Attempt)
    (outcome : ForwardingOutcome) : State :=
  { s with
    pending := (s.pending.erase token).mapValues (reposition q id index)
    quotes := s.quotes.modify id fun _ => finishQuote q index a outcome }

theorem get?_pending_finished (t : Nat) : (s.finished token id index q a outcome).pending.get? t =
    if t = token then none else (s.pending.get? t).map (reposition q id index) := by
  simp only [finished,get?_mapValues,get?_erase]
  split_ifs <;> rfl

theorem attempts_finishQuote : (finishQuote q index a outcome).attempts =
    if q.contract.billing.isLegacy then
      q.attempts.set index (a.ended outcome)
    else swapRemove q.attempts index := by
  simp only [finishQuote,apply_ite PurchaseQuote.attempts]
  rfl

theorem contract_finishQuote : (finishQuote q index a outcome).contract = q.contract := by
  simp only [finishQuote,apply_ite PurchaseQuote.contract,ite_self]

theorem active_finishQuote : (finishQuote q index a outcome).active = q.active := by
  simp only [finishQuote,apply_ite PurchaseQuote.active,ite_self]

theorem getElem?_finishQuote_reposition (id : String) (outcome : ForwardingOutcome) {j : Nat} {b : Attempt}
    (bound : index < q.attempts.length) (there : q.attempts[j]? = some b) (other : j ≠ index) :
    ∃ k, reposition q id index (id,j) = (id,k) ∧ (finishQuote q index a outcome).attempts[k]? = some b := by
  have less : j < q.attempts.length := (List.getElem?_eq_some_iff.1 there).1
  rw [attempts_finishQuote]
  unfold reposition
  by_cases legacy : q.contract.billing.isLegacy = true
  · refine ⟨j,by simp [legacy],?_⟩
    rw [if_pos legacy,getElem?_set_ne other.symm,there]
  rw [if_neg legacy]
  by_cases last : j = q.attempts.length - 1
  · refine ⟨index,by simp [legacy,last],?_⟩
    rw [getElem?_swapRemove bound,if_pos (by omega),if_pos rfl,getLast?_eq_getElem?,← last,there]
  · refine ⟨j,by simp [last],?_⟩
    rw [getElem?_swapRemove bound,if_pos (by omega),if_neg other,there]

theorem getElem?_finishQuote_waits (id : String) {k : Nat} {b : Attempt} (bound : index < q.attempts.length)
    (there : (finishQuote q index a outcome).attempts[k]? = some b) (waits : b.outcome = .pending) :
    ∃ j, j ≠ index ∧ reposition q id index (id,j) = (id,k) ∧ q.attempts[j]? = some b := by
  rw [attempts_finishQuote] at there
  unfold reposition
  by_cases legacy : q.contract.billing.isLegacy = true
  · rw [if_pos legacy] at there
    obtain rfl | other := eq_or_ne index k
    · rw [getElem?_set_self bound] at there
      cases there
      exact absurd waits (a.ended_ne_pending outcome)
    · rw [getElem?_set_ne other] at there
      exact ⟨k,other.symm,by simp [legacy],there⟩
  · rw [if_neg legacy,getElem?_swapRemove bound] at there
    split_ifs at there with less same
    · rw [getLast?_eq_getElem?] at there
      exact ⟨q.attempts.length - 1,by omega,by simp [legacy,same],there⟩
    · exact ⟨k,same,by simp [show k ≠ q.attempts.length - 1 by omega],there⟩

theorem attemptAt_finished (held : s.quotes.get? id = some q) (i : String) (j : Nat) :
    (s.finished token id index q a outcome).attemptAt i j =
      if i = id then (finishQuote q index a outcome).attempts[j]?.map (finishQuote q index a outcome,·)
      else s.attemptAt i j :=
  attemptAt_modify held (fun _ => finishQuote q index a outcome) rfl i j

theorem reposition_of_ne {i : String} (other : i ≠ id) (j : Nat) : reposition q id index (i,j) = (i,j) := by
  simp [reposition,other]

theorem exists_perm_finishQuote (outcome : ForwardingOutcome) (there : q.attempts[index]? = some a) :
    ∃ rest, q.attempts.Perm (a :: rest) ∧ (finishQuote q index a outcome).attempts.Perm
      (if q.contract.billing.isLegacy then a.ended outcome :: rest else rest) := by
  obtain ⟨bound,rfl⟩ := List.getElem?_eq_some_iff.1 there
  rw [attempts_finishQuote]
  split_ifs with legacy
  · exact ⟨_,(getElem_cons_eraseIdx_perm bound).symm,set_perm_cons_eraseIdx bound _⟩
  · exact ⟨_,perm_swapRemove there,.refl _⟩

theorem waiting_finishQuote (outcome : ForwardingOutcome) (there : q.attempts[index]? = some a)
    (waits : a.outcome = .pending) : (finishQuote q index a outcome).waiting + 1 = q.waiting := by
  obtain ⟨rest,before,after⟩ := exists_perm_finishQuote outcome there
  unfold PurchaseQuote.waiting
  rw [before.countP_eq,after.countP_eq,countP_cons_of_pos (by simpa using waits)]
  split_ifs
  · rw [countP_cons_of_neg (by simpa using a.ended_ne_pending outcome)]
  · rfl

/-- No counter of the quote reaches the bound of the machine. -/
theorem finishQuote_eq {limits : Limits} (h : q.Balanced limits) (outcome : ForwardingOutcome)
    (there : q.attempts[index]? = some a) (waits : a.outcome = .pending) : finishQuote q index a outcome =
      { q with
        submittedUnits := q.submittedUnits + if outcome = .submitted then a.units else 0
        attempts := (finishQuote q index a outcome).attempts
        completed := if q.contract.billing.isLegacy then q.completed else
          { observedUnits := q.completed.observedUnits + a.units
            submittedUnits := q.completed.submittedUnits + if outcome = .submitted then
              a.units else 0 } } := by
  obtain ⟨rest,before,-⟩ := exists_perm_finishQuote outcome there
  have observed := h.observed
  have submitted := h.submitted
  have fits := h.fits
  have completed := h.completed
  have sums := Attempt.sum_submittedUnits_le rest
  have none : a.submittedUnits = 0 := by simp [Attempt.submittedUnits,waits]
  rw [(before.map (·.units)).sum_eq,map_cons,sum_cons] at observed
  rw [(before.map Attempt.submittedUnits).sum_eq,map_cons,sum_cons] at submitted
  have noWrap : U64.wrappingAdd q.submittedUnits a.units = q.submittedUnits + a.units :=
    U64.wrappingAdd_eq (by omega)
  have noWrapObserved : U64.wrappingAdd q.completed.observedUnits a.units =
      q.completed.observedUnits + a.units :=
    U64.wrappingAdd_eq (by omega)
  have noWrapSubmitted : U64.wrappingAdd q.completed.submittedUnits a.units =
      q.completed.submittedUnits + a.units :=
    U64.wrappingAdd_eq (by omega)
  simp only [finishQuote,noWrap,noWrapObserved,noWrapSubmitted]
  by_cases sent : outcome = .submitted <;> by_cases legacy : q.contract.billing.isLegacy =
    true <;> simp [sent,legacy]

theorem balanced_finishQuote {limits : Limits} (h : q.Balanced limits) (outcome : ForwardingOutcome)
    (there : q.attempts[index]? = some a) (waits : a.outcome = .pending) :
    (finishQuote q index a outcome).Balanced limits := by
  obtain ⟨rest,before,after⟩ := exists_perm_finishQuote outcome there
  have none : a.submittedUnits = 0 := by simp [Attempt.submittedUnits,waits]
  rw [finishQuote_eq h outcome there waits]
  obtain ⟨observed,submitted,completed,allowed,fits,nonzero,isLegacy,modern⟩ := h
  rw [(before.map (·.units)).sum_eq,map_cons,sum_cons] at observed
  rw [(before.map Attempt.submittedUnits).sum_eq,map_cons,sum_cons] at submitted
  by_cases legacy : q.contract.billing.isLegacy = true
  · simp only [legacy,if_true] at after ⊢
    refine ⟨?_,?_,completed,allowed,fits,fun b mem => ?_,fun _ => ⟨(isLegacy legacy).1,?_⟩,fun isModern => ?_⟩
    · rw [(after.map (·.units)).sum_eq]
      exact observed
    · rw [(after.map Attempt.submittedUnits).sum_eq,map_cons,sum_cons,a.submittedUnits_ended]
      simp only [submitted]
      omega
    · obtain rfl | other := mem_cons.1 (after.mem_iff.1 mem)
      · exact nonzero a (before.mem_iff.2 mem_cons_self)
      · exact nonzero b (before.mem_iff.2 (mem_cons_of_mem _ other))
    · rw [after.length_eq]
      exact before.length_eq.symm.trans_le (isLegacy legacy).2
    · cases legacy.symm.trans isModern
  · rw [if_neg legacy] at after ⊢
    have kept {b : Attempt} (mem : b ∈ (finishQuote q index a outcome).attempts) : b ∈ q.attempts :=
      before.mem_iff.2 (mem_cons_of_mem _ (after.mem_iff.1 mem))
    refine ⟨?_,?_,?_,allowed,fits,fun b mem => nonzero b (kept mem),fun isLegacy => absurd isLegacy legacy,
      fun isModern b mem => modern isModern b (kept mem)⟩
    · rw [(after.map (·.units)).sum_eq]
      dsimp only
      omega
    · rw [(after.map Attempt.submittedUnits).sum_eq]
      dsimp only
      omega
    · dsimp only
      split_ifs <;> omega

structure Ends (s : State) (token : Nat) (id : String) (index : Nat) (q : PurchaseQuote) (a : Attempt) :
    Prop where
  used : s.pending.get? token = some (id,index)
  held : s.quotes.get? id = some q
  there : q.attempts[index]? = some a
  waits : a.outcome = .pending

theorem TokensSound.exists_ends (h : s.TokensSound) (used : s.pending.get? token = some (id,index)) :
    ∃ q a, s.Ends token id index q a := by
  obtain ⟨q,a,found,waits,-⟩ := h.held token id index used
  obtain ⟨held,there⟩ := attemptAt_eq_some.1 found
  exact ⟨q,a,used,held,there,waits⟩

section Endings

variable (e : s.Ends token id index q a)
include e

theorem Ends.exists_attemptAt (outcome : ForwardingOutcome) {i : String} {j : Nat}
    {p : PurchaseQuote} {b : Attempt} (other : (i,j) ≠ (id,index)) (found : s.attemptAt i j = some (p,b)) :
    ∃ k q', reposition q id index (i,j) = (i,k) ∧
      (s.finished token id index q a outcome).attemptAt i k = some (q',b) ∧
      q'.contract = p.contract := by
  obtain ⟨bound,-⟩ := List.getElem?_eq_some_iff.1 e.there
  obtain rfl | different := eq_or_ne i id
  · obtain ⟨held,there⟩ := attemptAt_eq_some.1 found
    cases e.held.symm.trans held
    obtain ⟨k,moved,there'⟩ := getElem?_finishQuote_reposition (a := a) i outcome bound there
      fun same => other (by rw [same])
    refine ⟨k,finishQuote q index a outcome,moved,?_,contract_finishQuote⟩
    rw [attemptAt_finished e.held,if_pos rfl,there']
    rfl
  · refine ⟨j,p,reposition_of_ne different j,?_,rfl⟩
    rw [attemptAt_finished e.held,if_neg different,found]

theorem Ends.exists_of_attemptAt {i : String} {k : Nat} {q' : PurchaseQuote} {b : Attempt}
    (found : (s.finished token id index q a outcome).attemptAt i k = some (q',b))
    (waits : b.outcome = .pending) :
    ∃ j p, (i,j) ≠ (id,index) ∧ reposition q id index (i,j) = (i,k) ∧ s.attemptAt i j = some (p,b) := by
  obtain ⟨bound,-⟩ := List.getElem?_eq_some_iff.1 e.there
  rw [attemptAt_finished e.held] at found
  split_ifs at found with same
  · subst same
    obtain ⟨_,there,equal⟩ := map_eq_some_iff.1 found
    cases equal
    obtain ⟨j,other,moved,there⟩ := getElem?_finishQuote_waits i bound there waits
    exact ⟨j,q,fun same => other (Prod.mk.inj same).2,moved,attemptAt_eq_some.2 ⟨e.held,there⟩⟩
  · exact ⟨k,q',fun equal => same (Prod.mk.inj equal).1,reposition_of_ne same k,found⟩

theorem Ends.tokens (h : s.TokensSound) : (s.finished token id index q a outcome).TokensSound := by
  have other {t : Nat} {p : String × Nat} (different : t ≠ token) (used : s.pending.get? t = some p) :
      p ≠ (id,index) :=
    fun same => different (h.unique t token p used (same ▸ e.used))
  have old {t : Nat} {p' : String × Nat}
      (used : (s.finished token id index q a outcome).pending.get? t = some p') :
      ∃ p, s.pending.get? t = some p ∧ p ≠ (id,index) ∧ reposition q id index p = p' := by
    rw [get?_pending_finished] at used
    split_ifs at used with same
    obtain ⟨p,before,moved⟩ := map_eq_some_iff.1 used
    exact ⟨p,before,other same before,moved⟩
  have size : (s.finished token id index q a outcome).pending.size + 1 = s.pending.size :=
    (congrArg (· + 1) (size_mapWithKey _ _)).trans (size_erase e.used)
  refine ⟨?_,?_,?_,?_,?_,?_⟩
  · intro t i k used
    obtain ⟨⟨i',j⟩,before,different,moved⟩ := old used
    obtain ⟨p,b,found,waits,carries⟩ := h.held t i' j before
    obtain ⟨k',q',moved',found',same⟩ := e.exists_attemptAt outcome different found
    obtain ⟨rfl,rfl⟩ := Prod.mk.inj (moved.symm.trans moved')
    exact ⟨q',b,found',waits,fun modern => carries (same ▸ modern)⟩
  · intro i k q' b found waits
    obtain ⟨j,p,different,moved,before⟩ := e.exists_of_attemptAt found waits
    obtain ⟨t,used⟩ := h.waits i j p b before waits
    have live : t ≠ token := by
      rintro rfl
      exact different (some.inj (used.symm.trans e.used))
    refine ⟨t,?_⟩
    rw [get?_pending_finished,if_neg live,used]
    exact congrArg some moved
  · intro t t' p' used used'
    obtain ⟨p,before,different,rfl⟩ := old used
    obtain ⟨r,before',different',same⟩ := old used'
    exact h.unique t t' p before (reposition_inj different' different same ▸ before')
  · intro t p' used
    obtain ⟨p,before,-⟩ := old used
    exact h.range t p before
  · have waiting := total_modify (fun _ => finishQuote q index a outcome) (fun _ p => p.waiting) e.held
    change (s.finished token id index q a outcome).quotes.total _ + _ = _ at waiting
    have one := waiting_finishQuote outcome e.there e.waits
    have before := h.count
    omega
  · have room := h.room
    change (s.finished token id index q a outcome).pending.size ≤ s.limits.maxPending
    omega

theorem Ends.legacyAt {i : String} {j : Nat} {provider : NodeAddr} {digest : Digest}
    (found : (s.finished token id index q a outcome).LegacyAt i j provider digest) :
    s.LegacyAt i j provider digest := by
  obtain ⟨q',b,found,legacy,paid,same⟩ := found
  rw [attemptAt_finished e.held] at found
  split_ifs at found with here
  · subst here
    obtain ⟨_,there,equal⟩ := map_eq_some_iff.1 found
    cases equal
    rw [contract_finishQuote] at legacy
    have paid : s.providerOf q = some provider := by
      rw [← paid]
      simp only [providerOf,contract_finishQuote]
      rfl
    rw [attempts_finishQuote,if_pos legacy] at there
    obtain rfl | other := eq_or_ne index j
    · rw [List.getElem?_set_self (List.getElem?_eq_some_iff.1 e.there).1] at there
      cases there
      exact ⟨q,a,attemptAt_eq_some.2 ⟨e.held,e.there⟩,legacy,paid,same⟩
    · rw [getElem?_set_ne other] at there
      exact ⟨q,b,attemptAt_eq_some.2 ⟨e.held,there⟩,legacy,paid,same⟩
  · exact ⟨q',b,found,legacy,paid,same⟩

theorem Ends.seen (h : s.SeenSound) : (s.finished token id index q a outcome).SeenSound :=
  ⟨fun i j provider digest found => h.seen i j provider digest (e.legacyAt found),
    fun i j i' j' provider digest found found' => h.unique i j i' j' provider digest
      (e.legacyAt found) (e.legacyAt found')⟩

end Endings

theorem Sound.finished (h : s.Sound) (e : s.Ends token id index q a) (outcome : ForwardingOutcome) :
    (s.finished token id index q a outcome).Sound := by
  have balanced := h.quotes.balanced id q e.held
  have equal {i : String} {p : PurchaseQuote} (held : s.quotes.get? i = some p) (same : i = id) : p = q :=
    some.inj (held.symm.trans (same ▸ e.held))
  refine h.updated (f := fun i p => if i = id then finishQuote q index a outcome else p) (fun i p held => ?_)
    (fun i p held => ?_) (fun i p held => ?_) h.header.token (e.tokens h.tokens) (e.seen h.seen)
  · split_ifs with same
    · rw [equal held same]
      exact ⟨contract_finishQuote,active_finishQuote⟩
    · exact ⟨rfl,rfl⟩
  · split_ifs
    · exact balanced_finishQuote balanced outcome e.there e.waits
    · exact h.quotes.balanced i p held
  · split_ifs with same
    · rw [equal held same,finishQuote_eq balanced outcome e.there e.waits]
      exact Nat.le_add_right _ _
    · exact le_rfl

/-- Ending a send always succeeds: the moved attempt is found under its own token. -/
theorem Sound.complete_eq (h : s.Sound) (e : s.Ends token id index q a) (outcome : ForwardingOutcome) :
    s.complete token outcome = some (s.finished token id index q a outcome) := by
  have bound : index < q.attempts.length := (List.getElem?_eq_some_iff.1 e.there).1
  have pending {m : OrderedMap Nat (String × Nat)}
      (same : ∀ t, m.get? t = (s.finished token id index q a outcome).pending.get? t) :
      { s with pending := m, quotes := s.quotes.modify id fun _ => finishQuote q index a outcome } =
        s.finished token id index q a outcome := by
    rw [OrderedMap.ext same]
    rfl
  -- When nothing moves, the other positions stay.
  have still (fixed : ∀ p, reposition q id index p = p) (t : Nat) :
      (s.pending.erase token).get? t = (s.finished token id index q a outcome).pending.get? t := by
    rw [get?_pending_finished,get?_erase]
    split_ifs
    · rfl
    · rw [funext fixed]
      exact map_id'.symm
  unfold complete
  simp only [e.used,e.held,e.there,bind_eq_bind,bind_some]
  by_cases legacy : q.contract.billing.isLegacy = true
  · rw [if_pos legacy]
    exact congrArg some (pending (still fun p => by simp [reposition,legacy]))
  rw [if_neg legacy]
  by_cases inner : index + 1 < q.attempts.length
  · obtain ⟨moved,last⟩ : ∃ moved, q.attempts[q.attempts.length - 1]? = some moved :=
      ⟨_,getElem?_eq_getElem (by omega)⟩
    have found : s.attemptAt id (q.attempts.length - 1) = some (q,moved) := attemptAt_eq_some.2 ⟨e.held,last⟩
    have modern : q.contract.billing.isLegacy = false := Bool.eq_false_iff.2 legacy
    obtain ⟨waits,-⟩ := (h.quotes.balanced id q e.held).modern modern moved (mem_of_getElem? last)
    obtain ⟨t,used⟩ := h.tokens.waits id _ q moved found waits
    obtain ⟨p,b,found',-,carries⟩ := h.tokens.held t id _ used
    obtain ⟨rfl,rfl⟩ := Prod.mk.inj (some.inj (found.symm.trans found'))
    obtain rfl := carries modern
    have live : moved.token ≠ token := by
      intro same
      have position := some.inj (used.symm.trans (same ▸ e.used))
      simp only [Prod.mk.injEq] at position
      omega
    rw [attempts_finishQuote,if_neg legacy,getElem?_swapRemove bound,if_pos inner,if_pos rfl,
      getLast?_eq_getElem?,last]
    simp only [get?_erase,if_neg live,used]
    refine congrArg some (pending fun t => ?_)
    rw [get?_pending_finished,get?_modify,get?_erase]
    obtain rfl | other := eq_or_ne t token
    · simp
    rw [if_neg other,if_neg other]
    obtain rfl | different := eq_or_ne t moved.token
    · simp [used,reposition,modern]
    cases before : s.pending.get? t with
    | none => rfl
    | some p =>
      have elsewhere : p ≠ (id,q.attempts.length - 1) :=
        fun same => different (h.tokens.unique t _ p before (same ▸ used))
      simp [reposition,different,elsewhere]
  · rw [attempts_finishQuote,if_neg legacy,getElem?_swapRemove bound,if_neg inner]
    refine congrArg some (pending (still fun p => ?_))
    unfold reposition
    split_ifs with here
    · rw [here.2,show index = q.attempts.length - 1 by omega]
    · rfl

theorem Sound.complete_cases (h : s.Sound) (token : Nat) (outcome : ForwardingOutcome) :
    s.complete token outcome = some s ∨ ∃ id index q a, s.Ends token id index q a ∧
      s.complete token outcome = some (s.finished token id index q a outcome) := by
  cases used : s.pending.get? token with
  | none =>
    unfold complete
    rw [used]
    exact .inl rfl
  | some position =>
    obtain ⟨id,index⟩ := position
    obtain ⟨q,a,e⟩ := h.tokens.exists_ends used
    exact .inr ⟨id,index,q,a,e,h.complete_eq e outcome⟩

end State

end Fips.Relay.Buyer
