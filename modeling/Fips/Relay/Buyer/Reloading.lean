import Fips.Relay.Buyer.Completing

set_option autoImplicit false

/-! A buyer is recovered from its own saved state. -/

namespace Fips.Relay.Buyer

open Checked OrderedMap PurchaseQuote List Option

def Attempt.abandon (a : Attempt) : Attempt :=
  if a.outcome = .submitted then a else { a with outcome := .unconfirmed }

theorem Attempt.units_abandon (a : Attempt) : a.abandon.units = a.units := by
  simp only [abandon,apply_ite Attempt.units,ite_self]

theorem Attempt.digest_abandon (a : Attempt) : a.abandon.digest = a.digest := by
  simp only [abandon,apply_ite Attempt.digest,ite_self]

theorem Attempt.outcome_abandon_ne (a : Attempt) : a.abandon.outcome ≠ .pending := by
  unfold abandon
  split_ifs with sent <;> simp [sent]

theorem Attempt.submittedUnits_abandon (a : Attempt) : a.abandon.submittedUnits = a.submittedUnits := by
  by_cases sent : a.outcome = .submitted <;> simp [abandon,submittedUnits,sent]

namespace PurchaseQuote

variable (q : PurchaseQuote)

section Totals

variable (provider : NodeAddr)

def prints (attempts : List Attempt) : List (NodeAddr × Digest) :=
  if q.contract.billing.isLegacy then attempts.map fun a => (provider,a.digest) else []

def tokens (attempts : List Attempt) : List Nat :=
  if q.contract.billing.isLegacy then [] else attempts.map (·.token)

theorem prints_concat (attempts : List Attempt) (a : Attempt) :
    q.prints provider (attempts ++ [a]) =
      q.prints provider attempts ++ if q.contract.billing.isLegacy then [(provider,a.digest)] else [] := by
  unfold prints
  split_ifs <;> simp

theorem tokens_concat (attempts : List Attempt) (a : Attempt) : q.tokens (attempts ++ [a]) =
    q.tokens attempts ++ if q.contract.billing.isLegacy then [] else [a.token] := by
  unfold tokens
  split_ifs <;> simp

/-- What the loop over the attempts has collected after some of them, on top of what it started with. -/
def attemptTotals (prints : List (NodeAddr × Digest)) (tokens : List Nat) (outstanding : Nat)
    (done : List Attempt) : State.AttemptTotals :=
  { seen := (prints ++ q.prints provider done).toFinset
    tokens := (tokens ++ q.tokens done).reverse
    outstanding := outstanding + done.countP fun a => a.outcome = .pending
    observed := q.completed.observedUnits + (done.map (·.units)).sum
    submitted := q.completed.submittedUnits + (done.map Attempt.submittedUnits).sum
    attempts := done.map Attempt.abandon }

end Totals

variable {q} {s : State} {provider : NodeAddr} {prints : List (NodeAddr × Digest)} {tokens : List Nat}
  {outstanding : Nat} {done : List Attempt} {a : Attempt}

theorem attemptTotals_concat :
    q.attemptTotals provider prints tokens outstanding (done ++ [a]) =
      let t := q.attemptTotals provider prints tokens outstanding done
      { seen := if q.contract.billing.isLegacy then insert (provider,a.digest) t.seen else t.seen
        tokens := if q.contract.billing.isLegacy then t.tokens else a.token :: t.tokens
        outstanding := if a.outcome = .pending then t.outstanding + 1 else t.outstanding
        observed := t.observed + a.units
        submitted := t.submitted + a.submittedUnits
        attempts := t.attempts ++ [a.abandon] } := by
  simp only [attemptTotals,State.AttemptTotals.mk.injEq,map_append,map_cons,map_nil,sum_append,
    sum_cons,sum_nil,Nat.add_zero,← Nat.add_assoc,prints_concat,tokens_concat,countP_append,
    and_true]
  refine ⟨?_,?_,?_⟩
  · rw [← append_assoc]
    split_ifs
    · exact toFinset_concat _ _
    · simp
  · split_ifs <;> simp
  · by_cases waits : a.outcome = .pending <;> simp [waits]

theorem attemptTotals_nil : q.attemptTotals provider prints tokens outstanding [] =
      ⟨prints.toFinset,tokens.reverse,outstanding,q.completed.observedUnits,
        q.completed.submittedUnits,[]⟩ := by
  simp [attemptTotals,PurchaseQuote.prints,PurchaseQuote.tokens]

structure Recoverable (q : PurchaseQuote) (s : State) (provider : NodeAddr)
    (prints : List (NodeAddr × Digest)) (tokens : List Nat) (outstanding : Nat) (done : List Attempt)
    (a : Attempt) : Prop where
  nonzero : a.units ≠ 0
  freshPrint : q.contract.billing.isLegacy = true → (provider,a.digest) ∉ prints ++ q.prints provider done
  freshToken : q.contract.billing.isLegacy = false → a.token ∉ tokens ++ q.tokens done
  range : q.contract.billing.isLegacy = false → a.token ≠ 0 ∧ a.token < s.nextToken
  modern : q.contract.billing.isLegacy = false → a.outcome = .pending ∧ a.digest = 0
  room : a.outcome = .pending →
    outstanding + done.countP (fun a => a.outcome = .pending) + 1 ≤ s.limits.maxPending
  fits : q.completed.observedUnits + (done.map (·.units)).sum + a.units < 2^64
  completed : q.completed.submittedUnits ≤ q.completed.observedUnits

theorem Recoverable.follows (r : q.Recoverable s provider prints tokens outstanding done a) :
    s.recoverAttempt q.contract.billing.isLegacy provider
      (q.attemptTotals provider prints tokens outstanding done) a =
      .ok (q.attemptTotals provider prints tokens outstanding (done ++ [a])) := by
  have fits := r.fits
  have completed := r.completed
  have sums := Attempt.sum_submittedUnits_le done
  have known : ¬ (a.units = 0 ∨ (q.contract.billing.isLegacy = true ∧
      (provider,a.digest) ∈ (q.attemptTotals provider prints tokens outstanding done).seen) ∨
      ((!q.contract.billing.isLegacy) = true ∧ (a.token = 0 ∨ s.nextToken ≤ a.token ∨
        a.token ∈ (q.attemptTotals provider prints tokens outstanding done).tokens ∨ a.digest ≠ 0 ∨
        a.outcome ≠ .pending))) := by
    rintro (zero | ⟨legacy,again⟩ | ⟨modern,wrong⟩)
    · exact r.nonzero zero
    · exact r.freshPrint legacy (mem_toFinset.1 again)
    · have modern : q.contract.billing.isLegacy = false := by simpa using modern
      obtain ⟨nonzero,less⟩ := r.range modern
      obtain ⟨waits,plain⟩ := r.modern modern
      obtain zero | late | again | digest | outcome := wrong
      · exact nonzero zero
      · exact absurd less (Nat.not_lt.2 late)
      · exact r.freshToken modern (mem_reverse.1 again)
      · exact digest plain
      · exact outcome waits
  unfold State.recoverAttempt
  simp only [throwIf_eq_ok,bind_eq_ok,orElse_eq_ok]
  refine ⟨known,?_,_,U64.checkedAdd_eq_some.2 ⟨fits,rfl⟩,?_⟩
  · rintro ⟨waits,beyond⟩
    rw [if_pos waits] at beyond
    exact absurd (r.room waits) (Nat.not_le.2 beyond)
  rw [attemptTotals_concat]
  by_cases sent : a.outcome = .submitted
  · have less : q.completed.submittedUnits + (done.map Attempt.submittedUnits).sum + a.units < 2^64 := by
      omega
    rw [if_pos sent,bind_eq_ok]
    refine ⟨_,orElse_eq_ok.2 (U64.checkedAdd_eq_some.2 ⟨less,rfl⟩),?_⟩
    simp only [Attempt.submittedUnits,Attempt.abandon,if_pos sent]
    rfl
  · rw [if_neg sent,bind_eq_ok]
    refine ⟨_,rfl,?_⟩
    simp only [Attempt.submittedUnits,Attempt.abandon,if_neg sent]
    rfl

/-- The attempts of a balanced quote are recovered when their digests and tokens are new and there is room
for those that wait. -/
theorem Balanced.foldlM_recoverAttempt (balanced : q.Balanced s.limits)
    (range : q.contract.billing.isLegacy = false → ∀ a ∈ q.attempts, a.token ≠ 0 ∧ a.token < s.nextToken)
    (freshPrints : (prints ++ q.prints provider q.attempts).Nodup)
    (freshTokens : (tokens ++ q.tokens q.attempts).Nodup)
    (room : outstanding + q.waiting ≤ s.limits.maxPending) :
    q.attempts.foldlM (s.recoverAttempt q.contract.billing.isLegacy provider)
      (q.attemptTotals provider prints tokens outstanding []) =
      .ok (q.attemptTotals provider prints tokens outstanding q.attempts) := by
  refine foldlM_follows (q.attemptTotals provider prints tokens outstanding) q.attempts ?_
  intro before a part
  have mem : a ∈ q.attempts := part.mem (by simp)
  refine Recoverable.follows ⟨balanced.nonzero a mem,fun legacy => ?_,fun modern =>
    ?_,fun modern => range modern a mem,fun modern => balanced.modern modern a mem,fun waits => ?_,
      ?_,balanced.completed⟩
  · simp only [PurchaseQuote.prints,legacy] at freshPrints ⊢
    exact notMem_of_part part freshPrints
  · simp only [PurchaseQuote.tokens,modern] at freshTokens ⊢
    exact notMem_of_part part freshTokens
  · have less : (before ++ [a]).countP (·.outcome = .pending) ≤ q.waiting := part.sublist.countP_le
    rw [countP_append,countP_singleton,if_pos (by simpa using waits)] at less
    omega
  · have total := balanced.observed
    have fits := balanced.fits
    have units := sum_le_of_part part (·.units)
    omega

theorem Balanced.attemptTotals_eq {limits : Limits} (balanced : q.Balanced limits) :
    q.attemptTotals provider prints tokens outstanding q.attempts =
      ⟨(prints ++ q.prints provider q.attempts).toFinset,(tokens ++ q.tokens q.attempts).reverse,
        outstanding + q.waiting,
        q.observedUnits,q.submittedUnits,q.attempts.map Attempt.abandon⟩ := by
  rw [balanced.observed,balanced.submitted]
  rfl

def settled (q : PurchaseQuote) : PurchaseQuote :=
  if q.contract.billing.isLegacy then { q with attempts := q.attempts.map Attempt.abandon }
  else { q with attempts := [], completed := ⟨q.observedUnits,q.submittedUnits⟩ }

theorem contract_settled (q : PurchaseQuote) : q.settled.contract = q.contract := by
  simp only [settled,apply_ite contract,ite_self]

theorem active_settled (q : PurchaseQuote) : q.settled.active = q.active := by
  simp only [settled,apply_ite active,ite_self]

theorem submittedUnits_settled (q : PurchaseQuote) : q.settled.submittedUnits = q.submittedUnits := by
  simp only [settled,apply_ite submittedUnits,ite_self]

theorem attempts_settled (q : PurchaseQuote) :
    q.settled.attempts = if q.contract.billing.isLegacy then q.attempts.map Attempt.abandon else [] := by
  simp only [settled,apply_ite attempts]

theorem Balanced.settled {limits : Limits} (h : q.Balanced limits) : q.settled.Balanced limits := by
  obtain ⟨observed,submitted,completed,allowed,fits,nonzero,legacy,modern⟩ := h
  have less := Balanced.submitted_le ⟨observed,submitted,completed,allowed,fits,nonzero,legacy,modern⟩
  unfold PurchaseQuote.settled
  split_ifs with isLegacy
  · refine ⟨?_,?_,completed,allowed,fits,fun a mem => ?_,fun _ => ⟨(legacy isLegacy).1,?_⟩,fun isModern => ?_⟩
    · simpa [Function.comp_def,Attempt.units_abandon] using observed
    · simpa [Function.comp_def,Attempt.submittedUnits_abandon] using submitted
    · obtain ⟨b,inside,rfl⟩ := mem_map.1 mem
      rw [Attempt.units_abandon]
      exact nonzero b inside
    · simpa using (legacy isLegacy).2
    · exact nomatch isLegacy.symm.trans isModern
  · exact ⟨rfl,rfl,less,allowed,fits,nofun,fun isLegacy' => absurd isLegacy' isLegacy,fun _ => nofun⟩

end PurchaseQuote

namespace State

variable {s : State}

def printsOf (s : State) (quotes : List (String × PurchaseQuote)) : List (NodeAddr × Digest) :=
  quotes.flatMap fun e => (s.providerOf e.2).elim [] fun provider => e.2.prints provider e.2.attempts

def tokensOf (quotes : List (String × PurchaseQuote)) : List Nat :=
  quotes.flatMap fun e => e.2.tokens e.2.attempts

def waitingOf (quotes : List (String × PurchaseQuote)) : Nat := (quotes.map fun e => e.2.waiting).sum

def activeServed (s : State) (quotes : List (String × PurchaseQuote)) : List (NodeAddr × NodeAddr) :=
  quotes.flatMap fun e => if e.2.active then
    ((s.providerOf e.2).map (·,e.2.contract.destination)).toList else []

/-- What the loop over the quotes has collected after some of them. -/
def quoteTotals (s : State) (done : List (String × PurchaseQuote)) : QuoteTotals :=
  { seen := (s.printsOf done).toFinset
    activeQuotes := (s.activeServed done).reverse
    tokens := (tokensOf done).reverse
    outstanding := waitingOf done
    quotes := ofList (done.map fun e => (e.1,e.2.settled)) }

theorem nodup_map_of_getElem? {α β : Type} {f : α → β} {l : List α}
    (unique : ∀ (i j : Nat) a b, l[i]? = some a → l[j]? = some b → f a = f b → i = j) : (l.map f).Nodup := by
  refine pairwise_map.2 (pairwise_iff_getElem.2 fun i j hi hj less same => ?_)
  exact less.ne (unique i j _ _ (getElem?_eq_getElem hi) (getElem?_eq_getElem hj) same)

variable {id : String} {i : Nat} {q : PurchaseQuote}

theorem TokensSound.get?_token (h : s.TokensSound) {a : Attempt}
    (found : s.attemptAt id i = some (q,a)) (waits : a.outcome = .pending)
    (modern : q.contract.billing.isLegacy = false) : s.pending.get? a.token = some (id,i) := by
  obtain ⟨t,used⟩ := h.waits id i q a found waits
  obtain ⟨p,b,found',-,carries⟩ := h.held t id i used
  obtain ⟨rfl,rfl⟩ := Prod.mk.inj (some.inj (found.symm.trans found'))
  exact carries modern ▸ used

theorem Sound.get?_tokens (h : s.Sound) {token : Nat} (mem : (id,q) ∈ s.quotes.entries)
    (carried : token ∈ q.tokens q.attempts) : ∃ i, s.pending.get? token = some (id,i) := by
  have held := mem_entries.1 mem
  unfold PurchaseQuote.tokens at carried
  split_ifs at carried with legacy
  · cases carried
  · obtain ⟨a,inside,rfl⟩ := mem_map.1 carried
    obtain ⟨i,there⟩ := mem_iff_getElem?.1 inside
    have modern : q.contract.billing.isLegacy = false := Bool.eq_false_iff.2 legacy
    exact ⟨i,h.tokens.get?_token (attemptAt_eq_some.2 ⟨held,there⟩)
      ((h.quotes.balanced id q held).modern modern a inside).1 modern⟩

theorem Sound.nodup_tokensOf (h : s.Sound) : (tokensOf s.quotes.entries).Nodup := by
  refine nodup_flatMap.2 ⟨?_,?_⟩
  · rintro ⟨id,q⟩ mem
    have held := mem_entries.1 mem
    unfold PurchaseQuote.tokens
    split_ifs with legacy
    · exact nodup_nil
    · refine nodup_map_of_getElem? fun i j a b there there' same => ?_
      have modern : q.contract.billing.isLegacy = false := Bool.eq_false_iff.2 legacy
      have waits := (h.quotes.balanced id q held).modern modern
      have used := h.tokens.get?_token (attemptAt_eq_some.2 ⟨held,there⟩)
        (waits a (mem_of_getElem? there)).1 modern
      have used' := h.tokens.get?_token (attemptAt_eq_some.2 ⟨held,there'⟩)
        (waits b (mem_of_getElem? there')).1 modern
      exact (Prod.mk.inj (some.inj (used.symm.trans (same ▸ used')))).2
  · refine s.quotes.sorted.imp_of_mem ?_
    rintro ⟨id,q⟩ ⟨id',q'⟩ mem mem' less token carried carried'
    obtain ⟨i,used⟩ := h.get?_tokens mem carried
    obtain ⟨j,used'⟩ := h.get?_tokens mem' carried'
    exact less.ne (Prod.mk.inj (some.inj (used.symm.trans used'))).1

variable {provider : NodeAddr} {digest : Digest}

theorem mem_prints_iff (held : s.quotes.get? id = some q) : ((provider,digest) ∈ (s.providerOf
    q).elim [] fun p => q.prints p q.attempts) ↔
      ∃ i, s.LegacyAt id i provider digest := by
  constructor
  · intro mem
    cases paid : s.providerOf q with
    | none => simp [paid] at mem
    | some p =>
      simp only [paid,prints] at mem
      split_ifs at mem with legacy
      · obtain ⟨a,inside,same⟩ := mem_map.1 mem
        obtain ⟨rfl,rfl⟩ := Prod.mk.inj same
        obtain ⟨i,there⟩ := mem_iff_getElem?.1 inside
        exact ⟨i,q,a,attemptAt_eq_some.2 ⟨held,there⟩,legacy,paid,rfl⟩
      · cases mem
  · rintro ⟨i,p,a,found,legacy,paid,rfl⟩
    obtain ⟨held',there⟩ := attemptAt_eq_some.1 found
    cases held.symm.trans held'
    simp only [paid,prints,legacy]
    exact mem_map.2 ⟨a,mem_of_getElem? there,rfl⟩

theorem SeenSound.nodup_printsOf (h : s.SeenSound) : (s.printsOf s.quotes.entries).Nodup := by
  refine nodup_flatMap.2 ⟨?_,?_⟩
  · rintro ⟨id,q⟩ mem
    have held := mem_entries.1 mem
    cases paid : s.providerOf q with
    | none => exact nodup_nil
    | some provider =>
      simp only [prints]
      split_ifs with legacy
      · refine nodup_map_of_getElem? fun i j a b there there' same => ?_
        have known := (Prod.mk.inj same).2
        exact (h.unique id i id j provider a.digest ⟨q,a,attemptAt_eq_some.2 ⟨held,there⟩,legacy,paid,rfl⟩
          ⟨q,b,attemptAt_eq_some.2 ⟨held,there'⟩,legacy,paid,known.symm⟩).2
      · exact nodup_nil
  · refine s.quotes.sorted.imp_of_mem ?_
    rintro ⟨id,q⟩ ⟨id',q'⟩ mem mem' less ⟨provider,digest⟩ print print'
    obtain ⟨i,known⟩ := (mem_prints_iff (mem_entries.1 mem)).1 print
    obtain ⟨j,known'⟩ := (mem_prints_iff (mem_entries.1 mem')).1 print'
    exact less.ne (h.unique id i id' j provider digest known known').1

theorem mem_printsOf : (provider,digest) ∈ s.printsOf s.quotes.entries ↔
    ∃ id i, s.LegacyAt id i provider digest := by
  unfold printsOf
  rw [mem_flatMap]
  constructor
  · rintro ⟨⟨id,q⟩,mem,print⟩
    exact ⟨id,(mem_prints_iff (mem_entries.1 mem)).1 print⟩
  · rintro ⟨id,i,known⟩
    have ⟨q,a,found,_⟩ := known
    have held := (attemptAt_eq_some.1 found).1
    exact ⟨(id,q),mem_entries.2 held,(mem_prints_iff held).2 ⟨i,known⟩⟩

theorem TokensSound.waitingOf_le (h : s.TokensSound) : waitingOf s.quotes.entries ≤ s.limits.maxPending :=
  h.count.trans_le h.room

theorem activeServed_concat (done : List (String × PurchaseQuote)) (id : String)
    (paid : s.providerOf q = some provider) : (s.activeServed (done ++ [(id,q)])).reverse =
      if q.active then (provider,q.contract.destination) :: (s.activeServed done).reverse
      else (s.activeServed done).reverse := by
  cases active : q.active <;> simp [activeServed,active,paid]

variable {done : List (String × PurchaseQuote)}

theorem Sound.recoverAttempts_follows (h : s.Sound) (part : done ++ [(id,q)] <+: s.quotes.entries)
    (paid : s.providerOf q = some provider) :
    q.attempts.foldlM (s.recoverAttempt q.contract.billing.isLegacy provider)
      (q.attemptTotals provider (s.printsOf done) (tokensOf done) (waitingOf done) []) =
      .ok (q.attemptTotals provider (s.printsOf done) (tokensOf done) (waitingOf done) q.attempts) := by
  have held := get?_of_part part
  have prints := nodup_flatMap_of_part part h.seen.nodup_printsOf
  rw [paid] at prints
  refine (h.quotes.balanced id q held).foldlM_recoverAttempt (fun modern a inside => ?_) prints
    (nodup_flatMap_of_part part h.nodup_tokensOf) ((sum_le_of_part part _).trans h.tokens.waitingOf_le)
  have carried : a.token ∈ q.tokens q.attempts := by
    simp only [PurchaseQuote.tokens,modern]
    exact mem_map_of_mem inside
  obtain ⟨i,used⟩ := h.get?_tokens (mem_entries.2 held) carried
  exact h.tokens.range _ _ used

theorem QuotesSound.notMem_activeServed (h : s.QuotesSound)
    (part : done ++ [(id,q)] <+: s.quotes.entries) (paid : s.providerOf q = some provider)
    (active : q.active = true) :
    (provider,q.contract.destination) ∉ s.activeServed done := by
  intro served
  obtain ⟨⟨i,p⟩,mem,entry⟩ := mem_flatMap.1 served
  split_ifs at entry with active'
  · obtain ⟨_,paid',same⟩ := map_eq_some_iff.1 (mem_toList.1 entry)
    obtain ⟨rfl,destination⟩ := Prod.mk.inj same
    obtain ⟨held,less⟩ := earlier_of_part part mem
    exact less.ne (h.active i p id q held (get?_of_part part) active' active (paid'.trans paid.symm)
      destination)
  · cases entry

variable {c : PurchaseChannel}

/-- What recovery checks of a quote before it looks at the attempts. -/
theorem Sound.recoverQuote_passes (h : s.Sound) {e : RetiredRouteEvidence}
    (part : done ++ [(id,q)] <+: s.quotes.entries) (facts : s.QuoteFacts q c e) :
    ¬ (e.rejects q.contract.expiresUnix = true ∨ id ≠ q.contract.id
    ∨
      q.contract.destination = c.provider ∨
      (q.contract.billing.isLegacy = true ∧ s.limits.maxPacketsPerContract < q.attempts.length) ∨
      (s.version = 1 ∧ (!q.contract.billing.isLegacy) = true) ∨
      q.completed.observedUnits < q.completed.submittedUnits ∨
      (q.contract.billing.isLegacy = true ∧ q.completed.observedUnits ≠ 0) ∨
      (q.active = true ∧ ((!c.active) = true ∨
        (c.provider,q.contract.destination) ∈ (s.quoteTotals done).activeQuotes))) := by
  have held := get?_of_part part
  have balanced := h.quotes.balanced id q held
  have paid : s.providerOf q = some c.provider := by rw [providerOf,facts.held,map_some]
  rintro (late | other | back | ⟨legacy,many⟩ | ⟨old,-⟩ | less | ⟨legacy,counted⟩ | ⟨active,closed | twice⟩)
  · cases facts.live.symm.trans late
  · exact other (h.quotes.key id q held).symm
  · exact facts.onward back
  · exact absurd (balanced.legacy legacy).2 (Nat.not_le.2 many)
  · rw [h.header.version] at old
    split_ifs at old <;> omega
  · exact absurd balanced.completed (Nat.not_le.2 less)
  · exact counted (balanced.legacy legacy).1
  · simp [facts.active active] at closed
  · exact h.quotes.notMem_activeServed part paid active (mem_reverse.1 twice)

theorem Sound.recoverQuote_follows (h : s.Sound) (part : done ++ [(id,q)] <+: s.quotes.entries) :
    s.recoverQuote (s.quoteTotals done) (id,q) = .ok (s.quoteTotals (done ++ [(id,q)])) := by
  have held := get?_of_part part
  have balanced := h.quotes.balanced id q held
  obtain ⟨c,e,facts⟩ := h.quotes.channel id q held
  have paid : s.providerOf q = some c.provider := by rw [providerOf,facts.held,map_some]
  have attempts := h.recoverAttempts_follows part paid
  rw [attemptTotals_nil,balanced.attemptTotals_eq] at attempts
  unfold recoverQuote
  simp only [throwIf_eq_ok,bind_eq_ok,orElse_eq_ok,orFail_eq_ok]
  refine ⟨c,facts.held,(),facts.valid,e,facts.retired,h.recoverQuote_passes part facts,_,attempts,?_,?_⟩
  · rintro (wrong | wrong | beyond)
    · exact wrong rfl
    · exact wrong rfl
    · exact absurd balanced.allowed (Nat.not_le.2 beyond)
  · refine congrArg Except.ok ?_
    simp only [quoteTotals,QuoteTotals.mk.injEq]
    refine ⟨?_,(activeServed_concat done id paid).symm,?_,?_,?_⟩
    · simp [printsOf,paid]
    · simp [tokensOf]
    · simp [waitingOf]
    · rw [map_append]
      exact (ofList_concat (done.map fun e => (e.1,e.2.settled)) id q.settled).symm

def settled (s : State) : State :=
  { s with
    quotes := s.quotes.mapValues PurchaseQuote.settled
    seen := (s.printsOf s.quotes.entries).toFinset
    pending := ∅ }

theorem Sound.foldlM_recoverQuote (h : s.Sound) :
    s.quotes.entries.foldlM s.recoverQuote {} = .ok (s.quoteTotals s.quotes.entries) := by
  refine foldlM_follows (f := s.recoverQuote) s.quoteTotals s.quotes.entries ?_
  rintro before ⟨id,q⟩ part
  exact h.recoverQuote_follows part

def activeProviders (channels : List (String × PurchaseChannel)) : List (NodeAddr × String) :=
  ((channels.filter fun e => e.2.active).map fun e => (e.2.provider,e.2.terms.mintUrl)).reverse

theorem activeProviders_concat (done : List (String × PurchaseChannel)) (id : String) (c : PurchaseChannel) :
    activeProviders (done ++ [(id,c)]) =
      if c.active then (c.provider,c.terms.mintUrl) :: activeProviders done else activeProviders done := by
  cases active : c.active <;> simp [activeProviders,active]

theorem Sound.foldlM_recoverChannel (h : s.Sound) : ∃ actives, s.channels.entries.foldlM s.recoverChannel
    ([],(s.history.map (·.authorizedSat)).getD 0) = .ok (actives,s.authorized) := by
  have loop := foldlM_follows (f := s.recoverChannel)
    (fun done : List (String × PurchaseChannel) => (activeProviders done,
    (s.history.map (·.authorizedSat)).getD 0 + (done.map fun e => e.2.authorizedSat).sum))
      s.channels.entries ?_
  · exact ⟨_,loop⟩
  rintro done ⟨id,c⟩ part
  have held := get?_of_part part
  have facts := h.channels.facts id c held
  have total : (s.history.map (·.authorizedSat)).getD 0 +
      (done.map fun e => e.2.authorizedSat).sum + c.authorizedSat <
      2^64 := by
    have all : s.authorized = (s.history.map (·.authorizedSat)).getD 0 +
        (s.channels.entries.map fun e => e.2.authorizedSat).sum := rfl
    have fits := h.budget.fits
    have less : _ + c.authorizedSat ≤ _ := sum_le_of_part part fun e => e.2.authorizedSat
    omega
  unfold recoverChannel
  simp only [throwIf_eq_ok,bind_eq_ok,orElse_eq_ok,orFail_eq_ok]
  refine ⟨_,facts.terms,?_,_,U64.checkedAdd_eq_some.2 ⟨total,rfl⟩,?_⟩
  · rintro (other | other | back | beyond | beyond | ⟨active,twice⟩)
    · exact other facts.key.symm
    · exact other facts.buyer
    · exact facts.provider back
    · exact absurd facts.advance (Nat.not_le.2 beyond)
    · exact absurd facts.capacity (Nat.not_le.2 beyond)
    · obtain ⟨⟨i,d⟩,mem,same⟩ := mem_map.1 (mem_reverse.1 twice)
      obtain ⟨mem,active'⟩ := mem_filter.1 mem
      obtain ⟨provider,mint⟩ := Prod.mk.inj same
      obtain ⟨held',less⟩ := earlier_of_part part mem
      exact less.ne (h.channels.active i d id c held' held active' active provider mint)
  · refine congrArg Except.ok (Prod.ext ?_ ?_)
    · exact (activeProviders_concat done id c).symm
    · simp [Nat.add_assoc]

theorem get?_settled (id : String) :
    s.settled.quotes.get? id = (s.quotes.get? id).map PurchaseQuote.settled :=
  get?_mapValues _ _ _

theorem evidence_settled (s : State) (id : String) : s.settled.evidence id = s.evidence id := by
  unfold evidence
  congr 1
  simp only [settled,mapValues,total_mapWithKey,contract_settled,
    submittedUnits_settled]

theorem not_waits_settled {a : Attempt} (found : s.settled.attemptAt id i = some (q,a)) :
    a.outcome ≠ .pending := by
  obtain ⟨held,there⟩ := attemptAt_eq_some.1 found
  rw [get?_settled] at held
  obtain ⟨p,-,rfl⟩ := map_eq_some_iff.1 held
  rw [attempts_settled] at there
  split_ifs at there
  · rw [getElem?_map] at there
    obtain ⟨b,-,rfl⟩ := map_eq_some_iff.1 there
    exact b.outcome_abandon_ne
  · cases there

theorem legacyAt_settled (found : s.settled.LegacyAt id i provider digest) :
    s.LegacyAt id i provider digest := by
  obtain ⟨q,a,found,legacy,paid,same⟩ := found
  obtain ⟨held,there⟩ := attemptAt_eq_some.1 found
  rw [get?_settled] at held
  obtain ⟨p,before,rfl⟩ := map_eq_some_iff.1 held
  rw [contract_settled] at legacy
  rw [attempts_settled,if_pos legacy,getElem?_map] at there
  obtain ⟨b,inside,rfl⟩ := map_eq_some_iff.1 there
  refine ⟨p,b,attemptAt_eq_some.2 ⟨before,inside⟩,legacy,?_,b.digest_abandon.symm.trans same⟩
  rw [← paid]
  simp only [providerOf,contract_settled]
  rfl

theorem waiting_settled (q : PurchaseQuote) : q.settled.waiting = 0 := by
  unfold waiting
  rw [attempts_settled]
  split_ifs
  · rw [countP_map,countP_eq_zero]
    intro a _
    simpa using a.outcome_abandon_ne
  · rfl

theorem Sound.settled (h : s.Sound) : s.settled.Sound := by
  refine h.updated (f := fun _ q => q.settled) (fun _ q _ => ⟨q.contract_settled,q.active_settled⟩)
    (fun i q held => (h.quotes.balanced i q held).settled) (fun _ q _ => q.submittedUnits_settled.ge)
      h.header.token ?_ ?_
  · refine ⟨nofun,fun i j q a found waits => absurd waits (not_waits_settled (s := s) found),nofun,
      nofun,?_,Nat.zero_le _⟩
    exact total_eq_zero fun i q held => by
      rw [get?_updated] at held
      obtain ⟨p,-,rfl⟩ := map_eq_some_iff.1 held
      exact waiting_settled p
  · refine ⟨fun i j provider digest found => ?_,fun i j i' j' provider digest found found' => ?_⟩
    · exact mem_toFinset.2 (mem_printsOf.2 ⟨i,j,legacyAt_settled (s := s) found⟩)
    · exact h.seen.unique i j i' j' provider digest (legacyAt_settled (s := s) found)
        (legacyAt_settled (s := s) found')

theorem Sound.checkAuthorized_eq_ok (h : s.Sound) (held : s.channels.get? id = some c) :
    s.checkAuthorized () (id,c) = .ok () ↔ s.evidence id < 2^64 := by
  have facts := h.channels.facts id c held
  have earned := h.budget.earned id c held
  obtain ⟨-,fits,-⟩ := validateChannel_eq_ok facts.terms
  have capacity := facts.capacity
  have covered : ¬ ceilSat (U64.saturatingAdd (s.evidence id) c.advanceMsat) < c.authorizedSat := by
    unfold ceilSat U64.saturatingAdd at *
    omega
  unfold checkAuthorized
  rw [bind_eq_ok,h.evidenceMsat_eq held]
  constructor
  · rintro ⟨evidence,found,-⟩
    exact (U64.tryFrom_eq_some.1 (orElse_eq_ok.1 found)).1
  · intro small
    refine ⟨s.evidence id,orElse_eq_ok.2 (U64.tryFrom_eq_some.2 ⟨small,rfl⟩),?_⟩
    rw [if_neg covered]
    rfl

/-- The evidence of every channel can be added up in the counters of the source. -/
def EvidenceFits (s : State) : Prop := ∀ id c, s.channels.get? id = some c → s.evidence id < 2^64

theorem Sound.foldlM_checkAuthorized (h : s.Sound) :
    s.settled.channels.entries.foldlM s.settled.checkAuthorized () = .ok () ↔ s.EvidenceFits := by
  rw [foldlM_unit_eq_ok]
  constructor
  · intro passes id c held
    rw [← s.evidence_settled]
    exact (h.settled.checkAuthorized_eq_ok held).1 (passes (id,c) (mem_entries.2 held))
  · rintro fits ⟨id,c⟩ mem
    have held := mem_entries.1 mem
    refine (h.settled.checkAuthorized_eq_ok held).2 ?_
    rw [s.evidence_settled]
    exact fits id c held

theorem Sound.recovered_retired (h : s.Sound) (held : s.channels.get? id = some c) :
    RetiredRouteEvidence.recovered c.retired (3 ≤ s.version) c.terms.expiresUnix = c.retired := by
  obtain ⟨e,retired,valid,-⟩ := (h.channels.facts id c held).retired
  have modern : 3 ≤ s.version := by
    rw [h.header.version]
    split_ifs <;> omega
  simp [RetiredRouteEvidence.recovered,retired,valid,modern]

theorem HeaderSound.validateChannelHistory_eq (h : s.HeaderSound) : s.validateChannelHistory = .ok () := by
  have version := h.version
  unfold validateChannelHistory
  cases held : s.history with
  | none => simp [version,held]
  | some past => simp [version,held,h.history past held]

/-- A state without its marks comes back from what was saved of it, unless the evidence of a channel has
grown too large. -/
theorem Sound.validateAndRecover_eq_ok (h : s.Sound) {t : State} :
    validateAndRecover { s with seen := ∅, pending := ∅ } = .ok t ↔ s.EvidenceFits ∧ t = s.settled := by
  have version : 3 ≤ s.version ∧ s.version ≤ 4 := by
    rw [h.header.version]
    split_ifs <;> decide
  have header : ¬ (¬ (1 ≤ s.version ∧ s.version ≤ 4) ∨ s.totalBudgetSat = 0 ∨ s.nextToken = 0 ∨
      s.limits.maxChannels < s.channels.size ∨ s.limits.maxContracts < s.quotes.size) := by
    obtain ⟨-,-,budget,token,channels,quotes⟩ := h.header
    omega
  have present : ¬ (s.channels.values.any fun c =>
      RetiredRouteEvidence.recovered c.retired (3 ≤ s.version) c.terms.expiresUnix = none) = true := by
    rw [any_values]
    rintro ⟨id,c,held,gone⟩
    obtain ⟨e,retired,-⟩ := (h.channels.facts id c held).retired
    rw [h.recovered_retired held,retired] at gone
    simp at gone
  have channels : (s.channels.mapValues fun c => { c with
      retired := RetiredRouteEvidence.recovered c.retired (3 ≤ s.version) c.terms.expiresUnix }) =
        s.channels := by
    refine OrderedMap.ext fun id => ?_
    rw [get?_mapValues]
    cases held : s.channels.get? id with
    | none => rfl
    | some c => rw [map_some,h.recovered_retired held]
  have quotes : (s.quoteTotals s.quotes.entries).quotes = s.quotes.mapValues PurchaseQuote.settled :=
    ofList_entries (s.quotes.mapValues PurchaseQuote.settled)
  have same : { s with
      version := max s.version 3
      quotes := s.quotes.mapValues PurchaseQuote.settled
      seen := (s.quoteTotals s.quotes.entries).seen
      pending := ∅ } = s.settled := by
    rw [Nat.max_eq_left version.1]
    rfl
  obtain ⟨actives,first⟩ := h.foldlM_recoverChannel
  unfold validateAndRecover
  simp only [throwIf_eq_ok,bind_eq_ok,channels]
  constructor
  · rintro ⟨-,-,-,-,-,-,-,totals,second,_,third,result⟩
    obtain rfl := Except.ok.inj (second.symm.trans h.foldlM_recoverQuote)
    rw [quotes] at third result
    exact ⟨h.foldlM_checkAuthorized.1 third,(pure_eq_ok.1 result).symm.trans same⟩
  · rintro ⟨fits,rfl⟩
    refine ⟨header,present,(),h.header.validateChannelHistory_eq,_,first,Nat.not_lt.2 h.budget.within,_,
      h.foldlM_recoverQuote,(),?_,?_⟩
    · rw [quotes]
      exact h.foldlM_checkAuthorized.2 fits
    · rw [quotes]
      exact pure_eq_ok.2 same

end State

end Fips.Relay.Buyer
