import Fips.Relay.Restoring

set_option autoImplicit false

/-! What recovery makes of the snapshot of a sound ledger. -/

namespace Fips.Relay

open Checked OrderedMap List

theorem Attempt.abandon_abandon (t : Attempt) : t.abandon.abandon = t.abandon := by
  rw [Attempt.abandon,if_neg (Account.state_abandon t)]

namespace Account

variable {limits : Limits} {a : Account}

theorem Balanced.settled (h : a.Balanced limits) : a.settled.Balanced limits := (h.setActive false).sealed

theorem unitsIn_pending_settled (a : Account) : a.settled.unitsIn .pending = 0 := unitsIn_pending_sealed _

theorem Balanced.attempts_settled (h : a.Balanced limits) :
    a.settled.attempts = if a.contract.billing.isLegacy then a.attempts.mapValues Attempt.abandon else ∅ := by
  rw [h.settled_eq,← a.kept_entries]

theorem Balanced.settled_settled (h : a.Balanced limits) : a.settled.settled = a.settled := by
  have contract : a.settled.contract = a.contract := by rw [h.settled_eq]
  have attempts : a.settled.kept a.settled.attempts.entries = a.kept a.attempts.entries := by
    rw [kept_entries,kept_entries,h.attempts_settled,contract]
    split_ifs
    · refine OrderedMap.ext fun d => ?_
      rw [get?_mapValues,get?_mapValues,Option.map_map]
      exact Option.map_congr fun t _ => t.abandon_abandon
    · rfl
  rw [h.settled.settled_eq,unitsIn_pending_settled,attempts]
  rw [h.settled_eq]
  rfl

end Account

namespace RelayLedger

variable {l l' : RelayLedger}

theorem pending_abandoned (h : l.TokensSound) : (l.abandoned fun _ => true).pending = ∅ := by
  refine OrderedMap.ext fun t => ?_
  cases held : (l.abandoned fun _ => true).pending.get? t with
  | none => rfl
  | some found =>
    obtain ⟨id,d⟩ := found
    obtain ⟨waits,kept⟩ := (get?_pending_abandoned h t id d).1 held
    obtain ⟨x,hx,-⟩ := (h.pending t id d).1 waits
    obtain ⟨a,ha,-⟩ := Option.bind_eq_some_iff.1 hx
    exact absurd (kept a ha) (by simp)

theorem Sound.settled_eq (h : l.Sound) :
    l.settled = (l.deactivated (fun _ => true) fun _ _ => true).abandoned fun _ => true := by
  have closed : (l.deactivated (fun _ => true) fun _ _ => true).Sound := h.deactivated fun _ _ _ _ => rfl
  have pending := pending_abandoned closed.tokens
  have accounts : ((l.deactivated (fun _ => true) fun _ _ => true).abandoned fun _ => true).accounts =
      l.accounts.mapValues Account.settled := by
    refine OrderedMap.ext fun id => ?_
    rw [get?_accounts_abandoned,RelayLedger.deactivated,get?_mapWithKey,get?_mapValues,Option.map_map]
    rfl
  unfold RelayLedger.settled
  rw [← accounts,← pending]
  rfl

theorem Sound.settled (h : l.Sound) : l.settled.Sound := by
  rw [h.settled_eq]
  exact (h.deactivated fun _ _ _ _ => rfl).abandoned _

theorem Sound.settled_settled (h : l.Sound) : l.settled.settled = l.settled := by
  have channels : l.settled.settled.channels = l.settled.channels := by
    refine OrderedMap.ext fun id => ?_
    simp [RelayLedger.settled,Function.comp_def]
  have accounts : l.settled.settled.accounts = l.settled.accounts := by
    refine OrderedMap.ext fun id => ?_
    rw [RelayLedger.settled,RelayLedger.settled,get?_mapValues,get?_mapValues,Option.map_map]
    exact Option.map_congr fun a ha => (h.accounts.balanced id a ha).settled_settled
  calc l.settled.settled = { l.settled with channels := l.settled.settled.channels, accounts :=
    l.settled.settled.accounts } := rfl
    _ = l.settled := by rw [channels,accounts]

def activeOwners (channels : List (String × Channel)) : List (NodeAddr × String) :=
  ((channels.filter fun e => e.2.active).map fun e => (e.2.terms.buyer,e.2.terms.mintUrl)).reverse

theorem activeOwners_concat (done : List (String × Channel)) (id : String) (c : Channel) :
    activeOwners (done ++ [(id,c)]) =
      if c.active then (c.terms.buyer,c.terms.mintUrl) :: activeOwners done else activeOwners done := by
  cases active : c.active <;> simp [activeOwners,active]

def reactivated (l : RelayLedger) (done : List (String × Channel)) : OrderedMap String Channel :=
  l.channels.mapPart (done.map Prod.fst) (fun _ c => c) fun _ c => { c with active := false }

variable {id : String} {c : Channel}

theorem reactivated_concat {done : List (String × Channel)} (part : done ++ [(id,c)] <+: l.channels.entries) :
    l.reactivated (done ++ [(id,c)]) = (l.reactivated done).modify id fun d =>
      { d with active := c.active } := by
  unfold reactivated
  rw [map_append]
  refine mapPart_concat (notMem_keys part) fun d hd => ?_
  cases (get?_of_part part).symm.trans hd
  rfl

theorem Sound.reactivateChannel_follows (h : l.Sound) {done : List (String × Channel)}
    (part : done ++ [(id,c)] <+: l.channels.entries) :
    reactivateChannel (activeOwners done,l.reactivated done) c.snapshot =
      .ok (activeOwners (done ++ [(id,c)]),l.reactivated (done ++ [(id,c)])) := by
  have held := get?_of_part part
  have key : c.snapshot.terms.id = id := h.channels.key id c held
  have alone : ¬ (c.snapshot.active = true ∧
      (c.snapshot.terms.buyer,c.snapshot.terms.mintUrl) ∈ activeOwners done) := by
    rintro ⟨active,mem⟩
    simp only [activeOwners,mem_reverse,mem_map,mem_filter] at mem
    obtain ⟨⟨j,d⟩,⟨hd,serves⟩,same⟩ := mem
    obtain ⟨buyer,mint⟩ := Prod.mk.inj same
    obtain ⟨held',less⟩ := earlier_of_part part hd
    exact less.ne (h.activity.channels j d id c held' held serves active buyer mint)
  unfold reactivateChannel
  rw [throwIf_eq_ok,activeOwners_concat,reactivated_concat part,key]
  exact ⟨alone,rfl⟩

theorem Sound.foldlM_reactivateChannel (h : l.Sound) :
    ∃ owners, l.snapshot.channels.foldlM reactivateChannel ([],l.settled.channels) =
      .ok (owners,l.channels) := by
  have loop := foldlM_follows (fun done : List (String × Channel) => (activeOwners done,l.reactivated done))
    l.channels.entries (f := fun acc e => reactivateChannel acc e.2.snapshot)
    fun done x part => h.reactivateChannel_follows part
  have stop : l.reactivated l.channels.entries = l.channels :=
    (mapPart_keys _ _ _).trans (mapWithKey_self _)
  rw [stop] at loop
  refine ⟨_,Eq.trans ?_ loop⟩
  show (l.channels.values.map Channel.snapshot).foldlM _ _ = _
  rw [values,map_map,foldlM_map]
  rfl

def activeServed (l : RelayLedger) (accounts : List (String × Account)) : List (NodeAddr × NodeAddr) :=
  ((accounts.filter fun e => e.2.active).filterMap fun e =>
    (l.buyerOf e.2).map fun buyer => (buyer,e.2.contract.destination)).reverse

theorem activeServed_concat (done : List (String × Account)) (id : String) {a : Account} {buyer : NodeAddr}
    (owner : l.buyerOf a = some buyer) :
    l.activeServed (done ++ [(id,a)]) =
      if a.active then (buyer,a.contract.destination) :: l.activeServed done else l.activeServed done := by
  cases active : a.active <;> simp [activeServed,active,owner]

theorem active_settled (a : Account) : { a.settled with active := a.active } = a.sealed := by
  unfold Account.settled Account.sealed
  split_ifs <;> rfl

theorem usage_settled (a : Account) : a.settled.usage = a.sealed.usage := by
  rw [← active_settled a]

theorem contract_settled (a : Account) : a.settled.contract = a.contract := Account.contract_sealed _

def resumed (l : RelayLedger) (done : List (String × Account)) : OrderedMap String Account :=
  l.accounts.mapPart (done.map Prod.fst) (fun _ a => a.sealed) fun _ a => a.settled

theorem resumed_concat {done : List (String × Account)} {a : Account}
    (part : done ++ [(id,a)] <+: l.accounts.entries) :
    l.resumed (done ++ [(id,a)]) = (l.resumed done).modify id fun b => { b with active := a.active } := by
  unfold resumed
  rw [map_append]
  refine mapPart_concat (notMem_keys part) fun b hb => ?_
  cases (get?_of_part part).symm.trans hb
  exact active_settled a

theorem Sound.reactivateAccount_follows (h : l.Sound) {done : List (String × Account)} {a : Account}
    (part : done ++ [(id,a)] <+: l.accounts.entries) :
    reactivateAccount l.channels (l.activeServed done,l.resumed done) a.snapshot =
      .ok (l.activeServed (done ++ [(id,a)]),l.resumed (done ++ [(id,a)])) := by
  have held := get?_of_part part
  have key : a.snapshot.contract.id = id := h.accounts.key id a held
  obtain ⟨c,hc,-⟩ := h.accounts.channel id a held
  have owner : l.buyerOf a = some c.terms.buyer := by rw [buyerOf,hc,Option.map_some]
  have alone : ¬ (a.snapshot.active = true ∧ ((!c.active) = true ∨
      (c.terms.buyer,a.snapshot.contract.destination) ∈ l.activeServed done)) := by
    rintro ⟨active,closed | mem⟩
    · obtain ⟨d,hd,serves⟩ := h.activity.serves id a held active
      cases hc.symm.trans hd
      simp [serves] at closed
    · simp only [activeServed,mem_reverse,mem_filterMap,mem_filter] at mem
      obtain ⟨⟨j,b⟩,⟨hb,serves⟩,same⟩ := mem
      obtain ⟨buyer,owned,pair⟩ := Option.map_eq_some_iff.1 same
      obtain ⟨rfl,destination⟩ := Prod.mk.inj pair
      obtain ⟨held',less⟩ := earlier_of_part part hb
      exact less.ne (h.activity.accounts j b id a held' held serves active (owned.trans owner.symm)
        destination)
  unfold reactivateAccount
  simp only [bind_eq_ok,throwIf_eq_ok,orInvalid,elim_eq_ok]
  refine ⟨c,hc,alone,?_⟩
  rw [activeServed_concat done id owner,resumed_concat part,key]
  rfl

theorem Sound.foldlM_reactivateAccount (h : l.Sound) :
    ∃ served, l.snapshot.accounts.foldlM (reactivateAccount l.channels) ([],l.settled.accounts) =
      .ok (served,l.accounts.mapValues Account.sealed) := by
  have loop := foldlM_follows (fun done : List (String × Account) => (l.activeServed done,l.resumed done))
    l.accounts.entries (f := fun acc e => reactivateAccount l.channels acc e.2.snapshot)
    fun done x part => h.reactivateAccount_follows part
  have stop : l.resumed l.accounts.entries = l.accounts.mapValues Account.sealed := mapPart_keys _ _ _
  rw [stop] at loop
  refine ⟨_,Eq.trans ?_ loop⟩
  show (l.accounts.values.map Account.snapshot).foldlM _ _ = _
  rw [values,map_map,foldlM_map]
  rfl

/-- The ledger with everything that waits for its outcome given up, and what was active active as before. -/
def halted (l : RelayLedger) : RelayLedger := l.abandoned fun _ => true

theorem Sound.halted (h : l.Sound) : l.halted.Sound := h.abandoned _

/-- A window on an active channel that has an active account, above what the channel reserved and within
its limit. -/
structure Coverable (l : RelayLedger) (id : String) (ceiling : Nat) (c : Channel) : Prop where
  held : l.channels.get? id = some c
  active : c.active = true
  quoted : ∃ i a, l.accounts.get? i = some a ∧ a.active = true ∧ a.contract.channelId = id
  above : c.usage.reservedMsat ≤ ceiling
  within : ∃ maximum, l.reservationLimit c.terms c.usage.paidMsat = some maximum ∧ ceiling ≤ maximum

def giveUp (ceiling : Nat) (u : ChannelUsage) : ChannelUsage :=
  { u with lostMsat := u.lostMsat + (ceiling - u.reservedMsat), reservedMsat := ceiling }

def covered (l : RelayLedger) (id : String) (ceiling : Nat) : RelayLedger :=
  { l with channels := l.channels.modify id fun c => withUsage c (giveUp ceiling) }

variable {ceiling : Nat}

theorem Coverable.le_credit (h : l.BoundsSound) (can : l.Coverable id ceiling c) :
    c.terms.capacitySat * 1000 < 2^64 ∧ ceiling ≤ c.terms.capacitySat * 1000 ∧
      ceiling ≤ U64.saturatingAdd c.usage.paidMsat c.terms.graceMsat - l.carried c.terms := by
  obtain ⟨maximum,limit,within⟩ := can.within
  rw [h.reservationLimit_eq] at limit
  split_ifs at limit with fits
  cases limit
  exact ⟨fits.2,within.trans (min_le_left _ _),within.trans (min_le_right _ _)⟩

theorem Sound.covered_eq (h : l.Sound) (can : l.Coverable id ceiling c) :
    l.covered id ceiling = { l with channels := l.channels.modify id fun c => { c with usage := { c.usage with
      lostMsat := U64.wrappingAdd c.usage.lostMsat (ceiling - c.usage.reservedMsat)
      reservedMsat := ceiling } } } := by
  obtain ⟨fits,within,-⟩ := can.le_credit h.bounds
  have lost := h.submitted_add_lost_le can.held
  have above := can.above
  have exact : U64.wrappingAdd c.usage.lostMsat (ceiling - c.usage.reservedMsat) =
      c.usage.lostMsat + (ceiling - c.usage.reservedMsat) := U64.wrappingAdd_eq (by omega)
  unfold covered
  congr 1
  refine OrderedMap.ext fun i => ?_
  rw [get?_modify,get?_modify]
  refine Option.map_congr fun d hd => ?_
  split_ifs with here
  · subst here
    cases can.held.symm.trans hd
    rw [exact]
    rfl
  · rfl

theorem Sound.recoverWindow_eq_ok (h : l.Sound) :
    recoverWindow l (id,ceiling) = .ok l' ↔ (∃ c, l.Coverable id ceiling c) ∧ l' = l.covered id ceiling := by
  unfold recoverWindow
  simp only [throwIf_eq_ok,bind_eq_ok,orInvalid,elim_eq_ok,not_or,Nat.not_lt]
  constructor
  · rintro ⟨c,held,maximum,limit,⟨active,quoted,above,within⟩,result⟩
    have can : l.Coverable id ceiling c := by
      refine ⟨held,by simpa using active,?_,above,maximum,limit,within⟩
      have any : (l.accounts.values.any fun a => a.active ∧ a.contract.channelId = id) = true := by
        simpa using quoted
      obtain ⟨i,a,ha,both⟩ := any_values.1 any
      exact ⟨i,a,ha,by simpa using both⟩
    exact ⟨⟨c,can⟩,(pure_eq_ok.1 result).symm.trans (h.covered_eq can).symm⟩
  · rintro ⟨⟨c,can⟩,rfl⟩
    obtain ⟨maximum,limit,within⟩ := can.within
    refine ⟨c,can.held,maximum,limit,⟨by simp [can.active],?_,can.above,within⟩,?_⟩
    · obtain ⟨i,a,ha,both⟩ := can.quoted
      have any : (l.accounts.values.any fun a => a.active ∧ a.contract.channelId = id) = true :=
        any_values.2 ⟨i,a,ha,by simpa using both⟩
      simpa using any
    · exact congrArg Except.ok (h.covered_eq can).symm

theorem Sound.covered (h : l.Sound) (can : l.Coverable id ceiling c) : (l.covered id ceiling).Sound := by
  obtain ⟨-,capacity,credit⟩ := can.le_credit h.bounds
  have above := can.above
  have reserved := h.channels.reserved id c can.held
  refine h.update (g := giveUp ceiling) can.held ?_ rfl (h.channels.paid id c can.held)
    capacity ?_ (.inr can.active)
    fun _ => .inr credit
  · simp only [giveUp]
    omega
  · simp only [giveUp]
    unfold U64.saturatingAdd at credit
    omega

theorem get?_covered (id i : String) (ceiling : Nat) : (l.covered id ceiling).channels.get? i =
    (l.channels.get? i).map fun c => if i = id then withUsage c (giveUp ceiling) else c := get?_modify _ _ _ _

theorem Sound.carried_covered (h : l.Sound) {i : String} {d : Channel} (can : l.Coverable id ceiling c)
    (hd : l.channels.get? i = some d) (active : d.active = true) (other : i ≠ id) :
    (l.covered id ceiling).carried d.terms = l.carried d.terms := by
  unfold RelayLedger.carried RelayLedger.covered OrderedMap.modify
  rw [total_mapWithKey]
  congr 1
  refine total_congr fun j e he => ?_
  by_cases same : j = id
  · subst same
    cases can.held.symm.trans he
    have unrelated : related d.terms c = false := by
      rw [Bool.eq_false_iff]
      intro rel
      simp only [related,decide_eq_true_eq] at rel
      exact other (h.activity.channels i d j c hd can.held active can.active rel.2.1.symm rel.2.2.symm)
    have unrelated' : related d.terms (withUsage c (giveUp ceiling)) = false := unrelated
    rw [if_pos rfl,unrelated,unrelated']
    rfl
  · rw [if_neg same]

theorem Sound.coverable_covered (h : l.Sound) {i : String} {upper : Nat} (can : l.Coverable id ceiling c)
    (other : i ≠ id) (d : Channel) : (l.covered id ceiling).Coverable i upper d ↔ l.Coverable i upper d := by
  have same : (l.covered id ceiling).channels.get? i = l.channels.get? i := by
    rw [get?_covered]
    simp only [if_neg other,Option.map_id']
  have limit (hd : l.channels.get? i = some d) (active : d.active = true) :
      (l.covered id ceiling).reservationLimit d.terms d.usage.paidMsat =
        l.reservationLimit d.terms d.usage.paidMsat := by
    rw [h.bounds.reservationLimit_eq,(h.covered can).bounds.reservationLimit_eq,
      h.carried_covered can hd active other]
  constructor
  · intro hd
    have held : l.channels.get? i = some d := same ▸ hd.held
    exact ⟨held,hd.active,hd.quoted,hd.above,limit held hd.active ▸ hd.within⟩
  · intro hd
    exact ⟨same ▸ hd.held,hd.active,hd.quoted,hd.above,(limit hd.held hd.active).symm ▸ hd.within⟩

variable {windows : List (String × Nat)}

/-- The loop over the windows succeeds when each of them fits the ledger it starts from. -/
theorem Sound.foldlM_recoverWindow (h : l.Sound) (sorted : windows.Pairwise fun w w' => w.1 < w'.1) :
    windows.foldlM recoverWindow l = .ok l' ↔
      (∀ id ceiling, (id,ceiling) ∈ windows → ∃ c, l.Coverable id ceiling c) ∧
        l' = windows.foldl (fun l w => l.covered w.1 w.2) l := by
  induction windows generalizing l with
  | nil => simp [pure,Except.pure,eq_comm]
  | cons w rest ih =>
    obtain ⟨id,ceiling⟩ := w
    obtain ⟨first,tail⟩ := pairwise_cons.1 sorted
    rw [foldlM_cons,bind_eq_ok]
    constructor
    · rintro ⟨l₁,here,later⟩
      obtain ⟨⟨c,can⟩,rfl⟩ := h.recoverWindow_eq_ok.1 here
      obtain ⟨all,rfl⟩ := (ih (h.covered can) tail).1 later
      refine ⟨?_,rfl⟩
      intro i upper hw
      obtain same | mem := mem_cons.1 hw
      · obtain ⟨rfl,rfl⟩ := Prod.mk.inj same
        exact ⟨c,can⟩
      · obtain ⟨d,hd⟩ := all i upper mem
        exact ⟨d,(h.coverable_covered can (first _ mem).ne' d).1 hd⟩
    · rintro ⟨all,rfl⟩
      obtain ⟨c,can⟩ := all id ceiling mem_cons_self
      refine ⟨_,h.recoverWindow_eq_ok.2 ⟨⟨c,can⟩,rfl⟩,(ih (h.covered can) tail).2 ⟨?_,rfl⟩⟩
      intro i upper mem
      obtain ⟨d,hd⟩ := all i upper (mem_cons_of_mem _ mem)
      exact ⟨d,(h.coverable_covered can (first _ mem).ne' d).2 hd⟩

def raised (l : RelayLedger) (windows : OrderedMap String Nat) : RelayLedger :=
  windows.entries.foldl (fun l w => l.covered w.1 w.2) l

theorem Sound.foldl_covered (h : l.Sound) (sorted : windows.Pairwise fun w w' => w.1 < w'.1)
    (all : ∀ id ceiling, (id,ceiling) ∈ windows → ∃ c, l.Coverable id ceiling c) :
    (windows.foldl (fun l w => l.covered w.1 w.2) l).Sound := by
  induction windows generalizing l with
  | nil => exact h
  | cons w rest ih =>
    obtain ⟨id,ceiling⟩ := w
    obtain ⟨first,tail⟩ := pairwise_cons.1 sorted
    obtain ⟨c,can⟩ := all id ceiling mem_cons_self
    refine ih (h.covered can) tail ?_
    intro i upper mem
    obtain ⟨d,hd⟩ := all i upper (mem_cons_of_mem _ mem)
    exact ⟨d,(h.coverable_covered can (first _ mem).ne' d).2 hd⟩

theorem foldl_covered_eq (windows : List (String × Nat)) (l : RelayLedger) :
    windows.foldl (fun l w => l.covered w.1 w.2) l =
      { l with channels := (windows.foldl (fun l w => l.covered w.1 w.2) l).channels } := by
  induction windows generalizing l with
  | nil => rfl
  | cons w rest ih => exact ih _

theorem raised_eq (l : RelayLedger) (windows : OrderedMap String Nat) :
    l.raised windows = { l with channels := (l.raised windows).channels } := foldl_covered_eq _ _

theorem accounts_raised (l : RelayLedger) (windows : OrderedMap String Nat) :
    (l.raised windows).accounts = l.accounts := by
  rw [raised_eq]

theorem get?_foldl_covered (sorted : windows.Pairwise fun w w' => w.1 < w'.1)
    (l : RelayLedger) (id : String) :
    (windows.foldl (fun l w => l.covered w.1 w.2) l).channels.get? id = (l.channels.get? id).map fun c =>
      (lookupEntry id windows).elim c fun ceiling => withUsage c (giveUp ceiling) := by
  induction windows generalizing l with
  | nil => exact Option.map_id'.symm
  | cons w rest ih =>
    obtain ⟨first,tail⟩ := pairwise_cons.1 sorted
    rw [foldl_cons,ih tail,get?_covered,Option.map_map]
    refine Option.map_congr fun c _ => ?_
    rw [Function.comp_apply,lookupEntry]
    by_cases here : id = w.1
    · have gone : lookupEntry id rest = none := by
        rw [Option.eq_none_iff_forall_ne_some]
        intro ceiling found
        exact (first _ ((lookupEntry_eq_some tail).1 found)).ne here.symm
      rw [gone,if_pos here,if_pos here]
      rfl
    · rw [if_neg here,if_neg here]

theorem get?_raised (l : RelayLedger) (windows : OrderedMap String Nat) (id : String) :
    (l.raised windows).channels.get? id = (l.channels.get? id).map fun c =>
      (windows.get? id).elim c fun ceiling => withUsage c (giveUp ceiling) :=
        get?_foldl_covered windows.sorted l id

/-- Windows that recovery accepts: each fits its channel, and every channel with an active account has one. -/
structure Covers (l : RelayLedger) (windows : OrderedMap String Nat) : Prop where
  coverable : ∀ id ceiling, windows.get? id = some ceiling → ∃ c, l.Coverable id ceiling c
  complete : ∀ i a, l.accounts.get? i = some a → a.active = true →
    (windows.get? a.contract.channelId).isSome = true

theorem Sound.raised (h : l.Sound) {windows : OrderedMap String Nat} (covers : l.Covers windows) :
    (l.raised windows).Sound :=
  h.foldl_covered windows.sorted fun id ceiling mem => covers.coverable id ceiling (mem_entries.1 mem)

/-- The snapshot of a sound ledger is recovered with the windows that cover it, and with no others. -/
theorem Sound.recoverWindows_eq_ok (h : l.Sound) {windows : OrderedMap String Nat} :
    recoverWindows l.snapshot windows = .ok l' ↔ l.halted.Covers windows ∧ l' = l.halted.raised windows := by
  obtain ⟨owners,channels⟩ := h.foldlM_reactivateChannel
  obtain ⟨served,accounts⟩ := h.foldlM_reactivateAccount
  have resumes : ({ l.settled with channels := l.channels, accounts := l.accounts.mapValues Account.sealed } :
    RelayLedger) =
      l.halted := by
    calc _ = { l with accounts := l.accounts.mapValues Account.sealed, pending := ∅ } := rfl
      _ = l.halted := by
        rw [← pending_abandoned h.tokens]
        rfl
  have covered (recovered : RelayLedger) (same : recovered.accounts = l.halted.accounts) :
      ¬ (recovered.accounts.values.any fun a => a.active ∧ !windows.contains a.contract.channelId) = true ↔
      ∀ i a, l.halted.accounts.get? i = some a → a.active = true →
        (windows.get? a.contract.channelId).isSome = true := by
    rw [any_values,same]
    simp only [decide_eq_true_eq,contains_eq,not_exists,not_and,Bool.not_eq_true',Bool.not_eq_false]
  unfold recoverWindows
  rw [h.restore_snapshot]
  simp only [bind_eq_ok,throwIf_eq_ok,Except.ok.injEq,exists_eq_left',channels,accounts,resumes,
    h.halted.foldlM_recoverWindow windows.sorted]
  constructor
  · rintro ⟨recovered,⟨all,rfl⟩,complete,result⟩
    exact ⟨⟨fun id ceiling hw => all id ceiling (mem_entries.2 hw),
      (covered _ (accounts_raised l.halted windows)).1 complete⟩,(pure_eq_ok.1 result).symm⟩
  · rintro ⟨covers,rfl⟩
    exact ⟨_,⟨fun id ceiling mem => covers.coverable id ceiling (mem_entries.1 mem),rfl⟩,
      (covered _ (accounts_raised l.halted windows)).2 covers.complete,rfl⟩

end RelayLedger

end Fips.Relay
