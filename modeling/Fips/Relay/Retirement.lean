import Fips.Relay.Outcomes

set_option autoImplicit false

/-! What the two retirements keep of the accounts and channels they take away. -/

namespace Fips.Relay

open Checked OrderedMap RetiredRouteEvidence List Option

namespace RetiredRouteEvidence

variable {u : Usage}

theorem addUsage_eq_some {a b : Usage} (h : addUsage a b = some u) :
    u = ⟨a.reservedUnits + b.reservedUnits,a.submittedUnits + b.submittedUnits,
      a.unconfirmedUnits + b.unconfirmedUnits⟩ ∧ u.reservedUnits < 2^64 := by
  simp only [addUsage,bind_eq_bind,bind_eq_some_iff,U64.checkedAdd_eq_some,
    Option.some.injEq] at h
  obtain ⟨_,⟨fits,rfl⟩,_,⟨-,rfl⟩,_,⟨-,rfl⟩,rfl⟩ := h
  exact ⟨rfl,fits⟩

abbrev Items := List (Contract × Usage)

def addAll (e : RetiredRouteEvidence) (items : Items) : Option RetiredRouteEvidence :=
  items.foldlM (fun e item => e.added item.1 item.2) e

/-- What the evidence `e'` says about the agreements `items` on top of `e`. -/
structure Extends (e : RetiredRouteEvidence) (items : Items) (e' : RetiredRouteEvidence) : Prop where
  contracts : e'.contracts = e.contracts + items.length
  reserved : e'.reservedMsat = e.reservedMsat + (items.map fun i => i.1.price.due i.2.reservedUnits).sum
  submitted : e'.submittedMsat = e.submittedMsat + (items.map fun i => i.1.price.due i.2.submittedUnits).sum
  reservedUnits : e'.units.reservedUnits = e.units.reservedUnits + (items.map (·.2.reservedUnits)).sum
  submittedUnits : e'.units.submittedUnits = e.units.submittedUnits + (items.map (·.2.submittedUnits)).sum
  unconfirmedUnits : e'.units.unconfirmedUnits =
    e.units.unconfirmedUnits + (items.map (·.2.unconfirmedUnits)).sum
  fits : items ≠ [] → e'.units.reservedUnits < 2^64
  submittedFits : items ≠ [] → e'.submittedMsat < 2^64
  covers : ∀ i ∈ items, i.1.expiresUnix ≤ e'.throughUnix
  later : e.throughUnix ≤ e'.throughUnix
  through : ∀ bound, e.throughUnix ≤ bound → (∀ i ∈ items, i.1.expiresUnix ≤ bound) → e'.throughUnix ≤ bound
  same : items = [] → e' = e

theorem Extends.nil (e : RetiredRouteEvidence) : e.Extends [] e := by
  constructor <;> simp

variable {e e₁ e' : RetiredRouteEvidence} {items : Items}

theorem Extends.cons {c : Contract} (first : e.added c u = some e₁) (rest : e₁.Extends items e') :
    e.Extends ((c,u) :: items) e' := by
  simp only [added,bind_eq_bind,bind_eq_some_iff,U64.checkedAdd_eq_some,
    BytePrice.amountDueMsat_eq_some,Option.some.injEq] at first
  obtain ⟨_,⟨-,rfl⟩,units,summed,_,⟨-,-,rfl⟩,_,⟨-,rfl⟩,_,⟨-,-,rfl⟩,_,⟨submittedFits,rfl⟩,rfl⟩ := first
  obtain ⟨rfl,fits⟩ := addUsage_eq_some summed
  have through := rest.later
  exact {
    contracts := by simp only [rest.contracts,length_cons]; omega
    reserved := by simp only [rest.reserved,map_cons,sum_cons]; omega
    submitted := by simp only [rest.submitted,map_cons,sum_cons]; omega
    reservedUnits := by simp only [rest.reservedUnits,map_cons,sum_cons]; omega
    submittedUnits := by simp only [rest.submittedUnits,map_cons,sum_cons]; omega
    unconfirmedUnits := by simp only [rest.unconfirmedUnits,map_cons,sum_cons]; omega
    fits := by
      intro _
      by_cases last : items = []
      · rw [rest.same last]
        exact fits
      · exact rest.fits last
    submittedFits := by
      intro _
      by_cases last : items = []
      · rw [rest.same last]
        exact submittedFits
      · exact rest.submittedFits last
    covers := forall_mem_cons.2 ⟨(le_max_right _ _).trans through,rest.covers⟩
    later := (le_max_left _ _).trans through
    through := by
      intro bound before all
      refine rest.through bound (max_le before (all _ mem_cons_self)) ?_
      exact fun i hi => all i (mem_cons_of_mem _ hi)
    same := fun impossible => absurd impossible (cons_ne_nil _ _) }

theorem extends_of_addAll (h : e.addAll items = some e') : e.Extends items e' := by
  induction items generalizing e with
  | nil =>
    obtain rfl := Option.some.inj h
    exact Extends.nil e
  | cons item rest ih =>
    simp only [addAll,foldlM_cons,bind_eq_bind,bind_eq_some_iff] at h
    obtain ⟨e₁,first,later⟩ := h
    exact Extends.cons first (ih later)

theorem addAll_cons {c : Contract} (first : e.added c u = some e₁) (rest : e₁.addAll items = some e') :
    e.addAll ((c,u) :: items) = some e' := by
  simpa [addAll,first] using rest

theorem addAll_append {e₂ : RetiredRouteEvidence} {more : Items} (first : e.addAll items = some e₁)
    (second : e₁.addAll more = some e₂) : e.addAll (items ++ more) = some e₂ := by
  unfold addAll at *
  rw [foldlM_append,first]
  exact second

variable {expiry : Nat}

/-- Evidence stays valid when the usages added to it are balanced and end with the channel. -/
theorem Extends.valid (h : e.Extends items e') (before : e.valid expiry = true)
    (ends : ∀ i ∈ items, i.1.expiresUnix ≤ expiry)
    (balanced : ∀ i ∈ items, i.2.reservedUnits = i.2.submittedUnits + i.2.unconfirmedUnits) :
    e'.valid expiry = true := by
  by_cases none : items = []
  · rw [h.same none]
    exact before
  · have some : e'.contracts ≠ 0 := by
      have length := length_pos_of_ne_nil none
      rw [h.contracts]
      omega
    have units : (items.map (·.2.reservedUnits)).sum =
        (items.map (·.2.submittedUnits)).sum + (items.map (·.2.unconfirmedUnits)).sum := by
      rw [← sum_map_add]
      exact congrArg sum (map_congr_left balanced)
    have costs : (items.map fun i => i.1.price.due i.2.submittedUnits).sum ≤
        (items.map fun i => i.1.price.due i.2.reservedUnits).sum := by
      refine sum_le_sum fun i hi => i.1.price.due_mono ?_
      rw [balanced i hi]
      omega
    have old : e.throughUnix ≤ expiry ∧
        e.units.submittedUnits + e.units.unconfirmedUnits = e.units.reservedUnits ∧
        e.submittedMsat ≤ e.reservedMsat := by
      unfold RetiredRouteEvidence.valid at before
      split_ifs at before with empty
      · obtain rfl : e = {} := by simpa using before
        simp
      · simp only [decide_eq_true_eq,U64.checkedAdd_eq_some] at before
        exact ⟨before.1,before.2.1.2,before.2.2⟩
    have fits := h.fits none
    unfold RetiredRouteEvidence.valid
    rw [if_neg some,decide_eq_true_eq,U64.checkedAdd_eq_some]
    rw [h.reservedUnits] at fits
    refine ⟨h.through expiry old.1 ends,⟨?_,?_⟩,?_⟩
    · rw [h.submittedUnits,h.unconfirmedUnits]
      omega
    · rw [h.submittedUnits,h.unconfirmedUnits,h.reservedUnits]
      omega
    · rw [h.submitted,h.reserved]
      omega

theorem Extends.rejects (h : e.Extends items e') {i : Contract × Usage} (hi : i ∈ items) :
    e'.rejects i.1.expiresUnix = true := by
  have length := length_pos_of_mem hi
  have some := h.contracts
  simp only [RetiredRouteEvidence.rejects,decide_eq_true_eq]
  exact ⟨by omega,h.covers i hi⟩

theorem Extends.rejects_of_rejects (h : e.Extends items e') (before : e.rejects expiry = true) :
    e'.rejects expiry = true := by
  have some := h.contracts
  simp only [RetiredRouteEvidence.rejects,decide_eq_true_eq] at before ⊢
  exact ⟨by omega,before.2.trans h.later⟩

theorem Extends.live {channelExpiry : Nat} (h : e.Extends items e') (valid : e.valid channelExpiry = true)
    (before : e.rejects expiry = false) (ends : ∀ i ∈ items, i.1.expiresUnix < expiry) :
    e'.rejects expiry = false := by
  cases items with
  | nil =>
    rw [h.same rfl]
    exact before
  | cons i rest =>
    have later := ends i mem_cons_self
    have early : e.throughUnix ≤ expiry - 1 := by
      simp only [RetiredRouteEvidence.rejects,decide_eq_false_iff_not] at before
      unfold RetiredRouteEvidence.valid at valid
      split_ifs at valid with empty
      · obtain rfl : e = {} := by simpa using valid
        exact Nat.zero_le _
      · omega
    have bound := h.through (expiry - 1) early fun j hj => Nat.le_sub_one_of_lt (ends j hj)
    simp only [RetiredRouteEvidence.rejects,decide_eq_false_iff_not]
    omega

end RetiredRouteEvidence

namespace RelayLedger

variable {l l' : RelayLedger}

def Idle (a : Account) : Prop := a.active = false ∧ a.contract.billing.isLegacy = false ∧ a.attempts = ∅

theorem foldlM_planAccount {closed : List Account} {plan plan' : RouteRetirementPlan}
    (h : closed.foldlM planAccount plan = .ok plan') :
    (∀ a ∈ closed, Idle a) ∧
    ∃ after, plan.after.addAll (closed.map fun a => (a.contract,a.usage)) = some after ∧
      plan' = { plan with after, contracts := plan.contracts ++ closed.map (·.contract) } := by
  induction closed generalizing plan with
  | nil =>
    obtain rfl := pure_eq_ok.1 h
    exact ⟨by simp,plan.after,rfl,by simp⟩
  | cons a rest ih =>
    simp only [foldlM_cons,planAccount,bind_eq_ok,throwIf_eq_ok,elim_eq_ok,pure_eq_ok] at h
    obtain ⟨_,⟨busy,first,added,rfl⟩,h⟩ := h
    obtain ⟨idle,after,all,rfl⟩ := ih h
    simp only [not_or,Bool.not_eq_true,Nat.not_lt,Nat.le_zero] at busy
    refine ⟨forall_mem_cons.2 ⟨?_,idle⟩,after,addAll_cons added all,by simp⟩
    exact ⟨busy.1,busy.2.1,eq_empty_of_size busy.2.2⟩

structure Uninstalled (l : RelayLedger) (terms : ChannelTerms) (channel : String) (throughUnix : Nat)
    (c : Contract) : Prop where
  valid : validateContract c terms = .ok ()
  channel : c.channelId = channel
  through : c.expiresUnix ≤ throughUnix
  modern : c.billing.isLegacy = false
  absent : l.accounts.get? c.id = none

theorem planUninstalled_eq_ok {terms : ChannelTerms}
    {acc acc' : List String × RouteRetirementPlan} {c : Contract} :
    l.planUninstalled terms acc c = .ok acc' ↔
      l.Uninstalled terms acc.2.channel acc.2.throughUnix c ∧ c.id ∉ acc.1 ∧
      (acc.2.before.rejects c.expiresUnix = true ∧ acc' = (c.id :: acc.1,acc.2) ∨
        acc.2.before.rejects c.expiresUnix = false ∧ ∃ after, acc.2.after.added c {} = some after ∧
          acc' = (c.id :: acc.1,{ acc.2 with after, contracts := acc.2.contracts ++ [c] })) := by
  unfold planUninstalled
  simp only [bind_eq_ok,throwIf_eq_ok,not_or,not_not,Nat.not_lt,contains_eq,Bool.not_eq_true,
    isSome_eq_false_iff,isNone_iff_eq_none]
  constructor
  · rintro ⟨⟨⟩,valid,⟨channel,through,modern,fresh,absent⟩,result⟩
    refine ⟨⟨valid,channel,through,modern,absent⟩,fresh,?_⟩
    split_ifs at result with rejected
    · exact .inl ⟨rejected,(pure_eq_ok.1 result).symm⟩
    · simp only [bind_eq_ok,elim_eq_ok,pure_eq_ok] at result
      obtain ⟨after,added,rfl⟩ := result
      exact .inr ⟨by simpa using rejected,after,added,rfl⟩
  · rintro ⟨facts,fresh,⟨rejected,rfl⟩ | ⟨live,after,added,rfl⟩⟩
    · refine ⟨(),facts.valid,⟨facts.channel,facts.through,facts.modern,fresh,facts.absent⟩,?_⟩
      rw [if_pos rejected]
      rfl
    · refine ⟨(),facts.valid,⟨facts.channel,facts.through,facts.modern,fresh,facts.absent⟩,?_⟩
      rw [if_neg (by simp [live]),added]
      rfl

theorem foldlM_planUninstalled {terms : ChannelTerms} {uninstalled : List Contract}
    {acc acc' : List String × RouteRetirementPlan}
    (h : uninstalled.foldlM (l.planUninstalled terms) acc = .ok acc') :
    (∀ c ∈ uninstalled, l.Uninstalled terms acc.2.channel acc.2.throughUnix c) ∧
    ((uninstalled.map (·.id)).Nodup ∧ ∀ c ∈ uninstalled, c.id ∉ acc.1) ∧
    ∃ kept after, kept ⊆ uninstalled ∧
      (∀ c ∈ uninstalled, c ∈ kept ∨ acc.2.before.rejects c.expiresUnix = true) ∧
      acc.2.after.addAll (kept.map fun c => (c,{})) = some after ∧
      acc'.2 = { acc.2 with after, contracts := acc.2.contracts ++ kept } := by
  induction uninstalled generalizing acc with
  | nil =>
    obtain rfl := pure_eq_ok.1 h
    exact ⟨by simp,by simp,[],acc.2.after,by simp,by simp,rfl,by simp⟩
  | cons c rest ih =>
    rw [foldlM_cons,bind_eq_ok] at h
    obtain ⟨next,here,later⟩ := h
    obtain ⟨facts,fresh,⟨rejected,rfl⟩ | ⟨live,first,added,rfl⟩⟩ := planUninstalled_eq_ok.1 here
    all_goals
      obtain ⟨all,⟨nodup,apart⟩,kept,after,subset,covered,sum,result⟩ := ih later
      refine ⟨forall_mem_cons.2 ⟨facts,all⟩,nodup_keys_cons fresh nodup apart,?_⟩
    · exact ⟨kept,after,subset_cons_of_subset c subset,forall_mem_cons.2 ⟨.inr rejected,covered⟩,sum,result⟩
    · refine ⟨c :: kept,after,cons_subset_cons c subset,?_,addAll_cons added sum,by simp [result]⟩
      refine forall_mem_cons.2 ⟨.inl mem_cons_self,?_⟩
      exact fun d hd => (covered d hd).imp_left (mem_cons_of_mem _)

def closes (channel : String) (throughUnix : Nat) (a : Account) : Bool :=
  a.contract.channelId = channel ∧ a.contract.expiresUnix ≤ throughUnix

def routesRetired (l : RelayLedger) (channel : String) (throughUnix : Nat) (after : RetiredRouteEvidence) :
    RelayLedger :=
  { l with
    accounts := l.accounts.filterValues fun a => !closes channel throughUnix a
    channels := l.channels.modify channel fun c => { c with retired := after } }

/-- What the retirement of the routes of channel `c` found and kept. -/
structure RetiresRoutes (l : RelayLedger) (channel : String) (throughUnix : Nat) (uninstalled : List Contract)
    (c : Channel) (kept : List Contract) (after : RetiredRouteEvidence) : Prop where
  held : l.channels.get? channel = some c
  idle : ∀ id a, l.accounts.get? id = some a → closes channel throughUnix a = true → Idle a
  few : uninstalled.length ≤ l.limits.maxContracts
  ids : (uninstalled.map (·.id)).Nodup
  facts : ∀ d ∈ uninstalled, l.Uninstalled c.terms channel throughUnix d
  subset : kept ⊆ uninstalled
  covered : ∀ d ∈ uninstalled, d ∈ kept ∨ c.retired.rejects d.expiresUnix = true
  evidence : c.retired.Extends (((l.accounts.values.filter (closes channel throughUnix)).map
    fun a => (a.contract,a.usage)) ++ kept.map fun d => (d,({} : Usage))) after

/-- Erasing the agreements of a plan leaves the accounts that the plan did not take. -/
theorem erase_closed (channel : String) (throughUnix : Nat) {kept : List Contract}
    (keyed : ∀ id a, l.accounts.get? id = some a → a.contract.id = id)
    (absent : ∀ d ∈ kept, l.accounts.get? d.id = none) :
    (((l.accounts.values.filter (closes channel throughUnix)).map (·.contract) ++ kept).foldl
      (fun accounts contract => accounts.erase contract.id) l.accounts) =
      l.accounts.filterValues fun a => !closes channel throughUnix a := by
  have ids := foldl_erase_eq_filterValues _ keyed (closes channel throughUnix) (forall_mem_map.2 absent)
  rw [← ids,← foldl_map (f := Contract.id),map_append,List.map_map]
  rfl

theorem retireClosedRoutes_eq_ok {channel : String} {throughUnix n : Nat} {uninstalled : List Contract}
    (keyed : ∀ id a, l.accounts.get? id = some a → a.contract.id = id)
    (h : l.retireClosedRoutesWithUninstalled channel throughUnix uninstalled = .ok (n,l')) :
    ∃ c kept after, l.RetiresRoutes channel throughUnix uninstalled c kept after ∧
      l' = l.routesRetired channel throughUnix after := by
  simp only [retireClosedRoutesWithUninstalled,ite_error_eq_ok,bind_eq_ok] at h
  obtain ⟨few,plan,planned,-,rfl⟩ := h
  unfold retirementPlanWithUninstalled at planned
  cases held : l.channels.get? channel with
  | none => simp [held] at planned
  | some c =>
    simp only [held,bind_eq_ok,pure_eq_ok] at planned
    obtain ⟨first,accounts,⟨ids,second⟩,rest,rfl⟩ := planned
    obtain ⟨idle,middle,all,rfl⟩ := foldlM_planAccount accounts
    obtain ⟨facts,ids,kept,after,subset,covered,more,rfl⟩ := foldlM_planUninstalled rest
    refine ⟨c,kept,after,⟨held,?_,Nat.le_of_not_lt few,ids.1,facts,subset,covered,?_⟩,?_⟩
    · intro id a ha closed
      exact idle a (mem_filter.2 ⟨mem_values.2 ⟨id,ha⟩,closed⟩)
    · exact extends_of_addAll (addAll_append all more)
    · have accounts := erase_closed channel throughUnix keyed fun d hd => (facts d (subset hd)).absent
      simp only [routesRetired,← accounts]
      rfl

end RelayLedger

def Debt.owner (d : Debt) : NodeAddr × String := (d.buyer,d.mint)

def ChannelTerms.owner (t : ChannelTerms) : NodeAddr × String := (t.buyer,t.mintUrl)

namespace History

def owed (debts : List Debt) (owner : NodeAddr × String) : Nat :=
  (debts.map fun d => if d.owner = owner then d.msat else 0).sum

variable {debts : List Debt}

theorem owed_eq_zero {owner : NodeAddr × String} (h : owner ∉ debts.map Debt.owner) :
    owed debts owner = 0 := by
  refine sum_eq_zero fun x hx => ?_
  obtain ⟨d,hd,rfl⟩ := mem_map.1 hx
  exact if_neg fun same => h (mem_map.2 ⟨d,hd,same⟩)

variable {h : History}

theorem owner_eq_iff {d : Debt} {t : ChannelTerms} :
    d.buyer = t.buyer ∧ d.mint = t.mintUrl ↔ d.owner = t.owner := by
  simp [Debt.owner,ChannelTerms.owner]

theorem debt_eq_owed (nodup : (h.debts.map Debt.owner).Nodup) (t : ChannelTerms) :
    h.debt t = owed h.debts t.owner := by
  unfold debt
  generalize h.debts = debts at nodup ⊢
  induction debts with
  | nil => rfl
  | cons d rest ih =>
    obtain ⟨first,tail⟩ := nodup_cons.1 nodup
    have split : owed (d :: rest) t.owner =
        (if d.owner = t.owner then d.msat else 0) + owed rest t.owner := rfl
    rw [split]
    by_cases same : d.owner = t.owner
    · rw [find?_cons_of_pos (by simpa using owner_eq_iff.2 same),if_pos same,owed_eq_zero (same ▸ first)]
      rfl
    · have differs : ¬ (decide (d.buyer = t.buyer ∧ d.mint = t.mintUrl)) = true := by
        rw [decide_eq_true_eq,owner_eq_iff]
        exact same
      rw [find?_cons,if_neg same,ih tail |>.symm]
      simp [differs]

variable {debts' : List Debt}

theorem owed_of_perm (h : debts.Perm debts') (owner : NodeAddr × String) :
    owed debts owner = owed debts' owner := (h.map _).sum_eq

theorem raise_eq_ok {terms : ChannelTerms} {msat : Nat} (h : addDebt.raise terms msat debts = .ok debts')
    (nodup : (debts.map Debt.owner).Nodup) (known : terms.owner ∈ debts.map Debt.owner) :
    debts'.map Debt.owner = debts.map Debt.owner ∧
      ∀ owner, owed debts' owner = owed debts owner + if owner = terms.owner then msat else 0 := by
  induction debts generalizing debts' with
  | nil => simp at known
  | cons d rest ih =>
    obtain ⟨first,tail⟩ := nodup_cons.1 nodup
    unfold addDebt.raise at h
    split_ifs at h with same
    · simp only [map_eq_ok,add,elim_eq_ok,U64.checkedAdd_eq_some] at h
      obtain ⟨_,⟨-,rfl⟩,rfl⟩ := h
      have owns := owner_eq_iff.1 same
      refine ⟨rfl,fun owner => ?_⟩
      show (if d.owner = owner then d.msat + msat else 0) + owed rest owner =
        (if d.owner = owner then d.msat else 0) + owed rest owner + _
      rw [owns]
      by_cases asked : terms.owner = owner
      · simp only [if_pos asked,if_pos asked.symm]
        omega
      · simp only [if_neg asked,if_neg (Ne.symm asked)]
        omega
    · obtain ⟨rest',changed,rfl⟩ := map_eq_ok.1 h
      have later : terms.owner ∈ rest.map Debt.owner := by
        rw [map_cons,mem_cons] at known
        exact known.resolve_left fun equal => same (owner_eq_iff.2 equal.symm)
      obtain ⟨owners,amounts⟩ := ih changed tail later
      refine ⟨by rw [map_cons,map_cons,owners],fun owner => ?_⟩
      show (if d.owner = owner then d.msat else 0) + owed rest' owner =
        (if d.owner = owner then d.msat else 0) + owed rest owner + _
      rw [amounts owner]
      omega

theorem addDebt_eq_ok {terms : ChannelTerms} {msat : Nat} (h : addDebt debts terms msat = .ok debts')
    (nodup : (debts.map Debt.owner).Nodup) :
    (debts'.map Debt.owner).Nodup ∧
      ∀ owner, owed debts' owner = owed debts owner + if owner = terms.owner then msat else 0 := by
  have known : (debts.any fun d => d.buyer = terms.buyer ∧ d.mint = terms.mintUrl) = true ↔
      terms.owner ∈ debts.map Debt.owner := by
    simp [Debt.owner,ChannelTerms.owner]
  unfold addDebt at h
  split_ifs at h with present
  · obtain ⟨owners,amounts⟩ := raise_eq_ok h nodup (known.1 present)
    exact ⟨owners ▸ nodup,amounts⟩
  · obtain rfl := Except.ok.inj h
    have perm := perm_insertionSort
      (fun a b : Debt => a.buyer < b.buyer ∨ a.buyer = b.buyer ∧ a.mint ≤ b.mint)
      (debts ++ [⟨terms.buyer,terms.mintUrl,msat⟩])
    constructor
    · rw [(perm.map Debt.owner).nodup_iff,map_append,nodup_append]
      refine ⟨nodup,by simp,?_⟩
      intro owner inside other added
      obtain rfl : other = terms.owner := by simpa [Debt.owner,ChannelTerms.owner] using added
      exact fun same => present (known.2 (same ▸ inside))
    · intro owner
      have last : owed (debts ++ [⟨terms.buyer,terms.mintUrl,msat⟩]) owner =
          owed debts owner + owed [⟨terms.buyer,terms.mintUrl,msat⟩] owner := by simp [owed]
      rw [owed_of_perm perm,last]
      exact congrArg _ ((Nat.add_zero _).trans (if_congr eq_comm rfl rfl))

theorem foldlM_checkDebt {acc acc' : List (NodeAddr × String) × Nat}
    (h : debts.foldlM checkDebt acc = some acc') :
    ((debts.map Debt.owner).Nodup ∧ ∀ d ∈ debts, d.owner ∉ acc.1) ∧
      acc'.2 = acc.2 + (debts.map (·.msat)).sum ∧
      (acc.2 < 2^64 → acc'.2 < 2^64) := by
  induction debts generalizing acc with
  | nil =>
    cases h
    simp
  | cons d rest ih =>
    simp only [foldlM_cons,bind_eq_bind,bind_eq_some_iff] at h
    obtain ⟨next,checked,later⟩ := h
    unfold checkDebt at checked
    split_ifs at checked with bad
    simp only [map_eq_some_iff,U64.checkedAdd_eq_some] at checked
    obtain ⟨_,⟨fits,rfl⟩,rfl⟩ := checked
    obtain ⟨⟨nodup,apart⟩,total,bound⟩ := ih later
    simp only [not_or] at bad
    refine ⟨nodup_keys_cons bad.2.2.2 nodup apart,?_,fun _ => bound fits⟩
    rw [map_cons,sum_cons]
    omega

theorem valid_debts {limit : Nat} (valid : h.valid limit = true) :
    (h.debts.map Debt.owner).Nodup ∧ (h.debts.map (·.msat)).sum < 2^64 := by
  unfold History.valid at valid
  split_ifs at valid with empty
  · obtain rfl : h = {} := by simpa using valid
    simp
  · simp only [decide_eq_true_eq,Option.any_eq_true] at valid
    obtain ⟨-,-,-,-,-,-,-,-,-,acc,folded,-⟩ := valid
    obtain ⟨⟨nodup,-⟩,total,bound⟩ := foldlM_checkDebt folded
    exact ⟨nodup,by omega⟩

structure Adds (h : History) (c : ChannelSnapshot) (h' : History) : Prop where
  owners : (h'.debts.map Debt.owner).Nodup
  owed : ∀ owner, owed h'.debts owner = History.owed h.debts owner + if owner = c.terms.owner then
    c.usage.debt else 0
  through : h'.expiresThroughUnix = max h.expiresThroughUnix c.terms.expiresUnix
  count : h'.channels = h.channels + 1
  reserved : h'.usage.reservedMsat = h.usage.reservedMsat + c.usage.reservedMsat
  submitted : h'.usage.submittedMsat = h.usage.submittedMsat + c.usage.submittedMsat

theorem added_eq_ok {h' : History} {c : ChannelSnapshot} (added : h.added c = .ok h')
    (nodup : (h.debts.map Debt.owner).Nodup) : h.Adds c h' := by
  simp only [History.added,add,bind_eq_ok,elim_eq_ok,U64.checkedAdd_eq_some] at added
  obtain ⟨_,⟨-,rfl⟩,_,⟨-,rfl⟩,_,⟨-,rfl⟩,_,⟨-,rfl⟩,_,⟨-,rfl⟩,_,⟨-,rfl⟩,_,-,_,-,added⟩ := added
  split_ifs at added with owes
  · simp only [bind_eq_ok,pure_eq_ok] at added
    obtain ⟨debts,changed,rfl⟩ := added
    obtain ⟨owners,amounts⟩ := addDebt_eq_ok changed nodup
    exact ⟨owners,amounts,rfl,rfl,rfl,rfl⟩
  · obtain rfl := Except.ok.inj added
    have free : c.usage.debt = 0 := not_not.1 owes
    exact ⟨nodup,by simp [free],rfl,rfl,rfl,rfl⟩

structure AddsAll (h : History) (channels : List ChannelSnapshot) (h' : History) : Prop where
  owners : (h'.debts.map Debt.owner).Nodup
  owed : ∀ owner, owed h'.debts owner = History.owed h.debts owner +
    (channels.map fun c => if owner = c.terms.owner then c.usage.debt else 0).sum
  later : h.expiresThroughUnix ≤ h'.expiresThroughUnix
  through : ∀ c ∈ channels, c.terms.expiresUnix ≤ h'.expiresThroughUnix
  count : h'.channels = h.channels + channels.length
  reserved : h'.usage.reservedMsat = h.usage.reservedMsat + (channels.map (·.usage.reservedMsat)).sum
  submitted : h'.usage.submittedMsat = h.usage.submittedMsat + (channels.map (·.usage.submittedMsat)).sum

theorem addsAll_of_foldlM {h' : History} {channels : List ChannelSnapshot}
    (folded : channels.foldlM History.added h = .ok h') (nodup : (h.debts.map Debt.owner).Nodup) :
    h.AddsAll channels h' := by
  induction channels generalizing h with
  | nil =>
    obtain rfl := pure_eq_ok.1 folded
    exact ⟨nodup,by simp,le_rfl,by simp,by simp,by simp,by simp⟩
  | cons c rest ih =>
    rw [foldlM_cons,bind_eq_ok] at folded
    obtain ⟨h₁,first,later⟩ := folded
    have one := added_eq_ok first nodup
    have all := ih later one.owners
    have through := one.through ▸ all.later
    refine ⟨all.owners,?_,(le_max_left _ _).trans through,
      forall_mem_cons.2 ⟨(le_max_right _ _).trans through,all.through⟩,?_,?_,?_⟩
    · intro owner
      rw [all.owed,one.owed,map_cons,sum_cons]
      omega
    · rw [all.count,one.count,length_cons]
      omega
    · rw [all.reserved,one.reserved,map_cons,sum_cons]
      omega
    · rw [all.submitted,one.submitted,map_cons,sum_cons]
      omega

end History

namespace Plan

/-- What a validated plan says. -/
structure Valid (p : Plan) (limit : Nat) : Prop where
  ids : (p.channels.map (·.terms.id)).Nodup
  nonempty : p.channels ≠ []
  folded : p.channels.foldlM History.added p.before = .ok p.after
  before : p.before.valid limit = true
  after : p.after.valid limit = true

theorem foldlM_checkChannel {channels : List ChannelSnapshot} {acc acc' : List String × History}
    (h : channels.foldlM checkChannel acc = .ok acc') :
    ((channels.map (·.terms.id)).Nodup ∧ ∀ c ∈ channels, c.terms.id ∉ acc.1) ∧
      channels.foldlM History.added acc.2 = .ok acc'.2 := by
  induction channels generalizing acc with
  | nil =>
    obtain rfl := pure_eq_ok.1 h
    exact ⟨by simp,rfl⟩
  | cons c rest ih =>
    simp only [foldlM_cons,checkChannel,bind_eq_ok,throwIf_eq_ok,pure_eq_ok] at h
    obtain ⟨_,⟨_,-,_,-,bad,next,added,rfl⟩,later⟩ := h
    obtain ⟨⟨nodup,apart⟩,folded⟩ := ih later
    simp only [not_or] at bad
    refine ⟨nodup_keys_cons bad.2.1 nodup apart,?_⟩
    rw [foldlM_cons,bind_eq_ok]
    exact ⟨next,added,folded⟩

theorem validate_eq_ok {p : Plan} {limit : Nat} (h : p.validate limit = .ok ()) : p.Valid limit := by
  simp only [validate,bind_eq_ok,ite_throw_eq_ok] at h
  obtain ⟨⟨ids,after⟩,folded,bad,-⟩ := h
  obtain ⟨⟨nodup,-⟩,all⟩ := foldlM_checkChannel folded
  simp only [not_or,not_not,Bool.not_eq_true,Bool.not_eq_false',isEmpty_eq_false_iff] at bad
  obtain ⟨nonempty,-,rfl,before,valid⟩ := bad
  exact ⟨nodup,nonempty,all,before,valid⟩

end Plan

namespace RelayLedger

variable {l l' : RelayLedger}

def channelsRetired (l : RelayLedger) (plan : Plan) : RelayLedger :=
  { l with
    channels := plan.channels.foldl (fun channels c => channels.erase c.terms.id) l.channels
    history := some plan.after }

theorem get?_channelsRetired (l : RelayLedger) (plan : Plan) (id : String) :
    (l.channelsRetired plan).channels.get? id =
      if ∃ c ∈ plan.channels, c.terms.id = id then none else l.channels.get? id := by
  have ids := get?_foldl_erase (plan.channels.map (·.terms.id)) l.channels id
  rw [foldl_map] at ids
  simp only [List.mem_map] at ids
  exact ids

structure RetiresChannels (l : RelayLedger) (plan : Plan) : Prop where
  before : l.history.getD {} = plan.before
  held : ∀ c ∈ plan.channels, ∃ s, l.channels.get? c.terms.id = some s ∧
    s.active = false ∧ s.terms = c.terms ∧
    s.usage = c.usage ∧ some s.retired = c.retired
  empty : ∀ c ∈ plan.channels, ∀ id a, l.accounts.get? id = some a → a.contract.channelId ≠ c.terms.id

theorem retireChannels_eq_ok {plan : Plan} {changed : Bool} (h : l.retireChannels plan = .ok (changed,l')) :
    plan.Valid l.limits.maxChannels ∧
    (changed = false ∧ l' = l ∧ l.history = some plan.after ∧
      (∀ c ∈ plan.channels, l.channels.get? c.terms.id = none) ∨
    changed = true ∧ l.RetiresChannels plan ∧ l' = l.channelsRetired plan) := by
  simp only [retireChannels,bind_eq_ok] at h
  obtain ⟨⟨⟩,valid,h⟩ := h
  refine ⟨Plan.validate_eq_ok valid,?_⟩
  by_cases again : l.history = some plan.after ∧ plan.channels.all fun c => !l.channels.contains c.terms.id
  · rw [if_pos again] at h
    obtain ⟨rfl,rfl⟩ := Prod.mk.inj (pure_eq_ok.1 h)
    refine .inl ⟨rfl,rfl,again.1,?_⟩
    simpa using again.2
  · rw [if_neg again,throwIf_eq_ok] at h
    obtain ⟨differs,h⟩ := h
    obtain ⟨rfl,rfl⟩ := Prod.mk.inj (pure_eq_ok.1 h)
    simp only [not_or,not_not,Bool.not_eq_true,Bool.not_eq_false',List.all_eq_true] at differs
    obtain ⟨before,found⟩ := differs
    simp only [planMatches,decide_eq_true_eq,Option.any_eq_true,Bool.not_eq_true'] at found
    refine .inr ⟨rfl,⟨before,?_,?_⟩,rfl⟩
    · intro c hc
      obtain ⟨⟨s,held,facts⟩,-⟩ := found c hc
      exact ⟨s,held,facts⟩
    · intro c hc id a ha same
      have none := (found c hc).2
      rw [Bool.eq_false_iff] at none
      exact none (any_values.2 ⟨id,a,ha,by simpa using same⟩)

end RelayLedger

end Fips.Relay
