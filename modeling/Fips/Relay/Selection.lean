import Fips.Relay.Terms

set_option autoImplicit false

/-! How the source of a paid route asks its neighbours for offers and chooses one. -/

namespace Fips.Relay

open List

structure PriceSelectionPolicy where
  feedbackTimeoutMs : Nat := 15_000
  retryAfterMs : Nat := 60_000
  trialMaxUnits : Nat := 32_768
  minImprovementPercent : Nat := 10
  maxLossPercent : Nat := 25
  maxRttMs : Nat := 5_000

def PriceSelectionPolicy.validate (p : PriceSelectionPolicy) : Except String Unit :=
  if ¬ (1_000 ≤ p.feedbackTimeoutMs ∧ p.feedbackTimeoutMs ≤ 60_000)
      ∨ ¬ (p.feedbackTimeoutMs ≤ p.retryAfterMs ∧ p.retryAfterMs ≤ 3_600_000)
      ∨ ¬ (4_096 ≤ p.trialMaxUnits ∧ p.trialMaxUnits ≤ 1_048_576)
      ∨ 50 < p.minImprovementPercent ∨ 90 < p.maxLossPercent ∨ ¬ (1 ≤ p.maxRttMs ∧ p.maxRttMs ≤ 60_000) then
    .error "invalid price selection policy"
  else .ok ()

structure RouteOffer where
  id : String
  provider : NodeAddr
  destination : NodeAddr
  path : List NodeAddr
  price : BytePrice
  deriving DecidableEq

def RouteOffer.samePath (a b : RouteOffer) : Bool :=
  a.provider = b.provider ∧ a.path = b.path ∧ a.destination = b.destination

/-- Instants are counted in nanoseconds. -/
structure Observation where
  path : List NodeAddr
  time : Nat
  lossPpm : Nat

structure Destination where
  active : Option RouteOffer := none
  restored : Bool := false
  observations : OrderedMap NodeAddr Observation := ∅
  failed : OrderedMap NodeAddr Nat := ∅
  cursor : Nat := 0
  blockedTrial : Option String := none

def maxCandidates : Nat := 4

/-- A loop that collects what passes until it has `cap` of them. -/
theorem foldl_collect {α : Type} (p : α → Bool) (cap : Nat) (xs : List α) {acc : List α}
    (room : acc.length ≤ cap) :
    xs.foldl (fun acc x => if acc.length = cap then acc else if p x then acc ++ [x] else acc) acc =
      acc ++ (xs.filter p).take (cap - acc.length) := by
  induction xs generalizing acc with
  | nil => simp
  | cons x xs ih =>
    rw [foldl_cons]
    split_ifs with full passes
    · rw [ih room,full]
      simp
    · have more : cap - acc.length = cap - (acc ++ [x]).length + 1 := by
        rw [length_append,length_singleton]; omega
      rw [ih (by rw [length_append,length_singleton]; omega),filter_cons_of_pos passes,more]
      simp
    · rw [ih room,filter_cons_of_neg passes]

namespace Destination

variable (self : Destination) (peers : List NodeAddr) (now : Nat)

def providerEligible (provider : NodeAddr) : Bool :=
  !(self.active.any fun active => self.blockedTrial = some active.id && active.provider = provider)
    && (self.failed.get? provider).all (· ≤ now)

/-- Whether the peer at an index is asked besides the active provider. -/
def asked (index : Nat) : Bool :=
  peers[index]?.any fun peer => some peer ≠ self.active.map (·.provider) && self.providerEligible now peer

/-- The index of the active provider, when it is asked. -/
def first : List Nat :=
  (peers.findIdx? fun peer => some peer = self.active.map (·.provider) &&
    self.providerEligible now peer).toList

/-- The indices from the cursor on. -/
def turns : List Nat := (List.range peers.length).map fun offset => (self.cursor + offset) % peers.length

def candidateIndices : List Nat × Destination :=
  if peers = [] then (self.first peers now,self) else
    ((self.turns peers).foldl (fun selected index =>
        if selected.length = maxCandidates then selected
        else if self.asked peers now index then selected ++ [index] else selected) (self.first peers now),
      { self with cursor := (self.cursor + maxCandidates - 1) % peers.length })

theorem candidateIndices_fst : (self.candidateIndices peers now).1 =
    self.first peers now ++ ((self.turns peers).filter (self.asked peers now)).take
      (4 - (self.first peers now).length) := by
  have few : (self.first peers now).length ≤ maxCandidates := Option.length_toList_le.trans (by decide)
  unfold candidateIndices
  split_ifs with empty
  · rw [turns,empty]
    simp
  · exact foldl_collect _ _ _ few

variable {self peers now}

theorem mem_first {i : Nat} (mem : i ∈ self.first peers now) :
    ∃ peer, peers[i]? = some peer ∧ some peer = self.active.map (·.provider) ∧
      self.providerEligible now peer = true := by
  obtain ⟨inside,passes,_⟩ := List.findIdx?_eq_some_iff_getElem.1 (Option.mem_toList.1 mem)
  rw [Bool.and_eq_true,decide_eq_true_eq] at passes
  exact ⟨peers[i],getElem?_eq_getElem inside,passes⟩

theorem asked_iff {i : Nat} : self.asked peers now i = true ↔
    ∃ peer, peers[i]? = some peer ∧ some peer ≠ self.active.map (·.provider) ∧
      self.providerEligible now peer = true := by
  simp [asked,Option.any_eq_true]

theorem candidateIndices_sound :
    (self.candidateIndices peers now).1.length ≤ 4 ∧ (self.candidateIndices peers now).1.Nodup ∧
    ∀ i ∈ (self.candidateIndices peers now).1, ∃ peer, peers[i]? = some peer ∧
      self.providerEligible now peer = true := by
  have few : (self.first peers now).length ≤ 1 := Option.length_toList_le
  rw [candidateIndices_fst]
  refine ⟨?_,nodup_append.2 ⟨?_,?_,?_⟩,?_⟩
  · rw [length_append,length_take]
    omega
  · unfold first
    cases peers.findIdx? _ <;> simp
  · refine ((nodup_range.map_on fun o ho o' ho' same => ?_).filter _).sublist (take_sublist _ _)
    exact Nat.ModEq.eq_of_lt_of_lt (Nat.ModEq.add_left_cancel' _ same) (mem_range.1 ho) (mem_range.1 ho')
  · intro i hi j hj same
    obtain ⟨peer,held,active,_⟩ := mem_first hi
    obtain ⟨other,held',inactive,_⟩ := asked_iff.1 (mem_filter.1 (mem_of_mem_take hj)).2
    cases same
    cases held.symm.trans held'
    exact inactive active
  · intro i hi
    obtain hi | hi := mem_append.1 hi
    · obtain ⟨peer,held,_,eligible⟩ := mem_first hi
      exact ⟨peer,held,eligible⟩
    · obtain ⟨peer,held,_,eligible⟩ := asked_iff.1 (mem_filter.1 (mem_of_mem_take hi)).2
      exact ⟨peer,held,eligible⟩

theorem active_mem {peer : NodeAddr} (active : some peer = self.active.map (·.provider))
    (listed : peer ∈ peers) (eligible : self.providerEligible now peer = true) :
    ∃ i ∈ (self.candidateIndices peers now).1, peers[i]? = some peer := by
  have found : (peers.findIdx? fun peer => some peer = self.active.map (·.provider) &&
      self.providerEligible now peer).isSome = true := by
    rw [List.findIdx?_isSome,any_eq_true]
    exact ⟨peer,listed,by simp [active,eligible]⟩
  obtain ⟨i,found⟩ := Option.isSome_iff_exists.1 found
  have mem : i ∈ self.first peers now := Option.mem_toList.2 found
  obtain ⟨other,held,same,_⟩ := mem_first mem
  cases same.trans active.symm
  rw [candidateIndices_fst]
  exact ⟨i,mem_append_left _ mem,held⟩

/-- The active provider has a slot of its own, which leaves three for the turns of the others. -/
theorem mem_candidateIndices {offset : Nat} {peer : NodeAddr} (near : offset < 3)
    (inside : offset < peers.length) (held : peers[(self.cursor + offset) % peers.length]? = some peer)
    (eligible : self.providerEligible now peer = true) :
    ∃ i ∈ (self.candidateIndices peers now).1, peers[i]? = some peer := by
  have few : (self.first peers now).length ≤ 1 := Option.length_toList_le
  by_cases active : some peer = self.active.map (·.provider)
  · exact active_mem active (mem_of_getElem? held) eligible
  · rw [candidateIndices_fst]
    refine ⟨_,mem_append_right _ ?_,held⟩
    have passes := asked_iff.2 ⟨peer,held,active,eligible⟩
    have early : (self.cursor + offset) % peers.length ∈ ((self.turns peers).take 3).filter
        (self.asked peers now) :=
      mem_filter.2 ⟨mem_iff_getElem?.2 ⟨offset,by simp [turns,near,inside]⟩,passes⟩
    rw [← take_append_drop 3 (self.turns peers),filter_append,take_append]
    refine mem_append_left _ ?_
    rw [take_of_length_le]
    · exact early
    · have := (length_filter_le (self.asked peers now) _).trans (length_take_le 3 (self.turns peers))
      omega

/-- The indices asked in each round. Only the cursor passes from one round to the next. -/
def rounds (peers : List NodeAddr) : List (Destination × Nat) → Nat → List (List Nat)
  | [],_ => []
  | (state,now) :: later,cursor =>
    let round := { state with cursor }.candidateIndices peers now
    round.1 :: rounds peers later round.2.cursor

theorem exists_round {peer : NodeAddr} {views : List (Destination × Nat)} {cursor distance : Nat}
    (far : distance < 3 * views.length) (inside : distance < peers.length)
    (held : peers[(cursor + distance) % peers.length]? = some peer)
    (eligible : ∀ v ∈ views, v.1.providerEligible v.2 peer = true) :
    ∃ indices ∈ rounds peers views cursor, ∃ i ∈ indices, peers[i]? = some peer := by
  induction views generalizing cursor distance with
  | nil => cases far
  | cons v views ih =>
    obtain ⟨state,now⟩ := v
    rw [forall_mem_cons] at eligible
    by_cases near : distance < 3
    · exact ⟨_,mem_cons_self,mem_candidateIndices near inside held eligible.1⟩
    · have next : ({ state with cursor }.candidateIndices peers now).2.cursor =
          (cursor + 3) % peers.length := by
        rw [candidateIndices,if_neg (by rintro rfl; cases inside)]
        rfl
      have later : peers[((cursor + 3) % peers.length + (distance - 3)) % peers.length]? = some peer := by
        rw [Nat.mod_add_mod,← held]
        congr 2
        omega
      obtain ⟨indices,mem,found⟩ := ih (by rw [length_cons] at far; omega) (by omega) later eligible.2
      refine ⟨indices,mem_cons_of_mem _ ?_,found⟩
      rw [next]
      exact mem

theorem rounds_append (peers : List NodeAddr) (before window : List (Destination × Nat)) (cursor : Nat) :
    ∃ next, (rounds peers (before ++ window) cursor).drop before.length = rounds peers window next := by
  induction before generalizing cursor with
  | nil => exact ⟨cursor,rfl⟩
  | cons v before ih => exact ih _

/-- A provider at any distance from the cursor is reached at three indices a round. The cursor stays below the
number of peers, so that adding an index or the step to it does not overflow. -/
theorem candidate_rotation (peers : List NodeAddr) (before window : List (Destination × Nat)) (cursor : Nat)
    (long : (peers.length + 2) / 3 ≤ window.length) :
    (∀ (self : Destination) (now : Nat), (self.candidateIndices peers now).1.length ≤ 4 ∧
      (self.candidateIndices peers now).1.Nodup ∧
      (∀ i ∈ (self.candidateIndices peers now).1, ∃ peer, peers[i]? = some peer ∧
        self.providerEligible now peer = true) ∧
      ∀ active, self.active = some active → active.provider ∈ peers →
        self.providerEligible now active.provider = true →
        ∃ i ∈ (self.candidateIndices peers now).1, peers[i]? = some active.provider) ∧
    (peers ≠ [] → ∀ (self : Destination) (now : Nat), (self.candidateIndices peers now).2.cursor <
      peers.length) ∧
    ∀ peer ∈ peers, (∀ v ∈ window, v.1.providerEligible v.2 peer = true) →
      ∃ indices ∈ (rounds peers (before ++ window) cursor).drop before.length, ∃ i ∈ indices,
        peers[i]? = some peer := by
  refine ⟨fun self now => ⟨candidateIndices_sound.1,candidateIndices_sound.2.1,candidateIndices_sound.2.2,
    fun active held listed => active_mem (by rw [held]; rfl) listed⟩,fun some self now =>
      ?_,fun peer listed eligible => ?_⟩
  · rw [candidateIndices,if_neg some]
    exact Nat.mod_lt _ (length_pos_iff.2 some)
  obtain ⟨next,later⟩ := rounds_append peers before window cursor
  obtain ⟨i,inside,held⟩ := mem_iff_getElem.1 listed
  rw [later]
  have modulus : next % peers.length < peers.length := Nat.mod_lt _ (by omega)
  have turn : next + (i + (peers.length - next % peers.length)) =
      i + peers.length * (next / peers.length + 1) := by
    have := Nat.div_add_mod next peers.length
    rw [Nat.mul_add]
    omega
  have reached : peers[(next + (i + (peers.length - next % peers.length)) % peers.length) % peers.length]? =
      some peer := by
    rw [Nat.add_mod_mod,turn,Nat.add_mul_mod_self_left,Nat.mod_eq_of_lt inside,
      getElem?_eq_getElem inside,held]
  have distance := Nat.mod_lt (i + (peers.length - next % peers.length)) (Nat.zero_lt_of_lt inside)
  exact exists_round (by omega) distance reached eligible

def quietRounds (n : Nat) : List (Destination × Nat) := replicate n ({ cursor := 9 },0)

theorem candidate_rotation_seven :
    ∃ indices ∈ (rounds [1,2,3,4,5,6,7] (quietRounds 1 ++ quietRounds 3) 5).drop 1,
    ∃ i ∈ indices, [(1 : NodeAddr),2,3,4,5,6,7][i]? = some 7 :=
  (candidate_rotation [1,2,3,4,5,6,7] (quietRounds 1) (quietRounds 3) 5 (by decide)).2.2
    7 (by decide) (by decide)

section Choice

variable (self : Destination) (now : Nat) (policy : PriceSelectionPolicy)

def measuredLoss (offer : RouteOffer) : Option Nat :=
  ((self.observations.get? offer.provider).filter fun sample =>
    sample.path = offer.path && now - sample.time ≤ policy.feedbackTimeoutMs * 1_000_000).map (·.lossPpm)

def deliveryPpm (offer : RouteOffer) : Nat :=
  1_000_000 - min ((self.measuredLoss now policy offer).getD 0) 999_999

def costs (a b : RouteOffer) : Nat × Nat :=
  (a.price.msat * self.deliveryPpm now policy b,b.price.msat * self.deliveryPpm now policy a)

/-- The comparison that offers are sorted by. -/
def NotAfter (a b : RouteOffer) : Prop :=
  toLex ((self.costs now policy a b).1,a.provider) ≤ toLex ((self.costs now policy a b).2,b.provider)

instance : DecidableRel (self.NotAfter now policy) := fun _ _ => inferInstanceAs (Decidable (_ ≤ _))

def ranked (offers : List RouteOffer) : List RouteOffer :=
  (offers.filter fun o => self.providerEligible now o.provider).insertionSort (self.NotAfter now policy)

def choose (offers : List RouteOffer) : Except String RouteOffer :=
  match (self.ranked now policy offers).head? with
  | none => .error "no eligible priced route"
  | some best => .ok (match (self.ranked now policy offers).find? fun o => self.active.any (·.samePath o) with
    | none => best
    | some current =>
      let (candidate,retained) := self.costs now policy best current
      if candidate * 100 ≥ retained * (100 - policy.minImprovementPercent) then current else best)

/-- Whether `activate_source_route` sets the route anew. -/
def changed (offer : RouteOffer) : Bool :=
  self.restored || self.active.all fun a => !a.samePath offer ||
    (a.id ≠ offer.id && self.failed.contains offer.provider)

/-- What `activate_source_route` does to the state. -/
def activate (offer : RouteOffer) : Destination :=
  { self with
    observations := if self.changed offer then self.observations.erase offer.provider else self.observations
    failed := if self.changed offer then self.failed.erase offer.provider else self.failed
    blockedTrial := if self.active.all (·.id ≠ offer.id) then none else self.blockedTrial
    active := some offer
    restored := false }

/-- A round in which the chosen offer is made active. -/
def settle (offers : List RouteOffer) (self : Destination) : Destination :=
  match self.choose now policy offers with
  | .ok chosen => self.activate chosen
  | .error _ => self

/-- The cost of a delivered unit. -/
def cost (offer : RouteOffer) : ℚ := offer.price.msat / self.deliveryPpm now policy offer

/-- An offer is cheaper than another by more than the margin. -/
def Undercuts (a b : RouteOffer) : Prop :=
  self.cost now policy a * 100 < self.cost now policy b * (100 - policy.minImprovementPercent : Nat)

theorem cost_nonneg (o : RouteOffer) : 0 ≤ self.cost now policy o :=
  div_nonneg (Nat.cast_nonneg _) (Nat.cast_nonneg _)

theorem deliveryPpm_pos (o : RouteOffer) : 0 < self.deliveryPpm now policy o := by
  unfold deliveryPpm
  omega

theorem costs_le (a b : RouteOffer) (x y : Nat) :
    (self.costs now policy a b).2 * x ≤ (self.costs now policy a b).1 * y ↔
    self.cost now policy b * x ≤ self.cost now policy a * y := by
  have ha : (0 : ℚ) < self.deliveryPpm now policy a := Nat.cast_pos.2 (self.deliveryPpm_pos now policy a)
  have hb : (0 : ℚ) < self.deliveryPpm now policy b := Nat.cast_pos.2 (self.deliveryPpm_pos now policy b)
  rw [cost,cost,div_mul_eq_mul_div,div_mul_eq_mul_div,div_le_div_iff₀ hb ha,← Nat.cast_le (α := ℚ),costs]
  push_cast
  rw [mul_right_comm,mul_right_comm (a.price.msat : ℚ)]

theorem notAfter_iff (a b : RouteOffer) : self.NotAfter now policy a b ↔
    toLex (self.cost now policy a,a.provider) ≤ toLex (self.cost now policy b,b.provider) := by
  have less := self.costs_le now policy a b 1 1
  have more := self.costs_le now policy b a 1 1
  simp only [Nat.cast_one,mul_one] at less more
  simp only [NotAfter,Prod.Lex.toLex_le_toLex,lt_iff_le_not_ge,le_antisymm_iff,less,← more]
  rfl

instance : IsTrans RouteOffer (self.NotAfter now policy) :=
  ⟨fun a b c => by simpa only [notAfter_iff] using le_trans⟩

instance : Std.Total (self.NotAfter now policy) :=
  ⟨fun a b => by simpa only [notAfter_iff] using le_total _ _⟩

variable {self now policy} {offers : List RouteOffer} {o chosen : RouteOffer}

theorem mem_ranked : o ∈ self.ranked now policy offers ↔ o ∈ offers ∧
    self.providerEligible now o.provider = true := by
  rw [ranked,mem_insertionSort,mem_filter]

theorem choose_eq_ok (h : self.choose now policy offers = .ok chosen) :
    ∃ best ∈ self.ranked now policy offers, (∀ o ∈ self.ranked now policy offers, self.cost now policy best ≤
      self.cost now policy o) ∧
      (chosen = best ∧ (∀ o ∈ self.ranked now policy offers, ¬ self.active.any (·.samePath o) = true) ∨
        ∃ current ∈ self.ranked now policy offers, self.active.any (·.samePath current) = true ∧
          (chosen = current ∧ ¬ self.Undercuts now policy best current ∨ chosen = best ∧
            self.Undercuts now policy best current)) := by
  have sorted := pairwise_insertionSort (self.NotAfter now policy)
    (offers.filter fun o => self.providerEligible now o.provider)
  rw [← ranked] at sorted
  unfold choose at h
  cases rank : self.ranked now policy offers with
  | nil => simp [rank] at h
  | cons best rest =>
    rw [rank] at h sorted
    refine ⟨best,mem_cons_self,forall_mem_cons.2 ⟨le_rfl,fun o ho => ?_⟩,?_⟩
    · have first := (notAfter_iff ..).1 (rel_of_pairwise_cons sorted ho)
      rw [Prod.Lex.toLex_le_toLex] at first
      exact first.elim le_of_lt fun same => same.1.le
    · cases found : (best :: rest).find? fun o => self.active.any (·.samePath o) with
      | none =>
        simp only [found] at h
        cases h
        exact .inl ⟨rfl,find?_eq_none.1 found⟩
      | some current =>
        refine .inr ⟨current,mem_of_find?_eq_some found,by simpa using find?_some found,?_⟩
        have margin := self.costs_le now policy best current (100 - policy.minImprovementPercent) 100
        simp only [head?_cons,found,margin] at h
        split_ifs at h with kept <;> cases h
        · exact .inl ⟨rfl,not_lt.2 kept⟩
        · exact .inr ⟨rfl,not_le.1 kept⟩

theorem not_undercuts (le : self.cost now policy chosen ≤ self.cost now policy o) :
    ¬ self.Undercuts now policy o chosen := by
  have small : ((100 - policy.minImprovementPercent : Nat) : ℚ) ≤ 100 := by exact_mod_cast Nat.sub_le _ _
  exact not_lt.2 (mul_le_mul le small (Nat.cast_nonneg _) (self.cost_nonneg now policy o))

/-- No eligible offer undercuts the chosen one. -/
theorem choose_margin (h : self.choose now policy offers = .ok chosen) :
    chosen ∈ self.ranked now policy offers ∧
      ∀ o ∈ self.ranked now policy offers, ¬ self.Undercuts now policy o chosen := by
  obtain ⟨best,mem,least,⟨rfl,-⟩ | ⟨current,held,-,⟨rfl,kept⟩ | ⟨rfl,-⟩⟩⟩ := choose_eq_ok h
  · exact ⟨mem,fun o ho => not_undercuts (least o ho)⟩
  · exact ⟨held,fun o ho less => kept ((mul_le_mul_of_nonneg_right (least o ho) (by norm_num)).trans_lt less)⟩
  · exact ⟨mem,fun o ho => not_undercuts (least o ho)⟩

theorem get?_erase_if {α : Type} (m : OrderedMap NodeAddr α) (c : Bool) (k p : NodeAddr) :
    (if c then m.erase k else m).get? p = if c = true ∧ p = k then none else m.get? p := by
  cases c <;> simp [OrderedMap.get?_erase]

/-- The active offer is not a trial that was denied. -/
def Unblocked (self : Destination) : Prop := ∀ a, self.active = some a → self.blockedTrial ≠ some a.id

theorem Unblocked.eligible (unblocked : self.Unblocked) (provider : NodeAddr) :
    self.providerEligible now provider = (self.failed.get? provider).all (· ≤ now) := by
  unfold providerEligible
  cases active : self.active with
  | none => rfl
  | some a => simp [unblocked a active]

theorem Unblocked.activate (unblocked : self.Unblocked) (chosen : RouteOffer) :
    (self.activate chosen).Unblocked := by
  rintro _ ⟨⟩
  unfold Destination.activate
  cases active : self.active with
  | none => simp
  | some a =>
    have := unblocked a active
    by_cases same : a.id = chosen.id <;> simp_all

theorem Unblocked.eligible_activate (unblocked : self.Unblocked)
    (eligible : self.providerEligible now chosen.provider = true) (provider : NodeAddr) :
    (self.activate chosen).providerEligible now provider = self.providerEligible now provider := by
  rw [unblocked.eligible] at eligible ⊢
  rw [(unblocked.activate chosen).eligible,Destination.activate,get?_erase_if]
  split_ifs with gone
  · rw [gone.2,eligible]
    rfl
  · rfl

theorem cost_activate_of_ne (other : o.provider ≠ chosen.provider) :
    (self.activate chosen).cost now policy o = self.cost now policy o := by
  simp only [cost,deliveryPpm,measuredLoss,activate,get?_erase_if,other,and_false,if_false]

theorem cost_activate_le : (self.activate chosen).cost now policy chosen ≤ self.cost now policy chosen := by
  have more : self.deliveryPpm now policy chosen ≤ (self.activate chosen).deliveryPpm now policy chosen := by
    simp only [deliveryPpm,measuredLoss,activate,get?_erase_if]
    split_ifs
    · simp
    · rfl
  have pos := self.deliveryPpm_pos now policy chosen
  unfold cost
  gcongr

theorem activate_activate : (self.activate chosen).activate chosen = self.activate chosen := by
  have same : (self.activate chosen).changed chosen = false := by simp [changed,activate,RouteOffer.samePath]
  rw [activate,same]
  simp [activate]

section Distinct

variable (distinct : (offers.map (·.provider)).Nodup)
include distinct

theorem ranked_perm {others : List RouteOffer} (perm : others.Perm offers) :
    self.ranked now policy others = self.ranked now policy offers := by
  refine Perm.eq_of_pairwise (fun a b ha hb le ge => ?_) (pairwise_insertionSort (self.NotAfter now policy) _)
    (pairwise_insertionSort (self.NotAfter now policy) _)
    ((perm_insertionSort _ _).trans ((perm.filter _).trans (perm_insertionSort _ _).symm))
  exact inj_on_of_nodup_map distinct (perm.mem_iff.1 (mem_ranked.1 ha).1) (mem_ranked.1 hb).1
    (congrArg (fun x => (ofLex x).2) (le_antisymm le ge))

/-- An activated route costs no more than before, so it stays within the margin. -/
theorem choose_activate (unblocked : self.Unblocked) (h : self.choose now policy offers = .ok chosen) :
    (self.activate chosen).choose now policy offers = .ok chosen := by
  obtain ⟨mem,margin⟩ := choose_margin h
  obtain ⟨offered,eligible⟩ := mem_ranked.1 mem
  have ranked_iff (o : RouteOffer) : o ∈ (self.activate chosen).ranked now policy offers ↔
      o ∈ self.ranked now policy offers := by
    rw [mem_ranked,mem_ranked,unblocked.eligible_activate eligible]
  have own : (self.activate chosen).active.any (·.samePath chosen) = true := by
    simp [activate,RouteOffer.samePath]
  cases h' : (self.activate chosen).choose now policy offers with
  | error e =>
    unfold choose at h'
    split at h'
    · next empty =>
      have none := (ranked_iff chosen).2 mem
      rw [head?_eq_none_iff.1 empty] at none
      cases none
    · cases h'
  | ok again =>
    obtain ⟨best,ranked,-,⟨rfl,nowhere⟩ | ⟨current,held,active,choice⟩⟩ := choose_eq_ok h'
    · exact absurd own (nowhere chosen ((ranked_iff chosen).2 mem))
    · have path : chosen.samePath current = true := active
      obtain rfl := inj_on_of_nodup_map distinct offered (mem_ranked.1 held).1 (of_decide_eq_true path).1
      obtain ⟨rfl,-⟩ | ⟨rfl,less⟩ := choice
      · rfl
      · by_cases other : again.provider = chosen.provider
        · rw [inj_on_of_nodup_map distinct (mem_ranked.1 ranked).1 offered other]
        · refine absurd ?_ (margin again ((ranked_iff again).1 ranked))
          rw [Undercuts,cost_activate_of_ne other] at less
          exact less.trans_le (mul_le_mul_of_nonneg_right cost_activate_le (Nat.cast_nonneg _))

theorem settle_iterate (unblocked : self.Unblocked)
    (h : self.choose now policy offers = .ok chosen) (n : Nat) :
    ((settle now policy offers)^[n + 1] self).choose now policy offers = .ok chosen := by
  have again := choose_activate distinct unblocked h
  have first : settle now policy offers self = self.activate chosen := by rw [settle,h]
  have fixed : settle now policy offers (self.activate chosen) = self.activate chosen := by
    rw [settle,again]
    exact activate_activate
  rw [Function.iterate_succ_apply,first,Function.iterate_fixed fixed]
  exact again

/-- The current path is left for the cheapest offer, and only when that undercuts it. -/
theorem choose_current (h : self.choose now policy offers = .ok chosen) {current : RouteOffer}
    (listed : current ∈ offers) (able : self.providerEligible now current.provider = true)
    (path : self.active.any (·.samePath current) = true) :
    (chosen = current ↔ ∀ o ∈ offers, self.providerEligible now o.provider = true →
      ¬ self.Undercuts now policy o current) ∧
      (chosen ≠ current → self.cost now policy chosen < self.cost now policy current) := by
  obtain ⟨best,first,-,⟨-,nowhere⟩ | ⟨held,kept,path',choice⟩⟩ := choose_eq_ok h
  · exact absurd path (nowhere current (mem_ranked.2 ⟨listed,able⟩))
  obtain ⟨a,active,same⟩ := (Option.any_eq_true _ _).1 path
  rw [active] at path'
  obtain rfl := inj_on_of_nodup_map distinct (mem_ranked.1 kept).1 listed
    ((of_decide_eq_true path').1.symm.trans (of_decide_eq_true same).1)
  obtain ⟨rfl,keeps⟩ | ⟨rfl,less⟩ := choice
  · exact ⟨⟨fun _ o ho able => (choose_margin h).2 o (mem_ranked.2 ⟨ho,able⟩),fun _ => rfl⟩,absurd rfl⟩
  · refine ⟨⟨fun eq => ?_,fun least => ?_⟩,fun _ => not_le.1 fun le => not_undercuts le less⟩
    · exact absurd less (not_undercuts (eq ▸ le_rfl))
    · exact absurd less (least chosen (mem_ranked.1 first).1 (mem_ranked.1 first).2)

end Distinct

end Choice

/-- A denied trial is eligible again once another route is active, which the last part excludes. -/
theorem choose_consistent (self : Destination) (policy : PriceSelectionPolicy)
    (now : Nat) (offers : List RouteOffer) (valid : policy.validate = .ok ())
    (distinct : (offers.map (·.provider)).Nodup) (u64 : ∀ o ∈ offers, o.price.msat < 2 ^ 64) :
    (∀ a b c, (self.NotAfter now policy a b ∨ self.NotAfter now policy b a) ∧
      (self.NotAfter now policy a b → self.NotAfter now policy b c → self.NotAfter now policy a c)) ∧
    (∀ a ∈ offers, ∀ b ∈ offers, self.NotAfter now policy a b → self.NotAfter now policy b a → a = b) ∧
    (∀ others, others.Perm offers → self.choose now policy others = self.choose now policy offers) ∧
    (policy.minImprovementPercent ≤ 100 ∧ ∀ a ∈ offers, ∀ b ∈ offers,
      (self.costs now policy a b).1 * 100 < 2 ^ 128 ∧ (self.costs now policy a b).2 * 100 < 2 ^ 128) ∧
    ∀ chosen, self.choose now policy offers = .ok chosen →
      chosen ∈ offers ∧ self.providerEligible now chosen.provider = true ∧
      (∀ current ∈ offers, self.providerEligible now current.provider = true →
        self.active.any (·.samePath current) = true →
        (chosen = current ↔ ∀ o ∈ offers, self.providerEligible now o.provider = true →
          ¬ self.Undercuts now policy o current) ∧
          (chosen ≠ current → self.cost now policy chosen < self.cost now policy current)) ∧
      (self.Unblocked → ∀ n, ((settle now policy offers)^[n + 1] self).choose now
        policy offers = .ok chosen) := by
  have percent : policy.minImprovementPercent ≤ 50 := by
    unfold PriceSelectionPolicy.validate at valid
    split_ifs at valid with bad
    omega
  refine ⟨fun a b c => ⟨total_of _ a b,trans_of _⟩,fun a ha b hb le ge => ?_,fun others perm => ?_,
    ⟨by omega,fun a ha b hb => ?_⟩,fun chosen h => ?_⟩
  · rw [notAfter_iff] at le ge
    exact inj_on_of_nodup_map distinct ha hb (congrArg (fun x => (ofLex x).2) (le_antisymm le ge))
  · rw [choose,ranked_perm distinct perm]
    rfl
  · have delivery (o : RouteOffer) : self.deliveryPpm now policy o ≤ 1_000_000 := Nat.sub_le _ _
    have first := Nat.mul_le_mul (u64 a ha).le (delivery b)
    have second := Nat.mul_le_mul (u64 b hb).le (delivery a)
    rw [costs]
    omega
  · obtain ⟨offered,eligible⟩ := mem_ranked.1 (choose_margin h).1
    exact ⟨offered,eligible,fun _ listed able path => choose_current distinct h listed able path,
      fun unblocked => settle_iterate distinct unblocked h⟩

def sampleOffers : List RouteOffer := [⟨"t",1,9,[1,9],⟨10,1024⟩⟩,⟨"u",2,9,[2,9],⟨50,1024⟩⟩]

/-- The dearer offer is active, and the other provider has lost half of its packets. -/
def sampleState : Destination :=
  { active := some ⟨"u",2,9,[2,9],⟨50,1024⟩⟩, observations := .insert ∅ 1 ⟨[1,9],0,500_000⟩ }

theorem choose_consistent_sample :
    ((settle 0 {} sampleOffers)^[4] sampleState).choose 0 {} sampleOffers = .ok ⟨"t",1,9,[1,9],⟨10,1024⟩⟩ :=
  ((choose_consistent sampleState {} 0 sampleOffers rfl (by decide) (by decide)).2.2.2.2 _
    (by decide +kernel)).2.2.2 nofun 3

/-- The trial at provider 1 was denied and its cooldown is over: the dearer provider 2 is chosen, and then
1 again. -/
theorem choose_returns : let self : Destination := { active := sampleOffers.head?,blockedTrial := some "t" }
    (self.choose 0 {} sampleOffers).toOption.map (·.provider) = some 2 ∧
      ((settle 0 {} sampleOffers self).choose 0 {} sampleOffers).toOption.map (·.provider) = some 1 := by
        decide +kernel

end Destination

end Fips.Relay
