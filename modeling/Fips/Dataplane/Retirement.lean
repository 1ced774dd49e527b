import Fips.Dataplane.Flight
import Fips.Lib.InOrder

set_option autoImplicit false

/-! The life of one owner: packets are reserved, grouped into crypto runs, finished by workers in any
order and retired in the order of their reservations. -/

namespace Fips.Dataplane

open OwnerState OwnerRetireSlot List

/-- The owner with what has been reserved, what of it is in no slot yet, and what has left. -/
structure OwnerHistory where
  state : OwnerState
  counters : SendCounters
  unstaged : List OwnerReservation := []
  reserved : List OwnerReservation := []
  retired : List Retired := []

/-- Neighbours in one crypto run. -/
def OwnerReservation.Follows (a b : OwnerReservation) : Prop :=
  b.order = U64.wrappingAdd a.order 1 ∧ b.lane = a.lane ∧ b.generation = a.generation

instance (a b : OwnerReservation) : Decidable (a.Follows b) := inferInstanceAs (Decidable (_ ∧ _ ∧ _))

namespace OwnerHistory

inductive Op where
  | reserve (packet : SocketPacket) (ingressSeq : Nat)
  | reserveOutbound (packet : OutboundPacket) (ingressSeq : Nat)
  | stage (start len : Nat)
  | complete (order : Nat) (results : OwnerReservation → CryptoResult)
  | retire (limit : Nat) (compactEndpointData : Bool)
  | epoch (op : OwnerState.EpochOp)
  /-- somebody else uses the shared counters -/
  | share (counters : SendCounters)

def Op.reserves : Op → Bool
  | .reserve _ _ | .reserveOutbound _ _ => true
  | _ => false

variable (h : OwnerHistory)

def admitted (r : OwnerReservation) (state : OwnerState) (counters : SendCounters) : OwnerHistory :=
  { h with
    state, counters
    unstaged := h.unstaged ++ [r]
    reserved := h.reserved ++ [r] }

def reserve (packet : SocketPacket) (ingressSeq : Nat) : OwnerHistory :=
  match h.state.reserve packet ingressSeq with
  | .error _ => h
  | .ok ((r,_),state) => h.admitted r state h.counters

def reserveOutbound (packet : OutboundPacket) (ingressSeq : Nat) : OwnerHistory :=
  match h.state.reserveOutbound h.counters packet ingressSeq with
  | .error _ => h
  | .ok ((r,_),state,counters) => h.admitted r state counters

/-- Some reservations outside of the slots become one slot when they can be one run. -/
def stage (start len : Nat) : Option OwnerHistory :=
  match (h.unstaged.drop start).take len with
  | [] => some h
  | first :: rest =>
    if (first :: rest).IsChain OwnerReservation.Follows then
      (h.state.stageRetireSlot ⟨first.generation,first.lane,first.order,.running (first :: rest)⟩).map
        fun staged =>
        { h with state := staged.2, unstaged := h.unstaged.take start ++ h.unstaged.drop (start + len) }
    else some h

def complete (order : Nat) (results : OwnerReservation → CryptoResult) : OwnerHistory :=
  { h with state := { h.state with
      pending := h.state.pending.map fun slot => if slot.order = order then
        slot.complete results else slot } }

def retire (limit : Nat) (compactEndpointData : Bool) : OwnerHistory :=
  let (retired,state) := h.state.retireReadySlots compactEndpointData limit
  { h with state := state, retired := h.retired ++ retired }

/-- Without a result the code panics. -/
def exec : Op → Option OwnerHistory
  | .reserve packet seq => some (h.reserve packet seq)
  | .reserveOutbound packet seq => some (h.reserveOutbound packet seq)
  | .stage start len => h.stage start len
  | .complete order results => some (h.complete order results)
  | .retire limit compact => some (h.retire limit compact)
  | .epoch op => some { h with state := h.state.execEpoch h.counters op }
  | .share counters => some { h with counters := counters }

def run (ops : List Op) : Option OwnerHistory := ops.foldlM exec h

def inFlight : List OwnerReservation := h.reserved.drop h.retired.length

end OwnerHistory

def OwnerRetireSlot.block (slot : OwnerRetireSlot) : InOrder.Block OwnerReservation :=
  ⟨slot.order,slot.reservations⟩

/-- In a sorted queue the new slot lands behind the slots of smaller order. -/
theorem OwnerState.stageRetireSlot_eq {s : OwnerState} {slot : OwnerRetireSlot}
    (sorted : s.pending.Pairwise fun a b => a.order < b.order)
    (fresh : ∀ other ∈ s.pending, other.order ≠ slot.order) :
    s.stageRetireSlot slot = some (s.pending.isEmpty,{ s with
      pending := s.pending.takeWhile (·.order < slot.order) ++ slot :: s.pending.dropWhile
        (·.order < slot.order) }) := by
  unfold stageRetireSlot
  by_cases last : s.pending.getLast?.all (·.order < slot.order) = true
  · have before : ∀ other ∈ s.pending, decide (other.order < slot.order) = true := by
      obtain empty | ⟨front,final,split⟩ := s.pending.eq_nil_or_concat
      · rw [empty]
        exact forall_mem_nil _
      · rw [split] at last sorted ⊢
        simp only [concat_eq_append,getLast?_concat,Option.all_some,decide_eq_true_eq] at last
        intro other mem
        obtain inside | rfl := (mem_append.1 (concat_eq_append ▸ mem)).imp_right mem_singleton.1
        · have := (pairwise_append.1 (concat_eq_append ▸ sorted)).2.2 other inside final mem_cons_self
          exact decide_eq_true (this.trans last)
        · exact decide_eq_true last
    rw [if_pos last,takeWhile_eq_self_iff.2 before,dropWhile_eq_nil_iff.2 before]
  · rw [if_neg last]
    have split := takeWhile_append_dropWhile (p := (·.order < slot.order)) (l := s.pending)
    generalize s.pending.takeWhile (·.order < slot.order) = front,
      s.pending.dropWhile (·.order < slot.order) = back at split ⊢
    have new : s.pending[front.length]?.any (fun other => other.order = slot.order) = false := by
      cases found : s.pending[front.length]? with
      | none => rfl
      | some other => exact decide_eq_false (fresh other (mem_of_getElem? found))
    rw [if_neg (by simp [new]),← split,InOrder.insertIdx_length]

@[simp] theorem OwnerRetireSlot.block_complete (slot : OwnerRetireSlot)
    (results : OwnerReservation → CryptoResult) :
    (slot.complete results).block = slot.block := by
  obtain ⟨generation,lane,order,items⟩ := slot
  cases items with
  | running items => simp [complete,block,reservations,Function.comp_def]
  | ready items => rfl

@[simp] theorem OwnerRetireSlot.lane_complete (slot : OwnerRetireSlot)
    (results : OwnerReservation → CryptoResult) :
    (slot.complete results).lane = slot.lane := by
  obtain ⟨generation,lane,order,items⟩ := slot
  cases items <;> rfl

theorem OwnerRetireSlot.reservations_complete (slot : OwnerRetireSlot)
    (results : OwnerReservation → CryptoResult) :
    (slot.complete results).reservations = slot.reservations :=
  congrArg InOrder.Block.items (slot.block_complete results)

/-- What one turn of the loop takes from the flight. -/
theorem OwnerState.drainSlot_flight (s : OwnerState) (compact : Bool) (limit : Nat) (slot : OwnerRetireSlot)
    (items : List CryptoCompletion) (rest : List OwnerRetireSlot) :
    (s.drainSlot compact limit slot items rest).1.map (·.reservation) =
      (items.take limit).map (·.reservation) ∧
    (s.drainSlot compact limit slot items rest).2.flight =
      { (s.countRetired slot.lane (items.take limit).length).flight with
      pending := if (items.drop limit).isEmpty then rest else { slot with
        order := U64.wrappingAdd slot.order (items.take limit).length
        items := .ready (items.drop limit) } :: rest } := by
  have same : ({ s with pending := rest }.retireDrained compact slot.generation (items.take limit)).2.flight =
        { s with pending := rest }.flight ∧
      ({ s with pending := rest }.retireDrained compact slot.generation (items.take limit)).1.map
        Retired.reservation =
        (items.take limit).map (·.reservation) := by
    unfold retireDrained
    split_ifs
    · exact ⟨rfl,by rw [map_map]; rfl⟩
    · exact retireReadyCompletions_flight compact (items.take limit) { s with pending := rest }
  obtain ⟨same,reservations⟩ := same
  refine ⟨reservations,?_⟩
  simp only [drainSlot]
  simp only [flight,Flight.mk.injEq] at same
  obtain ⟨owner,limit',inFlight,bulk,background,order,retire,pending⟩ := same
  unfold putBackSlot
  split_ifs <;>
    simp only [flight,countRetired,owner,limit',inFlight,bulk,background,order,retire,pending]

/-- The loop stops or takes from the first slot and goes on. -/
theorem OwnerState.retireReadySlotsFrom_turns {P : OwnerState → List Retired → OwnerState → Prop}
    (compact : Bool) (stop : ∀ s, P s [] s)
    (turn : ∀ (limit : Nat) (s : OwnerState) (slot : OwnerRetireSlot) (rest : List OwnerRetireSlot)
      (items : List CryptoCompletion) (out : List Retired) (s' : OwnerState), s.pending = slot :: rest →
        slot.order = s.nextRetire → slot.items = .ready items →
          P (s.drainSlot compact limit slot items rest).2 out s' →
            P s ((s.drainSlot compact limit slot items rest).1 ++ out) s') (turns : Nat) :
              ∀ (limit : Nat) (s : OwnerState),
      P s (retireReadySlotsFrom compact turns limit s).1 (retireReadySlotsFrom compact turns limit s).2 := by
  induction turns with
  | zero => exact fun limit s => stop s
  | succ turns ih =>
    intro limit s
    unfold retireReadySlotsFrom
    cases front : s.pending with
    | nil => exact stop s
    | cons slot rest =>
      simp only
      by_cases beyond : limit = 0 ∨ slot.order ≠ s.nextRetire
      · rw [if_pos beyond]
        exact stop s
      · rw [if_neg beyond]
        cases ready : slot.items with
        | running items => exact stop s
        | ready items =>
          exact turn limit s slot rest items _ _ front (not_not.1 (not_or.1 beyond).2) ready (ih _ _)

theorem countP_lane {l : List OwnerReservation} {lane : Lane}
    (same : ∀ r ∈ l, r.lane = lane) (p : Lane → Bool) :
    (l.countP fun r => p r.lane) = if p lane then l.length else 0 := by
  split_ifs with holds
  · exact countP_eq_length.2 fun r mem => (same r mem).symm ▸ holds
  · exact countP_eq_zero.2 fun r mem => (same r mem).symm ▸ holds

/-- The counters are those of the slots and of what is in no slot yet. -/
structure Flight.Tallied (f : Flight) (loose : List OwnerReservation) : Prop where
  lanes : ∀ slot ∈ f.pending, ∀ r ∈ slot.reservations, r.lane = slot.lane
  inFlight : f.inFlight = (f.pending.flatMap (·.reservations) ++ loose).length
  bulk : f.bulkInFlight = (f.pending.flatMap (·.reservations) ++ loose).countP fun r => r.lane ≠ .priority
  background : f.backgroundInFlight = (f.pending.flatMap (·.reservations) ++ loose).countP
    fun r => r.lane = .background

namespace Flight.Tallied

variable {f : Flight} {loose : List OwnerReservation} {s s' : OwnerState}

theorem perm {loose' : List OwnerReservation} (h : f.Tallied loose) (same : loose.Perm loose') :
    f.Tallied loose' := by
  have all := same.append_left (f.pending.flatMap (·.reservations))
  exact ⟨h.lanes,h.inFlight.trans all.length_eq,h.bulk.trans (all.countP_eq _),
    h.background.trans (all.countP_eq _)⟩

theorem admits {packetClass : PacketClass} {r : OwnerReservation} (h : s.flight.Tallied loose)
    (admits : s.Admits packetClass r s') : s'.flight.Tallied (loose ++ [r]) := by
  rw [admits.flight]
  refine ⟨h.lanes,?_,?_,?_⟩
  · rw [← append_assoc,length_append]
    exact congrArg (· + 1) h.inFlight
  · rw [← append_assoc,countP_append,countP_singleton,admits.lane]
    have before : s.bulkInFlight = _ := h.bulk
    simp only [flight,reserveClass,takeOrder,decide_eq_true_eq] at before ⊢
    split_ifs <;> omega
  · rw [← append_assoc,countP_append,countP_singleton,admits.lane]
    have before : s.backgroundInFlight = _ := h.background
    simp only [flight,reserveClass,takeOrder,decide_eq_true_eq] at before ⊢
    split_ifs <;> omega

/-- One turn of the retirement loop. -/
theorem drained {slot : OwnerRetireSlot} {rest : List OwnerRetireSlot} {items : List CryptoCompletion}
    (h : s.flight.Tallied loose) (front : s.pending = slot :: rest)
    (ready : slot.items = .ready items) (compact : Bool) (limit : Nat) :
    (s.drainSlot compact limit slot items rest).2.flight.Tallied loose := by
  rw [(s.drainSlot_flight compact limit slot items rest).2]
  have reservations : slot.reservations = (items.take limit).map (·.reservation) ++
      (items.drop limit).map (·.reservation) := by
    rw [← map_append,take_append_drop]
    unfold OwnerRetireSlot.reservations
    rw [ready]
  have held : slot ∈ s.flight.pending := by
    rw [flight,front]
    exact mem_cons_self
  have even (r : OwnerReservation) (mem : r ∈ slot.reservations) : r.lane = slot.lane :=
    h.lanes slot held r mem
  have taken (r : OwnerReservation) (mem : r ∈ (items.take limit).map (·.reservation)) : r.lane = slot.lane :=
    even r (by rw [reservations]; exact mem_append_left _ mem)
  have left : ((if (items.drop limit).isEmpty then rest else { slot with
        order := U64.wrappingAdd slot.order (items.take limit).length
        items := .ready (items.drop limit) } :: rest).flatMap (·.reservations) : List OwnerReservation) =
      (items.drop limit).map (·.reservation) ++ rest.flatMap (·.reservations) := by
    split_ifs with none
    · rw [isEmpty_iff.1 none]
      rfl
    · rfl
  have inFlight := h.inFlight
  have bulk := h.bulk
  have background := h.background
  simp only [flight,front,flatMap_cons,reservations,append_assoc] at inFlight bulk background
  rw [length_append,length_map] at inFlight
  rw [countP_append,countP_lane taken fun lane => lane ≠ .priority,length_map] at bulk
  rw [countP_append,countP_lane taken fun lane => lane = .background,length_map] at background
  refine ⟨fun other mem r inside => ?_,?_,?_,?_⟩
  · have old : other ∈ rest → r.lane = other.lane := fun held =>
      h.lanes other (by rw [flight,front]; exact mem_cons_of_mem _ held) r inside
    split_ifs at mem
    · exact old mem
    · obtain rfl | held := mem_cons.1 mem
      · refine even r ?_
        rw [reservations]
        exact mem_append_right _ inside
      · exact old held
  all_goals
    simp only [flight,countRetired,left,append_assoc,decide_eq_true_eq] at inFlight bulk background ⊢
  · omega
  · split_ifs at bulk ⊢ <;> omega
  · split_ifs at background ⊢ <;> omega

theorem staged {slot : OwnerRetireSlot} {wasEmpty : Bool} (h : s.flight.Tallied (slot.reservations ++ loose))
    (even : ∀ r ∈ slot.reservations, r.lane = slot.lane) (ok : s.stageRetireSlot slot = some (wasEmpty,s')) :
    s'.flight.Tallied loose ∧ ∃ pending, s' = { s with pending := pending } := by
  have placed : ∃ before after, s.pending = before ++ after ∧
      s' = { s with pending := before ++ slot :: after } := by
    unfold stageRetireSlot at ok
    by_cases last : s.pending.getLast?.all (·.order < slot.order) = true
    · rw [if_pos last] at ok
      obtain ⟨-,rfl⟩ := Prod.mk.inj (Option.some.inj ok)
      exact ⟨s.pending,[],(append_nil _).symm,rfl⟩
    · have split := takeWhile_append_dropWhile (p := (·.order < slot.order)) (l := s.pending)
      simp only at ok
      split_ifs at ok
      obtain ⟨-,rfl⟩ := Prod.mk.inj (Option.some.inj ok)
      refine ⟨_,_,split.symm,?_⟩
      generalize s.pending.takeWhile (·.order < slot.order) = before,
        s.pending.dropWhile (·.order < slot.order) = after at split ⊢
      rw [← split,InOrder.insertIdx_length]
  obtain ⟨before,after,split,rfl⟩ := placed
  have same : ((before ++ after).flatMap (·.reservations) ++ (slot.reservations ++ loose)).Perm
      ((before ++ slot :: after).flatMap (·.reservations) ++ loose) := by
    simp only [flatMap_append,flatMap_cons,append_assoc]
    exact (perm_append_comm_assoc _ _ _).append_left _
  have inFlight := h.inFlight
  have bulk := h.bulk
  have background := h.background
  simp only [flight,split] at inFlight bulk background
  refine ⟨⟨fun other mem => ?_,inFlight.trans same.length_eq,bulk.trans (same.countP_eq _),
    background.trans (same.countP_eq _)⟩,_,rfl⟩
  have known : ∀ other ∈ s.pending, ∀ r ∈ other.reservations, r.lane = other.lane := h.lanes
  rw [split] at known
  obtain inside | rfl | inside := (mem_append.1 mem).imp_right mem_cons.1
  · exact known other (mem_append_left _ inside)
  · exact even
  · exact known other (mem_append_right _ inside)

theorem completed (h : s.flight.Tallied loose) (order : Nat) (results : OwnerReservation → CryptoResult) :
    Tallied { s.flight with
        pending := s.pending.map fun slot => if slot.order = order then
          slot.complete results else slot } loose := by
  have same : (s.pending.map fun slot => if slot.order = order then slot.complete results else slot).flatMap
      (·.reservations) =
      s.pending.flatMap (·.reservations) := by
    rw [flatMap_map]
    congr 1
    funext slot
    split_ifs
    · exact slot.reservations_complete results
    · rfl
  refine ⟨fun slot mem r inside => ?_,?_,?_,?_⟩
  · obtain ⟨before,held,rfl⟩ := mem_map.1 mem
    split_ifs at inside ⊢
    · rw [before.reservations_complete] at inside
      exact (h.lanes before held r inside).trans (before.lane_complete results).symm
    · exact h.lanes before held r inside
  · simp only [same]
    exact h.inFlight
  · simp only [same]
    exact h.bulk
  · simp only [same]
    exact h.background

end Flight.Tallied

structure Flight.Sound (f : Flight) (reserved unstaged : List OwnerReservation) (done : Nat) : Prop where
  short : reserved.length < 2^64
  orders : reserved.map (·.order) = range reserved.length
  tiles : InOrder.Tiles reserved done (f.pending.map block) unstaged
  tallied : f.Tallied unstaged
  nextOrder : f.nextOrder = reserved.length
  nextRetire : f.nextRetire = done
  inFlight_le : f.inFlight ≤ f.inFlightLimit
  bulk_le : f.bulkInFlight ≤ max (f.inFlightLimit - 1) 1
  background_le : f.backgroundInFlight ≤ 1

namespace Flight.Sound

variable {f : Flight} {reserved unstaged : List OwnerReservation} {done : Nat}

theorem order_eq (h : f.Sound reserved unstaged done) {i : Nat} {r : OwnerReservation}
    (found : reserved[i]? = some r) :
    r.order = i := by
  obtain ⟨bound,rfl⟩ := List.getElem?_eq_some_iff.1 found
  simpa [bound] using congrArg (·[i]?) h.orders

theorem perm (h : f.Sound reserved unstaged done) :
    (f.pending.flatMap (·.reservations) ++ unstaged).Perm (reserved.drop done) := by
  have tiles := h.tiles.perm
  rwa [flatMap_map] at tiles

/-- The next reservation has the next position as its order. -/
theorem admits {s s' : OwnerState} {packetClass : PacketClass} {r : OwnerReservation}
    (h : s.flight.Sound reserved unstaged done) (room : reserved.length + 1 < 2^64)
    (admits : s.Admits packetClass r s') :
    s'.flight.Sound (reserved ++ [r]) (unstaged ++ [r]) done := by
  have order : r.order = reserved.length := admits.order.trans h.nextOrder
  have fresh : r ∉ reserved := by
    intro mem
    have known : r.order ∈ reserved.map (·.order) := mem_map_of_mem mem
    rw [h.orders,mem_range] at known
    omega
  have allowed := admits.allowed
  simp only [canReserveClass,Option.isNone_iff_eq_none,reserveBlockReason] at allowed
  split_ifs at allowed with full free bulky
  have tallied := h.tallied.admits admits
  rw [admits.flight] at tallied ⊢
  refine ⟨by rw [length_append]; exact room,?_,h.tiles.issue fresh,tallied,?_,h.nextRetire,?_,?_,?_⟩
  · rw [map_append,h.orders,length_append,length_singleton,range_succ,map_singleton,order]
  · have next : s.nextOrder = reserved.length := h.nextOrder
    rw [length_append,← next]
    exact U64.wrappingAdd_eq (next ▸ room)
  · simp only [flight,reserveClass,takeOrder]
    omega
  · have before : s.bulkInFlight ≤ max (s.inFlightLimit - 1) 1 := h.bulk_le
    simp only [flight,reserveClass,takeOrder]
    split_ifs with notPriority
    · have below : ¬s.bulkLaneInFlightLimit ≤ s.bulkInFlight := fun reached => bulky ⟨notPriority,reached⟩
      unfold bulkLaneInFlightLimit at below
      split_ifs at below <;> omega
    · exact before
  · have before : s.backgroundInFlight ≤ 1 := h.background_le
    simp only [flight,reserveClass,takeOrder]
    split_ifs with isBackground
    · have below : ¬1 ≤ s.backgroundInFlight := fun reached => free ⟨isBackground,reached⟩
      omega
    · exact before

/-- The reservations of a run stand together in the history. -/
theorem run_placed (h : f.Sound reserved unstaged done) {first : OwnerReservation}
    {rest : List OwnerReservation} (known : ∀ r ∈ first :: rest, r ∈ reserved)
    (chain : (first :: rest).IsChain OwnerReservation.Follows) :
    first :: rest <+: reserved.drop first.order ∧ ∀ r ∈ first :: rest, r.lane = first.lane := by
  have position (r : OwnerReservation) (mem : r ∈ reserved) : reserved[r.order]? = some r := by
    obtain ⟨i,found⟩ := mem_iff_getElem?.1 mem
    rw [h.order_eq found]
    exact found
  induction rest generalizing first with
  | nil =>
    obtain ⟨bound,here⟩ := List.getElem?_eq_some_iff.1 (position first (known first List.mem_cons_self))
    rw [drop_eq_getElem_cons bound,here]
    exact ⟨cons_prefix_cons.2 ⟨rfl,List.nil_prefix⟩,by simp⟩
  | cons second rest ih =>
    obtain ⟨⟨order,lane,-⟩,chain⟩ := isChain_cons_cons.1 chain
    obtain ⟨placed,lanes⟩ := ih (fun r mem => known r (mem_cons_of_mem _ mem)) chain
    obtain ⟨bound,here⟩ := List.getElem?_eq_some_iff.1 (position first (known first List.mem_cons_self))
    have := h.short
    rw [U64.wrappingAdd_eq (by omega)] at order
    rw [drop_eq_getElem_cons bound,here,← order]
    refine ⟨cons_prefix_cons.2 ⟨rfl,placed⟩,forall_mem_cons.2 ⟨rfl,fun r mem => ?_⟩⟩
    exact (lanes r mem).trans lane

theorem staged {s : OwnerState} {before after rest : List OwnerReservation} {first : OwnerReservation}
    (h : s.flight.Sound reserved (before ++ first :: rest ++ after) done)
    (chain : (first :: rest).IsChain OwnerReservation.Follows) :
    ∃ wasEmpty s',
      s.stageRetireSlot ⟨first.generation,first.lane,first.order,.running (first :: rest)⟩ =
        some (wasEmpty,s') ∧
      s'.flight.Sound reserved (before ++ after) done ∧ s'.flight.inFlightLimit = s.flight.inFlightLimit := by
  have known (r : OwnerReservation) (mem : r ∈ first :: rest) : r ∈ reserved := by
    refine mem_of_mem_drop (h.tiles.perm.mem_iff.1 (mem_append_right _ ?_))
    exact mem_append_left _ (mem_append_right _ mem)
  obtain ⟨placed,lanes⟩ := h.run_placed known chain
  have sorted : s.pending.Pairwise fun a b => a.order < b.order := by
    have starts := h.tiles.starts_lt
    rw [pairwise_map] at starts
    exact starts
  have fresh (other : OwnerRetireSlot) (mem : other ∈ s.pending) : other.order ≠ first.order :=
    h.tiles.start_ne placed (cons_ne_nil _ _) (mem_map_of_mem mem)
  have ok : s.stageRetireSlot ⟨first.generation,first.lane,first.order,.running (first :: rest)⟩ = _ :=
    stageRetireSlot_eq sorted fresh
  have apart : (before ++ first :: rest ++ after).Perm (first :: rest ++ (before ++ after)) := by
    rw [append_assoc]
    exact perm_append_comm_assoc _ _ _
  refine ⟨_,_,ok,{ h with tiles := ?_, tallied := ((h.tallied.perm apart).staged (by exact lanes) ok).1 },rfl⟩
  have tiles := h.tiles.stage placed (cons_ne_nil _ _)
  rw [takeWhile_map,dropWhile_map] at tiles
  change InOrder.Tiles _ _ (map _ (_ ++ _ :: _)) _
  rw [map_append]
  exact tiles

theorem completed {s : OwnerState} (h : s.flight.Sound reserved unstaged done) (order : Nat)
    (results : OwnerReservation → CryptoResult) :
    Sound { s.flight with
        pending := s.pending.map fun slot => if slot.order = order then slot.complete results else slot }
      reserved unstaged done := by
  have same : (s.pending.map fun slot => if slot.order = order then slot.complete results else slot).map
      block = s.pending.map block := by
    rw [map_map]
    refine map_congr_left fun slot _ => ?_
    simp only [Function.comp_apply]
    split_ifs
    · exact slot.block_complete results
    · rfl
  refine { h with tiles := ?_, tallied := h.tallied.completed order results }
  simp only [same]
  exact h.tiles

variable {s : OwnerState}

/-- One turn of the loop retires the next reservations. -/
theorem drained {slot : OwnerRetireSlot} {rest : List OwnerRetireSlot} {items : List CryptoCompletion}
    (h : s.flight.Sound reserved unstaged done) (front : s.pending = slot :: rest)
    (ready : slot.items = .ready items) (next : slot.order = s.nextRetire) (compact : Bool) (limit : Nat) :
    (s.drainSlot compact limit slot items rest).2.flight.Sound reserved unstaged
        (done + (s.drainSlot compact limit slot items rest).1.length) ∧
      (s.drainSlot compact limit slot items rest).1.map Retired.reservation =
        (reserved.drop done).take (s.drainSlot compact limit slot items rest).1.length ∧
      (s.drainSlot compact limit slot items rest).1.length = (items.take limit).length := by
  obtain ⟨retired,flight⟩ := s.drainSlot_flight compact limit slot items rest
  have count : (s.drainSlot compact limit slot items rest).1.length = (items.take limit).length := by
    have lengths := congrArg length retired
    rwa [length_map,length_map] at lengths
  have reservations : slot.reservations = items.map (·.reservation) := by
    unfold reservations
    rw [ready]
  have isDone : slot.order = done := next.trans h.nextRetire
  have tiles := h.tiles
  change InOrder.Tiles reserved done (s.pending.map block) unstaged at tiles
  rw [front] at tiles
  have tiles' := tiles.drain isDone limit
  obtain ⟨tail,split⟩ := tiles.placed slot.block mem_cons_self
  change slot.reservations ++ tail = reserved.drop slot.order at split
  rw [isDone,reservations,← take_append_drop limit items,map_append,append_assoc] at split
  have drainedTake : (items.take limit).map (·.reservation) =
      (reserved.drop done).take (items.take limit).length := by
    rw [← split,take_left' (by rw [length_map])]
  have bulkLe := h.bulk_le
  have backgroundLe := h.background_le
  have inFlightLe := h.inFlight_le
  have short := h.short
  have items' : slot.block.items.take limit = (items.take limit).map (·.reservation) := by
    change slot.reservations.take limit = _
    rw [reservations,map_take]
  have items'' : slot.block.items.drop limit = (items.drop limit).map (·.reservation) := by
    change slot.reservations.drop limit = _
    rw [reservations,map_drop]
  rw [items',items'',length_map] at tiles'
  refine ⟨?_,retired.trans (by rw [drainedTake,count]),count⟩
  rw [flight,count]
  have bound := tiles'.done_le
  have noWrap : U64.wrappingAdd slot.order (items.take limit).length =
      slot.order + (items.take limit).length :=
    U64.wrappingAdd_eq (by omega)
  refine ⟨short,h.orders,?_,flight ▸ h.tallied.drained front ready compact limit,h.nextOrder,?_,?_,?_,?_⟩
  · have same : (if (items.drop limit).isEmpty then rest else { slot with
          order := U64.wrappingAdd slot.order (items.take limit).length
          items := .ready (items.drop limit) } :: rest).map block =
        if ((items.drop limit).map (·.reservation)).isEmpty then rest.map block else
          ⟨slot.block.start + (items.take limit).length,(items.drop limit).map (·.reservation)⟩ ::
            rest.map block := by
      rw [isEmpty_map]
      split_ifs
      · rfl
      · rw [noWrap]
        rfl
    rw [same]
    exact tiles'
  all_goals simp only [OwnerState.flight,OwnerState.countRetired] at bulkLe backgroundLe inFlightLe ⊢
  · rw [← next,noWrap,isDone]
  · omega
  · split_ifs <;> omega
  · split_ifs <;> omega

theorem retiredFrom (compact : Bool) (turns limit : Nat) (s : OwnerState) :
    ∀ done, s.flight.Sound reserved unstaged done →
    (retireReadySlotsFrom compact turns limit s).2.flight.Sound reserved unstaged
        (done + (retireReadySlotsFrom compact turns limit s).1.length) ∧
      (retireReadySlotsFrom compact turns limit s).1.map Retired.reservation =
        (reserved.drop done).take (retireReadySlotsFrom compact turns limit s).1.length ∧
      (retireReadySlotsFrom compact turns limit s).2.flight.inFlightLimit = s.flight.inFlightLimit := by
  refine retireReadySlotsFrom_turns (P := fun s out s' => ∀ done, s.flight.Sound reserved unstaged done →
    s'.flight.Sound reserved unstaged (done + out.length) ∧
      out.map Retired.reservation = (reserved.drop done).take out.length ∧
      s'.flight.inFlightLimit = s.flight.inFlightLimit) compact
        (fun s done h => ⟨h,by simp,rfl⟩) ?_ turns limit s
  intro limit s slot rest items out s' front next ready ih done h
  obtain ⟨sound,here,-⟩ := h.drained front ready next compact limit
  obtain ⟨-,flight⟩ := s.drainSlot_flight compact limit slot items rest
  obtain ⟨sound',later,limits⟩ := ih _ sound
  refine ⟨?_,?_,?_⟩
  · rw [length_append,← Nat.add_assoc]
    exact sound'
  · rw [map_append,here,later,length_append,take_add,drop_drop]
  · rw [flight] at limits
    exact limits

/-- Finished slots are all retired when nothing is missing between them. -/
theorem retiresAll (compact : Bool) (turns : Nat) : ∀ (limit : Nat) (s : OwnerState) (done : Nat),
    s.flight.Sound reserved [] done → (∀ slot ∈ s.pending, slot.isReady = true) → s.inFlight ≤ limit →
      s.pending.length = turns →
      done + (OwnerState.retireReadySlotsFrom compact turns limit s).1.length = reserved.length := by
  induction turns with
  | zero =>
    intro limit s done h _ _ empty
    have tiles := h.tiles
    change InOrder.Tiles reserved done (s.pending.map block) [] at tiles
    rw [length_eq_zero_iff.1 empty] at tiles
    exact tiles.done_eq
  | succ turns ih =>
    intro limit s done h finished enough count
    unfold OwnerState.retireReadySlotsFrom
    cases front : s.pending with
    | nil => rw [front] at count; cases count
    | cons slot rest =>
      have tiles := h.tiles
      change InOrder.Tiles reserved done (s.pending.map block) [] at tiles
      rw [front] at tiles
      have next : slot.order = s.nextRetire := tiles.next.trans h.nextRetire.symm
      have isReady := finished slot (by rw [front]; exact mem_cons_self)
      cases ready : slot.items with
      | running items => simp [OwnerRetireSlot.isReady,ready] at isReady
      | ready items =>
        have some : 0 < items.length := by
          have nonempty := length_pos_iff.2 (tiles.nonempty _ mem_cons_self)
          simpa [block,reservations,ready] using nonempty
        have fits : items.length ≤ s.inFlight := by
          have size : s.inFlight = _ := h.tallied.inFlight
          simp only [flight,front,flatMap_cons,length_append,reservations,ready,length_map] at size
          omega
        have nothing : items.drop limit = [] := drop_of_length_le (by omega)
        obtain ⟨sound,-,drained⟩ := h.drained front ready next compact limit
        obtain ⟨-,flight⟩ := s.drainSlot_flight compact limit slot items rest
        have pending := congrArg Flight.pending flight
        have inFlight := congrArg Flight.inFlight flight
        simp only [OwnerState.flight,nothing,isEmpty_nil,if_true,OwnerState.countRetired] at pending inFlight
        have onward := ih (limit - (s.drainSlot compact limit slot items rest).1.length) _ _ sound ?_ ?_ ?_
        · simp only
          rw [if_neg (by omega)]
          simp only [ready]
          rw [length_append,← Nat.add_assoc]
          exact onward
        · rw [pending]
          exact fun other mem => finished other (by rw [front]; exact mem_cons_of_mem _ mem)
        · omega
        · rw [front,length_cons] at count
          rw [pending]
          omega

end Flight.Sound

namespace OwnerHistory

structure Sound (h : OwnerHistory) : Prop where
  flight : h.state.flight.Sound h.reserved h.unstaged h.retired.length
  retired : h.retired.map Retired.reservation = h.reserved.take h.retired.length

variable {h : OwnerHistory}

theorem Sound.admitted (sound : h.Sound) (room : h.reserved.length + 1 < 2^64) {packetClass : PacketClass}
    {r : OwnerReservation} {state : OwnerState} (counters : SendCounters)
    (admits : h.state.Admits packetClass r state) :
    (h.admitted r state counters).Sound where
  flight := sound.flight.admits room admits
  retired := by
    change _ = (h.reserved ++ [r]).take h.retired.length
    rw [take_append_of_le_length sound.flight.tiles.done_le]
    exact sound.retired

theorem Sound.retire (sound : h.Sound) (limit : Nat) (compact : Bool) :
    (h.retire limit compact).Sound ∧
      (h.retire limit compact).state.inFlightLimit = h.state.inFlightLimit := by
  obtain ⟨flight,retired,limits⟩ := sound.flight.retiredFrom compact h.state.pending.length limit h.state _
  refine ⟨⟨?_,?_⟩,limits⟩
  · change Flight.Sound _ _ _ (h.retired ++ _).length
    rw [length_append]
    exact flight
  · change (h.retired ++ _).map _ = take (h.retired ++ _).length h.reserved
    rw [map_append,length_append,take_add,sound.retired]
    exact congrArg _ retired

theorem Sound.stage (sound : h.Sound) (start len : Nat) :
    ∃ h', h.stage start len = some h' ∧ h'.Sound ∧ h'.state.inFlightLimit = h.state.inFlightLimit ∧
      h'.reserved = h.reserved := by
  unfold OwnerHistory.stage
  cases run : (h.unstaged.drop start).take len with
  | nil => exact ⟨h,rfl,sound,rfl,rfl⟩
  | cons first rest =>
    by_cases chain : (first :: rest).IsChain OwnerReservation.Follows
    · have split : h.unstaged = h.unstaged.take start ++ first :: rest ++ h.unstaged.drop (start + len) := by
        rw [← run,append_assoc,← drop_drop,take_append_drop,take_append_drop]
      have flight := sound.flight
      rw [split] at flight
      obtain ⟨wasEmpty,state,staged,sound',limits⟩ := flight.staged chain
      simp only [if_pos chain,staged]
      exact ⟨_,rfl,⟨sound',sound.retired⟩,limits,rfl⟩
    · simp only [if_neg chain]
      exact ⟨h,rfl,sound,rfl,rfl⟩

/-- Every step has a result, and only a reservation adds to the history. -/
theorem Sound.exec (sound : h.Sound) (op : Op) (room : op.reserves = true → h.reserved.length + 1 < 2^64) :
    ∃ h', h.exec op = some h' ∧ h'.Sound ∧ h'.state.inFlightLimit = h.state.inFlightLimit ∧
      h'.reserved.length ≤ h.reserved.length + if op.reserves then 1 else 0 := by
  have longer (r : OwnerReservation) : (h.reserved ++ [r]).length ≤ h.reserved.length + 1 := by simp
  cases op with
  | reserve packet seq =>
    refine ⟨_,rfl,?_⟩
    unfold OwnerHistory.reserve
    cases outcome : h.state.reserve packet seq with
    | error e => exact ⟨sound,rfl,Nat.le_add_right _ _⟩
    | ok result =>
      obtain ⟨⟨r,epoch⟩,state⟩ := result
      have admits := reserve_admits outcome
      exact ⟨sound.admitted (room rfl) _ admits,congrArg Flight.inFlightLimit admits.flight,longer r⟩
  | reserveOutbound packet seq =>
    refine ⟨_,rfl,?_⟩
    unfold OwnerHistory.reserveOutbound
    cases outcome : h.state.reserveOutbound h.counters packet seq with
    | error e => exact ⟨sound,rfl,Nat.le_add_right _ _⟩
    | ok result =>
      obtain ⟨⟨r,sent⟩,state,counters⟩ := result
      have admits := reserveOutbound_admits outcome
      exact ⟨sound.admitted (room rfl) _ admits,congrArg Flight.inFlightLimit admits.flight,longer r⟩
  | stage start len =>
    obtain ⟨h',staged,sound',limits,same⟩ := sound.stage start len
    exact ⟨h',staged,sound',limits,same ▸ Nat.le_add_right _ _⟩
  | complete order results =>
    exact ⟨_,rfl,⟨sound.flight.completed order results,sound.retired⟩,rfl,Nat.le_add_right _ _⟩
  | retire limit compact =>
    exact ⟨_,rfl,(sound.retire limit compact).1,(sound.retire limit compact).2,Nat.le_add_right _ _⟩
  | epoch op =>
    have same := h.state.execEpoch_flight h.counters op
    refine ⟨_,rfl,⟨?_,sound.retired⟩,congrArg Flight.inFlightLimit same,Nat.le_add_right _ _⟩
    simp only [same]
    exact sound.flight
  | share counters => exact ⟨_,rfl,⟨sound.flight,sound.retired⟩,rfl,Nat.le_add_right _ _⟩

theorem Sound.run (ops : List Op) :
    ∀ h : OwnerHistory, h.Sound → h.reserved.length + ops.countP Op.reserves < 2^64 →
    ∃ h', h.run ops = some h' ∧ h'.Sound ∧ h'.state.inFlightLimit = h.state.inFlightLimit := by
  induction ops with
  | nil => exact fun h sound _ => ⟨h,rfl,sound,rfl⟩
  | cons op ops ih =>
    intro h sound short
    rw [countP_cons] at short
    obtain ⟨h₁,first,sound₁,limit₁,length₁⟩ := sound.exec op (by
      intro reserves
      rw [if_pos reserves] at short
      omega)
    obtain ⟨h₂,later,sound₂,limit₂⟩ := ih h₁ sound₁ (by omega)
    refine ⟨h₂,?_,sound₂,limit₂.trans limit₁⟩
    rw [OwnerHistory.run,foldlM_cons,first]
    exact later

theorem sound_new (owner : OwnerId) (config : OwnerConfig) (counters : SendCounters) :
    Sound { state := .new owner config, counters := counters } where
  flight := by
    refine ⟨by simp,rfl,.empty,⟨forall_mem_nil _,rfl,rfl,rfl⟩,rfl,rfl,Nat.zero_le _,
      Nat.zero_le _,Nat.zero_le _⟩
  retired := rfl

/-- Every run of fewer than `2^64` reservations retires what it reserved, once each and in order, and
keeps the limits of the lanes. What is finished without a gap can all be retired. -/
theorem run_retires_in_order (owner : OwnerId) (config : OwnerConfig)
    (counters : SendCounters) (ops : List Op) (short : ops.countP Op.reserves < 2^64) :
    ∃ h, OwnerHistory.run { state := .new owner config, counters := counters } ops = some h ∧
      h.reserved.Nodup ∧ h.retired.map Retired.reservation ++ h.inFlight = h.reserved ∧
      h.state.inFlight = h.inFlight.length ∧ h.state.inFlight ≤ config.inFlightLimit ∧
      (h.inFlight.countP fun r => r.lane ≠ .priority) ≤ max (config.inFlightLimit - 1) 1 ∧
      (h.inFlight.countP fun r => r.lane = .background) ≤ 1 ∧
      (1 < config.inFlightLimit → (∀ r ∈ h.inFlight, r.lane ≠ .priority) →
        ∀ packetClass : PacketClass, packetClass.lane = .priority →
          h.state.canReserveClass packetClass = true) ∧
      (h.unstaged = [] → (∀ slot ∈ h.state.pending, slot.isReady = true) →
        ∀ limit compact, h.state.inFlight ≤ limit →
          (h.retire limit compact).retired.map Retired.reservation = h.reserved) := by
  obtain ⟨h,ran,sound,limit⟩ := Sound.run ops _ (sound_new owner config counters) (by simpa using short)
  have flight := sound.flight
  have limit' : h.state.inFlightLimit = config.inFlightLimit := limit
  have atMost : h.state.inFlight ≤ h.state.inFlightLimit := flight.inFlight_le
  have bulkLe : h.state.bulkInFlight ≤ max (h.state.inFlightLimit - 1) 1 := flight.bulk_le
  have bulk : h.state.bulkInFlight = h.inFlight.countP fun r => r.lane ≠ .priority :=
    flight.tallied.bulk.trans (flight.perm.countP_eq _)
  have size : h.state.inFlight = h.inFlight.length := flight.tallied.inFlight.trans flight.perm.length_eq
  refine ⟨h,ran,flight.tiles.nodup,?_,size,limit' ▸ atMost,limit' ▸ bulk ▸ bulkLe,?_,?_,?_⟩
  · rw [sound.retired]
    exact take_append_drop _ _
  · have background : h.state.backgroundInFlight = h.inFlight.countP fun r => r.lane = .background :=
      flight.tallied.background.trans (flight.perm.countP_eq _)
    exact background ▸ flight.background_le
  · intro several noPriority packetClass priority
    have all : h.state.bulkInFlight = h.state.inFlight := by
      rw [bulk,size]
      exact countP_eq_length.2 fun r mem => decide_eq_true (noPriority r mem)
    unfold canReserveClass reserveBlockReason
    rw [if_neg (by omega),if_neg (by simp [priority]),if_neg (by simp [priority])]
    rfl
  · intro staged finished limit compact enough
    have whole := (staged ▸ flight).retiresAll compact h.state.pending.length limit
      h.state _ finished enough rfl
    rw [(sound.retire limit compact).1.retired]
    change take (h.retired ++ _).length h.reserved = _
    rw [length_append]
    exact take_of_length_le (Nat.le_of_eq whole.symm)

def lastOwner : OwnerId := ⟨1,.fmp⟩

def lastPacket : OutboundPacket :=
  { owner := lastOwner, generation := 1, packetClass := .control, wire := .fmp 0 0 }

def lastReservation (n : Nat) : OwnerReservation :=
  ⟨lastOwner,1,n,0,n,.control,.priority,none,0,none,.current⟩

def steady (n : Nat) : OwnerHistory where
  state := { new lastOwner { generation := 1, inFlightLimit := 2 } with
    nextOrder := n, nextRetire := n, nextSendCounter := n }
  counters := fun _ => 0
  reserved := (range n).map lastReservation
  retired := (range n).map fun i => .output (lastReservation i)

def swapped : List Op :=
  [.reserveOutbound lastPacket 0,.reserveOutbound lastPacket 0,.stage 1 1,.complete 1 fun _ => .sealed,
    .retire 2 false,.stage 0 1,.complete 0 fun _ => .failed,.retire 1 false,.retire 1 false]

theorem run_retires_in_order_swapped : ∃ h,
    OwnerHistory.run
      { state := .new lastOwner { generation := 1, inFlightLimit := 2 }, counters := fun _ => 0 } swapped =
      some h ∧ h.retired.length = 2 ∧ h.retired.map Retired.reservation ++ h.inFlight = h.reserved := by
  obtain ⟨h,ran,-,order,-⟩ :=
    run_retires_in_order lastOwner { generation := 1, inFlightLimit := 2 } (fun _ => 0) swapped (by decide)
  have count : (OwnerHistory.run
      { state := .new lastOwner { generation := 1, inFlightLimit := 2 }, counters := fun _ => 0 }
      swapped).map (·.retired.length) = some 2 := by decide +kernel
  rw [ran] at count
  exact ⟨h,ran,Option.some.inj count,order⟩

def cycle (n : Nat) : List Op :=
  [.reserveOutbound lastPacket 0,.stage 0 1,.complete n fun _ => .sealed,.retire 1 false]

theorem steady_cycle {n : Nat} (room : n + 1 < 2^64) : (steady n).run (cycle n) = some (steady (n + 1)) := by
  have next : U64.wrappingAdd n 1 = n + 1 := U64.wrappingAdd_eq room
  simp [run,cycle,exec,OwnerHistory.reserveOutbound,OwnerState.reserveOutbound,OwnerState.refreshOutbound,
    steady,OwnerState.new,lastPacket,OwnerState.canReserveClass,OwnerState.reserveBlockReason,
    PacketClass.lane,OwnerState.reserveSendCounter,admitted,stage,OwnerState.stageRetireSlot,complete,
    OwnerRetireSlot.complete,retire,OwnerState.retireReadySlots,OwnerState.retireReadySlotsFrom,
    OwnerState.drainSlot,OwnerState.retireDrained,OwnerState.retireReadyCompletions,
    OwnerState.retireReadyCompletion,OwnerState.completeReplayReservation,OwnerState.countRetired,
    OwnerState.putBackSlot,OwnerState.reserveClass,OwnerState.takeOrder,next,range_succ]
  rfl

theorem steady_run {n : Nat} (room : n < 2^64) :
    (steady 0).run ((range n).flatMap cycle) = some (steady n) := by
  induction n with
  | zero => rfl
  | succ n ih =>
    have before := ih (by omega)
    have last := steady_cycle room
    unfold run at before last ⊢
    simp only [range_succ,flatMap_append,foldlM_append,before,flatMap_singleton,Option.bind_eq_bind,
      Option.bind_some,last]

def wrapping : List Op :=
  (range (2^64-1)).flatMap cycle ++ [.reserveOutbound lastPacket 0,.reserveOutbound lastPacket 0,
    .stage 0 1,.stage 0 1,.complete (2^64-1) fun _ => .sealed,.complete 0 fun _ => .sealed]

def finishedSlot (n : Nat) : OwnerRetireSlot := ⟨1,.priority,n,.ready [⟨lastReservation n,.sealed⟩]⟩

theorem run_wrapping : ∃ h, (steady 0).run wrapping = some h ∧ h.unstaged = [] ∧ h.state.inFlight = 2 ∧
    h.state.pending = [finishedSlot 0,finishedSlot (2^64-1)] ∧ h.state.nextRetire = 2^64-1 := by
  have before : (steady 0).run ((range (2^64-1)).flatMap cycle) = some (steady (2^64-1)) :=
    steady_run (by decide)
  unfold run wrapping at *
  rw [foldlM_append,before]
  generalize large : 2^64-1 = n at *
  have next : U64.wrappingAdd n 1 = 0 := by rw [← large]; rfl
  have nonzero : n ≠ 0 := by rw [← large]; decide
  simp [exec,OwnerHistory.reserveOutbound,OwnerState.reserveOutbound,OwnerState.refreshOutbound,
    steady,OwnerState.new,lastPacket,OwnerState.canReserveClass,OwnerState.reserveBlockReason,
    PacketClass.lane,OwnerState.reserveSendCounter,admitted,stage,OwnerState.stageRetireSlot,complete,
    OwnerRetireSlot.complete,OwnerState.reserveClass,OwnerState.takeOrder,OutboundPacket.lane,next,nonzero,
      nonzero.symm,finishedSlot,lastReservation]

/-- The slot behind the wrap is sorted before the one that is next, and nothing of the owner is ever
retired again. -/
theorem wrapping_retires_nothing : ∃ h, (steady 0).run wrapping = some h ∧ h.unstaged = [] ∧
    (∀ slot ∈ h.state.pending, slot.isReady = true) ∧ h.state.inFlight = 2 ∧
    ∀ limit compact, (h.retire limit compact).retired = h.retired := by
  obtain ⟨h,ran,staged,size,pending,next⟩ := run_wrapping
  refine ⟨h,ran,staged,?_,size,?_⟩
  · rw [pending]
    simp [finishedSlot,isReady]
  · intro limit compact
    simp [retire,retireReadySlots,retireReadySlotsFrom,pending,next,finishedSlot]

end OwnerHistory

end Fips.Dataplane
