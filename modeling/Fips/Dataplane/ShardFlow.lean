import Fips.Dataplane.Shard
import Fips.Dataplane.Wakeups
import Fips.Dataplane.Retirement

set_option autoImplicit false

/-! What a dispatch and a retirement do to the owners and the queues of a shard. -/

namespace Fips.Dataplane

open OwnerState OwnerAdmissionQueues List

structure Flight.Counted (f : Flight) (loose : List OwnerReservation) : Prop extends f.Tallied loose where
  limit : 1 ≤ f.inFlightLimit

namespace Flight.Counted

variable {f : Flight} {loose : List OwnerReservation} {s s' : OwnerState}

theorem perm {loose' : List OwnerReservation} (h : f.Counted loose) (same : loose.Perm loose') :
    f.Counted loose' :=
  ⟨h.toTallied.perm same,h.limit⟩

theorem busy_of_blocked (h : s.flight.Counted loose) {packetClass : PacketClass}
    (blocked : s.canReserveClass packetClass = false) : 0 < s.inFlight := by
  by_contra idle
  have zero : s.inFlight = 0 := by omega
  have none := length_eq_zero_iff.1 (h.inFlight.symm.trans zero)
  have limit : 1 ≤ s.inFlightLimit := h.limit
  have bulk : s.bulkInFlight = 0 := h.bulk.trans (by rw [none]; rfl)
  have background : s.backgroundInFlight = 0 := h.background.trans (by rw [none]; rfl)
  have room : 1 ≤ s.bulkLaneInFlightLimit := le_max_right _ _
  have free : s.reserveBlockReason packetClass = Option.none := by
    unfold reserveBlockReason
    rw [if_neg (by omega),if_neg (by omega),if_neg (by omega)]
  rw [canReserveClass,free] at blocked
  cases blocked

theorem admits {packetClass : PacketClass} {r : OwnerReservation} (h : s.flight.Counted loose)
    (admits : s.Admits packetClass r s') : s'.flight.Counted (loose ++ [r]) := by
  refine ⟨h.toTallied.admits admits,?_⟩
  rw [admits.flight]
  exact h.limit

end Flight.Counted

def reservedFor {P : Type} (owner : OwnerId) (handled : List (Handled P)) : List OwnerReservation :=
  ((handled.filterMap Handled.work?).map (·.reservation)).filter (·.owner = owner)

def handledFrom {P : Type} (owner : OwnerId) (lane : Lane) (handled : List (Handled P)) :
    List (QueuedAdmission P) :=
  (handled.filter fun h => h.owner = owner ∧ h.lane = lane).map Handled.queued

@[simp] theorem reservedFor_append {P : Type} (owner : OwnerId) (a b : List (Handled P)) :
    reservedFor owner (a ++ b) = reservedFor owner a ++ reservedFor owner b := by
  simp [reservedFor]

@[simp] theorem handledFrom_append {P : Type} (owner : OwnerId) (lane : Lane) (a b : List (Handled P)) :
    handledFrom owner lane (a ++ b) = handledFrom owner lane a ++ handledFrom owner lane b := by
  simp [handledFrom]

theorem handledFrom_same {P : Type} {owner : OwnerId} {lane : Lane} {handled : List (Handled P)}
    (same : ∀ h ∈ handled, h.owner = owner ∧ h.lane = lane) (o : OwnerId) (l : Lane) :
    handledFrom o l handled = if o = owner ∧ l = lane then handled.map Handled.queued else [] := by
  unfold handledFrom
  split_ifs with here
  · obtain ⟨rfl,rfl⟩ := here
    rw [filter_eq_self.2 fun h mem => decide_eq_true (same h mem)]
  · rw [filter_eq_nil_iff.2 fun h mem both => ?_]
    · rfl
    · obtain ⟨a,b⟩ := same h mem
      obtain ⟨c,d⟩ := of_decide_eq_true both
      exact here ⟨c.symm.trans a,d.symm.trans b⟩

namespace Direction

variable {P : Type}

def Lawful (d : Direction P) : Prop :=
  ∀ {s s' : OwnerState} {counters counters' : SendCounters} {queued : QueuedAdmission P} {work : CryptoWork},
    d.reserve s counters queued = .ok (work,s',counters') →
      s.Admits (d.classOf queued.packet) work.reservation s'

theorem ingress_lawful : ingress.Lawful := by
  intro s s' counters counters' queued work ok
  unfold ingress at ok
  cases reserved : s.reserve queued.packet queued.ingressSeq with
  | error error => simp only [reserved] at ok; cases ok
  | ok result =>
    simp only [reserved] at ok
    cases ok
    exact reserve_admits reserved

theorem outbound_lawful : outbound.Lawful := by
  intro s s' counters counters' queued work ok
  unfold outbound at ok
  cases reserved : s.reserveOutbound counters queued.packet queued.ingressSeq with
  | error error => simp only [reserved] at ok; cases ok
  | ok result =>
    simp only [reserved] at ok
    cases ok
    exact reserveOutbound_admits reserved

structure Reserves (cursor : OwnerAdmissionCursor) (s : OwnerState) (loose : List OwnerReservation)
    (items : List (QueuedAdmission P)) (handled : List (Handled P))
    (left : List (QueuedAdmission P)) (s' : OwnerState) :
    Prop where
  items : items = handled.map Handled.queued ++ left
  cursor : ∀ h ∈ handled, h.owner = cursor.owner ∧ h.lane = cursor.lane
  owner : s'.owner = s.owner
  counted : s'.flight.Counted (loose ++ reservedFor s.owner handled)
  works : ∀ work ∈ handled.filterMap Handled.work?, work.reservation.owner = s.owner
  grows : s.inFlight ≤ s'.inFlight
  blocked : left ≠ [] → 0 < s'.inFlight

theorem reserveRun_reserves {d : Direction P} (lawful : d.Lawful) (cursor : OwnerAdmissionCursor)
    (items : List (QueuedAdmission P)) :
    ∀ (s : OwnerState) (counters : SendCounters) (loose : List OwnerReservation),
    s.flight.Counted loose → ∃ handled left s' counters', d.reserveRun cursor s counters items =
      (handled,left,s',counters') ∧
      Reserves cursor s loose items handled left s' := by
  induction items with
  | nil =>
    intro s counters loose h
    refine ⟨[],[],s,counters,rfl,rfl,forall_mem_nil _,rfl,?_,forall_mem_nil _,le_rfl,
      fun none => absurd rfl none⟩
    rw [reservedFor,filterMap_nil,map_nil,filter_nil,append_nil]
    exact h
  | cons queued rest ih =>
    intro s counters loose h
    unfold reserveRun
    by_cases blocked : s.canReserveClass (d.classOf queued.packet) = false
    · rw [if_pos blocked]
      refine ⟨[],_,s,counters,rfl,rfl,forall_mem_nil _,rfl,?_,forall_mem_nil _,le_rfl,fun _ =>
        h.busy_of_blocked blocked⟩
      rw [reservedFor,filterMap_nil,map_nil,filter_nil,append_nil]
      exact h
    · rw [if_neg blocked]
      cases reserved : d.reserve s counters queued with
      | error error =>
        obtain ⟨handled,left,s',counters',result,spec⟩ := ih s counters loose h
        refine ⟨.refused cursor.owner cursor.lane queued error :: handled,left,s',counters',
          by simp only [result],?_,?_,spec.owner,spec.counted,spec.works,spec.grows,spec.blocked⟩
        · rw [spec.items]
          rfl
        · exact forall_mem_cons.2 ⟨⟨rfl,rfl⟩,spec.cursor⟩
      | ok result =>
        obtain ⟨work,s₁,counters₁⟩ := result
        have admits := lawful reserved
        have flight := admits.flight
        have sameOwner : s₁.owner = s.owner := congrArg Flight.owner flight
        have more : s₁.inFlight = s.inFlight + 1 := congrArg Flight.inFlight flight
        obtain ⟨handled,left,s',counters',result,spec⟩ := ih s₁ counters₁ _ (h.admits admits)
        refine ⟨.dispatched cursor.owner cursor.lane queued work :: handled,left,s',counters',
          by simp only [result],?_,?_,spec.owner.trans sameOwner,?_,?_,?_,spec.blocked⟩
        · rw [spec.items]
          rfl
        · exact forall_mem_cons.2 ⟨⟨rfl,rfl⟩,spec.cursor⟩
        · have counted := spec.counted
          rw [append_assoc,sameOwner] at counted
          have first : reservedFor s.owner (.dispatched cursor.owner cursor.lane queued work :: handled) =
              [work.reservation] ++ reservedFor s.owner handled := by
            simp [reservedFor,Handled.work?,admits.owner]
          rw [first]
          exact counted
        · have works := spec.works
          rw [sameOwner] at works
          exact forall_mem_cons.2 ⟨admits.owner,works⟩
        · exact (Nat.le_of_lt (by omega)).trans spec.grows

end Direction

def Staffed (owners : OrderedMap OwnerId OwnerState) (loose : OwnerId → List OwnerReservation) : Prop :=
  ∀ o s, owners.get? o = some s → s.owner = o ∧ s.flight.Counted (loose o)

def Busy (owners : OrderedMap OwnerId OwnerState) (o : OwnerId) : Prop :=
  ∃ s, owners.get? o = some s ∧ 0 < s.inFlight

variable {owners : OrderedMap OwnerId OwnerState}

theorem Staffed.insert {loose loose' : OwnerId → List OwnerReservation}
    {id : OwnerId} {s : OwnerState} (h : Staffed owners loose) (others : ∀ o, o ≠ id → loose' o = loose o)
    (owner : s.owner = id) (counted : s.flight.Counted (loose' id)) :
    Staffed (owners.insert id s) loose' := by
  intro o t held
  rw [OrderedMap.get?_insert] at held
  split_ifs at held with same
  · subst same
    cases held
    exact ⟨owner,counted⟩
  · rw [others o same]
    exact h o t held

theorem Busy.insert {id o : OwnerId} {s s' : OwnerState}
    (held : owners.get? id = some s) (grows : 0 < s.inFlight → 0 < s'.inFlight) (h : Busy owners o) :
    Busy (owners.insert id s') o := by
  obtain ⟨t,here,flying⟩ := h
  unfold Busy
  rw [OrderedMap.get?_insert]
  split_ifs with same
  · subst same
    cases held.symm.trans here
    exact ⟨s',rfl,grows flying⟩
  · exact ⟨t,here,flying⟩

theorem Busy.insert_of_ne {id o : OwnerId} {s : OwnerState} (other : o ≠ id) (h : Busy owners o) :
    Busy (owners.insert id s) o := by
  unfold Busy
  rw [OrderedMap.get?_insert,if_neg other]
  exact h

namespace Direction

variable {P : Type}

/-- What part of a dispatch does: `queue` is what waited before. -/
structure Serves (desk : Desk P) (loose : OwnerId → List OwnerReservation)
    (handled : List (Handled P)) (desk' : Desk P) :
    Prop where
  staffed : Staffed desk'.owners fun o => loose o ++ reservedFor o handled
  kept : desk'.admission.Kept (Busy desk'.owners)
  queue : ∀ o l, handledFrom o l handled ++ desk'.admission.queue o l = desk.admission.queue o l
  busy : ∀ o, Busy desk.owners o → Busy desk'.owners o

variable {desk : Desk P} {admission : OwnerAdmissionQueues (QueuedAdmission P)}
  {loose : OwnerId → List OwnerReservation}

theorem Serves.nothing (staffed : Staffed desk.owners loose)
    (kept : admission.Kept (Busy desk.owners)) (same : admission.queue = desk.admission.queue) :
    Serves desk loose [] { desk with admission := admission } := by
  refine ⟨?_,kept,fun o l => by rw [same]; rfl,fun o => id⟩
  simp only [reservedFor,filterMap_nil,map_nil,filter_nil,append_nil]
  exact staffed

theorem Serves.trans {desk' desk'' : Desk P}
    {handled later : List (Handled P)} (first : Serves desk loose handled desk')
    (second : Serves desk' (fun o => loose o ++ reservedFor o handled) later desk'') :
    Serves desk loose (handled ++ later) desk'' where
  staffed := by
    simp only [reservedFor_append,← append_assoc]
    exact second.staffed
  kept := second.kept
  queue o l := by rw [handledFrom_append,append_assoc,second.queue,first.queue]
  busy o busy := second.busy o (first.busy o busy)

variable {owner : OwnerId}

theorem reservedFor_other {handled : List (Handled P)}
    (works : ∀ work ∈ handled.filterMap Handled.work?, work.reservation.owner = owner) {o : OwnerId}
    (other : o ≠ owner) : reservedFor o handled = [] := by
  refine filter_eq_nil_iff.2 fun r mem same => other ?_
  obtain ⟨work,inside,rfl⟩ := mem_map.1 mem
  exact (of_decide_eq_true same).symm.trans (works work inside)

variable {d : Direction P} {items rest : List (QueuedAdmission P)}

theorem serve_serves (lawful : d.Lawful) {lane : Lane}
    (staffed : Staffed desk.owners loose)
    (kept : desk.admission.Kept (Busy desk.owners))
    (pops : desk.admission.Pops lane owner items rest admission) :
    Serves desk loose (d.serve { desk with admission := admission } ⟨owner,lane,!rest.isEmpty⟩ items).1
      (d.serve { desk with admission := admission } ⟨owner,lane,!rest.isEmpty⟩ items).2 := by
  have but := OwnerAdmissionQueues.KeptBut.of_pops kept pops
  have here := pops.takes.holds.self
  have contents := pops.takes.holds.queue
  have before (o : OwnerId) (l : Lane) :
      (if o = owner ∧ l = lane then items else []) ++ admission.queue o l = desk.admission.queue o l := by
    rw [contents]
    split_ifs with same
    · rw [same.1,same.2,pops.takes.queue]
    · rfl
  unfold serve
  cases known : desk.owners.get? owner with
  | none =>
    obtain ⟨kept',same⟩ := but.continueOwnerLane here
    have from' (h : Handled P) (mem : h ∈ items.map (.unknownOwner owner lane)) : h.owner = owner ∧
        h.lane = lane := by
      obtain ⟨queued,-,rfl⟩ := mem_map.1 mem
      exact ⟨rfl,rfl⟩
    have none : (items.map (Handled.unknownOwner owner lane)).filterMap Handled.work? = [] := by
      rw [filterMap_map]
      exact filterMap_eq_nil_iff.2 fun _ _ => rfl
    refine ⟨?_,kept',fun o l => ?_,fun o => id⟩
    · simp only [reservedFor,none,map_nil,filter_nil,append_nil]
      exact staffed
    · rw [same,handledFrom_same from',map_map]
      have back : items.map (Handled.queued ∘ Handled.unknownOwner owner lane) = items := map_id items
      rw [back]
      exact before o l
  | some s =>
    obtain ⟨sameOwner,counted⟩ := staffed owner s known
    obtain ⟨handled,left,s',counters',result,spec⟩ :=
      reserveRun_reserves lawful ⟨owner,lane,!rest.isEmpty⟩ items s desk.counters (loose owner) counted
    simp only [result]
    have works := spec.works
    have counted' := spec.counted
    rw [sameOwner] at works counted'
    have more : ∀ o, Busy desk.owners o → Busy (desk.owners.insert owner s') o := fun o =>
      Busy.insert known fun flying => flying.trans_le spec.grows
    have split := spec.items
    have staffed' : Staffed (desk.owners.insert owner s') fun o => loose o ++ reservedFor o handled := by
      refine staffed.insert (fun o other => ?_) (spec.owner.trans sameOwner) counted'
      rw [reservedFor_other works other,append_nil]
    have but' := but.mono more
    by_cases done : left.isEmpty = true
    · simp only [done,if_true]
      rw [isEmpty_iff.1 done,append_nil] at split
      obtain ⟨kept',same⟩ := but'.continueOwnerLane here
      refine ⟨staffed',kept',fun o l => ?_,more⟩
      rw [same,handledFrom_same spec.cursor,← split]
      exact before o l
    · simp only [done]
      have busy : Busy (desk.owners.insert owner s') owner :=
        ⟨s',by rw [OrderedMap.get?_insert,if_pos rfl],spec.blocked fun none => done (isEmpty_iff.2 none)⟩
      obtain ⟨kept',same⟩ := but'.deferOwnerRun busy ⟨owner,lane,!rest.isEmpty⟩ rfl rfl left
      refine ⟨staffed',kept',fun o l => ?_,more⟩
      simp only [Bool.false_eq_true,if_false]
      rw [same,handledFrom_same spec.cursor,← before o l]
      split_ifs with here'
      · rw [split,append_assoc]
      · rfl

theorem dispatchFrom_serves (lawful : d.Lawful) (lane : Lane) (turns : Nat) :
    ∀ (attempts remaining : Nat) (desk : Desk P) (loose : OwnerId → List OwnerReservation),
      Staffed desk.owners loose →
      desk.admission.Kept (Busy desk.owners) →
        Serves desk loose (d.dispatchFrom lane turns attempts remaining desk).1
          (d.dispatchFrom lane turns attempts remaining desk).2 := by
  induction turns with
  | zero =>
    intro attempts remaining desk loose staffed kept
    exact .nothing staffed kept rfl
  | succ turns ih =>
    intro attempts remaining desk loose staffed kept
    unfold dispatchFrom
    by_cases beyond : remaining = 0 ∨ attempts = 0
    · rw [if_pos beyond]
      exact .nothing staffed kept rfl
    · rw [if_neg beyond]
      obtain ⟨taken,admission,popped,idle⟩ | ⟨taken,owner,items,rest,admission,popped,-,pops⟩ :=
        desk.admission.popNextRunInto_cases lane (d.runLimit remaining (desk.admission.ready.get lane).length)
      · simp only [popped]
        obtain rfl | idle := idle
        · exact .nothing staffed kept rfl
        · refine .nothing staffed (kept.of_idle idle) ?_
          funext o l
          rw [queue,idle.owners]
          rfl
      · simp only [popped]
        have first := serve_serves lawful staffed kept pops
        exact first.trans (ih _ _ _ _ first.staffed first.kept)

theorem dispatch_serves (lawful : d.Lawful) (lane : Lane) (limit : Nat) (desk : Desk P)
    (staffed : Staffed desk.owners loose)
    (kept : desk.admission.Kept (Busy desk.owners)) :
    Serves desk loose (d.dispatch lane limit desk).1 (d.dispatch lane limit desk).2 :=
  dispatchFrom_serves lawful lane _ _ _ desk loose staffed kept

end Direction

namespace CryptoWork

def looseOf (slots : List CryptoReadySlot) (owner : OwnerId) : List OwnerReservation :=
  (slots.filter (·.owner = owner)).flatMap (·.slot.reservations)

@[simp] theorem looseOf_append (a b : List CryptoReadySlot) (owner : OwnerId) :
    looseOf (a ++ b) owner = looseOf a owner ++ looseOf b owner := by
  simp [looseOf]

def Together (run : List CryptoWork) : Prop :=
  ∀ first ∈ run.head?, ∀ work ∈ run,
    work.reservation.owner = first.reservation.owner ∧ work.reservation.lane = first.reservation.lane

def SlotsEven (slots : List CryptoReadySlot) : Prop :=
  ∀ slot ∈ slots, ∀ r ∈ slot.slot.reservations, r.lane = slot.slot.lane

theorem Together.single (work : CryptoWork) : Together [work] := by
  rintro first ⟨⟩
  exact forall_mem_singleton.2 ⟨rfl,rfl⟩

theorem Together.join {run : List CryptoWork} {work : CryptoWork} (h : Together run)
    (joins : joins run work = true) :
    Together (run ++ [work]) := by
  cases run with
  | nil => exact .single work
  | cons first rest =>
    have fits : continues first ((first :: rest).getLast (cons_ne_nil _ _)) work = true := by
      simp only [CryptoWork.joins,head?_cons,getLast?_eq_some_getLast (cons_ne_nil first rest),
        Bool.and_eq_true] at joins
      exact joins.2
    simp only [continues,Bool.and_eq_true,decide_eq_true_eq] at fits
    rintro first' ⟨⟩
    refine forall_mem_append.2 ⟨h first rfl,forall_mem_singleton.2 ?_⟩
    exact ⟨fits.1.1.1.1.1.1.2.symm,fits.1.1.1.1.2.symm⟩

theorem slotOf_spec {run : List CryptoWork} (h : Together run) :
    SlotsEven (slotOf run) ∧ ∀ o, looseOf (slotOf run) o =
      (run.map (·.reservation)).filter (·.owner = o) := by
  cases run with
  | nil => exact ⟨forall_mem_nil _,fun o => rfl⟩
  | cons first rest =>
    have same := h first rfl
    constructor
    · intro slot mem r inside
      obtain rfl := mem_singleton.1 mem
      obtain ⟨work,held,rfl⟩ := mem_map.1 inside
      exact (same work held).2
    · intro o
      by_cases here : first.reservation.owner = o
      · rw [filter_eq_self.2]
        · simp [looseOf,slotOf,here,OwnerRetireSlot.reservations]
        · intro r mem
          obtain ⟨work,held,rfl⟩ := mem_map.1 mem
          exact decide_eq_true ((same work held).1.trans here)
      · rw [filter_eq_nil_iff.2]
        · simp [looseOf,slotOf,here]
        · intro r mem
          obtain ⟨work,held,rfl⟩ := mem_map.1 mem
          rw [(same work held).1]
          simpa using here

/-- The slots hold the reservations of the works, each in a slot of its owner. -/
theorem group_spec (works : List CryptoWork) : ∀ run : List CryptoWork, Together run →
    SlotsEven ((group run works).1 ++ (group run works).2) ∧
    ∀ o, (looseOf ((group run works).1 ++ (group run works).2) o).Perm
      (((run ++ works).map (·.reservation)).filter (·.owner = o)) := by
  induction works with
  | nil =>
    intro run h
    obtain ⟨even,loose⟩ := slotOf_spec h
    exact ⟨even,fun o => by rw [append_nil,← loose]; exact .refl _⟩
  | cons work rest ih =>
    intro run h
    unfold group
    by_cases joined : joins run work = true
    · rw [if_pos joined]
      obtain ⟨even,loose⟩ := ih _ (h.join joined)
      rw [append_assoc] at loose
      exact ⟨even,loose⟩
    · rw [if_neg joined]
      obtain ⟨even,loose⟩ := slotOf_spec h
      by_cases keyed : work.key.isSome = true
      · rw [if_pos keyed]
        obtain ⟨even',loose'⟩ := ih _ (.single work)
        obtain ⟨failed,later⟩ := forall_mem_append.1 even'
        constructor
        · exact forall_mem_append.2 ⟨failed,forall_mem_append.2 ⟨even,later⟩⟩
        · intro o
          rw [map_append,filter_append,← loose]
          refine List.Perm.trans ?_ ((loose' o).append_left _)
          simp only [looseOf_append]
          exact perm_append_comm_assoc _ _ _
      · rw [if_neg keyed]
        obtain ⟨even',loose'⟩ := ih [] (fun _ none => absurd none (by simp))
        obtain ⟨failed,later⟩ := forall_mem_append.1 even'
        have own : ∀ r ∈ (failedSlot work).slot.reservations, r.lane = (failedSlot work).slot.lane :=
          forall_mem_singleton.2 rfl
        constructor
        · exact forall_mem_append.2 ⟨forall_mem_cons.2 ⟨own,failed⟩,forall_mem_append.2 ⟨even,later⟩⟩
        · intro o
          have own : looseOf [failedSlot work] o = ([work].map (·.reservation)).filter (·.owner = o) := by
            by_cases here : work.reservation.owner = o <;>
              simp [looseOf,failedSlot,here,OwnerRetireSlot.reservations]
          have split : run ++ work :: rest = run ++ ([work] ++ rest) := rfl
          rw [split,map_append,map_append,filter_append,filter_append,← loose,← own]
          have rest' := loose' o
          refine List.Perm.trans ?_ ((rest'.append_left _).append_left _)
          change (looseOf (([failedSlot work] ++ (group [] rest).1) ++
            (slotOf run ++ (group [] rest).2)) o).Perm _
          simp only [looseOf_append,append_assoc]
          refine List.Perm.trans (List.Perm.append_left _ (perm_append_comm_assoc _ _ _)) ?_
          exact perm_append_comm_assoc _ _ _

end CryptoWork

namespace DataplaneOwnerShard

open CryptoWork

theorem slotsOf_spec {P : Type} (handled : List (Handled P)) :
    SlotsEven (slotsOf handled) ∧ ∀ o, (looseOf (slotsOf handled) o).Perm (reservedFor o handled) :=
  group_spec _ [] fun _ none => absurd none (by simp)

end DataplaneOwnerShard

namespace Flight.Counted

variable {loose : List OwnerReservation} {s : OwnerState}

theorem retiredFrom (compact : Bool) (turns limit : Nat) (s : OwnerState) : s.flight.Counted loose →
    (retireReadySlotsFrom compact turns limit s).2.flight.Counted loose ∧
      (retireReadySlotsFrom compact turns limit s).2.owner = s.owner ∧
      (retireReadySlotsFrom compact turns limit s).2.inFlight ≤ s.inFlight := by
  refine retireReadySlotsFrom_turns (P := fun s _ s' => s.flight.Counted loose →
    s'.flight.Counted loose ∧ s'.owner = s.owner ∧ s'.inFlight ≤ s.inFlight) compact
      (fun s h => ⟨h,rfl,le_rfl⟩) ?_
    turns limit s
  intro limit s slot rest items out s' front next ready ih h
  obtain ⟨-,flight⟩ := s.drainSlot_flight compact limit slot items rest
  have sameOwner := congrArg Flight.owner flight
  have inFlight := congrArg Flight.inFlight flight
  have room := congrArg Flight.inFlightLimit flight
  obtain ⟨counted,owner,fewer⟩ := ih ⟨h.drained front ready compact limit,room ▸ h.limit⟩
  exact ⟨counted,owner.trans sameOwner,fewer.trans (inFlight.trans_le (Nat.sub_le _ _))⟩

end Flight.Counted

end Fips.Dataplane
