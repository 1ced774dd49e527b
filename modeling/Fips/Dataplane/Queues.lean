import Fips.Dataplane.Admission

set_option autoImplicit false

/-! What the operations on the queues of the owners do to their contents. -/

namespace Fips.Dataplane.OwnerAdmissionQueues

open Option List

variable {T : Type}

def queued (q : OwnerAdmissionQueues T) (lane : Lane) : Nat :=
  q.owners.total fun _ queues => (queues.get lane).length

structure Holds (q : OwnerAdmissionQueues T) (owner : OwnerId) (lane : Lane) (items : List T)
    (q' : OwnerAdmissionQueues T) :
    Prop where
  queue : ∀ o l, q'.queue o l = if o = owner ∧ l = lane then items else q.queue o l
  queued : ∀ l, q'.queued l + (if l = lane then (q.queue owner lane).length else 0) =
    q.queued l + if l = lane then items.length else 0

variable {q q' : OwnerAdmissionQueues T} {owner : OwnerId} {lane : Lane} {items : List T}

theorem Holds.self (h : q.Holds owner lane items q') : q'.queue owner lane = items := by
  rw [h.queue,if_pos ⟨rfl,rfl⟩]

theorem Holds.trans {q'' : OwnerAdmissionQueues T} {items' : List T} (first : q.Holds owner lane items q')
    (second : q'.Holds owner lane items' q'') : q.Holds owner lane items' q'' where
  queue o l := by
    rw [second.queue,first.queue]
    split_ifs <;> rfl
  queued l := by
    have before := first.queued l
    have after := second.queued l
    rw [first.self] at after
    split_ifs at before after ⊢ <;> omega

theorem Holds.refl (q : OwnerAdmissionQueues T) (owner : OwnerId) (lane : Lane) :
    q.Holds owner lane (q.queue owner lane) q where
  queue o l := by
    split_ifs with same
    · rw [same.1,same.2]
    · rfl
  queued l := rfl

theorem holds_setQueue (q : OwnerAdmissionQueues T) (owner : OwnerId) (lane : Lane) (items : List T) :
    q.Holds owner lane items (q.setQueue owner lane items) where
  queue o l := by
    unfold OwnerAdmissionQueues.queue setQueue
    rw [OrderedMap.get?_insert]
    by_cases same : o = owner
    · subst same
      simp only [if_true,getD_some,PerLane.get_set,true_and]
    · simp only [same,false_and,if_false]
  queued l := by
    unfold OwnerAdmissionQueues.queued setQueue OwnerAdmissionQueues.queue
    have put := q.owners.total_insert_elim owner (((q.owners.get? owner).getD (.all [])).set lane items)
      fun _ queues => (queues.get l).length
    rw [PerLane.get_set] at put
    cases held : q.owners.get? owner with
    | none =>
      simp only [held] at put ⊢
      split_ifs at put ⊢ <;> simpa using put
    | some queues =>
      simp only [held,elim_some,getD_some] at put ⊢
      split_ifs at put ⊢ with same
      · subst same
        exact put
      · omega

theorem holds_erase {queues : PerLane (List T)} (held : q.owners.get? owner = some queues)
    (empty : queues.isEmpty = true) (lane : Lane) :
    q.Holds owner lane [] { q with owners := q.owners.erase owner } := by
  have nothing : q.queue owner lane = [] := by
    rw [queue,held]
    exact PerLane.isEmpty_get empty lane
  constructor
  · intro o l
    unfold queue
    rw [OrderedMap.get?_erase]
    by_cases same : o = owner
    · subst same
      rw [if_pos rfl,held]
      simp only [getD_none,getD_some,PerLane.get_all,PerLane.isEmpty_get empty,ite_self]
    · rw [if_neg same,if_neg (fun both => same both.1)]
  · intro l
    have erased := q.owners.total_erase_elim owner fun _ queues => (queues.get l).length
    rw [held,elim_some,PerLane.isEmpty_get empty] at erased
    unfold queued
    rw [nothing]
    simpa using erased

/-- What taking an item does, and when there is none. -/
theorem takeItem_cases (q : OwnerAdmissionQueues T) (owner : OwnerId) (lane : Lane) :
    (q.queue owner lane = [] ∧ q.takeItem owner lane = none) ∨
    ∃ item rest q', q.queue owner lane = item :: rest ∧
      q.takeItem owner lane = some (item,⟨owner,lane,!rest.isEmpty⟩,q') ∧ q.Holds owner lane rest q' ∧
      q'.ready = q.ready ∧ q'.bulkCutInDebt = q.bulkCutInDebt ∧ q'.lens = (q.decrementLaneLen lane).lens := by
  unfold takeItem popOwnerLane
  cases held : q.owners.get? owner with
  | none => exact .inl ⟨by rw [queue,held]; exact PerLane.get_all _ _,rfl⟩
  | some queues =>
    have here : q.queue owner lane = queues.get lane := by rw [queue,held]; rfl
    cases items : queues.get lane with
    | nil => exact .inl ⟨here.trans items,by simp only [items]⟩
    | cons item rest =>
      right
      have set : q.setQueue owner lane rest =
          { q with owners := q.owners.insert owner (queues.set lane rest) } := by
        rw [setQueue,held]
        rfl
      have put := q.holds_setQueue owner lane rest
      rw [set] at put
      refine ⟨item,rest,_,here.trans items,by simp only [items]; rfl,?_,?_⟩
      · by_cases empty : (queues.set lane rest).isEmpty = true
        · have stored : OrderedMap.get?
              { q with owners := q.owners.insert owner (queues.set lane rest) }.owners owner =
              some (queues.set lane rest) := by rw [OrderedMap.get?_insert,if_pos rfl]
          have none : rest = [] := by
            have at_lane := PerLane.isEmpty_get empty lane
            rwa [PerLane.get_set_self] at at_lane
          have gone := holds_erase stored empty lane
          rw [if_pos empty]
          subst none
          exact put.trans ⟨gone.queue,gone.queued⟩
        · rw [if_neg empty]
          exact ⟨put.queue,put.queued⟩
      · split_ifs <;> exact ⟨rfl,rfl,rfl⟩

structure Takes (q : OwnerAdmissionQueues T) (owner : OwnerId) (lane : Lane) (items rest : List T)
    (q' : OwnerAdmissionQueues T) : Prop where
  queue : q.queue owner lane = items ++ rest
  holds : q.Holds owner lane rest q'
  lens : ∀ l, q'.lens.get l = if l = lane then q.lens.get l - items.length else q.lens.get l

theorem Takes.trans {q'' : OwnerAdmissionQueues T} {more rest rest' : List T}
    (first : q.Takes owner lane items rest q') (second : q'.Takes owner lane more rest' q'') :
    q.Takes owner lane (items ++ more) rest' q'' where
  queue := by
    have later := second.queue
    rw [first.holds.self] at later
    rw [first.queue,later,append_assoc]
  holds := first.holds.trans second.holds
  lens l := by
    rw [second.lens,first.lens,length_append]
    split_ifs
    · omega
    · rfl

theorem takeItem_takes {item : T} {cursor : OwnerAdmissionCursor}
    (taken : q.takeItem owner lane = some (item,cursor,q')) : ∃ rest, cursor = ⟨owner,lane,!rest.isEmpty⟩ ∧
      q.Takes owner lane [item] rest q' ∧ q'.ready = q.ready := by
  obtain ⟨-,none⟩ | ⟨item',rest,q₁,here,some,holds,ready,-,lens⟩ := q.takeItem_cases owner lane
  · rw [none] at taken
    cases taken
  · rw [some] at taken
    obtain ⟨rfl,same⟩ := Prod.mk.inj (Option.some.inj taken)
    obtain ⟨rfl,rfl⟩ := Prod.mk.inj same
    refine ⟨rest,rfl,⟨here,holds,fun l => ?_⟩,ready⟩
    rw [lens,decrementLaneLen,PerLane.get_set]
    split_ifs with same
    · rw [same]
      rfl
    · rfl

/-- The owner's items join the run up to the room that is left. -/
theorem extendRun_takes (owner : OwnerId) (lane : Lane) (room : Nat) :
    ∀ (items : List T) (q : OwnerAdmissionQueues T),
    ∃ more rest q', extendRun room ⟨owner,lane,!(q.queue owner lane).isEmpty⟩ items q =
        (items ++ more,⟨owner,lane,!rest.isEmpty⟩,q') ∧ q.Takes owner lane more rest q' ∧
          q'.ready = q.ready := by
  have stop (q : OwnerAdmissionQueues T) : q.Takes owner lane [] (q.queue owner lane) q :=
    ⟨rfl,.refl q owner lane,fun l => by simp⟩
  induction room with
  | zero => exact fun items q => ⟨[],_,q,by rw [append_nil]; rfl,stop q,rfl⟩
  | succ room ih =>
    intro items q
    unfold extendRun popOwnerContinue
    obtain ⟨here,-⟩ | ⟨item,rest,q₁,here,taken,-⟩ := q.takeItem_cases owner lane
    · refine ⟨[],_,q,?_,stop q,rfl⟩
      simp [here]
    · obtain ⟨rest',cursor,takes,ready⟩ := takeItem_takes taken
      obtain ⟨more,last,q₂,extended,takes',ready'⟩ := ih (items ++ [item]) q₁
      rw [takes.holds.self] at extended
      refine ⟨item :: more,last,q₂,?_,takes.trans takes',ready'.trans ready⟩
      simp only [here,isEmpty_cons,Bool.not_false,if_true,taken]
      rw [cursor,extended,append_assoc]
      rfl

structure Pops (q : OwnerAdmissionQueues T) (lane : Lane) (owner : OwnerId) (items rest : List T)
    (q' : OwnerAdmissionQueues T) : Prop where
  ready : ∃ skipped, q.ready.get lane = skipped ++ owner :: q'.ready.get lane ∧
    ∀ o ∈ skipped, q.queue o lane = []
  others : ∀ l, l ≠ lane → q'.ready.get l = q.ready.get l
  takes : q.Takes owner lane items rest q'

structure Idle (q : OwnerAdmissionQueues T) (lane : Lane) (q' : OwnerAdmissionQueues T) : Prop where
  idle : ∀ o ∈ q.ready.get lane, q.queue o lane = []
  ready : ∀ l, q'.ready.get l = if l = lane then [] else q.ready.get l
  owners : q'.owners = q.owners
  lens : q'.lens = q.lens

theorem popLaneFrom_cases (lane : Lane) (turns : Nat) :
    ∀ q : OwnerAdmissionQueues T, (q.ready.get lane).length = turns →
    (∃ taken q', popLaneFrom lane turns q = (taken,none,q') ∧ q.Idle lane q') ∨
    ∃ taken owner item rest q', popLaneFrom lane turns q = (taken,some (item,⟨owner,lane,!rest.isEmpty⟩),q') ∧
      q.Pops lane owner [item] rest q' := by
  induction turns with
  | zero =>
    intro q length
    have none := length_eq_zero_iff.1 length
    refine .inl ⟨_,q,rfl,by simp [none],fun l => ?_,rfl,rfl⟩
    split_ifs with same
    · rw [same,none]
    · rfl
  | succ turns ih =>
    intro q length
    unfold popLaneFrom popReadyFront
    cases ready : q.ready.get lane with
    | nil => rw [ready] at length; cases length
    | cons first later =>
      simp only
      generalize popped : OwnerAdmissionQueues.mk q.lens (q.ready.set lane later)
        (if lane = .bulk then q.bulkCutInDebt - 1 else q.bulkCutInDebt) q.owners = q₁
      have readyLane : q₁.ready.get lane = later := by rw [← popped]; exact PerLane.get_set_self _ _ _
      have readyOther (l : Lane) (other : l ≠ lane) : q₁.ready.get l = q.ready.get l := by
        rw [← popped]
        exact PerLane.get_set_of_ne _ other _
      have sameQueue : q₁.queue = q.queue := by rw [← popped]; rfl
      have sameQueued : q₁.queued = q.queued := by rw [← popped]; rfl
      have sameLens : q₁.lens = q.lens := by rw [← popped]
      have sameOwners : q₁.owners = q.owners := by rw [← popped]
      obtain ⟨empty,none⟩ | ⟨item,rest,q₂,here,taken,-⟩ := q₁.takeItem_cases first lane
      · rw [none]
        rw [sameQueue] at empty
        have shorter : (q₁.ready.get lane).length = turns := by
          rw [readyLane]
          rw [ready,length_cons] at length
          omega
        obtain ⟨skipped,q₂,result,idle⟩ | ⟨skipped,owner,item,rest,q₂,result,pops⟩ := ih q₁ shorter
        · refine .inl ⟨first :: skipped,q₂,by simp only [result],?_,fun l => ?_,idle.owners.trans sameOwners,
            idle.lens.trans sameLens⟩
          · rw [ready]
            have others := idle.idle
            rw [readyLane,sameQueue] at others
            exact forall_mem_cons.2 ⟨empty,others⟩
          · rw [idle.ready]
            split_ifs with same
            · rfl
            · exact readyOther l same
        · refine .inr ⟨first :: skipped,owner,item,rest,q₂,by simp only [result],?_,fun l other => ?_,?_⟩
          · obtain ⟨before,split,nothing⟩ := pops.ready
            rw [readyLane] at split
            rw [sameQueue] at nothing
            exact ⟨first :: before,by rw [ready,split]; rfl,forall_mem_cons.2 ⟨empty,nothing⟩⟩
          · exact (pops.others l other).trans (readyOther l other)
          · obtain ⟨here,⟨queue,queued⟩,lens⟩ := pops.takes
            simp only [sameQueue,sameQueued,sameLens] at here queue queued lens
            exact ⟨here,⟨queue,queued⟩,lens⟩
      · obtain ⟨rest',cursor,takes,readySame⟩ := takeItem_takes taken
        refine .inr ⟨[first],first,item,rest',q₂,by simp only [taken,cursor],?_,fun l other => ?_,?_⟩
        · exact ⟨[],by rw [ready,readySame,readyLane]; rfl,forall_mem_nil _⟩
        · rw [readySame]
          exact readyOther l other
        · obtain ⟨here,⟨queue,queued⟩,lens⟩ := takes
          simp only [sameQueue,sameQueued,sameLens] at here queue queued lens
          exact ⟨here,⟨queue,queued⟩,lens⟩

theorem popNextRunInto_cases (q : OwnerAdmissionQueues T) (lane : Lane) (limit : Nat) :
    (∃ taken q', q.popNextRunInto lane limit = (taken,none,q') ∧ (q' = q ∨ q.Idle lane q')) ∨
    ∃ taken owner items rest q', q.popNextRunInto lane limit =
      (taken,some (items,⟨owner,lane,!rest.isEmpty⟩),q') ∧
      items ≠ [] ∧ q.Pops lane owner items rest q' := by
  unfold popNextRunInto popLane
  by_cases zero : limit = 0
  · exact .inl ⟨[],q,by rw [if_pos zero],.inl rfl⟩
  · rw [if_neg zero]
    obtain ⟨taken,q₁,popped,idle⟩ | ⟨taken,owner,item,rest,q₁,popped,pops⟩ := popLaneFrom_cases lane _ q rfl
    · exact .inl ⟨taken,q₁,by simp only [popped],.inr idle⟩
    · obtain ⟨more,last,q₂,extended,takes,ready⟩ := extendRun_takes owner lane (limit - 1) [item] q₁
      rw [pops.takes.holds.self] at extended
      refine .inr ⟨taken,owner,item :: more,last,q₂,?_,cons_ne_nil _ _,?_,?_,pops.takes.trans takes⟩
      · simp only [popped,extended]
        rfl
      · rw [ready]
        exact pops.ready
      · rw [ready]
        exact pops.others

end Fips.Dataplane.OwnerAdmissionQueues
