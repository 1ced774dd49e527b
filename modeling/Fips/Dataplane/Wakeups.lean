import Fips.Dataplane.Queues

set_option autoImplicit false

/-! No queue is left behind: what waits is in the ready list, or its owner is busy and will wake it. -/

namespace Fips.Dataplane.OwnerAdmissionQueues

open List

variable {T : Type}

structure KeptBut (q : OwnerAdmissionQueues T) (busy : OwnerId → Prop) (owner : OwnerId) (lane : Lane) :
    Prop where
  awake : ∀ o l, ¬(o = owner ∧ l = lane) → q.queue o l ≠ [] → o ∈ q.ready.get l ∨ busy o
  nodup : ∀ l, (q.ready.get l).Nodup
  counted : ∀ l, q.lens.get l = q.queued l

structure Kept (q : OwnerAdmissionQueues T) (busy : OwnerId → Prop) : Prop where
  awake : ∀ o l, q.queue o l ≠ [] → o ∈ q.ready.get l ∨ busy o
  nodup : ∀ l, (q.ready.get l).Nodup
  counted : ∀ l, q.lens.get l = q.queued l

variable {q q' : OwnerAdmissionQueues T} {busy busy' : OwnerId → Prop} {owner : OwnerId}
  {lane : Lane} {items rest : List T}

theorem Kept.mono (h : q.Kept busy) (more : ∀ o, busy o → busy' o) : q.Kept busy' :=
  ⟨fun o l waits => (h.awake o l waits).imp_right (more o),h.nodup,h.counted⟩

theorem KeptBut.mono (h : q.KeptBut busy owner lane) (more : ∀ o, busy o → busy' o) :
    q.KeptBut busy' owner lane :=
  ⟨fun o l other waits => (h.awake o l other waits).imp_right (more o),h.nodup,h.counted⟩

theorem KeptBut.kept (h : q.KeptBut busy owner lane)
    (this : q.queue owner lane ≠ [] → owner ∈ q.ready.get lane ∨ busy owner) : q.Kept busy where
  awake o l waits := by
    by_cases same : o = owner ∧ l = lane
    · obtain ⟨rfl,rfl⟩ := same
      exact this waits
    · exact h.awake o l same waits
  nodup := h.nodup
  counted := h.counted

theorem kept_empty (busy : OwnerId → Prop) : ({} : OwnerAdmissionQueues T).Kept busy where
  awake o l waits := absurd (PerLane.get_all _ _) waits
  nodup l := by simp
  counted l := PerLane.get_all _ _

theorem mem_pushReady (q : OwnerAdmissionQueues T) (owner : OwnerId) (lane : Lane) (front : Bool)
    (o : OwnerId) (l : Lane) :
    o ∈ (q.pushReady owner lane front).ready.get l ↔ o ∈ q.ready.get l ∨ o = owner ∧ l = lane := by
  unfold pushReady
  split_ifs with inside cutting
  · constructor
    · exact .inl
    · rintro (before | ⟨rfl,rfl⟩)
      · exact before
      · exact inside
  · rw [PerLane.get_set]
    split_ifs with same
    · subst same
      simp [or_comm]
    · simp [same]
  · rw [PerLane.get_set]
    split_ifs with same
    · subst same
      simp
    · simp [same]

theorem nodup_pushReady (nodup : ∀ l, (q.ready.get l).Nodup) (owner : OwnerId) (lane : Lane)
    (front : Bool) (l : Lane) :
    ((q.pushReady owner lane front).ready.get l).Nodup := by
  unfold pushReady
  split_ifs with inside cutting
  · exact nodup l
  · rw [PerLane.get_set]
    split_ifs
    · exact (nodup lane).cons inside
    · exact nodup l
  · rw [PerLane.get_set]
    split_ifs
    · rw [← concat_eq_append]
      exact (nodup lane).concat inside
    · exact nodup l

theorem pushReady_owners (q : OwnerAdmissionQueues T) (owner : OwnerId) (lane : Lane) (front : Bool) :
    (q.pushReady owner lane front).owners = q.owners ∧ (q.pushReady owner lane front).lens = q.lens := by
  unfold pushReady
  split_ifs <;> exact ⟨rfl,rfl⟩

theorem queue_pushReady (q : OwnerAdmissionQueues T) (owner : OwnerId) (lane : Lane) (front : Bool) :
    (q.pushReady owner lane front).queue = q.queue := by
  funext o l
  rw [queue,(q.pushReady_owners owner lane front).1]
  rfl

theorem KeptBut.pushReady (h : q.KeptBut busy owner lane) (front : Bool) :
    (q.pushReady owner lane front).Kept busy := by
  obtain ⟨owners,lens⟩ := q.pushReady_owners owner lane front
  constructor
  · intro o l waits
    rw [mem_pushReady]
    by_cases same : o = owner ∧ l = lane
    · exact .inl (.inr same)
    · unfold queue at waits
      rw [owners] at waits
      exact (h.awake o l same waits).imp_left .inl
  · exact nodup_pushReady h.nodup owner lane front
  · intro l
    rw [lens,h.counted,queued,queued,owners]

theorem Kept.join (h : q.Kept busy) (holds : q.Holds owner lane items q') (sameReady : q'.ready = q.ready)
    (lens : ∀ l, q'.lens.get l + (if l = lane then (q.queue owner lane).length else 0) =
      q.lens.get l + if l = lane then items.length else 0) (front : Bool) :
    (if (q.queue owner lane).isEmpty then q'.pushReady owner lane front else q').Kept busy := by
  have but : q'.KeptBut busy owner lane := by
    constructor
    · intro o l other waits
      rw [holds.queue,if_neg other] at waits
      rw [sameReady]
      exact h.awake o l waits
    · rw [sameReady]
      exact h.nodup
    · intro l
      have before := lens l
      have after := holds.queued l
      rw [h.counted] at before
      omega
  split_ifs with empty
  · exact but.pushReady front
  · refine but.kept fun _ => ?_
    rw [sameReady]
    exact h.awake owner lane fun none => empty (isEmpty_iff.2 none)

theorem lens_incrementLaneLenBy (q : OwnerAdmissionQueues T) (lane : Lane) (count : Nat) (l : Lane) :
    (q.incrementLaneLenBy lane count).lens.get l = q.lens.get l + if l = lane then count else 0 := by
  rw [incrementLaneLenBy,PerLane.get_set]
  split_ifs with same
  · rw [same]
  · rfl

theorem Kept.pushRunBack (h : q.Kept busy) (owner : OwnerId) (lane : Lane) (items : List T) :
    (q.pushRunBack owner lane items).2.Kept busy ∧
      ∀ o l, (q.pushRunBack owner lane items).2.queue o l =
        if o = owner ∧ l = lane then q.queue o l ++ items else q.queue o l := by
  have holds := q.holds_setQueue owner lane (q.queue owner lane ++ items)
  have contents (o : OwnerId) (l : Lane) : (q.setQueue owner lane (q.queue owner lane ++ items)).queue o l =
      if o = owner ∧ l = lane then q.queue o l ++ items else q.queue o l := by
    rw [holds.queue]
    split_ifs with same
    · rw [same.1,same.2]
    · rfl
  unfold OwnerAdmissionQueues.pushRunBack
  by_cases none : items.isEmpty = true
  · rw [if_pos none]
    obtain rfl := isEmpty_iff.1 none
    refine ⟨⟨?_,h.nodup,fun l => ?_⟩,contents⟩
    · intro o l waits
      rw [contents,append_nil,ite_self] at waits
      exact h.awake o l waits
    · have same := holds.queued l
      simp only [append_nil] at same ⊢
      exact (h.counted l).trans (Nat.add_right_cancel same).symm
  · rw [if_neg none]
    constructor
    · have grown : q.Holds owner lane (q.queue owner lane ++ items)
          ((q.setQueue owner lane (q.queue owner lane ++ items)).incrementLaneLenBy lane items.length) :=
        ⟨holds.queue,holds.queued⟩
      refine h.join grown rfl (fun l => ?_) _
      rw [lens_incrementLaneLenBy,length_append]
      change q.lens.get l + _ + _ = _
      split_ifs <;> omega
    · intro o l
      rw [← contents]
      simp only [apply_ite (fun r : OwnerAdmissionQueues T => r.queue o l),queue_pushReady]
      exact ite_self _

theorem KeptBut.of_pops (h : q.Kept busy) (pops : q.Pops lane owner items rest q') :
    q'.KeptBut busy owner lane := by
  obtain ⟨skipped,split,nothing⟩ := pops.ready
  constructor
  · intro o l other waits
    rw [pops.takes.holds.queue,if_neg other] at waits
    refine (h.awake o l waits).imp_left fun inside => ?_
    by_cases same : l = lane
    · subst same
      rw [split,mem_append,mem_cons] at inside
      obtain idle | rfl | after := inside
      · exact absurd (nothing o idle) waits
      · exact absurd ⟨rfl,rfl⟩ other
      · exact after
    · rwa [pops.others l same]
  · intro l
    by_cases same : l = lane
    · subst same
      have before := h.nodup l
      rw [split] at before
      exact before.of_append_right.of_cons
    · rw [pops.others l same]
      exact h.nodup l
  · intro l
    have counted := pops.takes.holds.queued l
    rw [pops.takes.lens,h.counted,pops.takes.queue,length_append] at *
    split_ifs at counted ⊢ with same <;> omega

theorem Kept.of_idle (h : q.Kept busy) (idle : q.Idle lane q') : q'.Kept busy := by
  have sameQueue : q'.queue = q.queue := by
    funext o l
    rw [queue,idle.owners]
    rfl
  constructor
  · intro o l waits
    rw [sameQueue] at waits
    refine (h.awake o l waits).imp_left fun inside => ?_
    rw [idle.ready]
    split_ifs with same
    · subst same
      exact absurd (idle.idle o inside) waits
    · exact inside
  · intro l
    rw [idle.ready]
    split_ifs
    · exact nodup_nil
    · exact h.nodup l
  · intro l
    rw [idle.lens,queued,idle.owners]
    exact h.counted l

theorem KeptBut.continueOwnerLane (h : q.KeptBut busy owner lane) (here : q.queue owner lane = rest) :
    (q.continueOwnerLane ⟨owner,lane,!rest.isEmpty⟩).Kept busy ∧
      (q.continueOwnerLane ⟨owner,lane,!rest.isEmpty⟩).queue = q.queue := by
  unfold OwnerAdmissionQueues.continueOwnerLane
  split_ifs with more
  · exact ⟨h.pushReady false,q.queue_pushReady owner lane false⟩
  · refine ⟨h.kept fun waits => absurd here ?_,rfl⟩
    have none : rest = [] := by simpa using more
    rwa [none]

/-- A run that was put back waits for its owner, which is busy. -/
theorem KeptBut.deferOwnerRun (h : q.KeptBut busy owner lane) (waits : busy owner)
    (cursor : OwnerAdmissionCursor) (sameOwner : cursor.owner = owner)
    (sameLane : cursor.lane = lane) (items : List T) :
    (q.deferOwnerRun cursor items).Kept busy ∧ ∀ o l, (q.deferOwnerRun cursor items).queue o l =
      if o = owner ∧ l = lane then items ++ q.queue o l else q.queue o l := by
  subst sameOwner sameLane
  unfold OwnerAdmissionQueues.deferOwnerRun
  split_ifs with none
  · obtain rfl := isEmpty_iff.1 none
    exact ⟨h.kept fun _ => .inr waits,fun o l => by rw [nil_append,ite_self]⟩
  · have holds := q.holds_setQueue cursor.owner cursor.lane (items ++ q.queue cursor.owner cursor.lane)
    have contents (o : OwnerId) (l : Lane) :
        (q.setQueue cursor.owner cursor.lane (items ++ q.queue cursor.owner cursor.lane)).queue o l =
          if o = cursor.owner ∧ l = cursor.lane then items ++ q.queue o l else q.queue o l := by
      rw [holds.queue]
      split_ifs with same
      · rw [same.1,same.2]
      · rfl
    refine ⟨⟨fun o l waiting => ?_,h.nodup,fun l => ?_⟩,contents⟩
    · by_cases same : o = cursor.owner
      · exact .inr (same ▸ waits)
      · refine h.awake o l (fun both => same both.1) ?_
        rw [← (contents o l).trans (if_neg fun both => same both.1)]
        exact waiting
    · rw [lens_incrementLaneLenBy]
      have counted := holds.queued l
      have before := h.counted l
      rw [length_append] at counted
      change q.lens.get l + _ = (q.setQueue _ _ _).queued l
      split_ifs at counted ⊢ <;> omega

structure Readies (q : OwnerAdmissionQueues T) (owner : OwnerId) (lanes : Lane → Prop)
    (q' : OwnerAdmissionQueues T) : Prop where
  ready : ∀ o l, o ∈ q'.ready.get l ↔ o ∈ q.ready.get l ∨ o = owner ∧ lanes l
  nodup : (∀ l, (q.ready.get l).Nodup) → ∀ l, (q'.ready.get l).Nodup
  owners : q'.owners = q.owners
  lens : q'.lens = q.lens

theorem readies_unless (q : OwnerAdmissionQueues T) (owner : OwnerId) (lane : Lane)
    (front : Bool) (items : List T) :
    q.Readies owner (fun l => l = lane ∧ items ≠ [])
      (if items.isEmpty then q else q.pushReady owner lane front) := by
  split_ifs with none
  · rw [List.isEmpty_iff] at none
    exact ⟨by simp [none],id,rfl,rfl⟩
  · rw [List.isEmpty_iff] at none
    obtain ⟨owners,lens⟩ := q.pushReady_owners owner lane front
    exact ⟨by simp [mem_pushReady,none],fun nodup => nodup_pushReady nodup owner lane front,owners,lens⟩

theorem Readies.trans {q'' : OwnerAdmissionQueues T} {lanes lanes' : Lane → Prop}
    (first : q.Readies owner lanes q') (second : q'.Readies owner lanes' q'') :
    q.Readies owner (fun l => lanes l ∨ lanes' l) q'' where
  ready o l := by
    rw [second.ready,first.ready,or_assoc,← and_or_left]
  nodup before := second.nodup (first.nodup before)
  owners := second.owners.trans first.owners
  lens := second.lens.trans first.lens

theorem wakeOwner_readies (q : OwnerAdmissionQueues T) (owner : OwnerId) :
    q.Readies owner (fun l => q.queue owner l ≠ []) (q.wakeOwner owner) := by
  unfold wakeOwner
  cases held : q.owners.get? owner with
  | none =>
    refine ⟨fun o l => ?_,id,rfl,rfl⟩
    simp [queue,held]
  | some queues =>
    have priority := q.readies_unless owner .priority false queues.priority
    have bulk := priority.trans (readies_unless _ owner .bulk (dataplaneLocalBulk owner .bulk) queues.bulk)
    have all := bulk.trans (readies_unless _ owner .background false queues.background)
    refine ⟨fun o l => ?_,all.nodup,all.owners,all.lens⟩
    rw [all.ready,queue,held]
    cases l <;> simp [PerLane.get]

theorem Kept.wakeOwner (h : q.Kept busy) (owner : OwnerId) (others : ∀ o, o ≠ owner → busy o → busy' o) :
    (q.wakeOwner owner).Kept busy' ∧ (q.wakeOwner owner).queue = q.queue := by
  have wakes := q.wakeOwner_readies owner
  have sameQueue : (q.wakeOwner owner).queue = q.queue := by
    funext o l
    rw [queue,wakes.owners]
    rfl
  refine ⟨⟨fun o l waits => ?_,wakes.nodup h.nodup,fun l => ?_⟩,sameQueue⟩
  · rw [sameQueue] at waits
    rw [wakes.ready]
    by_cases same : o = owner
    · subst same
      exact .inl (.inr ⟨rfl,waits⟩)
    · exact (h.awake o l waits).imp .inl (others o same)
  · rw [wakes.lens,queued,wakes.owners]
    exact h.counted l

end Fips.Dataplane.OwnerAdmissionQueues
