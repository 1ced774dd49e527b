import Fips.Dataplane.ShardFlow

set_option autoImplicit false

/-! The life of a shard: no packet is lost in its queues, and none waits without somebody to wake it. -/

namespace Fips.Dataplane

open CryptoWork DataplaneOwnerShard List

structure Traffic (P : Type) where
  submitted : List (OwnerId × Lane × QueuedAdmission P) := []
  handled : List (Handled P) := []

namespace Traffic

variable {P : Type}

def submittedTo (t : Traffic P) (owner : OwnerId) (lane : Lane) : List (QueuedAdmission P) :=
  (t.submitted.filter fun entry => entry.1 = owner ∧ entry.2.1 = lane).map (·.2.2)

def put (t : Traffic P) (owner : OwnerId) (lane : Lane) (items : List (QueuedAdmission P)) : Traffic P :=
  { t with submitted := t.submitted ++ items.map fun queued => (owner,lane,queued) }

def submit [AdmissionPacket P] (t : Traffic P) (packet : P) (ingressSeq : Nat) : Traffic P :=
  t.put (AdmissionPacket.owner packet) (AdmissionPacket.lane packet) [⟨ingressSeq,packet⟩]

def submitRun [AdmissionPacket P] (t : Traffic P) (packets : List P) (firstSeq : Nat) : Traffic P :=
  match packets with
  | [] => t
  | first :: _ => t.put (AdmissionPacket.owner first) (AdmissionPacket.lane first)
      (OwnerAdmissionQueues.numbered packets firstSeq)

def handle (t : Traffic P) (handled : List (Handled P)) : Traffic P :=
  { t with handled := t.handled ++ handled }

/-- What was submitted to a queue has been handled in order, and the rest waits in order. -/
def Flows (t : Traffic P) (admission : OwnerAdmissionQueues (QueuedAdmission P)) : Prop :=
  ∀ owner lane, handledFrom owner lane t.handled ++ admission.queue owner lane = t.submittedTo owner lane

end Traffic

/-- A shard with the slots of its dispatches that have not been staged. -/
structure ShardHistory where
  shard : DataplaneOwnerShard := {}
  counters : SendCounters
  unstaged : List CryptoReadySlot := []
  ingress : Traffic SocketPacket := {}
  outbound : Traffic OutboundPacket := {}

namespace ShardHistory

inductive Op where
  | submitSocketPacket (packet : SocketPacket) (ingressSeq : Nat)
  | submitSocketPacketRun (packets : List SocketPacket) (firstSeq : Nat)
  | submitOutboundPacket (packet : OutboundPacket) (ingressSeq : Nat)
  | submitOutboundPacketRun (packets : List OutboundPacket) (firstSeq : Nat)
  | dispatchIngress (lane : Lane) (limit : Nat)
  | dispatchOutbound (lane : Lane) (limit : Nat)
  /-- one of the slots that are not staged yet -/
  | stage (index : Nat)
  /-- a worker finishes a slot -/
  | complete (owner : OwnerId) (order : Nat) (results : OwnerReservation → CryptoResult)
  | retire (compactEndpointData : Bool) (limit : Nat)
  | register (owner : OwnerId) (config : OwnerConfig)
  | unregister (owner : OwnerId)
  | epoch (owner : OwnerId) (op : OwnerState.EpochOp)
  /-- somebody else uses the shared counters -/
  | share (counters : SendCounters)

section Runs

variable (h : ShardHistory)

def dispatchIngress (lane : Lane) (limit : Nat) : ShardHistory :=
  let (handled,shard,counters) := h.shard.dispatchIngressPrepared h.counters lane limit
  { h with
    shard := shard
    counters := counters
    unstaged := h.unstaged ++ slotsOf handled
    ingress := h.ingress.handle handled }

def dispatchOutbound (lane : Lane) (limit : Nat) : ShardHistory :=
  let (handled,shard,counters) := h.shard.dispatchOutboundPrepared h.counters lane limit
  { h with
    shard := shard
    counters := counters
    unstaged := h.unstaged ++ slotsOf handled
    outbound := h.outbound.handle handled }

def stage (index : Nat) : Option ShardHistory :=
  match h.unstaged[index]? with
  | none => some h
  | some slot => (h.shard.stageRetireSlot slot).map fun (_,shard) =>
    { h with shard := shard, unstaged := h.unstaged.eraseIdx index }

def withOwner (owner : OwnerId) (f : OwnerState → OwnerState) : ShardHistory :=
  match h.shard.owners.get? owner with
  | none => h
  | some state => { h with shard := { h.shard with owners := h.shard.owners.insert owner (f state) } }

def complete (owner : OwnerId) (order : Nat) (results : OwnerReservation → CryptoResult) : ShardHistory :=
  { h.withOwner owner fun state => { state with
      pending := state.pending.map fun slot => if slot.order = order then
        slot.complete results else slot } with
    unstaged := h.unstaged.map fun ready =>
      if ready.owner = owner ∧ ready.slot.order = order then
        { ready with slot := ready.slot.complete results } else ready }

/-- Without a result the code panics. -/
def exec : Op → Option ShardHistory
  | .submitSocketPacket packet seq => some { h with
      shard := h.shard.submitSocketPacketWithSeq packet seq, ingress := h.ingress.submit packet seq }
  | .submitSocketPacketRun packets seq => some { h with
      shard := h.shard.submitSocketPacketRunWithSeq packets seq, ingress := h.ingress.submitRun packets seq }
  | .submitOutboundPacket packet seq => some { h with
      shard := h.shard.submitOutboundPacketWithSeq packet seq, outbound := h.outbound.submit packet seq }
  | .submitOutboundPacketRun packets seq => some { h with
      shard := h.shard.submitOutboundPacketRunWithSeq packets seq, outbound :=
        h.outbound.submitRun packets seq }
  | .dispatchIngress lane limit => some (h.dispatchIngress lane limit)
  | .dispatchOutbound lane limit => some (h.dispatchOutbound lane limit)
  | .stage index => h.stage index
  | .complete owner order results => some (h.complete owner order results)
  | .retire compact limit => some { h with shard := (h.shard.retireReadySlots compact limit).2 }
  | .register owner config => some { h with shard := (h.shard.registerOwner owner config).2 }
  | .unregister owner => some { h with shard := (h.shard.unregisterOwner owner).2 }
  | .epoch owner op => some (h.withOwner owner fun state => state.execEpoch h.counters op)
  | .share counters => some { h with counters := counters }

def run (ops : List Op) : Option ShardHistory := ops.foldlM exec h

/-- Owners have room for a packet, and the slots of a registration are staged before the next one. -/
def allowed : Op → Bool
  | .register owner config => 1 ≤ config.inFlightLimit && h.unstaged.all (·.owner ≠ owner)
  | _ => true

end Runs

def disciplined (h : ShardHistory) : List Op → Bool
  | [] => true
  | op :: ops => h.allowed op && (h.exec op).all (disciplined · ops)

/-- Nothing is lost and nobody waits in vain. -/
structure Sound (h : ShardHistory) : Prop where
  staffed : Staffed h.shard.owners (looseOf h.unstaged)
  even : SlotsEven h.unstaged
  admission : h.shard.admission.Kept (Busy h.shard.owners)
  outboundAdmission : h.shard.outboundAdmission.Kept (Busy h.shard.owners)
  ingress : h.ingress.Flows h.shard.admission
  outbound : h.outbound.Flows h.shard.outboundAdmission

end ShardHistory

namespace Traffic

variable {P : Type} {t : Traffic P} {q q' : OwnerAdmissionQueues (QueuedAdmission P)}

theorem Flows.same (h : t.Flows q) (queue : q'.queue = q.queue) : t.Flows q' := by
  intro owner lane
  rw [queue]
  exact h owner lane

theorem Flows.put (h : t.Flows q) {owner : OwnerId} {lane : Lane} {items : List (QueuedAdmission P)}
    (queue : ∀ o l, q'.queue o l = if o = owner ∧ l = lane then q.queue o l ++ items else q.queue o l) :
    (t.put owner lane items).Flows q' := by
  intro o l
  have before := h o l
  unfold submittedTo at before ⊢
  unfold Traffic.put
  rw [queue,filter_append,map_append,← before]
  split_ifs with here
  · obtain ⟨rfl,rfl⟩ := here
    rw [append_assoc,filter_eq_self.2,map_map]
    · exact congrArg _ (congrArg _ (map_id items).symm)
    · intro entry mem
      obtain ⟨queued,-,rfl⟩ := mem_map.1 mem
      simp
  · rw [filter_eq_nil_iff.2,map_nil,append_nil]
    intro entry mem both
    obtain ⟨queued,-,rfl⟩ := mem_map.1 mem
    obtain ⟨rfl,rfl⟩ := of_decide_eq_true both
    exact here ⟨rfl,rfl⟩

theorem Flows.handle (h : t.Flows q) {handled : List (Handled P)}
    (queue : ∀ o l, handledFrom o l handled ++ q'.queue o l = q.queue o l) : (t.handle handled).Flows q' := by
  intro o l
  change handledFrom o l (t.handled ++ handled) ++ _ = _
  rw [handledFrom_append,append_assoc,queue]
  exact h o l

variable [AdmissionPacket P] {busy : OwnerId → Prop}

theorem Flows.submitRun (h : t.Flows q) (kept : q.Kept busy) (packets : List P) (firstSeq : Nat) :
    (q.admitRunWithSeq packets firstSeq).2.Kept busy ∧
      (t.submitRun packets firstSeq).Flows (q.admitRunWithSeq packets firstSeq).2 := by
  cases packets with
  | nil => exact ⟨kept,h⟩
  | cons first rest =>
    obtain ⟨kept',queue⟩ := kept.pushRunBack (AdmissionPacket.owner first) (AdmissionPacket.lane first)
      (OwnerAdmissionQueues.numbered (first :: rest) firstSeq)
    exact ⟨kept',h.put queue⟩

theorem Flows.submit (h : t.Flows q) (kept : q.Kept busy) (packet : P) (seq : Nat) :
    (q.admitWithSeq packet seq).2.Kept busy ∧ (t.submit packet seq).Flows (q.admitWithSeq packet seq).2 := by
  obtain ⟨kept',queue⟩ := kept.pushRunBack (AdmissionPacket.owner packet)
    (AdmissionPacket.lane packet) [⟨seq,packet⟩]
  exact ⟨kept',h.put queue⟩

end Traffic

namespace ShardHistory

variable {h h' : ShardHistory}

namespace Sound

theorem slots {P : Type} {owners : OrderedMap OwnerId OwnerState} {unstaged : List CryptoReadySlot}
    {handled : List (Handled P)} (even : SlotsEven unstaged)
    (staffed : Staffed owners fun o => looseOf unstaged o ++ reservedFor o handled) :
    Staffed owners (looseOf (unstaged ++ slotsOf handled)) ∧
      SlotsEven (unstaged ++ slotsOf handled) := by
  obtain ⟨even',slots⟩ := slotsOf_spec handled
  refine ⟨fun o s held => ?_,forall_mem_append.2 ⟨even,even'⟩⟩
  obtain ⟨owner,counted⟩ := staffed o s held
  refine ⟨owner,counted.perm ?_⟩
  rw [looseOf_append]
  exact (slots o).symm.append_left _

section Steps

variable (sound : h.Sound)
include sound

theorem dispatchIngress (lane : Lane) (limit : Nat) : (h.dispatchIngress lane limit).Sound := by
  have serves := Direction.dispatch_serves Direction.ingress_lawful lane limit
    ⟨h.shard.admission,h.shard.owners,h.counters⟩
    sound.staffed sound.admission
  obtain ⟨staffed,even⟩ := slots sound.even serves.staffed
  exact ⟨staffed,even,serves.kept,sound.outboundAdmission.mono serves.busy,sound.ingress.handle serves.queue,
    sound.outbound⟩

theorem dispatchOutbound (lane : Lane) (limit : Nat) : (h.dispatchOutbound lane limit).Sound := by
  have serves := Direction.dispatch_serves Direction.outbound_lawful lane limit
    ⟨h.shard.outboundAdmission,h.shard.owners,h.counters⟩ sound.staffed sound.outboundAdmission
  obtain ⟨staffed,even⟩ := slots sound.even serves.staffed
  exact ⟨staffed,even,sound.admission.mono serves.busy,serves.kept,sound.ingress,
    sound.outbound.handle serves.queue⟩

theorem replace {id : OwnerId} {s s' : OwnerState} {retireOwners : List OwnerId}
    (held : h.shard.owners.get? id = some s) (owner : s'.owner = id)
    (counted : s'.flight.Counted (looseOf h.unstaged id)) (grows : 0 < s.inFlight → 0 < s'.inFlight) :
    Sound { h with shard := { h.shard with owners := h.shard.owners.insert id s', retireOwners } } where
  staffed := sound.staffed.insert (fun _ _ => rfl) owner counted
  even := sound.even
  admission := sound.admission.mono fun _ => Busy.insert held grows
  outboundAdmission := sound.outboundAdmission.mono fun _ => Busy.insert held grows
  ingress := sound.ingress
  outbound := sound.outbound

theorem stage (index : Nat) (ok : h.stage index = some h') : h'.Sound := by
  unfold ShardHistory.stage at ok
  cases found : h.unstaged[index]? with
  | none =>
    simp only [found] at ok
    cases ok
    exact sound
  | some slot =>
    simp only [found,Option.map_eq_some_iff] at ok
    obtain ⟨⟨known,shard⟩,staged,rfl⟩ := ok
    have split := take_append_drop index h.unstaged
    obtain ⟨bound,here⟩ := List.getElem?_eq_some_iff.1 found
    rw [drop_eq_getElem_cons bound,here] at split
    have erased : h.unstaged.eraseIdx index = h.unstaged.take index ++ h.unstaged.drop (index + 1) :=
      eraseIdx_eq_take_drop_succ _ _
    have even : SlotsEven (h.unstaged.eraseIdx index) :=
      fun other mem => sound.even other ((eraseIdx_sublist _ _).subset mem)
    have even' := sound.even slot (mem_of_getElem? found)
    have loose (o : OwnerId) : (looseOf h.unstaged o).Perm
        ((if slot.owner = o then slot.slot.reservations else []) ++
          looseOf (h.unstaged.eraseIdx index) o) := by
      rw [erased,← split,looseOf_append,looseOf_append]
      have single : looseOf (slot :: h.unstaged.drop (index + 1)) o =
          (if slot.owner = o then slot.slot.reservations else []) ++
            looseOf (h.unstaged.drop (index + 1)) o := by
        unfold looseOf
        by_cases mine : slot.owner = o
        · simp [mine]
        · simp [mine]
      rw [single,split]
      exact perm_append_comm_assoc _ _ _
    have others (o : OwnerId) (s : OwnerState) (held : h.shard.owners.get? o = some s)
        (other : o ≠ slot.owner) :
        s.owner = o ∧ s.flight.Counted (looseOf (h.unstaged.eraseIdx index) o) := by
      obtain ⟨owner,counted⟩ := sound.staffed o s held
      have same := loose o
      rw [if_neg (Ne.symm other)] at same
      exact ⟨owner,counted.perm same⟩
    unfold stageRetireSlot at staged
    cases registered : h.shard.owners.get? slot.owner with
    | none =>
      simp only [registered] at staged
      obtain ⟨-,rfl⟩ := Prod.mk.inj (Option.some.inj staged)
      refine ⟨fun o s held => others o s held ?_,even,sound.admission,sound.outboundAdmission,
        sound.ingress,sound.outbound⟩
      rintro rfl
      rw [registered] at held
      cases held
    | some s =>
      simp only [registered,Option.map_eq_some_iff] at staged
      obtain ⟨⟨wasEmpty,s'⟩,placed,-,rfl⟩ := staged
      obtain ⟨owner,counted⟩ := sound.staffed slot.owner s registered
      have mine := loose slot.owner
      rw [if_pos rfl] at mine
      obtain ⟨tallied,pending,rfl⟩ := (counted.perm mine).staged even' placed
      have more (o : OwnerId) : Busy h.shard.owners o →
          Busy (h.shard.owners.insert slot.owner { s with pending := pending }) o :=
        Busy.insert registered id
      refine ⟨fun o t held => ?_,even,sound.admission.mono more,sound.outboundAdmission.mono more,
        sound.ingress,sound.outbound⟩
      simp only [OrderedMap.get?_insert] at held
      split_ifs at held with same
      · subst same
        cases held
        exact ⟨owner,tallied,counted.limit⟩
      · exact others o t held same

theorem withOwner (id : OwnerId) {f : OwnerState → OwnerState}
    (same : ∀ s, (f s).owner = s.owner ∧ (f s).inFlight = s.inFlight)
    (counted : ∀ s loose, s.flight.Counted loose → (f s).flight.Counted loose) :
    (h.withOwner id f).Sound := by
  unfold ShardHistory.withOwner
  cases held : h.shard.owners.get? id with
  | none => exact sound
  | some s =>
    obtain ⟨owner,before⟩ := sound.staffed id s held
    exact sound.replace held ((same s).1.trans owner) (counted s _ before) fun flying => (same s).2 ▸ flying

theorem complete (id : OwnerId) (order : Nat) (results : OwnerReservation → CryptoResult) :
    (h.complete id order results).Sound := by
  have owners := sound.withOwner id (f := fun state => { state with
      pending := state.pending.map fun slot => if slot.order = order then slot.complete results else slot })
    (fun s => ⟨rfl,rfl⟩) fun s loose counted => ⟨counted.completed order results,counted.limit⟩
  unfold ShardHistory.complete
  have same (o : OwnerId) : looseOf (h.unstaged.map fun ready =>
      if ready.owner = id ∧ ready.slot.order = order then
        { ready with slot := ready.slot.complete results } else ready) o =
        looseOf h.unstaged o := by
    unfold looseOf
    induction h.unstaged with
    | nil => rfl
    | cons ready rest ih =>
      rw [map_cons,filter_cons]
      split_ifs <;> simp_all [OwnerRetireSlot.reservations_complete]
  refine ⟨fun o s held => ?_,fun ready mem r inside => ?_,owners.admission,owners.outboundAdmission,
    owners.ingress,owners.outbound⟩
  · rw [same]
    have unstaged : (h.withOwner id fun state => { state with
        pending := state.pending.map fun slot => if slot.order = order then
          slot.complete results else slot }).unstaged =
        h.unstaged := by
      unfold ShardHistory.withOwner
      split <;> rfl
    rw [← unstaged]
    exact owners.staffed o s held
  · obtain ⟨before,held,rfl⟩ := mem_map.1 mem
    split_ifs at inside ⊢
    · rw [OwnerRetireSlot.reservations_complete] at inside
      exact (sound.even before held r inside).trans (OwnerRetireSlot.lane_complete _ _).symm
    · exact sound.even before held r inside

theorem woken (id : OwnerId) {owners : OrderedMap OwnerId OwnerState} (retireOwners : List OwnerId)
    (staffed : Staffed owners (looseOf h.unstaged))
    (others : ∀ o, o ≠ id → Busy h.shard.owners o → Busy owners o) :
    Sound { h with shard := { h.shard with owners := owners, retireOwners := retireOwners }.wakeOwner id }
      := by
  obtain ⟨kept,same⟩ := sound.admission.wakeOwner id others
  obtain ⟨kept',same'⟩ := sound.outboundAdmission.wakeOwner id others
  exact ⟨staffed,sound.even,kept,kept',sound.ingress.same same,sound.outbound.same same'⟩

theorem register (id : OwnerId) (config : OwnerConfig) (allowed : h.allowed (.register id config) = true) :
    Sound { h with shard := (h.shard.registerOwner id config).2 } := by
  simp only [ShardHistory.allowed,Bool.and_eq_true,decide_eq_true_eq,all_eq_true] at allowed
  obtain ⟨room,none⟩ := allowed
  have nothing : looseOf h.unstaged id = [] := by
    unfold looseOf
    rw [filter_eq_nil_iff.2 fun slot mem => by simpa using none slot mem]
    rfl
  refine sound.woken id _ (sound.staffed.insert (fun _ _ => rfl) rfl ?_) fun _ => Busy.insert_of_ne
  rw [nothing]
  exact ⟨⟨forall_mem_nil _,rfl,rfl,rfl⟩,room⟩

theorem unregister (id : OwnerId) : Sound { h with shard := (h.shard.unregisterOwner id).2 } := by
  unfold unregisterOwner
  cases h.shard.owners.get? id with
  | none => exact { sound with }
  | some state =>
    refine sound.woken id _ (fun o s held => ?_) fun o other busy => ?_
    · rw [OrderedMap.get?_erase] at held
      split_ifs at held
      exact sound.staffed o s held
    · obtain ⟨s,held,flying⟩ := busy
      exact ⟨s,by rw [OrderedMap.get?_erase,if_neg other]; exact held,flying⟩

/-- An owner that retires something is woken, and one that does not stays busy. -/
theorem retireOwner (compact : Bool) (limit : Nat) {id : OwnerId} {s : OwnerState}
    (held : h.shard.owners.get? id = some s) :
    Sound { h with shard := (h.shard.retireOwner compact limit id s).2 } := by
  obtain ⟨owner,counted⟩ := sound.staffed id s held
  obtain ⟨counted',owner',fewer⟩ := counted.retiredFrom compact s.pending.length limit s
  unfold DataplaneOwnerShard.retireOwner
  change (s.retireReadySlots compact limit).2.flight.Counted _ at counted'
  change (s.retireReadySlots compact limit).2.owner = _ at owner'
  change (s.retireReadySlots compact limit).2.inFlight ≤ _ at fewer
  generalize s.retireReadySlots compact limit = result at counted' owner' fewer
  obtain ⟨retired,after⟩ := result
  simp only
  have staffed := sound.staffed.insert (fun _ _ => rfl) (owner'.trans owner) counted'
  by_cases idle : after.inFlight < s.inFlight
  · split_ifs
    · exact sound.woken id h.shard.retireOwners staffed fun _ => Busy.insert_of_ne
    · exact sound.woken id (h.shard.retireOwners ++ [id]) staffed fun _ => Busy.insert_of_ne
  · have same : s.inFlight = after.inFlight := by
      change after.inFlight ≤ _ at fewer
      omega
    split_ifs
    · exact sound.replace held (owner'.trans owner) counted' fun flying => same ▸ flying
    · exact sound.replace held (owner'.trans owner) counted' fun flying => same ▸ flying

end Steps

theorem retireFrom (compact : Bool) (others : Nat) : ∀ (limit : Nat) (shard : DataplaneOwnerShard),
    Sound { h with shard := shard } →
      Sound { h with shard := (retireReadySlotsFrom compact others limit shard).2 } := by
  induction others with
  | zero => exact fun limit shard sound => sound
  | succ others ih =>
    intro limit shard sound
    unfold retireReadySlotsFrom
    by_cases beyond : limit = 0
    · rw [if_pos beyond]
      exact sound
    · rw [if_neg beyond]
      cases shard.retireOwners with
      | nil => exact sound
      | cons id rest =>
        have next : Sound { h with shard := { shard with retireOwners := rest } } :=
          { sound with }
        simp only
        cases held : shard.owners.get? id with
        | none => exact ih limit _ next
        | some owner => exact ih _ _ (next.retireOwner compact _ held)

theorem exec (sound : h.Sound) (op : Op) (allowed : h.allowed op = true) (ok : h.exec op = some h') :
    h'.Sound := by
  cases op with
  | submitSocketPacket packet seq =>
    cases ok
    obtain ⟨kept,flows⟩ := sound.ingress.submit sound.admission packet seq
    exact ⟨sound.staffed,sound.even,kept,sound.outboundAdmission,flows,sound.outbound⟩
  | submitSocketPacketRun packets seq =>
    cases ok
    obtain ⟨kept,flows⟩ := sound.ingress.submitRun sound.admission packets seq
    exact ⟨sound.staffed,sound.even,kept,sound.outboundAdmission,flows,sound.outbound⟩
  | submitOutboundPacket packet seq =>
    cases ok
    obtain ⟨kept,flows⟩ := sound.outbound.submit sound.outboundAdmission packet seq
    exact ⟨sound.staffed,sound.even,sound.admission,kept,sound.ingress,flows⟩
  | submitOutboundPacketRun packets seq =>
    cases ok
    obtain ⟨kept,flows⟩ := sound.outbound.submitRun sound.outboundAdmission packets seq
    exact ⟨sound.staffed,sound.even,sound.admission,kept,sound.ingress,flows⟩
  | dispatchIngress lane limit => exact Option.some.inj ok ▸ sound.dispatchIngress lane limit
  | dispatchOutbound lane limit => exact Option.some.inj ok ▸ sound.dispatchOutbound lane limit
  | stage index => exact sound.stage index ok
  | complete owner order results => exact Option.some.inj ok ▸ sound.complete owner order results
  | retire compact limit => exact Option.some.inj ok ▸ retireFrom compact _ limit h.shard sound
  | register owner config => exact Option.some.inj ok ▸ sound.register owner config allowed
  | unregister owner => exact Option.some.inj ok ▸ sound.unregister owner
  | epoch owner op =>
    have same (s : OwnerState) := s.execEpoch_flight h.counters op
    refine Option.some.inj ok ▸ sound.withOwner owner (fun s => ?_) fun s loose counted => ?_
    · exact ⟨congrArg Flight.owner (same s),congrArg Flight.inFlight (same s)⟩
    · rw [same]
      exact counted
  | share counters =>
    cases ok
    exact { sound with }

theorem run (ops : List Op) :
    ∀ h : ShardHistory, h.Sound → h.disciplined ops = true → h.run ops = some h' → h'.Sound := by
  induction ops with
  | nil =>
    intro h sound _ ok
    exact Option.some.inj ok ▸ sound
  | cons op ops ih =>
    intro h sound disciplined ok
    rw [ShardHistory.run,foldlM_cons] at ok
    simp only [ShardHistory.disciplined,Bool.and_eq_true] at disciplined
    cases first : h.exec op with
    | none =>
      rw [first] at ok
      cases ok
    | some h₁ =>
      rw [first] at ok disciplined
      exact ih h₁ (sound.exec op disciplined.1 first) disciplined.2 ok

theorem empty (counters : SendCounters) : Sound { counters := counters } where
  staffed o s held := by cases held
  even := forall_mem_nil _
  admission := OwnerAdmissionQueues.kept_empty _
  outboundAdmission := OwnerAdmissionQueues.kept_empty _
  ingress _ _ := PerLane.get_all _ _
  outbound _ _ := PerLane.get_all _ _

end Sound

/-- After every run in which the slots of an owner are staged before it is registered again, what waits is
in a ready list or its owner has packets in flight. Owners are ready once, the lengths are right, and what
was submitted to a queue is handled in order or still waits in order. -/
theorem run_keeps_packets (counters : SendCounters) (ops : List Op) (h : ShardHistory)
    (disciplined : ShardHistory.disciplined { counters := counters } ops = true)
    (ran : ShardHistory.run { counters := counters } ops = some h) :
    h.shard.admission.Kept (Busy h.shard.owners) ∧ h.shard.outboundAdmission.Kept (Busy h.shard.owners) ∧
      h.ingress.Flows h.shard.admission ∧ h.outbound.Flows h.shard.outboundAdmission := by
  have sound := Sound.run ops _ (.empty counters) disciplined ran
  exact ⟨sound.admission,sound.outboundAdmission,sound.ingress,sound.outbound⟩

def busyPacket (packetClass : PacketClass) : OutboundPacket :=
  { owner := ⟨1,.fmp⟩, generation := 1, packetClass := packetClass, wire := .fmp 0 0 }

def busyConfig : OwnerConfig := { generation := 1, inFlightLimit := 2 }

def waiting : List Op :=
  [.register ⟨1,.fmp⟩ busyConfig,.submitOutboundPacket (busyPacket .bulk) 0,
    .submitOutboundPacketRun [busyPacket .bulk] 1,.dispatchOutbound .bulk 8,.stage 0]

theorem run_keeps_packets_waiting : ∃ h, ShardHistory.run { counters := fun _ => 0 } waiting = some h ∧
    h.shard.outboundAdmission.queued .bulk = 1 ∧ h.shard.outboundAdmission.Kept (Busy h.shard.owners) := by
  have waits : (ShardHistory.run { counters := fun _ => 0 } waiting).map
    (·.shard.outboundAdmission.queued .bulk) = some 1 := by
    decide +kernel
  obtain ⟨h,ran,one⟩ := Option.map_eq_some_iff.1 waits
  exact ⟨h,ran,one,(run_keeps_packets (fun _ => 0) waiting h (by decide +kernel) ran).2.1⟩

def outlived : List Op :=
  [.register ⟨1,.fmp⟩ busyConfig,.submitOutboundPacket (busyPacket .control) 0,.dispatchOutbound .priority 1,
    .register ⟨1,.fmp⟩ busyConfig,.submitOutboundPacket (busyPacket .bulk) 1,.dispatchOutbound .bulk 1,
    .stage 0,.complete ⟨1,.fmp⟩ 0 fun _ => .sealed,.retire false 1,
    .submitOutboundPacket (busyPacket .bulk) 2,.dispatchOutbound .bulk 1]

/-- The retired priority packet is subtracted from the packets in flight while the bulk packet still
counts, so that the next bulk packet is put back although nothing will wake it. -/
theorem outlived_sleeps : (ShardHistory.run { counters := fun _ => 0 } outlived).map (fun h =>
    ((h.shard.outboundAdmission.queue ⟨1,.fmp⟩ .bulk).length,h.shard.outboundAdmission.ready.get .bulk,
      (h.shard.owners.get? ⟨1,.fmp⟩).map (·.inFlight))) = some (1,[],some 0) := by
  decide +kernel

end ShardHistory

end Fips.Dataplane
