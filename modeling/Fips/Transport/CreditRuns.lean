import Fips.Transport.Credits
import Fips.Transport.PacketChannelRuns

set_option autoImplicit false

/-! Every credit of the packet channel is held by a send, by a queued item or by the receiver. -/

namespace Fips.Transport

open List Option

variable {P : Type}

/-- The receiver's fields and the credits in its hands. -/
abbrev Holding (P : Type) := PacketRx P × Lanes Nat

namespace Holding

/-- The credits are those of the pending tails. -/
def Settled (g : Holding P) : Prop := ∀ lane,g.2.get lane = (g.1.pending.get lane).length

def Extra (lane : PacketLane) (count : Nat) (g : Holding P) : Prop :=
  ∀ other,g.2.get other = (g.1.pending.get other).length+if other = lane then count else 0

theorem Extra.settled {g : Holding P} {lane : PacketLane} (extra : Extra lane 0 g) : g.Settled := by
  intro other
  rw [extra other,ite_self]
  rfl

end Holding

open Holding

/-- The receiver never releases a credit that it does not hold. -/
def creditContract (P : Type) : Program.Contract (RxOp P) RxOp.Result (Holding P) where
  pre op g := match op with
    | .releaseReserved lane count => count ≤ g.2.get lane
    | _ => True
  rel op g r g' :=
    (match op,r with
      | .getRx,rx => rx = g.1
      | _,_ => True) ∧
    g' = (match op with
      | .setRx rx => rx
      | _ => g.1,heldAfter g.2 op r)

namespace Receiving

open Program

variable {g : Holding P}

abbrev Pays {α : Type} (p : Receiving P α) (post : α → Holding P → Prop) (g : Holding P) : Prop :=
  Program.Meets (creditContract P) post p g

theorem pays_getRx : Pays getRx (fun rx g' => rx = g.1 ∧ g' = g) g :=
  ⟨trivial,fun _ _ related => ⟨related.1,related.2⟩⟩

theorem pays_setRx (rx : PacketRx P) : Pays (setRx rx) (fun _ g' => g' = (rx,g.2)) g :=
  ⟨trivial,fun _ _ related => related.2⟩

variable {lane : PacketLane}

theorem pays_releaseReserved {count : Nat} (enough : count ≤ g.2.get lane) :
    Pays (releaseReserved lane count) (fun _ g' => g' = (g.1,g.2.set lane (g.2.get lane-count))) g :=
  ⟨enough,fun _ _ related => related.2⟩

section Receiving

variable (lane : PacketLane)

theorem pays_leaveChannel (count : Nat) : Pays (leaveChannel lane count) (fun _ g' => g' = g) g :=
  ⟨trivial,fun _ _ related => related.2⟩

theorem pays_handOver (packet : P) : Pays (handOver lane packet) (fun _ g' => g' = g) g :=
  ⟨trivial,fun _ _ related => related.2⟩

theorem pays_tryRecvLane (settled : g.Settled) :
    Pays (tryRecvLane lane) (fun r g' => match r with
      | .item item => Extra lane item.packetCount g'
      | .empty => g' = g
      | .disconnected => g'.Settled) g := by
  refine ⟨trivial,fun r g' related => ?_⟩
  obtain ⟨-,rfl⟩ := related
  cases r with
  | item item =>
    intro other
    simp only [heldAfter,Lanes.get_set]
    split
    · rename_i same
      rw [← same,settled other]
    · rw [settled other]
      rfl
  | empty => exact rfl
  | disconnected => exact settled

theorem pays_shouldProbePriority : Pays shouldProbePriority (fun _ g' => g' = g) g := by
  refine pays_getRx.bind ?_
  rintro rx g' ⟨-,rfl⟩
  by_cases closed : rx.closed.priority = true
  · rw [if_pos closed]
    exact rfl
  · rw [if_neg closed]
    have load : Pays loadPriorityQueued (fun _ g'' => g'' = g') g' := ⟨trivial,fun _ _ related => related.2⟩
    exact load.bind fun _ _ => id

theorem pays_takePending (settled : g.Settled) :
    Pays (takePending lane) (fun taken g' => match taken with
      | none => g' = g ∧ True
      | some _ => g'.Settled) g := by
  refine pays_getRx.bind ?_
  rintro rx g' ⟨rfl,rfl⟩
  cases tail : g'.1.pending.get lane with
  | nil => exact ⟨rfl,trivial⟩
  | cons packet rest =>
    have here := settled lane
    rw [tail,length_cons] at here
    refine (pays_releaseReserved (by omega)).bind ?_
    rintro _ _ rfl
    refine (pays_setRx _).bind ?_
    rintro _ _ rfl other
    simp only [Lanes.get_set]
    split
    · omega
    · exact settled other

theorem pays_setClosed (settled : g.Settled) : Pays (setClosed lane) (fun _ g' => g'.Settled) g := by
  refine pays_getRx.bind ?_
  rintro rx g' ⟨rfl,rfl⟩
  exact (pays_setRx _).mono fun _ _ same => same ▸ settled

theorem pays_storeTail (rest : List P) (extra : Extra lane rest.length g) :
    Pays (storeTail lane rest) (fun _ g' => g'.Settled) g := by
  refine pays_getRx.bind ?_
  rintro rx g' ⟨rfl,rfl⟩
  refine (pays_setRx _).bind ?_
  rintro _ _ rfl
  have here := extra lane
  rw [if_pos rfl] at here
  refine (pays_releaseReserved (by simp only; omega)).mono ?_
  rintro _ _ rfl other
  simp only [Lanes.get_set]
  split
  · omega
  · rename_i differs
    rw [extra other,if_neg differs]
    rfl

end Receiving

theorem pays_packetFromItem (item : PacketQueueItem P) (lane : PacketLane)
    (extra : Extra lane item.packetCount g) :
    Pays (packetFromItem item lane) (fun _ g' => g'.Settled) g := by
  refine (pays_leaveChannel lane _).bind ?_
  rintro _ g' rfl
  have count : item.packetCount = item.rest.length+1 := rfl
  have here := extra lane
  rw [if_pos rfl] at here
  refine (pays_releaseReserved (by omega)).bind ?_
  rintro _ _ rfl
  have left : Extra lane item.rest.length (g'.1,g'.2.set lane (g'.2.get lane-1)) := by
    intro other
    simp only [Lanes.get_set]
    split
    · rename_i same
      subst same
      omega
    · rename_i differs
      rw [extra other,if_neg differs]
  by_cases single : item.rest.isEmpty = true
  · rw [if_pos single]
    rw [isEmpty_iff.mp single] at left
    exact left.settled
  · rw [if_neg single]
    exact (pays_storeTail lane item.rest left).bind fun _ _ => id

end Receiving

/-- The credits of the tails, followed through the receiver's programs. -/
def crediting (P : Type) : Handling P (creditContract P) true where
  Settled := Holding.Settled
  Clear _ _ := True
  Gone _ _ := True
  Taken lane item := Extra lane item.packetCount
  Holds _ _ := Holding.Settled
  getRx _ := Receiving.pays_getRx.mono fun _ _ same => same.2
  shouldProbePriority _ := Receiving.pays_shouldProbePriority
  takePending := Receiving.pays_takePending
  setClosed lane settled _ := (Receiving.pays_setClosed lane settled).mono fun _ _ settled =>
    ⟨settled,fun _ _ => trivial⟩
  packetFromItem := Receiving.pays_packetFromItem
  handOver holds := (Receiving.pays_handOver _ _).mono fun _ _ same => same ▸ holds
  tryRecvLane settled _ := (Receiving.pays_tryRecvLane _ settled).mono fun
    | .item _,_,taken => taken
    | .empty,_,same => same
    | .disconnected,_,settled => ⟨settled,trivial,fun _ _ => trivial⟩

namespace CreditedChannel

open PacketChannel

@[simp] theorem reservedAll_append (lane : PacketLane) (sends sends' : List (Sending P)) :
    reservedAll lane (sends ++ sends') = reservedAll lane sends+reservedAll lane sends' := by
  simp [reservedAll]

@[simp] theorem reservedAll_singleton (lane : PacketLane) (send : Sending P) :
    reservedAll lane [send] = reservedBy lane send := by
  simp [reservedAll]

@[simp] theorem reservedAll_nil (lane : PacketLane) : reservedAll lane ([] : List (Sending P)) = 0 := rfl

variable {i : Nat} {send : Sending P}

theorem reservedAll_split {sends : List (Sending P)} (found : sends[i]? = some send) (lane : PacketLane) :
    reservedAll lane sends =
      reservedAll lane (sends.take i)+reservedBy lane send+reservedAll lane (sends.drop (i+1)) :=
  sum_map_split found (reservedBy lane)

@[simp] theorem queuedCredits_append (items items' : List (PacketQueueItem P)) :
    queuedCredits (items ++ items') = queuedCredits items+queuedCredits items' := by
  simp [queuedCredits]

@[simp] theorem queuedCredits_cons (item : PacketQueueItem P) (items : List (PacketQueueItem P)) :
    queuedCredits (item :: items) = item.packetCount+queuedCredits items := by
  simp [queuedCredits]

@[simp] theorem queuedCredits_nil : queuedCredits ([] : List (PacketQueueItem P)) = 0 := rfl

theorem packetCount_pos (item : PacketQueueItem P) : 0 < item.packetCount := Nat.succ_pos _

theorem length_le_queuedCredits (items : List (PacketQueueItem P)) : items.length ≤ queuedCredits items := by
  induction items with
  | nil => exact Nat.le_refl 0
  | cons item items ih =>
    have one := packetCount_pos item
    rw [queuedCredits_cons,length_cons]
    omega

/-- A send that reserves will do so within the bound of its lane, and none is ever turned away. -/
def Sound (slots : PacketLane → Nat) : SendStage P → Prop
  | .reserve lane _ capacity => capacity ≤ slots lane
  | .full _ _ _ => False
  | _ => True

/-- The counters, the sends and the queues of a channel, with the credits in the receiver's hands. -/
structure Balanced (bulk : Nat) (ch : PacketChannel P) (held : Lanes Nat) : Prop where
  capacity : ch.bulkPacketCapacity = bulk
  reserved : ∀ lane,ch.reserved.get lane =
    reservedAll lane ch.sends+queuedCredits (ch.queue.get lane)+held.get lane
  bounded : ∀ lane,ch.reserved.get lane ≤ ch.slots lane
  sound : ∀ send ∈ ch.sends,Sound ch.slots send.stage

variable {ch ch' : PacketChannel P}

theorem slots_eq (same : ch'.bulkPacketCapacity = ch.bulkPacketCapacity) : ch'.slots = ch.slots := by
  funext lane
  cases lane with
  | priority => rfl
  | bulk => exact same

variable {held : Lanes Nat} {bulk : Nat}

/-- A step of the `i`-th send, seen from the counters. -/
theorem Balanced.of_replaced (h : Balanced bulk ch held) {new : List (Sending P)}
    (found : ch.sends[i]? = some send) (capacity_eq : ch'.bulkPacketCapacity = ch.bulkPacketCapacity)
    (sends_eq : ch'.sends = ch.sends.take i ++ new ++ ch.sends.drop (i+1))
    (counted : ∀ lane, ch'.reserved.get lane+reservedBy lane send+queuedCredits (ch.queue.get lane) =
      ch.reserved.get lane+reservedAll lane new+queuedCredits (ch'.queue.get lane))
    (bounded : ∀ lane,ch'.reserved.get lane ≤ ch.slots lane)
    (sound : ∀ send ∈ new,Sound ch.slots send.stage) : Balanced bulk ch' held where
  capacity := capacity_eq.trans h.capacity
  reserved := by
    intro lane
    have before := h.reserved lane
    have step := counted lane
    rw [reservedAll_split found lane] at before
    rw [sends_eq]
    simp only [reservedAll_append]
    omega
  bounded := by
    intro lane
    rw [slots_eq capacity_eq]
    exact bounded lane
  sound := by
    rw [slots_eq capacity_eq,sends_eq]
    refine forall_mem_append.2 ⟨forall_mem_append.2 ⟨fun send' before => ?_,sound⟩,fun send' later => ?_⟩
    · exact h.sound send' (mem_of_mem_take before)
    · exact h.sound send' (mem_of_mem_drop later)

theorem quiet_of_starts (starts : Starts send) :
    (∀ lane,reservedBy lane send = 0) ∧ ∀ slots,Sound slots send.stage := by
  obtain ⟨_,_,rfl⟩ | ⟨_,_,_,rfl⟩ := starts <;> exact ⟨fun _ => rfl,fun _ => trivial⟩

theorem Balanced.finish (h : Balanced bulk ch held) (found : ch.sends[i]? = some send) (later : List P)
    (turn : Bool) (capacity_eq : ch'.bulkPacketCapacity = ch.bulkPacketCapacity)
    (sends_eq : ch'.sends = ch.sends)
    (counted : ∀ lane, ch'.reserved.get lane+reservedBy lane send+queuedCredits (ch.queue.get lane) =
      ch.reserved.get lane+queuedCredits (ch'.queue.get lane))
    (bounded : ∀ lane,ch'.reserved.get lane ≤ ch.slots lane) :
    Balanced bulk (ch'.finishSend i later turn) held := by
  obtain ⟨new,starts,-,eq⟩ := finishSend_frame ch' i later turn
  rw [eq]
  refine h.of_replaced found capacity_eq (by simp only [sends_eq]) ?_ bounded
    fun send member => (quiet_of_starts (starts send member)).2 _
  intro lane
  have quiet : reservedAll lane new = 0 :=
    sum_eq_zero (forall_mem_map.2 fun send member => (quiet_of_starts (starts send member)).1 lane)
  rw [quiet]
  exact counted lane

variable {item : PacketQueueItem P} {count : Nat}

theorem granted_packetCount {item' : PacketQueueItem P} (few : count ≤ item.packetCount)
    (granted : item.granted count = some item') : item'.packetCount = count := by
  cases item with
  | one packet =>
    obtain ⟨rfl,same⟩ := ite_none_right_eq_some.1 granted
    cases same
    rfl
  | batch first rest =>
    cases count with
    | zero => cases granted
    | succ count =>
      cases granted
      simp only [PacketQueueItem.packetCount,PacketQueueItem.packets,PacketQueueItem.first,
        PacketQueueItem.rest,length_cons,length_take] at few ⊢
      omega

theorem capacity_le_slots (ch : PacketChannel P) (contended : Bool) (lane : PacketLane) :
    ch.capacity contended lane ≤ ch.slots lane := by
  cases lane with
  | priority => exact Nat.sub_le _ _
  | bulk => exact Nat.le_refl _

variable {lane : PacketLane}

theorem Balanced.room (h : Balanced bulk ch held) (member : send ∈ ch.sends) {turn : Bool}
    (stage : send.stage = .enqueue lane item turn) :
    (ch.queue.get lane).length+held.get lane < ch.slots lane := by
  obtain ⟨i,inside,rfl⟩ := getElem_of_mem member
  have split := reservedAll_split (getElem?_eq_getElem inside) lane
  have own : reservedBy lane ch.sends[i] = item.packetCount := by simp [reservedBy,stage]
  have one := packetCount_pos item
  have length := length_le_queuedCredits (ch.queue.get lane)
  have reserved := h.reserved lane
  have bounded := h.bounded lane
  omega

theorem Balanced.advanceSend (h : Balanced bulk ch held) {contended : Bool}
    (advanced : ch.advanceSend i contended = some ch') : Balanced bulk ch' held := by
  unfold PacketChannel.advanceSend at advanced
  obtain ⟨send,found,advanced⟩ := bind_eq_some_iff.mp advanced
  have member := mem_of_getElem? found
  have single {stage : SendStage P} (sound : Sound ch.slots stage) :
      ∀ other ∈ [{ send with stage := stage }],Sound ch.slots (Sending.stage other) :=
    forall_mem_singleton.2 sound
  cases stage : send.stage with
  | awaitTurn packet =>
    simp only [stage] at advanced
    split at advanced
    · cases advanced
    · cases advanced
      exact h.of_replaced found rfl rfl (fun lane => by simp [reservedBy,stage,replaceSend])
        h.bounded (single trivial)
  | awaitSpace packet =>
    simp only [stage] at advanced
    obtain ⟨granted,advanced⟩ := ite_none_right_eq_some.mp advanced
    cases advanced
    simp only [reservePacketPrefix] at granted ⊢
    have room : ch.reserved.get .priority < transportPriorityPacketCapacity := by omega
    refine h.of_replaced found rfl rfl ?_ ?_ (single trivial)
    · intro lane
      cases lane <;> simp [reservedBy,stage,replaceSend,granted,PacketQueueItem.packetCount,
        PacketQueueItem.packets,PacketQueueItem.rest]
    · intro lane
      rw [granted]
      cases lane with
      | priority => exact room
      | bulk => exact h.bounded .bulk
  | readCapacity lane item =>
    simp only [stage] at advanced
    cases advanced
    refine h.of_replaced found rfl rfl (fun lane => by simp [reservedBy,stage,replaceSend])
      h.bounded (single ?_)
    exact capacity_le_slots ch contended lane
  | reserve lane item capacity =>
    have small : capacity ≤ ch.slots lane := by
      have sound := h.sound send member
      rwa [stage] at sound
    have before := h.bounded lane
    simp only [stage,reservePacketPrefix] at advanced
    split at advanced
    · rename_i granted eq
      cases advanced
      have count := granted_packetCount (Nat.min_le_left _ _) eq
      refine h.of_replaced found rfl rfl ?_ ?_ (single trivial)
      · intro other
        by_cases same : other = lane
        · subst same
          simp [reservedBy,stage,replaceSend,count]
        · simp [reservedBy,stage,replaceSend,same,Ne.symm same]
      · intro other
        simp only [replaceSend,Lanes.get_set]
        split
        · rename_i same
          subst same
          omega
        · exact h.bounded other
    · cases advanced
      have back : ch.reserved.get lane+min item.packetCount (capacity-ch.reserved.get lane)-
          min item.packetCount (capacity-ch.reserved.get lane) = ch.reserved.get lane :=
            Nat.add_sub_cancel _ _
      refine h.finish found send.later false rfl rfl ?_ ?_
      · intro other
        simp [reservedBy,stage,releaseReserved,back]
      · intro other
        simp only [releaseReserved,Lanes.get_set,if_true,back,Lanes.set_set,Lanes.set_get]
        exact h.bounded other
  | credit lane item turn =>
    simp only [stage] at advanced
    cases advanced
    cases lane <;> exact h.of_replaced found rfl rfl
      (fun lane => by simp [reservedBy,stage,replaceSend,creditPriority]) h.bounded (single trivial)
  | enqueue lane item turn =>
    have room := h.room member stage
    simp only [stage] at advanced
    rw [if_pos (by omega)] at advanced
    cases advanced
    refine h.finish found send.later turn rfl rfl ?_ h.bounded
    intro other
    by_cases same : other = lane
    · subst same
      simp [reservedBy,stage,pushItem]
      omega
    · simp [reservedBy,stage,pushItem,same,Ne.symm same]
  | full lane count turn =>
    have sound := h.sound send member
    rw [stage] at sound
    exact sound.elim

theorem Balanced.cancelSend (h : Balanced bulk ch held) (cancelled : ch.cancelSend i = some ch') :
    Balanced bulk ch' held := by
  unfold PacketChannel.cancelSend at cancelled
  obtain ⟨send,found,cancelled⟩ := bind_eq_some_iff.mp cancelled
  cases stage : send.stage with
  | awaitTurn packet =>
    simp only [stage] at cancelled
    cases cancelled
    exact h.finish found send.later false rfl rfl (fun lane => by simp [reservedBy,stage]) h.bounded
  | awaitSpace packet =>
    simp only [stage] at cancelled
    cases cancelled
    exact h.finish found send.later true rfl rfl (fun lane => by simp [reservedBy,stage]) h.bounded
  | _ =>
    simp only [stage] at cancelled
    cases cancelled

theorem Balanced.startSend (h : Balanced bulk ch held) (starts : Starts send)
    (started : ch.startSend send = some ch') : Balanced bulk ch' held := by
  obtain ⟨quiet,sound⟩ := quiet_of_starts starts
  unfold PacketChannel.startSend at started
  split at started
  · cases started
    refine { h with reserved := fun lane => ?_, sound := ?_ }
    · simp only [reservedAll_append,reservedAll_singleton,quiet lane]
      exact h.reserved lane
    · exact forall_mem_append.2 ⟨h.sound,forall_mem_singleton.2 (sound _)⟩
  · cases started

theorem Balanced.dropHeld (h : Balanced bulk ch held) (enough : count ≤ held.get lane) :
    Balanced bulk (ch.releaseReserved lane count) (held.set lane (held.get lane-count)) := by
  refine ⟨h.capacity,?_,?_,h.sound⟩
  · intro other
    have before := h.reserved other
    simp only [releaseReserved,Lanes.get_set]
    split
    · rename_i same
      subst same
      omega
    · exact before
  · intro other
    have before := h.bounded other
    rw [slots_eq (show (ch.releaseReserved lane count).bulkPacketCapacity = ch.bulkPacketCapacity from rfl)]
    simp only [releaseReserved,Lanes.get_set]
    split
    · rename_i same
      subst same
      omega
    · exact before

theorem Balanced.leaveChannel (h : Balanced bulk ch held) (lane : PacketLane) (count : Nat) :
    Balanced bulk (ch.leaveChannel lane count) held := by
  cases lane with
  | priority => exact { h with }
  | bulk => exact h

theorem Balanced.take (h : Balanced bulk ch held) {items : List (PacketQueueItem P)}
    (queue : ch.queue.get lane = item :: items) :
    Balanced bulk { ch with queue := ch.queue.set lane items }
      (held.set lane (held.get lane+item.packetCount)) := by
  refine ⟨h.capacity,?_,h.bounded,h.sound⟩
  intro other
  have before := h.reserved other
  simp only [Lanes.get_set]
  split
  · rename_i same
    subst same
    rw [queue,queuedCredits_cons] at before
    omega
  · exact before

/-- One operation of the receiver. -/
theorem Balanced.perform (h : Balanced bulk ch held) {op : RxOp P}
    (promise : (creditContract P).pre op (ch.rx,held)) (answer : Bool) :
    Balanced bulk (ch.perform answer op).2 (heldAfter held op (ch.perform answer op).1) ∧
      (creditContract P).rel op (ch.rx,held) (ch.perform answer op).1
        ((ch.perform answer op).2.rx,heldAfter held op (ch.perform answer op).1) := by
  cases op with
  | loadPriorityQueued => exact ⟨h,trivial,rfl⟩
  | tryRecv lane =>
    cases queue : ch.queue.get lane with
    | nil =>
      simp only [PacketChannel.perform,queue]
      cases ch.sendersAlive with
      | true => exact ⟨h,trivial,rfl⟩
      | false => exact ⟨h,trivial,rfl⟩
    | cons item items =>
      simp only [PacketChannel.perform,queue]
      exact ⟨h.take queue,trivial,rfl⟩
  | leaveChannel lane count =>
    have same : (ch.leaveChannel lane count).rx = ch.rx := by cases lane <;> rfl
    refine ⟨h.leaveChannel lane count,trivial,?_⟩
    simp only [PacketChannel.perform,same]
  | releaseReserved lane count => exact ⟨h.dropHeld promise,trivial,rfl⟩
  | getRx => exact ⟨h,rfl,rfl⟩
  | setRx rx => exact ⟨{ h with },trivial,rfl⟩
  | handOver lane packet => exact ⟨{ h with },trivial,rfl⟩

/-- What the receiver holds, besides what its running call or its drop is still to release. -/
def Attended (s : CreditedChannel P) : Prop :=
  match s.dropping with
  | none =>
    match s.channel.running with
    | none => Settled (s.channel.rx,s.held)
    | some call => Receiving.Pays call (crediting P).Resumes (s.channel.rx,s.held)
  | some stage => s.channel.running = none ∧
    match stage with
    | .item lane count => Extra lane count (s.channel.rx,s.held)
    | _ => Settled (s.channel.rx,s.held)

structure Conserved (bulk : Nat) (s : CreditedChannel P) : Prop where
  balanced : Balanced bulk s.channel s.held
  attended : s.Attended

theorem conserved_start (P : Type) (buffer : Nat) : Conserved (max buffer 1) (start P buffer) where
  balanced := by
    refine ⟨rfl,?_,?_,forall_mem_nil _⟩
    · intro lane
      cases lane <;> rfl
    · intro lane
      cases lane <;> exact Nat.zero_le _
  attended := by
    intro lane
    cases lane <;> rfl

variable {bulk : Nat} {s s' : CreditedChannel P}

theorem Conserved.senders (h : Conserved bulk s) {channel : PacketChannel P}
    (balanced : Balanced bulk channel s.held) (rx_eq : channel.rx = s.channel.rx)
    (running_eq : channel.running = s.channel.running) :
    Conserved bulk { s with channel := channel } := by
  refine ⟨balanced,?_⟩
  have attended := h.attended
  unfold Attended at attended ⊢
  simp only [rx_eq,running_eq]
  exact attended

theorem finishSend_receiver (ch : PacketChannel P) (i : Nat) (later : List P) (turn : Bool) :
    (ch.finishSend i later turn).rx = ch.rx ∧ (ch.finishSend i later turn).running = ch.running := by
  cases later <;> exact ⟨rfl,rfl⟩

theorem dropCredits_frame (ch : PacketChannel P) (lane : PacketLane) (count : Nat) :
    (dropCredits ch lane count).bulkPacketCapacity = ch.bulkPacketCapacity ∧
      (dropCredits ch lane count).sends = ch.sends ∧ (dropCredits ch lane count).queue = ch.queue ∧
      (dropCredits ch lane count).rx = ch.rx ∧ (dropCredits ch lane count).running = ch.running ∧
      (dropCredits ch lane count).reserved = ch.reserved.set lane (ch.reserved.get lane-count) := by
  cases lane <;> exact ⟨rfl,rfl,rfl,rfl,rfl,rfl⟩

/-- A receiver that runs a call is not being dropped. -/
theorem Conserved.present (h : Conserved bulk s) {call : Receiving P Receiving.Next}
    (running : s.channel.running = some call) : s.dropping = none := by
  have attended := h.attended
  cases dropping : s.dropping with
  | none => rfl
  | some stage =>
    simp only [Attended,dropping,running] at attended
    cases attended.1

theorem Conserved.receive (h : Conserved bulk s) {answer : Bool} (received : s.receive answer = some s') :
    Conserved bulk s' := by
  have attended := h.attended
  unfold CreditedChannel.receive at received
  cases running : s.channel.running with
  | none =>
    simp only [running] at received
    simp [PacketChannel.receive,running] at received
  | some program =>
    have open_ := h.present running
    simp only [Attended,open_,running] at attended
    cases program with
    | done next =>
      simp only [running] at received
      simp only [PacketChannel.receive,running,map_some,some.injEq] at received
      subst received
      refine ⟨{ h.balanced with },?_⟩
      have resumes : (crediting P).Resumes next (s.channel.rx,s.held) := attended
      have settled : Settled (s.channel.rx,s.held) := resumes.settled
      cases next with
      | finished =>
        simp only [Attended,open_]
        exact settled
      | recv =>
        simp only [Attended,open_]
        exact (crediting P).recv settled
      | select =>
        simp only [Attended,open_]
        exact (crediting P).select resumes
    | ask op next =>
      simp only [running,some.injEq] at received
      subst received
      obtain ⟨promise,continues⟩ := attended
      obtain ⟨balanced,related⟩ := h.balanced.perform promise answer
      refine ⟨{ balanced with },?_⟩
      simpa only [Attended,open_] using continues _ _ related

/-- A send that finds its lane closed returns its credits. -/
theorem Conserved.failSend (h : Conserved bulk s) (failed : s.failSend i = some s') : Conserved bulk s' := by
  unfold CreditedChannel.failSend at failed
  obtain ⟨send,found,failed⟩ := bind_eq_some_iff.mp failed
  have quits {turn : Bool} (quiet : ∀ lane,reservedBy lane send = 0) :
      Conserved bulk { s with channel := s.channel.finishSend i [] turn } := by
    obtain ⟨rx_eq,running_eq⟩ := finishSend_receiver s.channel i [] turn
    refine h.senders (h.balanced.finish found [] turn rfl rfl ?_ h.balanced.bounded) rx_eq running_eq
    intro lane
    rw [quiet lane]
    rfl
  cases stage : send.stage with
  | awaitSpace packet =>
    simp only [stage] at failed
    obtain ⟨-,failed⟩ := ite_none_right_eq_some.mp failed
    cases failed
    exact quits fun lane => by simp [reservedBy,stage]
  | readCapacity lane item =>
    simp only [stage] at failed
    obtain ⟨-,failed⟩ := ite_none_right_eq_some.mp failed
    cases failed
    exact quits fun lane => by simp [reservedBy,stage]
  | enqueue lane item turn =>
    simp only [stage] at failed
    obtain ⟨-,failed⟩ := ite_none_right_eq_some.mp failed
    cases failed
    obtain ⟨capacity_eq,sends_eq,queue_eq,rx_eq,running_eq,reserved_eq⟩ :=
      dropCredits_frame s.channel lane item.packetCount
    obtain ⟨rx_eq',running_eq'⟩ := finishSend_receiver (dropCredits s.channel lane item.packetCount) i [] turn
    have own : reservedBy lane send = item.packetCount := by simp [reservedBy,stage]
    have enough := h.balanced.reserved lane
    rw [reservedAll_split found lane,own] at enough
    refine h.senders (h.balanced.finish found [] turn capacity_eq sends_eq ?_ ?_) (rx_eq'.trans rx_eq)
      (running_eq'.trans running_eq)
    · intro other
      rw [queue_eq,reserved_eq,Lanes.get_set]
      by_cases same : other = lane
      · subst same
        rw [if_pos rfl,own]
        omega
      · rw [if_neg same]
        simp [reservedBy,stage,Ne.symm same]
    · intro other
      have before := h.balanced.bounded other
      rw [reserved_eq,Lanes.get_set]
      split
      · rename_i same
        subst same
        omega
      · exact before
  | _ =>
    simp only [stage] at failed
    cases failed

theorem Conserved.dropStep (h : Conserved bulk s) (dropped : s.dropStep = some s') : Conserved bulk s' := by
  have attended := h.attended
  unfold CreditedChannel.dropStep at dropped
  cases dropping : s.dropping with
  | none => simp [dropping] at dropped
  | some stage =>
    simp only [Attended,dropping] at attended
    cases stage with
    | close lane =>
      simp only [dropping,some.injEq] at dropped
      subst dropped
      exact ⟨h.balanced,attended⟩
    | drain lane =>
      cases queue : s.channel.queue.get lane with
      | nil =>
        simp only [dropping,queue,some.injEq] at dropped
        subst dropped
        cases lane <;> exact ⟨h.balanced,attended⟩
      | cons item items =>
        simp only [dropping,queue,some.injEq] at dropped
        subst dropped
        refine ⟨h.balanced.take queue,attended.1,?_⟩
        intro other
        have settled := attended.2 other
        simp only [Lanes.get_set]
        split
        · rename_i same
          subst same
          rw [← settled]
        · exact settled
    | item lane count =>
      simp only [dropping,some.injEq] at dropped
      subst dropped
      obtain ⟨idle,extra⟩ := attended
      have here := extra lane
      simp only [if_true] at here
      obtain ⟨-,-,-,rx_eq,running_eq,-⟩ := dropCredits_frame s.channel lane count
      refine ⟨(h.balanced.leaveChannel lane count).dropHeld (by omega),running_eq.trans idle,?_⟩
      intro other
      have before := extra other
      simp only [rx_eq,Lanes.get_set]
      by_cases same : other = lane
      · subst same
        simp only [if_true]
        omega
      · rw [if_neg same] at before ⊢
        exact before
    | tail lane =>
      simp only [dropping,some.injEq] at dropped
      subst dropped
      obtain ⟨idle,settled⟩ := attended
      have here : s.held.get lane = (s.channel.rx.pending.get lane).length := settled lane
      have balanced := h.balanced.dropHeld (Nat.le_of_eq here.symm)
      have after : Settled ({ s.channel.rx with pending := s.channel.rx.pending.set lane [] },
          s.held.set lane (s.held.get lane-(s.channel.rx.pending.get lane).length)) := by
        intro other
        simp only [Lanes.get_set]
        split
        · rw [here,Nat.sub_self]
          rfl
        · exact settled other
      refine ⟨{ balanced with },?_⟩
      cases lane <;> exact ⟨idle,after⟩
    | done => simp [dropping] at dropped

theorem Conserved.free (h : Conserved bulk s) (freed : s.free lane = some s') : Conserved bulk s' := by
  unfold CreditedChannel.free at freed
  obtain ⟨-,freed⟩ := ite_none_right_eq_some.mp freed
  cases queue : s.channel.queue.get lane with
  | nil => simp [queue] at freed
  | cons item items =>
    simp only [queue,some.injEq] at freed
    subst freed
    have taken := h.balanced.take queue
    have enough : item.packetCount ≤ (s.held.set lane (s.held.get lane+item.packetCount)).get lane := by
      rw [Lanes.get_set,if_pos rfl]
      omega
    have balanced := (taken.leaveChannel lane item.packetCount).dropHeld enough
    obtain ⟨-,-,-,rx_eq,running_eq,-⟩ :=
      dropCredits_frame { s.channel with queue := s.channel.queue.set lane items } lane item.packetCount
    refine h.senders ?_ rx_eq running_eq
    simp only [Lanes.get_set,if_true,Nat.add_sub_cancel,Lanes.set_set,Lanes.set_get] at balanced
    exact balanced

section Runs

variable (isTransportPriority : P → Bool)

theorem Conserved.startSend (h : Conserved bulk s) {send : Sending P} (starts : Starts send)
    {channel : PacketChannel P} (started : s.channel.startSend send = some channel) :
    Conserved bulk { s with channel := channel } := by
  have step := startSend_senderStep starts started
  exact h.senders (h.balanced.startSend starts started) step.rx_eq step.running_eq

theorem Conserved.step (h : Conserved bulk s) {event : CreditEvent P}
    (stepped : s.step isTransportPriority event = some s') : Conserved bulk s' := by
  cases event with
  | base event =>
    cases event with
    | send packet =>
      obtain ⟨channel,started,rfl⟩ := map_eq_some_iff.1 stepped
      exact h.startSend (starts_sendStart _ packet) started
    | sendStreamPacket packet =>
      obtain ⟨channel,started,rfl⟩ := map_eq_some_iff.1 stepped
      exact h.startSend (starts_streamStart _ packet) started
    | sendPacketBatch packets =>
      obtain ⟨channel,started,rfl⟩ := map_eq_some_iff.1 stepped
      simp only [PacketChannel.step] at started
      cases batch : batchStart isTransportPriority packets with
      | none =>
        simp only [batch,some.injEq] at started
        subst started
        exact h
      | some send =>
        simp only [batch] at started
        exact h.startSend (starts_batchStart batch) started
    | advance i contended =>
      obtain ⟨channel,advanced,rfl⟩ := map_eq_some_iff.1 stepped
      have step := advanceSend_senderStep advanced
      exact h.senders (h.balanced.advanceSend advanced) step.rx_eq step.running_eq
    | cancel i =>
      obtain ⟨channel,cancelled,rfl⟩ := map_eq_some_iff.1 stepped
      have step := cancelSend_senderStep cancelled
      exact h.senders (h.balanced.cancelSend cancelled) step.rx_eq step.running_eq
    | dropSenders =>
      obtain ⟨channel,dropped,rfl⟩ := map_eq_some_iff.1 stepped
      obtain ⟨-,dropped⟩ := ite_none_right_eq_some.1 dropped
      cases dropped
      exact h.senders { h.balanced with } rfl rfl
    | call call =>
      obtain ⟨present,stepped⟩ := ite_none_right_eq_some.1 stepped
      obtain ⟨channel,called,rfl⟩ := map_eq_some_iff.1 stepped
      obtain ⟨idle,called⟩ := ite_none_right_eq_some.1 called
      cases called
      have attended := h.attended
      have present := isNone_iff_eq_none.1 present
      simp only [Attended,present,isNone_iff_eq_none.1 idle] at attended
      refine ⟨{ h.balanced with },?_⟩
      simp only [Attended,present]
      exact (crediting P).program attended call
    | receive answer => exact h.receive stepped
    | cancelRecv =>
      obtain ⟨channel,given,rfl⟩ := map_eq_some_iff.1 stepped
      obtain ⟨asleep,rfl⟩ := cancelRecv_eq_some.1 given
      have attended := h.attended
      refine ⟨{ h.balanced with },?_⟩
      simp only [Attended,h.present asleep,asleep] at attended ⊢
      exact attended.1
  | fail i => exact h.failSend stepped
  | dropReceiver =>
    obtain ⟨idle,stepped⟩ := ite_none_right_eq_some.1 stepped
    cases stepped
    obtain ⟨idle,present⟩ := Bool.and_eq_true_iff.1 idle
    have attended := h.attended
    have idle := isNone_iff_eq_none.1 idle
    simp only [Attended,isNone_iff_eq_none.1 present,idle] at attended
    exact ⟨h.balanced,idle,attended⟩
  | dropStep => exact h.dropStep stepped
  | free lane => exact h.free stepped

theorem Conserved.run {events : List (CreditEvent P)} : ∀ {s : CreditedChannel P},Conserved bulk s →
    s.run isTransportPriority events = some s' → Conserved bulk s' := by
  induction events with
  | nil =>
    intro s h ran
    cases ran
    exact h
  | cons event events ih =>
    intro s h ran
    obtain ⟨next,stepped,ran⟩ := bind_eq_some_iff.1 ran
    exact ih (h.step isTransportPriority stepped) ran

end Runs

/-- No release takes more than the counter has. -/
theorem Conserved.released_le (h : Conserved bulk s) {event : CreditEvent P}
    (releases : s.released event = some (lane,count)) : count ≤ s.channel.reserved.get lane := by
  have reserved := h.balanced.reserved lane
  have attended := h.attended
  have ofSend {i : Nat} {stage : SendStage P} (found : (s.channel.sends[i]?).map Sending.stage = some stage)
      (later : List P) (own : reservedBy lane ⟨stage,later⟩ = count) :
        count ≤ s.channel.reserved.get lane := by
    obtain ⟨send,there,rfl⟩ := map_eq_some_iff.1 found
    have split := reservedAll_split there lane
    have same : reservedBy lane send = count := own
    omega
  unfold released at releases
  split at releases
  · split at releases
    · rename_i next running
      cases releases
      simp only [Attended,h.present running,running] at attended
      have promise : count ≤ s.held.get lane := attended.1
      omega
    · cases releases
  · split at releases
    · rename_i found
      cases releases
      exact ofSend found [] (by simp [reservedBy])
    · cases releases
  · split at releases
    · rename_i found
      cases releases
      exact ofSend found [] (by simp [reservedBy])
    · cases releases
  · split at releases
    · rename_i dropping
      cases releases
      simp only [Attended,dropping] at attended
      have here := attended.2 lane
      simp only [if_true] at here
      omega
    · rename_i dropping
      cases releases
      simp only [Attended,dropping] at attended
      have here : s.held.get lane = (s.channel.rx.pending.get lane).length := attended.2 lane
      omega
    · cases releases
  · split at releases
    · cases releases
    · rename_i queue
      cases releases
      rw [queue,queuedCredits_cons] at reserved
      omega
  · cases releases

/-- In every state that any interleaving reaches, the counter of a lane is what the sends in progress have
reserved, the queued items carry and the receiver holds: between its calls, the pending tail. It never
goes below zero or above the bound of the lane, and no item that was granted its reservation finds the
queue full. -/
theorem credits_conserved (isTransportPriority : P → Bool) {buffer : Nat} {events : List (CreditEvent P)}
    (ran : (start P buffer).run isTransportPriority events = some s) (lane : PacketLane) :
    s.channel.reserved.get lane =
      reservedAll lane s.channel.sends+queuedCredits (s.channel.queue.get lane)+s.held.get lane ∧
    (s.channel.running = none → (∀ count,s.dropping ≠ some (.item lane count)) →
      s.held.get lane = (s.channel.rx.pending.get lane).length) ∧
    s.channel.reserved.get lane ≤ (match lane with
      | .priority => 64
      | .bulk => max buffer 1) ∧
    (∀ event count,s.released event = some (lane,count) → count ≤ s.channel.reserved.get lane) ∧
    (∀ send ∈ s.channel.sends,(∀ count turn,send.stage ≠ .full lane count turn) ∧
      ∀ item turn,send.stage = .enqueue lane item turn →
        (s.channel.queue.get lane).length+s.held.get lane < s.channel.slots lane) ∧
    (s.channel.sends = [] → s.channel.queue.get lane = [] → s.held.get lane = 0 →
      s.channel.reserved.get lane = 0) := by
  have h := (conserved_start P buffer).run isTransportPriority ran
  have attended := h.attended
  refine ⟨h.balanced.reserved lane,?_,?_,fun event count releases => h.released_le releases,?_,?_⟩
  · intro idle still
    cases dropping : s.dropping with
    | none =>
      simp only [Attended,dropping,idle] at attended
      exact attended lane
    | some stage =>
      simp only [Attended,dropping] at attended
      cases stage with
      | item other count =>
        have here := attended.2 lane
        have differs : lane ≠ other := by
          rintro rfl
          exact still count dropping
        simpa [differs] using here
      | _ => exact attended.2 lane
  · have bounded := h.balanced.bounded lane
    cases lane with
    | priority => exact bounded
    | bulk => exact bounded.trans_eq h.balanced.capacity
  · intro send member
    refine ⟨?_,fun item turn stage => h.balanced.room member stage⟩
    intro count turn stage
    have sound := h.balanced.sound send member
    rw [stage] at sound
    exact sound
  · intro none_sending none_queued none_held
    rw [h.balanced.reserved lane,none_sending,none_queued,none_held]
    rfl

/-- A batch of three is cut to two, one packet of it is drained, and the receiver is dropped while another
send is about to enqueue. -/
def droppedMidway : List (CreditEvent Nat) :=
  .base (.sendPacketBatch [1,2,3]) :: replicate 4 (.base (.advance 0 false)) ++
    (.base (.call (.drainReady 1)) :: replicate 14 (.base (.receive true))) ++
    (.base (.send 5) :: replicate 3 (.base (.advance 0 false))) ++
    (.dropReceiver :: replicate 6 .dropStep) ++ [.fail 0]

theorem credits_conserved_dropped :
    ∃ s,(start Nat 2).run (· == 9) droppedMidway = some s ∧ s.dropping = some .done ∧
      s.channel.reserved.bulk = 0 := by
  obtain ⟨s,ran,evaluated⟩ := map_eq_some_iff.mp (by decide +kernel :
    ((start Nat 2).run (· == 9) droppedMidway).map (fun s =>
      (s.dropping,s.channel.sends.isEmpty,s.channel.queue.bulk.isEmpty,s.held.bulk)) =
        some (some .done,true,true,0))
  simp only [Prod.mk.injEq,List.isEmpty_iff] at evaluated
  obtain ⟨gone,sends,queue,held⟩ := evaluated
  exact ⟨s,ran,gone,(credits_conserved (· == 9) ran .bulk).2.2.2.2.2 sends queue held⟩

end CreditedChannel

end Fips.Transport
