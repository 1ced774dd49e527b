import Fips.Transport.Handover

set_option autoImplicit false

/-! Whole runs of the packet channel, every party acting one step at a time. -/

namespace Fips.Transport

open List Option

namespace PacketChannel

variable {P : Type}

def queuedPackets (items : List (PacketQueueItem P)) : List P :=
  items.flatMap PacketQueueItem.packets

def queued (ch : PacketChannel P) (lane : PacketLane) : List P :=
  queuedPackets (ch.queue.get lane)

def announced (send : Sending P) : Nat :=
  match send.stage with
  | .enqueue .priority item _ => item.packetCount
  | .full .priority count _ => count
  | _ => 0

def announcedAll (sends : List (Sending P)) : Nat :=
  (sends.map announced).sum

@[simp] theorem queuedPackets_append (items items' : List (PacketQueueItem P)) :
    queuedPackets (items ++ items') = queuedPackets items ++ queuedPackets items' :=
  flatMap_append

@[simp] theorem queuedPackets_singleton (item : PacketQueueItem P) :
    queuedPackets [item] = item.packets := by
  simp [queuedPackets]

theorem queuedPackets_cons (item : PacketQueueItem P) (items : List (PacketQueueItem P)) :
    queuedPackets (item :: items) = item.packets ++ queuedPackets items :=
  flatMap_cons

@[simp] theorem announcedAll_append (sends sends' : List (Sending P)) :
    announcedAll (sends ++ sends') = announcedAll sends+announcedAll sends' := by
  simp [announcedAll]

@[simp] theorem announcedAll_singleton (send : Sending P) : announcedAll [send] = announced send := by
  simp [announcedAll]

theorem sum_map_split {sends : List (Sending P)} {i : Nat} {send : Sending P}
    (found : sends[i]? = some send) (f : Sending P → Nat) :
    (sends.map f).sum = ((sends.take i).map f).sum+f send+((sends.drop (i+1)).map f).sum := by
  obtain ⟨bound,at_i⟩ := List.getElem?_eq_some_iff.mp found
  have split : sends = sends.take i ++ [send] ++ sends.drop (i+1) := by
    rw [append_assoc,singleton_append,← at_i,getElem_cons_drop,take_append_drop]
  conv_lhs => rw [split]
  simp only [map_append,sum_append,map_singleton,sum_singleton]

/-- A send that has not touched the channel yet. -/
def Starts (send : Sending P) : Prop :=
  (∃ packet later,send = ⟨.awaitTurn packet,later⟩) ∨ ∃ lane item later,send = ⟨.readCapacity lane item,later⟩

theorem Starts.announced_eq {send : Sending P} (starts : Starts send) : announced send = 0 := by
  obtain ⟨_,_,rfl⟩ | ⟨_,_,_,rfl⟩ := starts <;> rfl

theorem starts_sendStart (isTransportPriority : P → Bool) (packet : P) :
    Starts (sendStart isTransportPriority packet) := .inr ⟨_,_,_,rfl⟩

theorem starts_streamStart (isTransportPriority : P → Bool) (packet : P) :
    Starts (streamStart isTransportPriority packet) := by
  unfold streamStart
  split
  · exact .inl ⟨_,_,rfl⟩
  · exact starts_sendStart isTransportPriority packet

theorem starts_batchStart {isTransportPriority : P → Bool} {packets : List P} {send : Sending P}
    (start : batchStart isTransportPriority packets = some send) : Starts send := by
  unfold batchStart at start
  split at start <;> cases start <;> exact .inr ⟨_,_,_,rfl⟩

/-- What a step of the senders can do to the rest of the channel. -/
structure SenderStep (ch ch' : PacketChannel P) : Prop where
  rx_eq : ch'.rx = ch.rx
  running_eq : ch'.running = ch.running
  handed_eq : ch'.handed = ch.handed
  pushed : ∀ lane,∃ items,ch'.queue.get lane = ch.queue.get lane ++ items ∧
    ch'.enqueued.get lane = ch.enqueued.get lane ++ queuedPackets items
  counted : announcedAll ch.sends ≤ ch.priorityQueuedPackets →
    ch'.priorityQueuedPackets+(ch.queued .priority).length+announcedAll ch.sends =
      ch.priorityQueuedPackets+(ch'.queued .priority).length+announcedAll ch'.sends
  ended : (ch.sendersAlive = false → ch.sends = []) → ch'.sendersAlive = false → ch'.sends = []
  stays : ch.sendersAlive = false → ch.sends = [] → ch'.sendersAlive = false ∧ ch'.queue = ch.queue

theorem SenderStep.refl (ch : PacketChannel P) : SenderStep ch ch where
  rx_eq := rfl
  running_eq := rfl
  handed_eq := rfl
  pushed lane := ⟨[],by simp [queuedPackets]⟩
  counted _ := rfl
  ended ended := ended
  stays alive _ := ⟨alive,rfl⟩

variable {ch ch' : PacketChannel P}

theorem startSend_senderStep {send : Sending P} (starts : Starts send)
    (started : ch.startSend send = some ch') :
    SenderStep ch ch' := by
  unfold startSend at started
  split at started
  · rename_i alive
    cases started
    exact {
      rx_eq := rfl
      running_eq := rfl
      handed_eq := rfl
      pushed lane := ⟨[],by simp [queuedPackets]⟩
      counted _ := by simp [starts.announced_eq,queued]
      ended _ dead := absurd (alive.symm.trans dead) (by decide)
      stays dead _ := absurd (alive.symm.trans dead) (by decide) }
  · cases started

variable {i : Nat}

/-- A step of the `i`-th send that touches its own lane only. -/
theorem SenderStep.of_replaced {send : Sending P} {new : List (Sending P)} (found : ch.sends[i]? = some send)
    (sends_eq : ch'.sends = ch.sends.take i ++ new ++ ch.sends.drop (i+1)) (rx_eq : ch'.rx = ch.rx)
    (running_eq : ch'.running = ch.running) (handed_eq : ch'.handed = ch.handed)
    (alive_eq : ch'.sendersAlive = ch.sendersAlive)
    (pushed : ∀ lane,
      ∃ items, ch'.queue.get lane = ch.queue.get lane ++ items ∧
        ch'.enqueued.get lane = ch.enqueued.get lane ++ queuedPackets items)
    (counted : announced send ≤ ch.priorityQueuedPackets →
      ch'.priorityQueuedPackets+(ch.queued .priority).length+announced send =
        ch.priorityQueuedPackets+(ch'.queued .priority).length+announcedAll new) : SenderStep ch ch' := by
  have total : announcedAll ch.sends =
      announcedAll (ch.sends.take i)+announced send+announcedAll (ch.sends.drop (i+1)) :=
    sum_map_split found announced
  refine {
    rx_eq, running_eq, handed_eq, pushed
    counted := fun le => ?_
    ended := fun ended dead => ?_
    stays := fun _ none => ?_ }
  · have own := counted (by omega)
    rw [sends_eq]
    simp only [announcedAll_append]
    omega
  · rw [ended (alive_eq.symm.trans dead)] at found
    cases found
  · rw [none] at found
    cases found

theorem finishSend_frame (ch : PacketChannel P) (i : Nat) (later : List P) (turn : Bool) :
    ∃ new,(∀ send ∈ new,Starts send) ∧ announcedAll new = 0 ∧ ch.finishSend i later turn =
      { ch with
        turnHeld := ch.turnHeld && !turn
        sends := ch.sends.take i ++ new ++ ch.sends.drop (i+1) } := by
  cases later with
  | nil => exact ⟨[],forall_mem_nil _,rfl,rfl⟩
  | cons first rest => exact ⟨[_],forall_mem_singleton.2 (.inr ⟨_,_,_,rfl⟩),rfl,rfl⟩

theorem pushed_none (queue_eq : ch'.queue = ch.queue) (enqueued_eq : ch'.enqueued = ch.enqueued)
    (lane : PacketLane) :
    ∃ items,ch'.queue.get lane = ch.queue.get lane ++ items ∧
      ch'.enqueued.get lane = ch.enqueued.get lane ++ queuedPackets items :=
  ⟨[],by simp [queue_eq],by simp [enqueued_eq,queuedPackets]⟩

theorem pushItem_pushed (ch : PacketChannel P) (lane : PacketLane) (item : PacketQueueItem P)
    (other : PacketLane) :
    ∃ items,(ch.pushItem lane item).queue.get other = ch.queue.get other ++ items ∧
      (ch.pushItem lane item).enqueued.get other = ch.enqueued.get other ++ queuedPackets items := by
  by_cases same : other = lane
  · exact ⟨[item],by simp [pushItem,same]⟩
  · exact ⟨[],by simp [pushItem,same,queuedPackets]⟩

theorem advanceSend_senderStep {contended : Bool} (advanced : ch.advanceSend i contended = some ch') :
    SenderStep ch ch' := by
  unfold advanceSend at advanced
  obtain ⟨send,found,advanced⟩ := bind_eq_some_iff.mp advanced
  -- the stage decides what is counted before and after the step
  cases stage : send.stage with
  | awaitTurn packet =>
    simp only [stage] at advanced
    split at advanced
    · cases advanced
    · cases advanced
      refine .of_replaced found rfl rfl rfl rfl rfl (pushed_none rfl rfl) fun _ => ?_
      simp [announced,stage,queued,replaceSend]
  | awaitSpace packet =>
    simp only [stage] at advanced
    obtain ⟨-,advanced⟩ := ite_none_right_eq_some.mp advanced
    cases advanced
    refine .of_replaced found rfl rfl rfl rfl rfl (pushed_none rfl rfl) fun _ => ?_
    simp [announced,stage,queued,replaceSend,reservePacketPrefix]
  | readCapacity lane item =>
    simp only [stage] at advanced
    cases advanced
    refine .of_replaced found rfl rfl rfl rfl rfl (pushed_none rfl rfl) fun _ => ?_
    simp [announced,stage,queued,replaceSend]
  | reserve lane item capacity =>
    simp only [stage,reservePacketPrefix] at advanced
    split at advanced
    · cases advanced
      refine .of_replaced found rfl rfl rfl rfl rfl (pushed_none rfl rfl) fun _ => ?_
      simp [announced,stage,queued,replaceSend]
    · cases advanced
      obtain ⟨new,-,silent,eq⟩ := finishSend_frame
        ({ ch with reserved := ch.reserved.set lane (ch.reserved.get lane+
          min item.packetCount (capacity-ch.reserved.get lane)) }.releaseReserved lane
            (min item.packetCount (capacity-ch.reserved.get lane))) i send.later false
      rw [eq]
      refine .of_replaced found rfl rfl rfl rfl rfl (pushed_none rfl rfl) fun _ => ?_
      simp [announced,stage,queued,silent,releaseReserved]
  | credit lane item turn =>
    simp only [stage] at advanced
    cases advanced
    cases lane with
    | priority =>
      refine .of_replaced found rfl rfl rfl rfl rfl (pushed_none rfl rfl) fun _ => ?_
      simp only [announced,stage,queued,replaceSend,creditPriority,announcedAll_singleton]
      omega
    | bulk =>
      refine .of_replaced found rfl rfl rfl rfl rfl (pushed_none rfl rfl) fun _ => ?_
      simp [announced,stage,queued,replaceSend,creditPriority]
  | enqueue lane item turn =>
    simp only [stage] at advanced
    split at advanced
    · cases advanced
      obtain ⟨new,-,silent,eq⟩ := finishSend_frame (ch.pushItem lane item) i send.later turn
      rw [eq]
      refine .of_replaced found rfl rfl rfl rfl rfl (pushItem_pushed ch lane item) fun _ => ?_
      cases lane with
      | priority =>
        simp [announced,stage,queued,silent,pushItem,PacketQueueItem.packetCount]
        omega
      | bulk => simp [announced,stage,queued,silent,pushItem]
    · cases advanced
      refine .of_replaced found rfl rfl rfl rfl rfl (pushed_none rfl rfl) fun _ => ?_
      cases lane <;> simp [announced,stage,queued,replaceSend]
  | full lane count turn =>
    simp only [stage] at advanced
    cases advanced
    obtain ⟨new,-,silent,eq⟩ :=
      finishSend_frame ((ch.leaveChannel lane count).releaseReserved lane count) i send.later turn
    rw [eq]
    cases lane with
    | priority =>
      refine .of_replaced found rfl rfl rfl rfl rfl (pushed_none rfl rfl) fun le => ?_
      simp only [announced,stage] at le
      simp only [announced,stage,queued,silent,leaveChannel,releaseReserved]
      omega
    | bulk =>
      refine .of_replaced found rfl rfl rfl rfl rfl (pushed_none rfl rfl) fun _ => ?_
      simp [announced,stage,queued,silent,leaveChannel,releaseReserved]

theorem cancelSend_senderStep (cancelled : ch.cancelSend i = some ch') : SenderStep ch ch' := by
  unfold cancelSend at cancelled
  obtain ⟨send,found,cancelled⟩ := bind_eq_some_iff.mp cancelled
  have finished (turn : Bool) (quiet : announced send = 0) :
      SenderStep ch (ch.finishSend i send.later turn) := by
    obtain ⟨new,-,silent,eq⟩ := finishSend_frame ch i send.later turn
    rw [eq]
    refine .of_replaced found rfl rfl rfl rfl rfl (pushed_none rfl rfl) fun _ => ?_
    simp [quiet,queued,silent]
  cases stage : send.stage with
  | awaitTurn packet =>
    simp only [stage] at cancelled
    cases cancelled
    exact finished false (by simp [announced,stage])
  | awaitSpace packet =>
    simp only [stage] at cancelled
    cases cancelled
    exact finished true (by simp [announced,stage])
  | _ =>
    simp only [stage] at cancelled
    cases cancelled

theorem cancelRecv_eq_some :
    ch.cancelRecv = some ch' ↔ ch.running = some (.done .select) ∧ { ch with running := none } = ch' := by
  unfold cancelRecv
  split
  · next asleep => simp [asleep]
  · next awake => exact ⟨nofun,fun held => (awake held.1).elim⟩

structure Viewed (ch : PacketChannel P) (v : View P) : Prop where
  rx_eq : v.rx = ch.rx
  kept : ∀ lane,ch.handed.get lane ++ v.owed.get lane ++ ch.queued lane = ch.enqueued.get lane
  counted : ch.priorityQueuedPackets =
    (ch.queued .priority).length+announcedAll ch.sends+v.leaving
  gone : ∀ lane,v.gone.get lane = true → ch.queue.get lane = [] ∧ ch.sendersAlive = false
  ended : ch.sendersAlive = false → ch.sends = []

def Apart (ch : PacketChannel P) (x y : P) : Prop :=
  ch.enqueued.bulk.Nodup → x ≠ y

/-- A channel and what is tracked of it. After an overtaking `y` comes, or came, where `x` was due. -/
def Linked (ch : PacketChannel P) : Tracked P → Prop
  | .sound v => ch.Viewed v
  | .overtaken y => ∃ x,(ch.handed.bulk ++ [x]) <+: ch.enqueued.bulk ∧ ch.Apart x y
  | .lost => ∃ before x y,(before ++ [x]) <+: ch.enqueued.bulk ∧ (before ++ [y]) <+: ch.handed.bulk ∧
      ch.Apart x y

theorem Apart.grow {x y : P} (apart : ch.Apart x y) (grown : ch.enqueued.bulk <+: ch'.enqueued.bulk) :
    ch'.Apart x y :=
  fun distinct => apart (distinct.sublist grown.sublist)

variable {g : Tracked P}

theorem Linked.senderStep (linked : ch.Linked g) (stepped : SenderStep ch ch') : ch'.Linked g := by
  have grown : ch.enqueued.bulk <+: ch'.enqueued.bulk := by
    obtain ⟨items,-,eq⟩ := stepped.pushed .bulk
    exact ⟨_,eq.symm⟩
  cases g with
  | overtaken y =>
    obtain ⟨x,due,apart⟩ := linked
    exact ⟨x,stepped.handed_eq ▸ due.trans grown,apart.grow grown⟩
  | lost =>
    obtain ⟨before,x,y,due,came,apart⟩ := linked
    exact ⟨before,x,y,due.trans grown,stepped.handed_eq ▸ came,apart.grow grown⟩
  | sound v =>
    refine {
      rx_eq := linked.rx_eq.trans stepped.rx_eq.symm
      kept := fun lane => ?_
      counted := ?_
      gone := fun lane gone => ?_
      ended := stepped.ended linked.ended }
    · obtain ⟨items,queue_eq,enqueued_eq⟩ := stepped.pushed lane
      rw [stepped.handed_eq,enqueued_eq,← linked.kept lane,queued,queue_eq]
      simp [queued]
    · have counted := linked.counted
      have balance := stepped.counted (by omega)
      omega
    · obtain ⟨empty,dead⟩ := linked.gone lane gone
      obtain ⟨dead',queue_eq⟩ := stepped.stays dead (linked.ended dead)
      exact ⟨queue_eq ▸ empty,dead'⟩

theorem Linked.withRunning (linked : ch.Linked g) (running : Option (Receiving P Receiving.Next)) :
    { ch with running }.Linked g := by
  cases g with
  | sound v => exact { linked with }
  | _ => exact linked

/-- The receiver is about to dequeue a bulk item over its pending tail. -/
def overtakesAt (ch : PacketChannel P) : RxOp P → Bool
  | .tryRecv .bulk => !ch.rx.pending.bulk.isEmpty && !ch.queue.bulk.isEmpty
  | _ => false

/-- An operation of the receiver, seen from the channel and from what is tracked of it. -/
def Performed (ch ch' : PacketChannel P) (g : Tracked P) (op : RxOp P) (r : op.Result) : Prop :=
  Tracked.Reads op r g ∧ ch'.Linked (Tracked.after op r g) ∧
    (Tracked.after op r g).isSound = (g.isSound && !ch.overtakesAt op)

variable {v : View P} {lane : PacketLane}

theorem Viewed.tryRecv_nil (viewed : ch.Viewed v) (none_queued : ch.queue.get lane = []) (answer : Bool) :
    Performed ch (ch.perform answer (.tryRecv lane)).2 (.sound v) (.tryRecv lane)
      (ch.perform answer (.tryRecv lane)).1 := by
  have calm : ch.overtakesAt (.tryRecv lane) = false := by
    cases lane with
    | priority => rfl
    | bulk => simp [overtakesAt,show ch.queue.bulk = [] from none_queued]
  simp only [perform,none_queued]
  cases alive : ch.sendersAlive with
  | true => exact ⟨trivial,viewed,by rw [calm]; rfl⟩
  | false =>
    refine ⟨trivial,{ viewed with gone := fun other gone => ?_ },by rw [calm]; rfl⟩
    rw [Lanes.get_set] at gone
    split at gone
    · rename_i same
      exact ⟨same ▸ none_queued,alive⟩
    · exact viewed.gone other gone

variable {item : PacketQueueItem P} {items : List (PacketQueueItem P)}

theorem Viewed.tryRecv_item (viewed : ch.Viewed v) (next : ch.queue.get lane = item :: items)
    (owes : v.Owes v.rx.pending 0) (free : v.owed.get lane = []) :
    ({ ch with queue := ch.queue.set lane items }).Viewed
      { v with
        owed := v.owed.set lane item.packets
        leaving := if lane = PacketLane.priority then item.packetCount else v.leaving } := by
  have counted := viewed.counted
  rw [owes.leaving_eq] at counted
  refine {
    rx_eq := viewed.rx_eq
    kept := fun other => ?_
    counted := ?_
    gone := fun other gone => ?_
    ended := viewed.ended }
  · have kept := viewed.kept other
    by_cases same : other = lane
    · subst same
      simp only [free,queued,next,queuedPackets_cons] at kept
      simp only [queued,Lanes.get_set,if_true,← kept]
      simp
    · simpa [queued,same] using kept
  · cases lane with
    | priority =>
      simp only [queued,next,queuedPackets_cons,length_append] at counted
      simp only [queued,Lanes.get_set,if_true,PacketQueueItem.packetCount]
      omega
    | bulk => simpa [queued,owes.leaving_eq] using counted
  · obtain ⟨empty,dead⟩ := viewed.gone other gone
    have different : other ≠ lane := by
      rintro rfl
      rw [next] at empty
      cases empty
    exact ⟨by simpa [different] using empty,dead⟩

theorem Viewed.overtaken (viewed : ch.Viewed v) {x : P} {rest : List P} (tail : v.owed.bulk = x :: rest)
    (next : ch.queue.bulk = item :: items) :
    (ch.handed.bulk ++ [x]) <+: ch.enqueued.bulk ∧ ch.Apart x item.first := by
  have kept : ch.handed.bulk ++ (x :: rest) ++ queuedPackets (item :: items) = ch.enqueued.bulk := by
    rw [← tail,← next]
    exact viewed.kept .bulk
  refine ⟨⟨rest ++ queuedPackets (item :: items),by simpa using kept⟩,fun distinct same => ?_⟩
  rw [← kept] at distinct
  refine (nodup_append.mp distinct).2.2 x ?_ x ?_ rfl
  · simp
  · simp [queuedPackets_cons,PacketQueueItem.packets,same]

theorem Viewed.perform (viewed : ch.Viewed v) {op : RxOp P}
    (promise : Tracked.pre true op (.sound v)) (answer : Bool) :
    Performed ch (ch.perform answer op).2 (.sound v) op (ch.perform answer op).1 := by
  cases op with
  | loadPriorityQueued => exact ⟨trivial,viewed,rfl⟩
  | getRx => exact ⟨viewed.rx_eq.symm,viewed,rfl⟩
  | releaseReserved lane count => exact ⟨trivial,{ viewed with },rfl⟩
  | setRx rx => exact ⟨trivial,{ viewed with rx_eq := rfl },rfl⟩
  | leaveChannel lane count =>
    refine ⟨trivial,?_,rfl⟩
    cases lane with
    | bulk => exact { viewed with }
    | priority =>
      have leaving : count = v.leaving := promise rfl
      refine { viewed with counted := ?_ }
      have counted := viewed.counted
      simp only [PacketChannel.perform,leaveChannel,queued,if_true] at counted ⊢
      omega
  | handOver lane packet =>
    obtain ⟨rest,due⟩ := promise
    refine ⟨trivial,{ viewed with kept := fun other => ?_ },rfl⟩
    have kept := viewed.kept other
    by_cases same : other = lane
    · subst same
      rw [due] at kept
      simpa [PacketChannel.perform,queued,due] using kept
    · simpa [PacketChannel.perform,queued,same] using kept
  | tryRecv lane =>
    obtain ⟨owes,clear⟩ := promise
    cases items : ch.queue.get lane with
    | nil => exact viewed.tryRecv_nil items answer
    | cons item rest =>
      simp only [PacketChannel.perform,items]
      refine ⟨trivial,?_⟩
      by_cases free : v.owed.get lane = []
      · simp only [Tracked.after,free,if_true]
        refine ⟨viewed.tryRecv_item items owes free,?_⟩
        cases lane with
        | priority => rfl
        | bulk =>
          have noTail : ch.rx.pending.bulk = [] := by
            rw [← viewed.rx_eq,← owes.owed_eq]
            exact free
          simp [overtakesAt,noTail,Tracked.isSound]
      · cases lane with
        | priority => exact absurd (owes.owed_eq ▸ clear (.inl rfl)) free
        | bulk =>
          simp only [Tracked.after,free,if_false]
          obtain ⟨x,tail,eq⟩ := exists_cons_of_ne_nil free
          refine ⟨⟨x,viewed.overtaken eq items⟩,?_⟩
          have pending : ch.rx.pending.bulk ≠ [] := by
            rw [← viewed.rx_eq,← owes.owed_eq]
            exact free
          simp [overtakesAt,pending,Tracked.isSound,show ch.queue.bulk = item :: rest from items]

theorem Linked.perform (linked : ch.Linked g) {op : RxOp P}
    (promise : Tracked.pre true op g) (answer : Bool) :
    Performed ch (ch.perform answer op).2 g op (ch.perform answer op).1 := by
  cases g with
  | sound v => exact Viewed.perform linked promise answer
  | overtaken y =>
    obtain ⟨x,due,apart⟩ := linked
    cases op with
    | tryRecv lane => exact promise.elim
    | handOver lane packet =>
      obtain ⟨rfl,rfl⟩ := promise
      exact ⟨trivial,⟨_,x,packet,due,prefix_rfl,apart⟩,rfl⟩
    | leaveChannel lane count =>
      cases lane <;> exact ⟨trivial,⟨x,due,apart⟩,rfl⟩
    | _ => exact ⟨trivial,⟨x,due,apart⟩,rfl⟩
  | lost =>
    obtain ⟨before,x,y,due,came,apart⟩ := linked
    cases op with
    | handOver lane packet =>
      refine ⟨trivial,⟨before,x,y,due,?_,apart⟩,rfl⟩
      cases lane with
      | priority => exact came
      | bulk => exact came.trans (prefix_append _ _)
    | leaveChannel lane count =>
      cases lane <;> exact ⟨trivial,⟨before,x,y,due,came,apart⟩,rfl⟩
    | tryRecv lane =>
      simp only [PacketChannel.perform]
      split
      · cases ch.sendersAlive <;> exact ⟨trivial,⟨before,x,y,due,came,apart⟩,rfl⟩
      · exact ⟨trivial,⟨before,x,y,due,came,apart⟩,rfl⟩
    | _ => exact ⟨trivial,⟨before,x,y,due,came,apart⟩,rfl⟩

open Receiving

/-- Between two steps the running call keeps the contract, and without one the tails are all that
the receiver owes. -/
structure Inv (ch : PacketChannel P) (g : Tracked P) : Prop where
  linked : ch.Linked g
  idle : ch.running = none → g.Settled
  runs : ∀ p,ch.running = some p → Keeps true p (tracking P true).Resumes g

/-- The step dequeues a bulk item over a pending tail. -/
def overtakes (ch : PacketChannel P) : Event P → Bool
  | .receive _ =>
    match ch.running with
    | some (.ask op _) => ch.overtakesAt op
    | _ => false
  | _ => false

theorem Inv.receive (inv : ch.Inv g) {answer : Bool} (received : ch.receive answer = some ch') :
    ∃ g',ch'.Inv g' ∧ g'.isSound = (g.isSound && !ch.overtakes (.receive answer)) := by
  unfold PacketChannel.receive at received
  cases running : ch.running with
  | none => simp [running] at received
  | some p =>
    have keeps := inv.runs p running
    simp only [running] at received
    cases p with
    | done next =>
      cases received
      have resumes : (tracking P true).Resumes next g := keeps
      refine ⟨g,⟨inv.linked.withRunning _,fun _ => resumes.settled,fun p' started => ?_⟩,
        by simp [overtakes,running]⟩
      cases next with
      | finished => cases started
      | recv =>
        cases started
        exact (tracking P true).recv resumes
      | select =>
        cases started
        exact (tracking P true).select resumes
    | ask op next =>
      cases received
      obtain ⟨reads,linked,sound⟩ := inv.linked.perform keeps.1 answer
      refine ⟨_,⟨linked.withRunning _,nofun,fun p' started => ?_⟩,by simpa [overtakes,running] using sound⟩
      cases started
      exact keeps.2 _ _ ⟨reads,rfl⟩

theorem Inv.senderStep (inv : ch.Inv g) (stepped : SenderStep ch ch') : ch'.Inv g where
  linked := inv.linked.senderStep stepped
  idle none := inv.idle (stepped.running_eq ▸ none)
  runs p running := inv.runs p (stepped.running_eq ▸ running)

section Runs

variable (isTransportPriority : P → Bool)

theorem Inv.step {ch ch' : PacketChannel P} {g : Tracked P} (inv : ch.Inv g) {event : Event P}
    (stepped : ch.step isTransportPriority event = some ch') :
    ∃ g',ch'.Inv g' ∧ g'.isSound = (g.isSound && !ch.overtakes event) := by
  have bySender (calm : ch.overtakes event = false) (step : SenderStep ch ch') :
      ∃ g',ch'.Inv g' ∧ g'.isSound = (g.isSound && !ch.overtakes event) :=
    ⟨g,inv.senderStep step,by simp [calm]⟩
  cases event with
  | send packet => exact bySender rfl (startSend_senderStep (starts_sendStart _ packet) stepped)
  | sendPacketBatch packets =>
    refine bySender rfl ?_
    simp only [PacketChannel.step] at stepped
    cases start : batchStart isTransportPriority packets with
    | none =>
      simp only [start] at stepped
      cases stepped
      exact .refl ch
    | some send =>
      simp only [start] at stepped
      exact startSend_senderStep (starts_batchStart start) stepped
  | sendStreamPacket packet =>
    exact bySender rfl (startSend_senderStep (starts_streamStart _ packet) stepped)
  | advance i contended => exact bySender rfl (advanceSend_senderStep stepped)
  | cancel i => exact bySender rfl (cancelSend_senderStep stepped)
  | dropSenders =>
    refine bySender rfl ?_
    simp only [PacketChannel.step] at stepped
    obtain ⟨empty,stepped⟩ := ite_none_right_eq_some.mp stepped
    cases stepped
    have none : ch.sends = [] := isEmpty_iff.mp empty
    exact { SenderStep.refl ch with ended := fun _ _ => none, stays := fun _ _ => ⟨rfl,rfl⟩ }
  | call call =>
    simp only [PacketChannel.step] at stepped
    obtain ⟨idle,stepped⟩ := ite_none_right_eq_some.mp stepped
    cases stepped
    have settled := inv.idle (isNone_iff_eq_none.mp idle)
    refine ⟨g,⟨inv.linked.withRunning _,nofun,fun p started => ?_⟩,by simp [overtakes]⟩
    cases started
    exact (tracking P true).program settled call
  | receive answer => exact inv.receive stepped
  | cancelRecv =>
    obtain ⟨asleep,rfl⟩ := cancelRecv_eq_some.1 stepped
    have resumes : (tracking P true).Resumes .select g := inv.runs _ asleep
    exact ⟨g,⟨inv.linked.withRunning _,fun _ => resumes.settled,nofun⟩,by simp [overtakes]⟩

/-- No step of the run dequeues a bulk item over a pending tail. -/
def clean (ch : PacketChannel P) : List (Event P) → Bool
  | [] => true
  | event :: events =>
    !ch.overtakes event &&
      match ch.step isTransportPriority event with
      | some ch' => clean ch' events
      | none => true

theorem Inv.run {ch' : PacketChannel P} : ∀ (events : List (Event P)) {ch : PacketChannel P} {g : Tracked P},
    ch.Inv g → ch.run isTransportPriority events = some ch' →
      ∃ g',ch'.Inv g' ∧ g'.isSound = (g.isSound && ch.clean isTransportPriority events)
  | [],ch,g,inv,ran => by
    cases ran
    exact ⟨g,inv,by simp [clean]⟩
  | event :: events,ch,g,inv,ran => by
    obtain ⟨next,stepped,ran⟩ := bind_eq_some_iff.mp ran
    obtain ⟨g',inv',sound⟩ := inv.step isTransportPriority stepped
    obtain ⟨g'',inv'',sound'⟩ := Inv.run events inv' ran
    exact ⟨g'',inv'',by rw [sound',sound,clean,stepped,Bool.and_assoc]⟩

theorem packetChannel_inv (buffer : Nat) :
    (packetChannel P buffer).Inv (.sound ⟨{},⟨[],[]⟩,0,⟨false,false⟩⟩) where
  linked := {
    rx_eq := rfl
    kept := fun lane => by cases lane <;> rfl
    counted := rfl
    gone := fun lane gone => by cases lane <;> cases gone
    ended := nofun }
  idle _ := ⟨rfl,rfl,fun lane closed => by cases lane <;> cases closed⟩
  runs := nofun

end Runs

/-! The receiver alone gets whatever is left in the channel. -/

/-- A program of the receiver without steps of others in between. -/
def alone {α : Type} : Receiving P α → PacketChannel P → α × PacketChannel P
  | .done a,ch => (a,ch)
  | .ask op next,ch => alone (next (ch.perform true op).1) (ch.perform true op).2

variable {α : Type}

theorem alone_bind {β : Type} (f : α → Receiving P β) :
    ∀ (p : Receiving P α) (ch : PacketChannel P), alone (p >>= f) ch = alone (f (alone p ch).1) (alone p ch).2
  | .done _,_ => rfl
  | .ask _ next,_ => alone_bind f (next _) _

theorem perform_running (ch : PacketChannel P) (answer : Bool) (op : RxOp P)
    (running : Option (Receiving P Next)) :
    ({ ch with running }).perform answer op =
      ((ch.perform answer op).1,{ (ch.perform answer op).2 with running }) := by
  cases op with
  | tryRecv lane =>
    simp only [perform]
    cases ch.queue.get lane <;> rfl
  | leaveChannel lane count => cases lane <;> rfl
  | _ => rfl

theorem run_alone (isTransportPriority : P → Bool) : ∀ (p : Receiving P Next) (ch : PacketChannel P),
    ∃ n,({ ch with running := some p }).run isTransportPriority (replicate n (.receive true)) =
      some { (alone p ch).2 with running := some (.done (alone p ch).1) }
  | .done next,ch => ⟨0,rfl⟩
  | .ask op next,ch => by
    obtain ⟨n,ran⟩ := run_alone isTransportPriority (next (ch.perform true op).1) (ch.perform true op).2
    refine ⟨n+1,?_⟩
    simp only [replicate_succ,run,step,receive,perform_running]
    exact ran

theorem alone_getRx (ch : PacketChannel P) : alone getRx ch = (ch.rx,ch) := rfl

theorem alone_takePending_nil (lane : PacketLane) (noTail : ch.rx.pending.get lane = []) :
    alone (takePending lane) ch = (none,ch) := by
  rw [takePending,alone_bind,alone_getRx]
  simp only [noTail]
  rfl

theorem alone_takePending_cons (lane : PacketLane) {packet : P} {rest : List P}
    (tail : ch.rx.pending.get lane = packet :: rest) : (alone (takePending lane) ch).1 = some packet := by
  rw [takePending,alone_bind,alone_getRx]
  simp only [tail]
  rfl

theorem alone_shouldProbePriority (ch : PacketChannel P) :
    alone shouldProbePriority ch =
      (!ch.rx.closed.priority && (decide (0 < ch.priorityQueuedPackets) || ch.rx.closed.bulk),ch) := by
  rw [shouldProbePriority,alone_bind,alone_getRx]
  cases closed : ch.rx.closed.priority with
  | true =>
    simp only [if_true]
    rfl
  | false =>
    simp only [Bool.false_eq_true,if_false]
    rfl

theorem alone_tryRecvLane_cons (lane : PacketLane) (queue : ch.queue.get lane = item :: items) :
    alone (tryRecvLane lane) ch = (.item item,{ ch with queue := ch.queue.set lane items }) := by
  change ch.perform true (.tryRecv lane) = _
  simp only [perform,queue]
  rfl

theorem alone_tryRecvLane_nil (lane : PacketLane) (queue : ch.queue.get lane = []) :
    alone (tryRecvLane lane) ch = (if ch.sendersAlive then .empty else .disconnected,ch) := by
  change ch.perform true (.tryRecv lane) = _
  simp only [perform,queue]
  rfl

theorem alone_fromBulk (some_left : ch.rx.pending.bulk ≠ [] ∨ ch.queue.bulk ≠ []) :
    ∃ packet,(alone tryRecv.fromBulk ch).1 = .ok packet := by
  rw [tryRecv.fromBulk,alone_bind]
  cases tail : ch.rx.pending.bulk with
  | cons packet rest =>
    rw [alone_takePending_cons .bulk tail]
    exact ⟨_,rfl⟩
  | nil =>
    obtain ⟨item,items,queue⟩ := exists_cons_of_ne_nil (some_left.resolve_left (· tail))
    rw [alone_takePending_nil .bulk tail]
    dsimp only
    rw [alone_bind,alone_tryRecvLane_cons .bulk queue]
    dsimp only
    rw [alone_bind]
    exact ⟨_,rfl⟩

/-- `try_recv` finds whatever is in the channel. -/
theorem Viewed.alone_tryRecv (viewed : ch.Viewed v) (settled : (Tracked.sound v).Settled)
    (some_left : ch.rx.pending.get lane ≠ [] ∨ ch.queue.get lane ≠ []) :
    ∃ packet,(alone tryRecv ch).1 = .ok packet := by
  rw [tryRecv,alone_bind]
  cases tail : ch.rx.pending.get .priority with
  | cons packet rest =>
    rw [alone_takePending_cons .priority tail]
    exact ⟨_,rfl⟩
  | nil =>
    rw [alone_takePending_nil .priority tail]
    dsimp only
    rw [alone_bind,alone_shouldProbePriority]
    cases queue : ch.queue.get .priority with
    | cons item items =>
      have heard : ch.rx.closed.priority = false := by
        cases closed : ch.rx.closed.priority with
        | false => rfl
        | true =>
          have gone := settled.gone .priority (viewed.rx_eq ▸ closed)
          have empty := (viewed.gone .priority gone).1
          rw [queue] at empty
          cases empty
      have counted : 0 < ch.priorityQueuedPackets := by
        rw [viewed.counted,queued,queue,queuedPackets_cons,PacketQueueItem.packets,length_append,
          length_cons]
        omega
      simp only [heard,counted,decide_true,Bool.not_false,Bool.true_or,Bool.and_true,if_true]
      rw [alone_bind,alone_tryRecvLane_cons .priority queue]
      dsimp only
      rw [alone_bind]
      exact ⟨_,rfl⟩
    | nil =>
      have bulk_left : ch.rx.pending.bulk ≠ [] ∨ ch.queue.bulk ≠ [] := by
        cases lane with
        | bulk => exact some_left
        | priority => exact absurd some_left (by simp [tail,queue])
      split
      · rw [alone_bind,alone_tryRecvLane_nil .priority queue]
        cases ch.sendersAlive with
        | true => exact alone_fromBulk bulk_left
        | false =>
          simp only [Bool.false_eq_true,if_false]
          rw [alone_bind]
          exact alone_fromBulk bulk_left
      · exact alone_fromBulk bulk_left

theorem alone_sound {post : α → Tracked P → Prop} :
    ∀ (p : Receiving P α) {ch : PacketChannel P} {v : View P},ch.Viewed v →
      Keeps false p post (.sound v) →
        ∃ v',(alone p ch).2.Viewed v' ∧ post (alone p ch).1 (.sound v')
  | .done _,_,v,viewed,keeps => ⟨v,viewed,keeps⟩
  | .ask op next,ch,v,viewed,keeps => by
    have promise : Tracked.pre true op (.sound v) := by
      have strict := keeps.1
      cases op with
      | tryRecv lane => exact ⟨strict.1,fun _ => strict.2 (.inr rfl)⟩
      | _ => exact strict
    have calm : ch.overtakesAt op = false := by
      cases op with
      | tryRecv lane =>
        cases lane with
        | priority => rfl
        | bulk =>
          have noTail : ch.rx.pending.bulk = [] := viewed.rx_eq ▸ keeps.1.2 (.inr rfl)
          simp [overtakesAt,noTail]
      | _ => rfl
    obtain ⟨reads,linked,sound⟩ := viewed.perform promise true
    have kept := keeps.2 _ _ ⟨reads,rfl⟩
    rw [calm] at sound
    generalize Tracked.after op (ch.perform true op).1 (.sound v) = g' at linked sound kept
    cases g' with
    | sound v' => exact alone_sound (next _) linked kept
    | _ => cases sound

def handedCount (ch : PacketChannel P) : Nat :=
  ch.handed.priority.length+ch.handed.bulk.length

def enqueuedCount (ch : PacketChannel P) : Nat :=
  ch.enqueued.priority.length+ch.enqueued.bulk.length

theorem perform_counts (ch : PacketChannel P) (answer : Bool) (op : RxOp P) :
    ch.handedCount ≤ (ch.perform answer op).2.handedCount ∧
      (ch.perform answer op).2.enqueued = ch.enqueued := by
  cases op with
  | handOver lane packet =>
    refine ⟨?_,rfl⟩
    cases lane <;> simp only [perform,handedCount,Lanes.set,Lanes.get,length_append] <;> omega
  | tryRecv lane =>
    simp only [perform]
    cases ch.queue.get lane <;> exact ⟨Nat.le_refl _,rfl⟩
  | leaveChannel lane count => cases lane <;> exact ⟨Nat.le_refl _,rfl⟩
  | _ => exact ⟨Nat.le_refl _,rfl⟩

theorem alone_counts : ∀ (p : Receiving P α) (ch : PacketChannel P),
    ch.handedCount ≤ (alone p ch).2.handedCount ∧ (alone p ch).2.enqueued = ch.enqueued
  | .done _,_ => ⟨Nat.le_refl _,rfl⟩
  | .ask op next,ch => by
    obtain ⟨le,eq⟩ := perform_counts ch true op
    obtain ⟨le',eq'⟩ := alone_counts (next (ch.perform true op).1) (ch.perform true op).2
    exact ⟨Nat.le_trans le le',eq'.trans eq⟩

theorem Viewed.alone_tryRecvCall (viewed : ch.Viewed v) (settled : (Tracked.sound v).Settled)
    (some_left : ch.rx.pending.get lane ≠ [] ∨ ch.queue.get lane ≠ []) :
    ch.handedCount < (alone tryRecvCall ch).2.handedCount ∧ (alone tryRecvCall ch).1 = .finished := by
  obtain ⟨⟨from_lane,packet⟩,ok⟩ := viewed.alone_tryRecv settled some_left
  have before := (alone_counts tryRecv ch).1
  rw [tryRecvCall,alone_bind,ok]
  dsimp only
  rw [alone_bind]
  refine ⟨Nat.lt_of_le_of_lt before ?_,rfl⟩
  change (alone tryRecv ch).2.handedCount < handedCount { (alone tryRecv ch).2 with
    handed := (alone tryRecv ch).2.handed.set from_lane
      ((alone tryRecv ch).2.handed.get from_lane ++ [packet]) }
  cases from_lane <;> simp only [handedCount,Lanes.set,Lanes.get,length_append,length_singleton] <;> omega

section Delivery

variable (isTransportPriority : P → Bool)

theorem run_append (ch : PacketChannel P) (events events' : List (Event P)) :
    ch.run isTransportPriority (events ++ events') =
      (ch.run isTransportPriority events).bind (·.run isTransportPriority events') := by
  induction events generalizing ch with
  | nil => rfl
  | cons event events ih =>
    simp only [cons_append,run,bind_eq_bind]
    cases ch.step isTransportPriority event with
    | none => rfl
    | some next => exact ih next

def Event.byReceiver : Event P → Bool
  | .call _ => true
  | .receive _ => true
  | _ => false

/-- In each lane the packets handed over, then the pending tail, then the queue are the packets
enqueued, in their order. -/
def InOrder (ch : PacketChannel P) : Prop :=
  ∀ lane,ch.handed.get lane ++ ch.rx.pending.get lane ++ ch.queued lane = ch.enqueued.get lane

/-- Calls of the receiver alone bring every packet that was enqueued to it. -/
def Deliverable (ch : PacketChannel P) : Prop :=
  ∃ events ch',(∀ event ∈ events,event.byReceiver = true) ∧
    ch.run isTransportPriority events = some ch' ∧
    ∀ lane,ch'.handed.get lane = ch.enqueued.get lane

theorem Viewed.inOrder {ch : PacketChannel P} {v : View P} (viewed : ch.Viewed v)
    (settled : (Tracked.sound v).Settled) : ch.InOrder := by
  intro lane
  rw [← viewed.kept lane,settled.owed_eq,viewed.rx_eq]

/-- One call of `try_recv`, from start to end. -/
theorem Viewed.tryRecv_once {ch : PacketChannel P} {v : View P} (viewed : ch.Viewed v)
    (settled : (Tracked.sound v).Settled) (idle : ch.running = none) {lane : PacketLane}
    (some_left : ch.rx.pending.get lane ≠ [] ∨ ch.queue.get lane ≠ []) :
    ∃ events ch' v',(∀ event ∈ events,event.byReceiver = true) ∧
      ch.run isTransportPriority events = some ch' ∧ ch'.Viewed v' ∧ (Tracked.sound v').Settled ∧
      ch'.running = none ∧ ch.handedCount < ch'.handedCount ∧ ch'.enqueued = ch.enqueued := by
  obtain ⟨n,ran⟩ := run_alone isTransportPriority tryRecvCall ch
  obtain ⟨more,finished⟩ := viewed.alone_tryRecvCall settled some_left
  obtain ⟨v',viewed',resumes⟩ := alone_sound tryRecvCall viewed ((tracking P false).tryRecvCall settled)
  refine ⟨.call .tryRecv :: (replicate n (.receive true) ++ [.receive true]),
    { (alone tryRecvCall ch).2 with running := none },v',?_,?_,{ viewed' with },resumes.settled,rfl,more,
    (alone_counts tryRecvCall ch).2⟩
  · intro event mem
    simp only [mem_cons,mem_append,mem_replicate,not_mem_nil,or_false] at mem
    rcases mem with rfl | ⟨-,rfl⟩ | rfl <;> rfl
  · have started : ch.step isTransportPriority (.call .tryRecv) =
        some { ch with running := some tryRecvCall } := by
      simp [step,idle,RxCall.program]
    rw [run,started]
    simp only [bind_eq_bind,bind_some,run_append,ran,run,step,receive,finished]
    rfl

theorem Viewed.deliverable : ∀ (n : Nat) {ch : PacketChannel P} {v : View P},ch.Viewed v →
    (Tracked.sound v).Settled → ch.running = none → ch.enqueuedCount-ch.handedCount ≤ n →
      ch.Deliverable isTransportPriority
  | n,ch,v,viewed,settled,idle,bound => by
    have inOrder := viewed.inOrder settled
    by_cases left : ∃ lane,ch.rx.pending.get lane ≠ [] ∨ ch.queue.get lane ≠ []
    · obtain ⟨lane,some_left⟩ := left
      obtain ⟨events,ch',v',own,ran,viewed',settled',idle',more,same⟩ :=
        viewed.tryRecv_once isTransportPriority settled idle some_left
      have within : ch'.handedCount ≤ ch'.enqueuedCount := by
        have priority := congrArg length (viewed'.inOrder settled' .priority)
        have bulk := congrArg length (viewed'.inOrder settled' .bulk)
        simp only [length_append,Lanes.get] at priority bulk
        unfold handedCount enqueuedCount
        omega
      have count_eq : ch'.enqueuedCount = ch.enqueuedCount := by
        rw [enqueuedCount,enqueuedCount,same]
      cases n with
      | zero => omega
      | succ n =>
        obtain ⟨events',last,own',ran',all⟩ :=
          Viewed.deliverable n viewed' settled' idle' (by omega)
        refine ⟨events ++ events',last,forall_mem_append.2 ⟨own,own'⟩,?_,fun lane => same ▸ all lane⟩
        rw [run_append,ran]
        exact ran'
    · refine ⟨[],ch,forall_mem_nil _,rfl,fun lane => ?_⟩
      have none_left := not_or.mp (not_exists.mp left lane)
      have kept := inOrder lane
      simpa [queued,queuedPackets,not_not.mp none_left.1,not_not.mp none_left.2] using kept

/-- Between its calls the receiver has got the packets of each lane in the order in which they were
enqueued, none twice, and can get the rest, in every run in which no bulk item was dequeued over a
pending tail, and in no other run in which the packets of the bulk lane can be told apart. -/
theorem run_hands_over_in_order_iff {ch : PacketChannel P} {buffer : Nat} {events : List (Event P)}
    (ran : (packetChannel P buffer).run isTransportPriority events = some ch) (idle : ch.running = none) :
    ((packetChannel P buffer).clean isTransportPriority events = true →
      ch.InOrder ∧ ch.Deliverable isTransportPriority) ∧
    (ch.enqueued.bulk.Nodup → ch.InOrder →
      (packetChannel P buffer).clean isTransportPriority events = true) := by
  obtain ⟨g,inv,sound⟩ := (packetChannel_inv buffer).run isTransportPriority events ran
  have settled := inv.idle idle
  rw [Tracked.isSound,Bool.true_and] at sound
  rw [← sound]
  cases g with
  | overtaken first => exact settled.elim
  | sound v =>
    refine ⟨fun _ => ⟨?_,?_⟩,fun _ _ => rfl⟩
    · exact Viewed.inOrder inv.linked settled
    · exact Viewed.deliverable isTransportPriority _ inv.linked settled idle (Nat.le_refl _)
  | lost =>
    refine ⟨nofun,fun distinct kept => ?_⟩
    obtain ⟨before,x,y,due,came,apart⟩ := inv.linked
    have handed : ch.handed.bulk <+: ch.enqueued.bulk :=
      ⟨_,(append_assoc _ _ _).symm.trans (kept .bulk)⟩
    have same : before ++ [x] = before ++ [y] :=
      (prefix_of_prefix_length_le due (came.trans handed) (by simp)).eq_of_length (by simp)
    exact absurd (singleton_inj.mp (append_cancel_left same)) (apart distinct)

end Delivery

def tailPending : List (Event Nat) :=
  .sendPacketBatch [1,2] :: replicate 4 (.advance 0 false) ++
    (.sendPacketBatch [3,4] :: replicate 4 (.advance 0 false)) ++
    (.call (.drainReady 1) :: replicate 14 (.receive true))

def announcedTooEarly : List (Event Nat) :=
  tailPending ++ (.send 9 :: replicate 3 (.advance 0 false)) ++
    (.call (.drainReady 1) :: replicate 14 (.receive true))

theorem run_hands_over_in_order_tail :
    ∃ ch,(packetChannel Nat 8).run (· == 9) tailPending = some ch ∧ ch.InOrder ∧
      ch.Deliverable (· == 9) := by
  obtain ⟨ch,ran,idle⟩ := map_eq_some_iff.mp (by decide +kernel :
    ((packetChannel Nat 8).run (· == 9) tailPending).map (·.running.isNone) = some true)
  have kept := run_hands_over_in_order_iff (· == 9) ran (isNone_iff_eq_none.mp idle)
  exact ⟨ch,ran,kept.1 (by decide +kernel)⟩

/-- The tail is overwritten: the packet 2 was enqueued, was never handed over and is nowhere left. -/
theorem tail_overwritten :
    ∃ ch,(packetChannel Nat 8).run (· == 9) announcedTooEarly = some ch ∧ ch.running.isNone = true ∧
      ch.enqueued.bulk = [1,2,3,4] ∧ ch.handed.bulk = [1,3] ∧ ch.rx.pending.bulk = [4] ∧
      ch.queue.bulk.isEmpty = true ∧ ¬ ch.InOrder := by
  obtain ⟨ch,ran,evaluated⟩ := map_eq_some_iff.mp (by decide +kernel :
    ((packetChannel Nat 8).run (· == 9) announcedTooEarly).map
      (fun ch => (ch.running.isNone,ch.enqueued.bulk,ch.handed.bulk,ch.rx.pending.bulk,
        ch.queue.bulk.isEmpty)) = some (true,[1,2,3,4],[1,3],[4],true))
  simp only [Prod.mk.injEq] at evaluated
  obtain ⟨idle,enqueued,handed,pending,empty⟩ := evaluated
  refine ⟨ch,ran,idle,enqueued,handed,pending,empty,fun inOrder => ?_⟩
  have kept : ch.handed.bulk ++ ch.rx.pending.bulk ++ queuedPackets ch.queue.bulk = ch.enqueued.bulk :=
    inOrder .bulk
  rw [enqueued,handed,pending,isEmpty_iff.mp empty] at kept
  exact absurd kept (by decide)

end PacketChannel

end Fips.Transport
