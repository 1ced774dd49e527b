import Fips.Transport.PacketChannel

set_option autoImplicit false

/-! What the receiver owes of the packets it has taken from the queues, followed through its
programs: a packet leaves its hands in order, unless a bulk item is taken while a tail is pending. -/

namespace Fips.Transport

open Receiving

variable {P : Type}

/-- The receiver's side of a channel: its fields, the packets it has taken and not handed over, the
priority packets it has not yet uncounted, and the lanes it has seen disconnected. -/
structure View (P : Type) where
  rx : PacketRx P
  owed : Lanes (List P)
  leaving : Nat
  gone : Lanes Bool

structure View.Owes (v : View P) (owed : Lanes (List P)) (leaving : Nat) : Prop where
  owed_eq : v.owed = owed
  leaving_eq : v.leaving = leaving
  gone : ∀ lane,v.rx.closed.get lane = true → v.gone.get lane = true

/-- After an item was taken over a pending tail its first packet is on the way to the caller, and
once it has arrived the order is broken for good. -/
inductive Tracked (P : Type) where
  | sound (v : View P)
  | overtaken (first : P)
  | lost

namespace Tracked

def isSound : Tracked P → Bool
  | .sound _ => true
  | _ => false

/-- The packets the receiver owes are its pending tails. -/
def Settled : Tracked P → Prop
  | .sound v => v.Owes v.rx.pending 0
  | .overtaken _ => False
  | .lost => True

def Holds (lane : PacketLane) (packet : P) : Tracked P → Prop
  | .sound v => v.Owes (v.rx.pending.set lane (packet :: v.rx.pending.get lane)) 0
  | .overtaken first => lane = .bulk ∧ packet = first
  | .lost => True

def Taken (lane : PacketLane) (item : PacketQueueItem P) : Tracked P → Prop
  | .sound v =>
    v.rx.pending.get lane = [] ∧
      v.Owes (v.rx.pending.set lane item.packets) (if lane = .priority then item.packetCount else 0)
  | .overtaken first => lane = .bulk ∧ item.first = first
  | .lost => True

def Clear (lane : PacketLane) : Tracked P → Prop
  | .sound v => v.rx.pending.get lane = []
  | _ => True

def Gone (lane : PacketLane) : Tracked P → Prop
  | .sound v => v.gone.get lane = true
  | _ => True

/-- What the receiver promises about an operation. Without `mayOvertake` it dequeues from no lane
whose tail is pending. -/
def pre (mayOvertake : Bool) : RxOp P → Tracked P → Prop
  | .tryRecv lane,.sound v =>
    v.Owes v.rx.pending 0 ∧ (lane = .priority ∨ mayOvertake = false → v.rx.pending.get lane = [])
  | .leaveChannel lane count,.sound v => lane = .priority → count = v.leaving
  | .setRx rx,.sound v => ∀ lane,rx.closed.get lane = true → v.gone.get lane = true
  | .handOver lane packet,.sound v => ∃ rest,v.owed.get lane = packet :: rest
  | .tryRecv _,.overtaken _ => False
  | .handOver lane packet,.overtaken first => lane = .bulk ∧ packet = first
  | _,_ => True

/-- The tracked state after an operation with a given result. -/
def after : (op : RxOp P) → op.Result → Tracked P → Tracked P
  | .tryRecv lane,.item item,.sound v =>
    if v.owed.get lane = [] then
      .sound { v with
        owed := v.owed.set lane item.packets
        leaving := if lane = .priority then item.packetCount else v.leaving }
    else .overtaken item.first
  | .tryRecv lane,.disconnected,.sound v => .sound { v with gone := v.gone.set lane true }
  | .leaveChannel lane _,_,.sound v =>
    .sound { v with leaving := if lane = .priority then 0 else v.leaving }
  | .setRx rx,_,.sound v => .sound { v with rx := rx }
  | .handOver lane _,_,.sound v => .sound { v with owed := v.owed.set lane (v.owed.get lane).tail }
  | .handOver _ _,_,.overtaken _ => .lost
  | _,_,g => g

/-- The only operation whose result the receiver can predict. -/
def Reads : (op : RxOp P) → op.Result → Tracked P → Prop
  | .getRx,rx,.sound v => rx = v.rx
  | _,_,_ => True

end Tracked

/-- The receiver's promise: with or without overtaking. -/
def rxContract (P : Type) (mayOvertake : Bool) :
    Program.Contract (RxOp P) RxOp.Result (Tracked P) where
  pre := Tracked.pre mayOvertake
  rel op g r g' := Tracked.Reads op r g ∧ g' = Tracked.after op r g

namespace Receiving

open Program Tracked

variable {mayOvertake : Bool} {g : Tracked P}

/-- A program keeps the contract from a tracked state and ends in `post`. -/
abbrev Keeps (mayOvertake : Bool) {α : Type} (p : Receiving P α) (post : α → Tracked P → Prop)
    (g : Tracked P) : Prop :=
  Program.Meets (rxContract P mayOvertake) post p g

theorem keeps_op {op : RxOp P} {post : op.Result → Tracked P → Prop} (promise : pre mayOvertake op g)
    (afterwards : ∀ r,Reads op r g → post r (after op r g)) :
    Keeps mayOvertake (Program.perform op) post g :=
  ⟨promise,fun r _ related => related.2 ▸ afterwards r related.1⟩

theorem keeps_getRx {post : PacketRx P → Tracked P → Prop}
    (sound : ∀ v,g = .sound v → post v.rx g) (unsound : g.isSound = false → ∀ rx,post rx g) :
    Keeps mayOvertake getRx post g := by
  refine keeps_op ?_ fun rx reads => ?_
  · cases g <;> exact trivial
  · cases g with
    | sound v =>
      cases (show rx = v.rx from reads)
      exact sound v rfl
    | overtaken first => exact unsound rfl rx
    | lost => exact unsound rfl rx

theorem keeps_releaseReserved (lane : PacketLane) (count : Nat) :
    Keeps mayOvertake (releaseReserved lane count) (fun _ g' => g' = g) g := by
  refine keeps_op ?_ fun r _ => ?_
  all_goals cases g <;> trivial

theorem keeps_shouldProbePriority :
    Keeps mayOvertake shouldProbePriority (fun _ g' => g' = g) g := by
  have load : Keeps mayOvertake loadPriorityQueued (fun _ g' => g' = g) g := by
    refine keeps_op ?_ fun r _ => ?_
    all_goals cases g <;> trivial
  have decided (rx : PacketRx P) :
      Keeps mayOvertake
        (if rx.closed.priority = true then (return false) else do
          let queued ← loadPriorityQueued
          return decide (0 < queued) || rx.closed.bulk)
        (fun _ g' => g' = g) g := by
    split
    · exact rfl
    · exact load.bind fun _ _ => id
  refine Meets.bind (q := fun _ g' => g' = g) ?_ fun rx g' same => same ▸ decided rx
  exact keeps_getRx (fun _ _ => rfl) fun _ _ => rfl

theorem keeps_lost {α : Type} {post : α → Tracked P → Prop} (any : ∀ a,post a .lost) :
    ∀ p : Receiving P α,Keeps mayOvertake p post .lost
  | .done a => any a
  | .ask op next => by
    have stays (r : op.Result) : after op r (.lost : Tracked P) = .lost := by
      cases op with
      | tryRecv lane => cases r <;> rfl
      | _ => rfl
    refine ⟨by cases op <;> exact trivial,fun r g' related => ?_⟩
    rw [related.2,stays r]
    exact keeps_lost any (next r)

theorem keeps_setRx {rx : PacketRx P} {post : Unit → Tracked P → Prop}
    (sound : ∀ v, g = .sound v → (∀ lane,
      rx.closed.get lane = true → v.gone.get lane = true) ∧ post () (.sound { v with rx := rx }))
    (unsound : g.isSound = false → post () g) :
          Keeps mayOvertake (setRx rx) post g := by
  refine keeps_op ?_ fun r _ => ?_
  · cases g with
    | sound v => exact (sound v rfl).1
    | _ => exact trivial
  · cases g with
    | sound v => exact (sound v rfl).2
    | _ => exact unsound rfl

theorem keeps_takePending (lane : PacketLane) (settled : g.Settled) :
    Keeps mayOvertake (takePending lane)
      (fun taken g' => match taken with
        | none => g' = g ∧ g'.Clear lane
        | some packet => g'.Holds lane packet) g := by
  cases g with
  | overtaken first => exact settled.elim
  | lost => exact keeps_lost (fun taken => by cases taken <;> simp [Clear,Holds]) _
  | sound v =>
    refine Meets.bind (q := fun rx g' => rx = v.rx ∧ g' = .sound v) ?_ ?_
    · exact keeps_getRx (fun v' same => by cases same; exact ⟨rfl,rfl⟩) nofun
    · rintro rx g' ⟨rfl,rfl⟩
      cases tail : v.rx.pending.get lane with
      | nil => exact ⟨rfl,tail⟩
      | cons packet rest =>
        refine (keeps_releaseReserved lane 1).bind ?_
        rintro _ g' rfl
        refine Meets.bind (q := fun _ g' => g'.Holds lane packet) ?_ fun _ _ => id
        refine keeps_setRx (fun v' same => ?_) nofun
        cases same
        refine ⟨settled.gone,?_,settled.leaving_eq,settled.gone⟩
        simp only [Lanes.set_set,Lanes.get_set,if_true,← tail,Lanes.set_get]
        exact settled.owed_eq

theorem keeps_setClosed (lane : PacketLane) (settled : g.Settled) (gone : g.Gone lane) :
    Keeps mayOvertake (setClosed lane)
      (fun _ g' => g'.Settled ∧ ∀ other,g.Clear other → g'.Clear other) g := by
  cases g with
  | overtaken first => exact settled.elim
  | lost => exact keeps_lost (fun _ => ⟨trivial,fun _ => id⟩) _
  | sound v =>
    refine Meets.bind (q := fun rx g' => rx = v.rx ∧ g' = .sound v) ?_ ?_
    · exact keeps_getRx (fun v' same => by cases same; exact ⟨rfl,rfl⟩) nofun
    · rintro rx g' ⟨rfl,rfl⟩
      have closed (other : PacketLane) :
          (v.rx.closed.set lane true).get other = true → v.gone.get other = true := by
        rw [Lanes.get_set]
        split
        · rename_i same
          exact fun _ => same ▸ gone
        · exact settled.gone other
      refine keeps_setRx (fun v' same => ?_) nofun
      cases same
      exact ⟨closed,⟨settled.owed_eq,settled.leaving_eq,closed⟩,fun _ => id⟩

def Uncounted (lane : PacketLane) (item : PacketQueueItem P) : Tracked P → Prop
  | .sound v => v.rx.pending.get lane = [] ∧ v.Owes (v.rx.pending.set lane item.packets) 0
  | g => g.Taken lane item

variable {item : PacketQueueItem P} {lane : PacketLane}

theorem keeps_leaveChannel (taken : g.Taken lane item) :
    Keeps mayOvertake (leaveChannel lane item.packetCount) (fun _ g' => Uncounted lane item g') g := by
  refine keeps_op ?_ fun r _ => ?_
  · cases g with
    | sound v =>
      intro priority
      rw [taken.2.leaving_eq,if_pos priority]
    | _ => exact trivial
  · cases g with
    | sound v =>
      refine ⟨taken.1,taken.2.owed_eq,?_,taken.2.gone⟩
      have leaving := taken.2.leaving_eq
      by_cases priority : lane = .priority
      · exact if_pos priority
      · rw [if_neg priority] at leaving
        exact (if_neg priority).trans leaving
    | _ => exact taken

theorem keeps_storeTail (uncounted : Uncounted lane item g) :
    Keeps mayOvertake (storeTail lane item.rest) (fun _ g' => g'.Holds lane item.first) g := by
  refine Meets.bind (q := fun rx g' => g' = g ∧ ∀ v,g = .sound v → rx = v.rx) ?_ ?_
  · refine keeps_getRx (fun v same => ⟨rfl,fun v' same' => ?_⟩) fun unsound rx => ⟨rfl,?_⟩
    · cases same.symm.trans same'
      rfl
    · rintro v rfl
      cases unsound
  · rintro rx g' ⟨rfl,reads⟩
    refine Meets.bind (q := fun _ g' => g'.Holds lane item.first) ?_ ?_
    · refine keeps_setRx (fun v same => ?_) fun unsound => ?_
      · cases same
        cases reads v rfl
        refine ⟨uncounted.2.gone,?_,uncounted.2.leaving_eq,uncounted.2.gone⟩
        simp only [Lanes.set_set,Lanes.get_set,if_true]
        exact uncounted.2.owed_eq
      · cases g' with
        | sound v => cases unsound
        | overtaken first => exact uncounted
        | lost => trivial
    · intro _ g' holds
      exact (keeps_releaseReserved lane _).mono fun _ _ same => same ▸ holds

theorem keeps_packetFromItem (item : PacketQueueItem P) (lane : PacketLane) (taken : g.Taken lane item) :
    Keeps mayOvertake (packetFromItem item lane)
      (fun packet g' => g'.Holds lane packet) g := by
  refine (keeps_leaveChannel taken).bind fun _ g uncounted => ?_
  refine (keeps_releaseReserved lane 1).bind ?_
  rintro _ g' rfl
  by_cases single : item.rest.isEmpty = true
  · rw [if_pos single]
    cases g' with
    | sound v =>
      refine ⟨?_,uncounted.2.leaving_eq,uncounted.2.gone⟩
      rw [uncounted.1,uncounted.2.owed_eq,PacketQueueItem.packets,List.isEmpty_iff.mp single]
    | overtaken first => exact uncounted
    | lost => trivial
  · rw [if_neg single]
    exact (keeps_storeTail uncounted).bind fun _ _ => id

theorem keeps_handOver {packet : P} (holds : g.Holds lane packet) :
    Keeps mayOvertake (handOver lane packet) (fun _ g' => g'.Settled) g := by
  refine keeps_op ?_ fun answer _ => ?_
  · cases g with
    | sound v =>
      refine ⟨v.rx.pending.get lane,?_⟩
      rw [holds.owed_eq,Lanes.get_set,if_pos rfl]
    | overtaken first => exact holds
    | lost => trivial
  · cases g with
    | sound v =>
      refine ⟨?_,holds.leaving_eq,holds.gone⟩
      simp [holds.owed_eq]
    | overtaken first => trivial
    | lost => trivial

/-- Dequeuing from a lane; over a pending tail only where that is allowed. -/
theorem keeps_tryRecvLane (settled : g.Settled)
    (clear : lane = .priority ∨ mayOvertake = false → g.Clear lane) :
    Keeps mayOvertake (tryRecvLane lane)
      (fun received g' => match received with
        | .item item => g'.Taken lane item
        | .empty => g' = g
        | .disconnected => g'.Settled ∧ g'.Gone lane ∧ ∀ other,g.Clear other → g'.Clear other) g := by
  cases g with
  | overtaken first => exact settled.elim
  | lost => exact keeps_lost (fun received => by cases received <;> simp [Taken,Settled,Gone]) _
  | sound v =>
    refine keeps_op ⟨settled,clear⟩ fun received _ => ?_
    cases received with
    | empty => rfl
    | disconnected =>
      refine ⟨⟨settled.owed_eq,settled.leaving_eq,fun other closed => ?_⟩,?_,fun _ => id⟩
      · rw [Lanes.get_set]
        split
        · rfl
        · exact settled.gone other closed
      · simp [Gone,after]
    | item item =>
      by_cases tail : v.rx.pending.get lane = []
      · have free : v.owed.get lane = [] := by rw [settled.owed_eq,tail]
        simp only [after,free,if_true]
        refine ⟨tail,?_,?_,settled.gone⟩
        · rw [settled.owed_eq]
        · rw [settled.leaving_eq]
      · have taken : v.owed.get lane ≠ [] := by rw [settled.owed_eq]; exact tail
        simp only [after,taken,if_false]
        refine ⟨?_,rfl⟩
        cases lane with
        | priority => exact absurd (clear (.inl rfl)) tail
        | bulk => rfl

end Receiving

/-- Predicates on a ghost state that the receiver's basic programs follow. -/
structure Handling (P : Type) {G : Type} (contract : Program.Contract (RxOp P) RxOp.Result G)
    (mayOvertake : Bool) where
  Settled : G → Prop
  Clear : PacketLane → G → Prop
  Gone : PacketLane → G → Prop
  Taken : PacketLane → PacketQueueItem P → G → Prop
  Holds : PacketLane → P → G → Prop
  getRx (g : G) : getRx.Meets contract (fun _ g' => g' = g) g
  shouldProbePriority (g : G) : shouldProbePriority.Meets contract (fun _ g' => g' = g) g
  takePending {g : G} (lane : PacketLane) (settled : Settled g) :
    (takePending lane).Meets contract (fun taken g' => match taken with
      | none => g' = g ∧ Clear lane g'
      | some packet => Holds lane packet g') g
  setClosed {g : G} (lane : PacketLane) (settled : Settled g) (gone : Gone lane g) :
    (setClosed lane).Meets contract (fun _ g' => Settled g' ∧ ∀ other,Clear other g → Clear other g') g
  packetFromItem {g : G} (item : PacketQueueItem P) (lane : PacketLane) (taken : Taken lane item g) :
    (packetFromItem item lane).Meets contract (fun packet g' => Holds lane packet g') g
  handOver {g : G} {lane : PacketLane} {packet : P} (holds : Holds lane packet g) :
    (handOver lane packet).Meets contract (fun _ g' => Settled g') g
  tryRecvLane {g : G} {lane : PacketLane} (settled : Settled g)
    (clear : lane = .priority ∨ mayOvertake = false → Clear lane g) :
    (tryRecvLane lane).Meets contract (fun received g' => match received with
      | .item item => Taken lane item g'
      | .empty => g' = g
      | .disconnected => Settled g' ∧ Gone lane g' ∧ ∀ other,Clear other g → Clear other g') g

def tracking (P : Type) (mayOvertake : Bool) : Handling P (rxContract P mayOvertake) mayOvertake where
  Settled := Tracked.Settled
  Clear := Tracked.Clear
  Gone := Tracked.Gone
  Taken := Tracked.Taken
  Holds := Tracked.Holds
  getRx _ := keeps_getRx (fun _ _ => rfl) fun _ _ => rfl
  shouldProbePriority _ := keeps_shouldProbePriority
  takePending := keeps_takePending
  setClosed := keeps_setClosed
  packetFromItem := keeps_packetFromItem
  handOver := keeps_handOver
  tryRecvLane := keeps_tryRecvLane

namespace Handling

open Receiving

variable {G : Type} {contract : Program.Contract (RxOp P) RxOp.Result G} {mayOvertake : Bool}

section Phases

variable (k : Handling P contract mayOvertake)

def Idle (g : G) : Prop := k.Settled g ∧ k.Clear .priority g ∧ k.Clear .bulk g

def Answered (result : Except TryRecvError (PacketLane × P)) (g : G) : Prop :=
  match result with
  | .ok (lane,packet) => k.Holds lane packet g
  | .error _ => k.Idle g

/-- What holds when a call's program ends: only the `select!` relies on there being no tail. -/
def Resumes (next : Next) (g : G) : Prop :=
  match next with
  | .select => k.Idle g
  | _ => k.Settled g

def Drained (lane : PacketLane) (result : Bool × Nat) (g : G) : Prop :=
  k.Settled g ∧ (result.1 = true → 0 < result.2 → k.Clear lane g)

end Phases

variable {k : Handling P contract mayOvertake} {g : G}

theorem Resumes.settled {next : Next} (resumes : k.Resumes next g) : k.Settled g := by
  cases next with
  | select => exact resumes.1
  | _ => exact resumes

section Receivers

variable (k)

theorem fromBulk (settled : k.Settled g) (clear : k.Clear .priority g) :
    tryRecv.fromBulk.Meets contract k.Answered g := by
  refine (k.takePending .bulk settled).bind fun taken g' pending => ?_
  cases taken with
  | some packet => exact pending
  | none =>
    obtain ⟨rfl,noTail⟩ := pending
    refine (k.tryRecvLane settled fun _ => noTail).bind fun received g'' dequeued => ?_
    have reported {g'' : G} (idle : k.Idle g'') (f : PacketRx P → TryRecvError) :
        (do return Except.error (f (← Receiving.getRx)) : Receiving P _).Meets contract k.Answered g'' :=
      (k.getRx g'').bind fun _ _ same => same ▸ idle
    cases received with
    | item item => exact (k.packetFromItem item .bulk dequeued).bind fun _ _ => id
    | empty =>
      cases dequeued
      exact reported ⟨settled,clear,noTail⟩ _
    | disconnected =>
      obtain ⟨settled',gone,kept⟩ := dequeued
      refine (k.setClosed .bulk settled' gone).bind fun _ _ closed => ?_
      exact reported ⟨closed.1,closed.2 _ (kept _ clear),closed.2 _ (kept _ noTail)⟩ _

theorem tryRecv (settled : k.Settled g) : tryRecv.Meets contract k.Answered g := by
  refine (k.takePending .priority settled).bind fun taken g' pending => ?_
  cases taken with
  | some packet => exact pending
  | none =>
    obtain ⟨rfl,clear⟩ := pending
    refine (k.shouldProbePriority g').bind ?_
    rintro probe g' rfl
    cases probe with
    | false => exact k.fromBulk settled clear
    | true =>
      refine (k.tryRecvLane settled fun _ => clear).bind fun received g'' dequeued => ?_
      cases received with
      | item item => exact (k.packetFromItem item .priority dequeued).bind fun _ _ => id
      | empty =>
        cases dequeued
        exact k.fromBulk settled clear
      | disconnected =>
        obtain ⟨settled',gone,kept⟩ := dequeued
        refine (k.setClosed .priority settled' gone).bind fun _ _ closed => ?_
        exact k.fromBulk closed.1 (closed.2 _ (kept _ clear))

theorem tryRecvCall (settled : k.Settled g) : tryRecvCall.Meets contract k.Resumes g := by
  refine (k.tryRecv settled).bind fun result g' answered => ?_
  cases result with
  | ok packet => exact (k.handOver answered).bind fun _ _ => id
  | error e => exact answered.1

theorem selectLane {lane : PacketLane} {otherwise : Receiving P Next} (idle : k.Idle g)
    (next : ∀ g',k.Idle g' → otherwise.Meets contract k.Resumes g') :
    (selectLane lane otherwise).Meets contract k.Resumes g := by
  refine (k.getRx g).bind ?_
  rintro rx g' rfl
  split
  · exact next _ idle
  · have clear : k.Clear lane g' := by
      cases lane with
      | priority => exact idle.2.1
      | bulk => exact idle.2.2
    refine (k.tryRecvLane idle.1 fun _ => clear).bind fun received g'' dequeued => ?_
    cases received with
    | item item =>
      refine (k.packetFromItem item lane dequeued).bind fun packet _ holds => ?_
      exact (k.handOver holds).bind fun _ _ => id
    | empty =>
      cases dequeued
      exact next _ idle
    | disconnected => exact (k.setClosed lane dequeued.1 dequeued.2.1).bind fun _ _ closed => closed.1

theorem select (idle : k.Idle g) : select.Meets contract k.Resumes g :=
  k.selectLane idle fun _ idle => k.selectLane idle fun _ => id

theorem recv (settled : k.Settled g) : recv.Meets contract k.Resumes g := by
  refine (k.tryRecv settled).bind fun result g' answered => ?_
  cases result with
  | ok packet => exact (k.handOver answered).bind fun _ _ => id
  | error e =>
    cases e with
    | disconnected => exact answered.1
    | empty => exact k.select answered

theorem drainPendingPriority : ∀ (room : Nat) {g : G},k.Settled g →
    (drainPendingPriority room).Meets contract (fun result g' => k.Drained .priority result g' ∧
      result.2 ≤ room) g
  | 0,_,settled => ⟨⟨settled,fun _ room => absurd room (Nat.lt_irrefl 0)⟩,Nat.le_refl 0⟩
  | room+1,_,settled => by
    refine (k.takePending .priority settled).bind fun taken g' pending => ?_
    cases taken with
    | none =>
      obtain ⟨rfl,clear⟩ := pending
      exact ⟨⟨settled,fun _ _ => clear⟩,Nat.le_refl _⟩
    | some packet =>
      refine (k.handOver pending).bind fun answer g'' settled' => ?_
      cases answer with
      | true =>
        exact (drainPendingPriority room settled').mono fun _ _ drained => drained.imp_right Nat.le_succ_of_le
      | false => exact ⟨⟨settled',nofun⟩,Nat.le_succ room⟩

theorem drainPendingBulk : ∀ (room : Nat) {g : G},k.Settled g →
    (drainPendingBulk room).Meets contract (fun result g' => k.Settled g' ∧ result.2 ≤ room) g
  | 0,_,settled => ⟨settled,Nat.le_refl 0⟩
  | room+1,g,settled => by
    refine (k.shouldProbePriority g).bind ?_
    rintro probe g' rfl
    cases probe with
    | true => exact ⟨settled,Nat.le_refl _⟩
    | false =>
      refine (k.takePending .bulk settled).bind fun taken g' pending => ?_
      cases taken with
      | none =>
        obtain ⟨rfl,-⟩ := pending
        exact ⟨settled,Nat.le_refl _⟩
      | some packet =>
        refine (k.handOver pending).bind fun answer g'' settled' => ?_
        cases answer with
        | true =>
          exact (drainPendingBulk room settled').mono fun _ _ drained => drained.imp_right Nat.le_succ_of_le
        | false => exact ⟨settled',Nat.le_succ room⟩

theorem drainItem {lane : PacketLane} {item : PacketQueueItem P} (room : Nat) (taken : k.Taken lane item g) :
    (drainItem item lane room).Meets contract (fun result g' => k.Settled g' ∧ result.2 ≤ room-1) g := by
  refine (k.packetFromItem item lane taken).bind fun packet g' holds => ?_
  refine (k.handOver holds).bind fun answer g'' settled => ?_
  cases answer with
  | false => exact ⟨settled,Nat.le_refl _⟩
  | true =>
    cases lane with
    | priority => exact (k.drainPendingPriority _ settled).mono fun _ _ drained => drained.imp_left And.left
    | bulk => exact k.drainPendingBulk _ settled

end Receivers

variable (k : Handling P contract true)

theorem drainBulk (room : Nat) (settled : k.Settled g) :
    (drainBulk room).Meets contract (fun result g' => k.Settled g' ∧
      (result.1 = true → result.2 < room)) g := by
  refine (k.drainPendingBulk room settled).bind fun result g' drained => ?_
  obtain ⟨goOn,left⟩ := result
  obtain ⟨settled',le⟩ := drained
  dsimp only at le ⊢
  split
  · exact ⟨settled',nofun⟩
  · rename_i going
    simp only [Bool.or_eq_true,beq_iff_eq,not_or] at going
    refine (k.tryRecvLane settled' (by simp)).bind fun received g'' dequeued => ?_
    cases received with
    | item item => exact (k.drainItem left dequeued).mono fun _ _ drained => ⟨drained.1,fun _ => by omega⟩
    | empty => exact ⟨dequeued ▸ settled',nofun⟩
    | disconnected =>
      exact (k.setClosed .bulk dequeued.1 dequeued.2.1).bind fun _ _ closed => ⟨closed.1,nofun⟩

/-- A turn that goes on has used some of the room. -/
theorem drainTurn (room : Nat) (settled : k.Settled g) :
    (drainTurn room).Meets contract (fun result g' => k.Settled g' ∧
      (result.1 = true → result.2 < room)) g := by
  refine (k.drainPendingPriority room settled).bind fun result g' drained => ?_
  obtain ⟨goOn,left⟩ := result
  obtain ⟨drained,le⟩ := drained
  dsimp only at le ⊢
  have bulk {g' : G} (settled' : k.Settled g') :
      (Receiving.drainBulk left).Meets contract (fun result g' => k.Settled g' ∧
        (result.1 = true → result.2 < room)) g' :=
    (k.drainBulk left settled').mono fun _ _ used => used.imp_right fun used goOn =>
      Nat.lt_of_lt_of_le (used goOn) le
  split
  · exact ⟨drained.1,nofun⟩
  · rename_i going
    simp only [Bool.or_eq_true,Bool.not_eq_true',beq_iff_eq,not_or] at going
    have clear : k.Clear .priority g' := drained.2 (by simpa using going.1) (Nat.pos_of_ne_zero going.2)
    refine (k.shouldProbePriority g').bind ?_
    rintro probe g'' rfl
    cases probe with
    | false => exact bulk drained.1
    | true =>
      refine (k.tryRecvLane drained.1 fun _ => clear).bind fun received g'' dequeued => ?_
      cases received with
      | item item => exact (k.drainItem left dequeued).mono fun _ _ drained => ⟨drained.1,fun _ => by omega⟩
      | empty => exact dequeued ▸ bulk drained.1
      | disconnected =>
        refine (k.setClosed .priority dequeued.1 dequeued.2.1).bind fun _ _ closed => ?_
        exact bulk closed.1

theorem drainTurns : ∀ (turns room : Nat) {g : G},k.Settled g →
    (drainTurns turns room).Meets contract (fun _ g' => k.Settled g') g
  | 0,_,_,settled => settled
  | turns+1,room,_,settled => by
    unfold Receiving.drainTurns
    split
    · exact settled
    · refine (k.drainTurn room settled).bind fun result g' used => ?_
      obtain ⟨goOn,left⟩ := result
      dsimp only
      split
      · exact drainTurns turns left used.1
      · exact used.1

theorem program (settled : k.Settled g) (call : RxCall) : call.program.Meets contract k.Resumes g := by
  cases call with
  | tryRecv => exact k.tryRecvCall settled
  | recv => exact k.recv settled
  | drainReady limit =>
    refine Program.Meets.bind (q := fun _ g' => k.Settled g') ?_ fun _ _ => id
    exact (k.drainTurns limit limit settled).bind fun _ _ => id

end Handling

end Fips.Transport
