import Fips.Dataplane.Admission
import Fips.Lib.CutIn

set_option autoImplicit false

/-! How long an owner waits for its turn. -/

namespace Fips.Dataplane.OwnerAdmissionQueues

variable {T : Type}

inductive Op (T : Type) where
  | pushRunBack (owner : OwnerId) (lane : Lane) (items : List T)
  | push (item : T) (front : Bool)
  | popNextRunInto (lane : Lane) (limit : Nat)
  | popLane (lane : Lane)
  | popOwnerContinue (cursor : OwnerAdmissionCursor)
  | continueOwnerLane (cursor : OwnerAdmissionCursor)
  | deferOwnerRun (cursor : OwnerAdmissionCursor) (items : List T)
  | wakeOwner (owner : OwnerId)

section Runs

variable [OwnerQueuedAdmission T]

def exec (q : OwnerAdmissionQueues T) : Op T → OwnerAdmissionQueues T
  | .pushRunBack owner lane items => (q.pushRunBack owner lane items).2
  | .push item front => (q.push item front).2
  | .popNextRunInto lane limit => (q.popNextRunInto lane limit).2.2
  | .popLane lane => (q.popLane lane).2.2
  | .popOwnerContinue cursor => ((q.popOwnerContinue cursor).map (·.2.2)).getD q
  | .continueOwnerLane cursor => q.continueOwnerLane cursor
  | .deferOwnerRun cursor items => q.deferOwnerRun cursor items
  | .wakeOwner owner => q.wakeOwner owner

def run (q : OwnerAdmissionQueues T) (ops : List (Op T)) : OwnerAdmissionQueues T := ops.foldl exec q

end Runs

def readyPops (q : OwnerAdmissionQueues T) (lane : Lane) : Op T → List OwnerId
  | .popNextRunInto lane' limit => if lane = lane' then (q.popNextRunInto lane' limit).1 else []
  | .popLane lane' => if lane = lane' then (q.popLane lane').1 else []
  | _ => []

def runReadyPops [OwnerQueuedAdmission T] (lane : Lane) : OwnerAdmissionQueues T → List (Op T) → List OwnerId
  | _,[] => []
  | q,op :: ops => q.readyPops lane op ++ runReadyPops lane (q.exec op) ops

def line (q : OwnerAdmissionQueues T) (lane : Lane) : Line OwnerId :=
  ⟨q.ready.get lane,if lane = .bulk then q.bulkCutInDebt else 0⟩

variable (q : OwnerAdmissionQueues T)

theorem pushReady_moves (owner : OwnerId) (lane : Lane) (front : Bool)
    (cuts : front → lane = .bulk) (lane' : Lane) :
    Line.Moves (lane' = .bulk) (q.line lane') [] ((q.pushReady owner lane front).line lane') := by
  unfold pushReady
  split_ifs with inside cutting
  · exact .refl _
  · obtain ⟨isFront,-,paid⟩ := cutting
    obtain rfl := cuts isFront
    by_cases same : lane' = .bulk
    · subst same
      have cut := Line.Moves.cut (q.ready.get .bulk) owner (rfl : Lane.bulk = .bulk)
      simpa only [line,paid,PerLane.get_set_self,if_true] using cut
    · simp only [line,PerLane.get_set_of_ne _ same,if_neg same]
      exact .refl _
  · by_cases same : lane' = lane
    · subst same
      simp only [line,PerLane.get_set_self]
      exact .join _ _ owner
    · simp only [line,PerLane.get_set_of_ne _ same]
      exact .refl _

theorem popReadyFront_moves {q q' : OwnerAdmissionQueues T} {lane : Lane} {owner : OwnerId}
    (popped : q.popReadyFront lane = some (owner,q')) (lane' : Lane) :
    Line.Moves (lane' = .bulk) (q.line lane') (if lane' = lane then [owner] else []) (q'.line lane') := by
  unfold popReadyFront at popped
  cases ready : q.ready.get lane with
  | nil => rw [ready] at popped; cases popped
  | cons first rest =>
    rw [ready] at popped
    obtain ⟨rfl,rfl⟩ := Prod.mk.inj (Option.some.inj popped)
    by_cases same : lane' = lane
    · subst same
      have left : Line.Moves (lane' = .bulk) ⟨first :: rest,if lane' = .bulk then
          q.bulkCutInDebt else 0⟩ [first] _ :=
        .leave rest _ first
      simp only [line,ready,PerLane.get_set_self]
      split_ifs at left ⊢ <;> exact left
    · rw [if_neg same]
      have kept : (if lane' = .bulk then
          (if lane = .bulk then q.bulkCutInDebt - 1 else q.bulkCutInDebt) else 0) =
          if lane' = .bulk then q.bulkCutInDebt else 0 := by
        split_ifs with bulk bulk'
        · exact absurd (bulk.trans bulk'.symm) same
        all_goals rfl
      simp only [line,PerLane.get_set_of_ne _ same,kept]
      exact .refl _

theorem takeItem_line {q q' : OwnerAdmissionQueues T} {owner : OwnerId} {lane : Lane} {item : T}
    {cursor : OwnerAdmissionCursor} (taken : q.takeItem owner lane = some (item,cursor,q')) (lane' : Lane) :
    q'.line lane' = q.line lane' := by
  unfold takeItem popOwnerLane at taken
  cases entry : q.owners.get? owner with
  | none => simp [entry] at taken
  | some queues =>
    cases items : queues.get lane with
    | nil => simp [entry,items] at taken
    | cons first rest =>
      simp only [entry,items] at taken
      obtain ⟨-,-,rfl⟩ := taken
      split_ifs <;> rfl

theorem popLaneFrom_moves (lane lane' : Lane) (turns : Nat) : ∀ q : OwnerAdmissionQueues T,
    Line.Moves (lane' = .bulk) (q.line lane') (if lane' = lane then (popLaneFrom lane turns q).1 else [])
      ((popLaneFrom lane turns q).2.2.line lane') := by
  induction turns with
  | zero =>
    intro q
    simp only [popLaneFrom,ite_self]
    exact .refl _
  | succ turns ih =>
    intro q
    unfold popLaneFrom
    cases popped : q.popReadyFront lane with
    | none =>
      simp only [ite_self]
      exact .refl _
    | some front =>
      obtain ⟨owner,q₁⟩ := front
      have left := popReadyFront_moves popped lane'
      cases taken : q₁.takeItem owner lane with
      | none =>
        have rest := left.trans (ih q₁)
        simp only [taken]
        split_ifs at rest ⊢ <;> exact rest
      | some result =>
        simp only [taken,takeItem_line taken]
        exact left

theorem extendRun_line (room : Nat) (lane' : Lane) : ∀ (cursor : OwnerAdmissionCursor) (items : List T)
    (q : OwnerAdmissionQueues T), (extendRun room cursor items q).2.2.line lane' = q.line lane' := by
  induction room with
  | zero => exact fun _ _ _ => rfl
  | succ room ih =>
    intro cursor items q
    unfold extendRun popOwnerContinue
    cases cursor.ownerHasMore with
    | false => rfl
    | true =>
      cases taken : q.takeItem cursor.owner cursor.lane with
      | none => rfl
      | some result =>
        obtain ⟨item,cursor',q₁⟩ := result
        exact (ih cursor' _ q₁).trans (takeItem_line taken lane')

theorem popNextRunInto_moves (lane lane' : Lane) (limit : Nat) :
    Line.Moves (lane' = .bulk) (q.line lane') (if lane' = lane then (q.popNextRunInto lane limit).1 else [])
      ((q.popNextRunInto lane limit).2.2.line lane') := by
  have moves := popLaneFrom_moves lane lane' (q.ready.get lane).length q
  unfold popNextRunInto popLane
  by_cases none : limit = 0
  · simp only [if_pos none,ite_self]
    exact .refl _
  · rw [if_neg none]
    generalize popLaneFrom lane (q.ready.get lane).length q = popped at moves ⊢
    obtain ⟨taken,_ | ⟨item,cursor⟩,q₁⟩ := popped
    · exact moves
    · simp only [extendRun_line]
      exact moves

theorem dataplaneLocalBulk_lane {owner : OwnerId} {lane : Lane} (h : dataplaneLocalBulk owner lane) :
    lane = .bulk :=
  (of_decide_eq_true h).1

theorem wakeOwner_moves (owner : OwnerId) (lane' : Lane) :
    Line.Moves (lane' = .bulk) (q.line lane') [] ((q.wakeOwner owner).line lane') := by
  unfold wakeOwner
  cases q.owners.get? owner with
  | none => exact .refl _
  | some queues =>
    have step (empty : Bool) (lane : Lane) (front : Bool) (cuts : front → lane = .bulk)
        (q : OwnerAdmissionQueues T) :
        Line.Moves (lane' = .bulk) (q.line lane') []
          ((if empty then q else q.pushReady owner lane front).line lane') := by
      cases empty with
      | true => exact .refl _
      | false => exact pushReady_moves q owner lane front cuts lane'
    have priority := step queues.priority.isEmpty .priority false nofun q
    have bulk := step queues.bulk.isEmpty .bulk (dataplaneLocalBulk owner .bulk) dataplaneLocalBulk_lane
    exact (priority.trans (bulk _)).trans (step queues.background.isEmpty .background false nofun _)

variable [OwnerQueuedAdmission T]

theorem exec_moves (op : Op T) (lane' : Lane) :
    Line.Moves (lane' = .bulk) (q.line lane') (q.readyPops lane' op) ((q.exec op).line lane') := by
  cases op with
  | pushRunBack owner lane items =>
    unfold exec pushRunBack
    simp only [readyPops]
    split_ifs
    · exact .refl _
    · exact pushReady_moves ((q.setQueue owner lane _).incrementLaneLenBy lane _) owner lane _
        dataplaneLocalBulk_lane lane'
    · exact .refl _
  | push item front =>
    unfold exec push
    simp only [readyPops]
    generalize (if front then item :: _ else _) = items
    split_ifs
    · exact pushReady_moves ((q.setQueue _ _ items).incrementLaneLenBy _ 1) _ _ _
        dataplaneLocalBulk_lane lane'
    · exact .refl _
  | popNextRunInto lane limit => exact popNextRunInto_moves q lane lane' limit
  | popLane lane => exact popLaneFrom_moves lane lane' _ q
  | popOwnerContinue cursor =>
    unfold exec popOwnerContinue
    simp only [readyPops]
    split_ifs
    · cases taken : q.takeItem cursor.owner cursor.lane with
      | none => exact .refl _
      | some result =>
        have same := takeItem_line taken lane'
        simp only [Option.map_some,Option.getD_some,same]
        exact .refl _
    · exact .refl _
  | continueOwnerLane cursor =>
    unfold exec continueOwnerLane
    simp only [readyPops]
    split_ifs
    · exact pushReady_moves q cursor.owner cursor.lane false nofun lane'
    · exact .refl _
  | deferOwnerRun cursor items =>
    unfold exec deferOwnerRun
    simp only [readyPops]
    split_ifs <;> exact .refl _
  | wakeOwner owner => exact wakeOwner_moves q owner lane'

theorem run_moves (ops : List (Op T)) (lane : Lane) : ∀ q : OwnerAdmissionQueues T,
    Line.Moves (lane = .bulk) (q.line lane) (runReadyPops lane q ops) ((q.run ops).line lane) := by
  induction ops with
  | nil => exact fun q => .refl _
  | cons op ops ih => exact fun q => (exec_moves q op lane).trans (ih (q.exec op))

/-- An owner with `p` others ahead of it in the bulk lane is served by the pop `2p+2` at the latest,
whoever cuts in. In the other lanes the owners are served in the order they became ready. -/
theorem run_serves_ready (ops : List (Op T)) :
    (∀ ahead owner behind, q.ready.bulk = ahead ++ owner :: behind →
      owner ∈ (runReadyPops .bulk q ops).take (2 * ahead.length + 2) ∨
        (runReadyPops .bulk q ops).length < 2 * ahead.length + 2 ∧ owner ∈ (q.run ops).ready.bulk) ∧
    ∀ lane, lane ≠ .bulk → q.ready.get lane <+: runReadyPops lane q ops ++ (q.run ops).ready.get lane := by
  constructor
  · intro ahead owner behind here
    have patience := Line.patience_le ahead.length q.bulkCutInDebt
    obtain ⟨first,rest,taken,soon⟩ | ⟨front,back,waits,left⟩ :=
      (run_moves ops .bulk q).leaves owner ahead behind here
    · left
      change first.length < Line.patience ahead.length q.bulkCutInDebt at soon
      rw [taken,List.take_append]
      refine List.mem_append_right _ ?_
      obtain ⟨n,room⟩ : ∃ n, 2 * ahead.length + 2 - first.length = n + 1 :=
        ⟨_,(Nat.succ_pred_eq_of_pos (by omega)).symm⟩
      rw [room,List.take_succ_cons]
      exact List.mem_cons_self
    · right
      change _ ≤ Line.patience ahead.length q.bulkCutInDebt at left
      constructor
      · have some : 0 < Line.patience front.length (line (q.run ops) .bulk).debt := by
          unfold Line.patience
          omega
        omega
      · change (q.run ops).ready.bulk = _ at waits
        rw [waits]
        exact List.mem_append_right _ List.mem_cons_self
  · intro lane notBulk
    exact (run_moves ops lane q).inOrder notBulk

def transitOwner : OwnerId := ⟨1,.fmp⟩
def sessionOwner : OwnerId := ⟨2,.fsp⟩

def transitWaiting : OwnerAdmissionQueues (QueuedAdmission SocketPacket) :=
  (({} : OwnerAdmissionQueues _).push ⟨0,⟨transitOwner,1,0,.bulk,false,none,0,.current⟩⟩ false).2

def cutIn : List (Op (QueuedAdmission SocketPacket)) :=
  [.push ⟨1,⟨sessionOwner,1,0,.bulk,false,none,0,.current⟩⟩ false,.popLane .bulk,.popLane .bulk]

/-- The bound is reached. -/
theorem run_serves_ready_cutIn :
    runReadyPops .bulk transitWaiting cutIn = [sessionOwner,transitOwner] ∧
    transitOwner ∈ (runReadyPops .bulk transitWaiting cutIn).take 2 := by
  have taken : runReadyPops .bulk transitWaiting cutIn = [sessionOwner,transitOwner] := by decide +kernel
  refine ⟨taken,
    ((run_serves_ready transitWaiting cutIn).1 [] transitOwner [] (by decide +kernel)).resolve_right ?_⟩
  rintro ⟨early,-⟩
  rw [taken] at early
  exact absurd early (by decide)

end Fips.Dataplane.OwnerAdmissionQueues
