import Fips.Tree.State

set_option autoImplicit false

/-! Flap dampening over the whole life of a node. -/

namespace Fips.Tree.TreeState

structure SameFlap (s s' : TreeState) : Prop where
  count : s'.flapCount = s.flapCount
  windowStart : s'.flapWindowStart = s.flapWindowStart
  dampeningUntil : s'.flapDampeningUntil = s.flapDampeningUntil
  threshold : s'.flapThreshold = s.flapThreshold
  window : s'.flapWindow = s.flapWindow
  dampening : s'.flapDampeningDuration = s.flapDampeningDuration

abbrev Switch := Nat × Bool

/-- From one state to a later one, with the switches recorded in between. Between two switches
every other operation of the node may change what the detector does not look at. -/
inductive Switches (s : TreeState) : List Switch → TreeState → Prop where
  | refl : Switches s [] s
  | elsewhere {log : List Switch} {s' s'' : TreeState} : Switches s log s' →
    SameFlap s' s'' → Switches s log s''
  | record {log : List Switch} {s' : TreeState} (now : Nat) : Switches s log s' →
      Switches s (log ++ [(now,(s'.recordParentSwitch now).1)]) (s'.recordParentSwitch now).2

variable {s s' : TreeState} {log : List Switch}

theorem Switches.setParent (run : Switches s log s') (parentId : NodeAddr) (sequence timestamp now : Nat) :
    ∃ recorded, recorded.length ≤ 1 ∧
      (∀ e ∈ recorded, e = (now,(s'.setParent parentId sequence timestamp now).1)) ∧
      Switches s (log ++ recorded) (s'.setParent parentId sequence timestamp now).2 := by
  let declared : TreeState := { s' with
    myDeclaration := ⟨s'.myNodeAddr,parentId,sequence,timestamp⟩
    lastParentSwitch := some now }
  have same : SameFlap s' declared := ⟨rfl,rfl,rfl,rfl,rfl,rfl⟩
  by_cases changed : s'.isRoot = true ∨ s'.myDeclaration.parentId ≠ parentId
  · have eq : s'.setParent parentId sequence timestamp now = declared.recordParentSwitch now := by
      simp only [TreeState.setParent,changed,if_true,declared]
    rw [eq]
    exact ⟨[_],le_rfl,by simp,(run.elsewhere same).record now⟩
  · have eq : s'.setParent parentId sequence timestamp now = (false,declared) := by
      simp only [TreeState.setParent,changed,if_false,declared]
    rw [eq]
    exact ⟨[],Nat.zero_le _,by simp,by simpa using run.elsewhere same⟩

/-- The window a switch at `now` is counted in, and the count with it. -/
def windowAt (s : TreeState) (now : Nat) : Nat × Nat :=
  match s.flapWindowStart with
  | some start => if now - start < s.flapWindow then (start,s.flapCount + 1) else (now,1)
  | none => (now,1)

theorem recordParentSwitch_eq (s : TreeState) (now : Nat) :
    s.recordParentSwitch now =
      let engages := s.flapThreshold ≤ (s.windowAt now).2 ∧ s.flapDampeningUntil = none
      (decide engages,{ s with
        flapWindowStart := some (s.windowAt now).1
        flapCount := (s.windowAt now).2
        flapDampeningUntil := if engages then some (now + s.flapDampeningDuration)
          else s.flapDampeningUntil }) := by
  unfold recordParentSwitch windowAt
  cases s.flapWindowStart with
  | none =>
    by_cases engages : s.flapThreshold ≤ 1 ∧ s.flapDampeningUntil = none
    · simp [engages]
    · simp [engages]
  | some first =>
    by_cases inside : now - first < s.flapWindow
    · by_cases engages : s.flapThreshold ≤ s.flapCount + 1 ∧ s.flapDampeningUntil = none
      · simp [inside,engages]
      · simp [inside,engages]
    · by_cases engages : s.flapThreshold ≤ 1 ∧ s.flapDampeningUntil = none
      · simp [inside,engages]
      · simp [inside,engages]

theorem isFlapDampened_iff {now : Nat} :
    s.isFlapDampened now = true ↔ ∃ deadline, s.flapDampeningUntil = some deadline ∧ now < deadline := by
  unfold isFlapDampened
  cases s.flapDampeningUntil with
  | none => simp
  | some deadline => simp

theorem Switches.dampeningUntil (run : Switches s log s') {deadline : Nat}
    (h : s.flapDampeningUntil = some deadline) :
    s'.flapDampeningUntil = some deadline := by
  induction run with
  | refl => exact h
  | elsewhere run same ih => exact same.dampeningUntil.trans ih
  | record now run ih => simp [recordParentSwitch_eq,ih]

/-- What the detector knows of the switches recorded since the node was configured. -/
structure Detects (threshold window dampening : Nat) (log : List Switch) (s : TreeState) : Prop where
  threshold : s.flapThreshold = threshold
  window : s.flapWindow = window
  dampening : s.flapDampeningDuration = dampening
  /-- The count is that of the switches since the window began, and the first of them began it. -/
  counted : ∃ before inside, log = before ++ inside ∧ inside.length = s.flapCount ∧
    s.flapWindowStart = inside.head?.map Prod.fst
  never : s.flapDampeningUntil = none ↔ ∀ e ∈ log, e.2 = false

theorem Detects.record {threshold window dampening : Nat}
    (h : Detects threshold window dampening log s) (now : Nat) :
    Detects threshold window dampening (log ++ [(now,(s.recordParentSwitch now).1)])
      (s.recordParentSwitch now).2 := by
  have step := recordParentSwitch_eq s now
  refine ⟨by rw [step]; exact h.threshold,by rw [step]; exact h.window,by rw [step]; exact h.dampening,?_,?_⟩
  · obtain ⟨before,inside,split,length,start⟩ := h.counted
    -- either the switch joins the open window or it opens one of its own
    have joins : (∃ first, s.flapWindowStart = some first ∧ s.windowAt now = (first,s.flapCount + 1)) ∨
        s.windowAt now = (now,1) := by
      unfold windowAt
      cases s.flapWindowStart with
      | none => exact .inr rfl
      | some first =>
        by_cases open_ : now - first < s.flapWindow
        · exact .inl ⟨first,rfl,if_pos open_⟩
        · exact .inr (if_neg open_)
    rw [step]
    rcases joins with ⟨first,began,eq⟩ | eq
    · rw [began] at start
      refine ⟨before,inside ++ [_],by rw [split,List.append_assoc],by simp [eq,length],?_⟩
      cases inside with
      | nil => cases start
      | cons e rest => simpa [eq] using start
    · exact ⟨log,[_],rfl,by simp [eq],by simp [eq]⟩
  · have never := h.never
    rw [step]
    by_cases engages : s.flapThreshold ≤ (s.windowAt now).2 ∧ s.flapDampeningUntil = none
    · simp only [engages,and_self,if_true,List.mem_append,List.mem_singleton,reduceCtorEq,false_iff]
      intro quiet
      cases quiet _ (.inr rfl)
    · simp only [engages,if_false,List.mem_append,List.mem_singleton]
      rw [never]
      constructor
      · rintro quiet e (old | rfl)
        · exact quiet e old
        · rfl
      · intro quiet e old
        exact quiet e (.inl old)

theorem Switches.detects {threshold window dampening : Nat} (start : Detects threshold window dampening [] s)
    (run : Switches s log s') : Detects threshold window dampening log s' := by
  induction run with
  | refl => exact start
  | elsewhere run same ih =>
    refine ⟨same.threshold.trans ih.threshold,same.window.trans ih.window,
      same.dampening.trans ih.dampening,?_,?_⟩
    · rw [same.count,same.windowStart]
      exact ih.counted
    · rw [same.dampeningUntil]
      exact ih.never
  | record now run ih => exact ih.record now

theorem detects_new (a : NodeAddr) (timestamp threshold windowSecs dampeningSecs : Nat) :
    Detects threshold (windowSecs * second) (dampeningSecs * second) []
      ((TreeState.new a timestamp).setFlapDampening threshold windowSecs dampeningSecs) :=
  ⟨rfl,rfl,rfl,⟨[],[],rfl,rfl,rfl⟩,by simp [TreeState.new,setFlapDampening]⟩

/-- A switch that reaches the threshold engages dampening, and keeps the node dampened for the whole
duration, exactly when no earlier switch of the node's life engaged it; that the node is no longer
dampened from the earlier one makes no difference. Instants are unbounded here: the sum of `now` and the
duration is taken to be one that `Instant` can represent. -/
theorem dampening_engages_iff (a : NodeAddr) (timestamp threshold windowSecs dampeningSecs : Nat)
    {log : List Switch} {s : TreeState}
    (run : Switches ((TreeState.new a timestamp).setFlapDampening threshold windowSecs dampeningSecs) log s)
    (now : Nat) (reached : threshold ≤ (s.recordParentSwitch now).2.flapCount) :
    ((s.recordParentSwitch now).1 = true ∧
      ∀ log' s', Switches (s.recordParentSwitch now).2 log' s' →
        ∀ t, now ≤ t → t < now + dampeningSecs * second → s'.isFlapDampened t = true) ↔
      ∀ e ∈ log, e.2 = false := by
  have detects := run.detects (detects_new a timestamp threshold windowSecs dampeningSecs)
  have step := recordParentSwitch_eq s now
  rw [← detects.never]
  constructor
  · rintro ⟨engaged,-⟩
    rw [step] at engaged
    exact (of_decide_eq_true engaged).2
  · intro never
    have engages : s.flapThreshold ≤ (s.windowAt now).2 ∧ s.flapDampeningUntil = none := by
      rw [step] at reached
      exact ⟨detects.threshold ▸ reached,never⟩
    refine ⟨by rw [step]; exact decide_eq_true engages,?_⟩
    intro log' s' later t _ before
    have deadline : (s.recordParentSwitch now).2.flapDampeningUntil =
        some (now + dampeningSecs * second) := by
      rw [step,← detects.dampening]
      exact if_pos engages
    exact isFlapDampened_iff.2 ⟨_,later.dampeningUntil deadline,before⟩

theorem dampening_engages_first :
    let one := (((TreeState.new 0 0).setFlapDampening 2 60 120).recordParentSwitch 0).2
    (one.recordParentSwitch second).1 = true ∧
      ∀ log' s', Switches (one.recordParentSwitch second).2 log' s' →
        ∀ t, second ≤ t → t < second + 120 * second → s'.isFlapDampened t = true :=
  (dampening_engages_iff 0 0 2 60 120 (.record 0 .refl) second (by decide)).2 (by decide)

/-- Two switches within a second engage dampening for two minutes; a quarter of an hour later two more
switches within a second do not. -/
theorem later_episode_not_dampened :
    let configured := (TreeState.new 0 0).setFlapDampening 2 60 120
    let one := (configured.recordParentSwitch 0).2
    let first := one.recordParentSwitch second
    let three := (first.2.recordParentSwitch (1000 * second)).2
    let again := three.recordParentSwitch (1001 * second)
    first.1 = true ∧ three.isFlapDampened (1001 * second) = false ∧ again.2.flapCount = 2 ∧
      again.1 = false ∧ again.2.isFlapDampened (1001 * second) = false := by
  refine ⟨rfl,rfl,rfl,rfl,rfl⟩

end Fips.Tree.TreeState
