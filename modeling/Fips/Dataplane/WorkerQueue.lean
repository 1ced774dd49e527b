import Fips.Dataplane.Types
import Fips.Lib.U64

set_option autoImplicit false

/-! The queue from which the crypto workers take their runs. -/

namespace Fips.Dataplane

open List

def aeadWorkerFairnessPackets : Nat := 8

/-- What the queue reads of the slot of a prepared run. -/
structure OwnerRun where
  owner : OwnerId
  generation : Nat
  lane : Lane
  firstOrder : Nat
  len : Nat
  deriving DecidableEq

structure CryptoOwnerRunQueue where
  priority : List OwnerRun := []
  bulk : List OwnerRun := []
  background : List OwnerRun := []
  priorityPacketsWithBulkWaiting : Nat := 0
  closed : Bool := false
  deriving DecidableEq

namespace CryptoOwnerRunQueue

section Queue

variable (q : CryptoOwnerRunQueue)

/-- The queue must not be closed. -/
def push (run : OwnerRun) : Option CryptoOwnerRunQueue :=
  if q.closed then none
  else some <| match run.lane with
    | .priority => { q with priority := q.priority ++ [run] }
    | .bulk => { q with bulk := q.bulk ++ [run] }
    | .background => { q with background := q.background ++ [run] }

/-- The next run by class, before its dependencies are looked at. -/
def takeNext : Option OwnerRun × CryptoOwnerRunQueue :=
  let (run,q) :=
    if q.bulk.isEmpty then
      (q.priority.head?,{ q with priority := q.priority.tail, priorityPacketsWithBulkWaiting := 0 })
    else if q.priority.isEmpty ∨ aeadWorkerFairnessPackets ≤ q.priorityPacketsWithBulkWaiting then
      (q.bulk.head?,{ q with bulk := q.bulk.tail, priorityPacketsWithBulkWaiting := 0 })
    else
      (q.priority.head?,{ q with
        priority := q.priority.tail
        priorityPacketsWithBulkWaiting :=
          U64.saturatingAdd q.priorityPacketsWithBulkWaiting ((q.priority.head?.map (·.len)).getD 0) })
  match run with
  | some run => (some run,q)
  | none => (q.background.head?,{ q with background := q.background.tail })

def putBack (run : OwnerRun) : CryptoOwnerRunQueue :=
  match run.lane with
  | .priority => { q with priority := run :: q.priority }
  | .bulk => { q with bulk := run :: q.bulk }
  | .background => q

/-- An earlier background run that the retirement of `run` has to wait for. -/
def precedes (run earlier : OwnerRun) : Bool :=
  earlier.owner = run.owner ∧ earlier.generation = run.generation ∧ earlier.firstOrder < run.firstOrder

/-- One turn of the loop of `pop`. Without a result the worker waits, or ends when the queue is closed. -/
def pop : Option OwnerRun × CryptoOwnerRunQueue :=
  match q.takeNext with
  | (none,q) => (none,q)
  | (some run,q) =>
    if run.lane = .background then (some run,q)
    else match q.background.findIdx? (precedes run) with
      | none => (some run,q)
      | some index => (q.background[index]?,{ q with background := q.background.eraseIdx index }.putBack run)

def close : CryptoOwnerRunQueue := { q with closed := true }

inductive Op where
  | push (run : OwnerRun)
  | pop
  | close

/-- A push into a closed queue ends the run. -/
def exec : Op → Option CryptoOwnerRunQueue
  | .push run => q.push run
  | .pop => some q.pop.2
  | .close => some q.close

def run (ops : List Op) : Option CryptoOwnerRunQueue := ops.foldlM exec q

def queued : List OwnerRun := q.priority ++ q.bulk ++ q.background

end Queue

/-- Each run is in the queue of its lane and was pushed. -/
structure Sorted (pushed : OwnerRun → Prop) (q : CryptoOwnerRunQueue) : Prop where
  priority : ∀ r ∈ q.priority, r.lane = .priority ∧ pushed r
  bulk : ∀ r ∈ q.bulk, r.lane = .bulk ∧ pushed r
  background : ∀ r ∈ q.background, r.lane = .background ∧ pushed r

variable {pushed : OwnerRun → Prop} {q q' : CryptoOwnerRunQueue} {r : OwnerRun}

theorem Sorted.mem_background (h : q.Sorted pushed) (queued : r ∈ q.queued) (lane : r.lane = .background) :
    r ∈ q.background := by
  obtain inside | inside := mem_append.1 queued
  · obtain inside | inside := mem_append.1 inside
    · exact nomatch (h.priority r inside).1.symm.trans lane
    · exact nomatch (h.bulk r inside).1.symm.trans lane
  · exact inside

theorem Sorted.push (h : q.Sorted pushed) (new : pushed r) (done : q.push r = some q') :
    q'.Sorted pushed := by
  have appended {lane : Lane} {queue : List OwnerRun} (old : ∀ s ∈ queue, s.lane = lane ∧ pushed s)
      (own : r.lane = lane) : ∀ s ∈ queue ++ [r], s.lane = lane ∧ pushed s := by
    intro s mem
    obtain inside | rfl := mem_append.1 mem |>.imp_right mem_singleton.1
    · exact old s inside
    · exact ⟨own,new⟩
  unfold CryptoOwnerRunQueue.push at done
  split_ifs at done
  cases lane : r.lane <;> simp only [lane,Option.some.injEq] at done <;> subst done
  · exact ⟨appended h.priority lane,h.bulk,h.background⟩
  · exact ⟨h.priority,appended h.bulk lane,h.background⟩
  · exact ⟨h.priority,h.bulk,appended h.background lane⟩

inductive Takes (q : CryptoOwnerRunQueue) : Option OwnerRun → CryptoOwnerRunQueue → Prop
  | priority {r : OwnerRun} {rest : List OwnerRun} (n : Nat) (head : q.priority = r :: rest) :
    Takes q (some r) { q with priority := rest, priorityPacketsWithBulkWaiting := n }
  | bulk {r : OwnerRun} {rest : List OwnerRun} (n : Nat) (head : q.bulk = r :: rest) :
    Takes q (some r) { q with bulk := rest, priorityPacketsWithBulkWaiting := n }
  | background {r : OwnerRun} {rest : List OwnerRun} (n : Nat) (head : q.background = r :: rest) :
    Takes q (some r) { q with background := rest, priorityPacketsWithBulkWaiting := n }
  | nothing (n : Nat) : Takes q none { q with priorityPacketsWithBulkWaiting := n }

theorem takes_takeNext (q : CryptoOwnerRunQueue) : q.Takes q.takeNext.1 q.takeNext.2 := by
  obtain ⟨priority,bulk,background,waiting,closed⟩ := q
  cases bulk with
  | nil =>
    cases priority with
    | nil =>
      cases background with
      | nil => exact .nothing 0
      | cons r rest => exact .background 0 rfl
    | cons r rest => exact .priority 0 rfl
  | cons b rest =>
    cases priority with
    | nil => exact .bulk 0 rfl
    | cons p rest' =>
      by_cases due : aeadWorkerFairnessPackets ≤ waiting
      · simp only [takeNext,isEmpty_cons,due,or_true,if_true,Bool.false_eq_true,if_false]
        exact .bulk 0 rfl
      · simp only [takeNext,isEmpty_cons,due,or_false,Bool.false_eq_true,if_false]
        exact .priority _ rfl

theorem Sorted.takes {run : Option OwnerRun} (h : q.Sorted pushed) (taken : q.Takes run q') :
    q'.Sorted pushed := by
  cases taken with
  | priority n head => exact ⟨fun s mem => h.priority s (head ▸ mem_cons_of_mem _ mem),h.bulk,h.background⟩
  | bulk n head => exact ⟨h.priority,fun s mem => h.bulk s (head ▸ mem_cons_of_mem _ mem),h.background⟩
  | background n head => exact ⟨h.priority,h.bulk,fun s mem => h.background s (head ▸ mem_cons_of_mem _ mem)⟩
  | nothing n => exact { h with }

theorem Sorted.taken (h : q.Sorted pushed) (taken : q.Takes (some r) q') (higher : r.lane ≠ .background) :
    pushed r ∧ q'.background = q.background := by
  cases taken with
  | priority n head => exact ⟨(h.priority r (head ▸ mem_cons_self)).2,rfl⟩
  | bulk n head => exact ⟨(h.bulk r (head ▸ mem_cons_self)).2,rfl⟩
  | background n head => exact absurd (h.background r (head ▸ mem_cons_self)).1 higher

theorem Sorted.putBack (h : q.Sorted pushed) (own : r.lane ≠ .background → pushed r) :
    (q.putBack r).Sorted pushed := by
  unfold CryptoOwnerRunQueue.putBack
  cases lane : r.lane with
  | priority => exact ⟨forall_mem_cons.2 ⟨⟨lane,own (by simp [lane])⟩,h.priority⟩,h.bulk,h.background⟩
  | bulk => exact ⟨h.priority,forall_mem_cons.2 ⟨⟨lane,own (by simp [lane])⟩,h.bulk⟩,h.background⟩
  | background => exact h

/-- Either the next run is handed out, or the first background run that it depends on. -/
theorem pop_cases (q : CryptoOwnerRunQueue) : (∃ run q₁, q.Takes run q₁ ∧ q.pop = (run,q₁) ∧
      ∀ r, run = some r → r.lane ≠ .background → ∀ e ∈ q₁.background, precedes r e = false) ∨
    ∃ r q₁ index dependency, q.Takes (some r) q₁ ∧ q₁.background[index]? = some dependency ∧
      q.pop = (some dependency,{ q₁ with background := q₁.background.eraseIdx index }.putBack r) := by
  have taken := q.takes_takeNext
  unfold pop
  cases found : q.takeNext with
  | mk run q₁ =>
    rw [found] at taken
    cases run with
    | none => exact .inl ⟨none,q₁,taken,rfl,nofun⟩
    | some r =>
      simp only
      split_ifs with lane
      · refine .inl ⟨some r,q₁,taken,rfl,?_⟩
        rintro _ ⟨⟩ higher
        exact absurd lane higher
      · cases search : q₁.background.findIdx? (precedes r) with
        | none =>
          refine .inl ⟨some r,q₁,taken,rfl,?_⟩
          rintro _ ⟨⟩ -
          exact findIdx?_eq_none_iff.1 search
        | some index =>
          obtain ⟨bound,-⟩ := findIdx?_eq_some_iff_getElem.1 search
          refine .inr ⟨r,q₁,index,q₁.background[index],taken,getElem?_eq_getElem bound,?_⟩
          simp only [getElem?_eq_getElem bound]

theorem Sorted.pop (h : q.Sorted pushed) : q.pop.2.Sorted pushed := by
  obtain ⟨run,q₁,taken,popped,-⟩ | ⟨r,q₁,index,dependency,taken,-,popped⟩ := q.pop_cases
  · rw [popped]
    exact h.takes taken
  · rw [popped]
    obtain ⟨priority,bulk,background⟩ := h.takes taken
    have rest : Sorted pushed { q₁ with background := q₁.background.eraseIdx index } :=
      ⟨priority,bulk,fun s mem => background s (mem_of_mem_eraseIdx mem)⟩
    exact rest.putBack fun higher => (h.taken taken higher).1

theorem sorted_empty : Sorted pushed {} := by
  constructor <;> exact forall_mem_nil _

theorem Sorted.run {ops : List Op} (h : q.Sorted pushed) (new : ∀ r, .push r ∈ ops → pushed r)
    (done : q.run ops = some q') : q'.Sorted pushed := by
  induction ops generalizing q with
  | nil =>
    cases done
    exact h
  | cons op ops ih =>
    simp only [CryptoOwnerRunQueue.run,foldlM_cons,Option.bind_eq_bind,Option.bind_eq_some_iff] at done
    obtain ⟨q₁,first,later⟩ := done
    refine ih ?_ (fun r mem => new r (mem_cons_of_mem _ mem)) later
    cases op with
    | push run => exact h.push (new run mem_cons_self) first
    | pop =>
      cases first
      exact h.pop
    | close =>
      cases first
      exact { h with }

theorem Sorted.not_precedes (h : q.Sorted pushed) (popped : q.pop = (some r,q'))
    (higher : r.lane ≠ .background) :
    pushed r ∧ q'.background = q.background ∧ ∀ e ∈ q.background, precedes r e = false := by
  obtain ⟨run,q₁,taken,popped',none⟩ | ⟨s,q₁,index,dependency,taken,found,popped'⟩ := q.pop_cases
  · obtain ⟨rfl,rfl⟩ := Prod.mk.inj (popped.symm.trans popped')
    obtain ⟨new,same⟩ := h.taken taken higher
    exact ⟨new,same,same ▸ none r rfl higher⟩
  · obtain ⟨same,-⟩ := Prod.mk.inj (popped.symm.trans popped')
    cases same
    exact absurd ((h.takes taken).background r (mem_of_getElem? found)).1 higher

/-- Whenever a run of a higher class is handed out, nothing of its owner is left before it in the
background queue. -/
def AfterDependencies (ops : List Op) : Prop :=
  ∀ before later q r q', ops = before ++ .pop :: later → run {} before = some q → q.pop = (some r,q') →
    r.lane ≠ .background → ∀ e ∈ q'.queued, e.lane = .background → e.owner = r.owner →
      r.firstOrder ≤ e.firstOrder

/-- A background run and a later run of a higher class are of one generation when they are of one owner. -/
def OneGeneration (pushed : OwnerRun → Prop) : Prop :=
  ∀ e r, pushed e → pushed r → e.lane = .background → r.lane ≠ .background → e.owner = r.owner →
    e.firstOrder < r.firstOrder → e.generation = r.generation

theorem OneGeneration.afterDependencies (one : OneGeneration pushed) {ops : List Op}
    (new : ∀ r, .push r ∈ ops → pushed r) : AfterDependencies ops := by
  rintro before later q r q' rfl reached popped higher e queued lane owner
  have sorted : q.Sorted pushed := sorted_empty.run (fun r mem => new r (mem_append_left _ mem)) reached
  have sorted' : q'.Sorted pushed := by
    have after := sorted.pop
    rwa [popped] at after
  obtain ⟨own,same,none⟩ := sorted.not_precedes popped higher
  have background := sorted'.mem_background queued lane
  by_contra earlier
  have earlier := Nat.not_le.1 earlier
  have generation := one e r (sorted'.background e background).2 own lane higher owner earlier
  have before : precedes r e = true := decide_eq_true ⟨owner,generation,earlier⟩
  rw [same] at background
  exact nomatch (none e background).symm.trans before

/-- A background run of another generation does not stop the later run. -/
theorem pop_of_generation_ne {e : OwnerRun} (lane : e.lane = .background) (higher : r.lane ≠ .background)
    (differ : e.generation ≠ r.generation) : ∃ q q', run {} [.push e,.push r] = some q ∧ q.pop = (some r,q') ∧
      e ∈ q'.queued := by
  have free : precedes r e = false := by simp [precedes,differ]
  cases own : r.lane with
  | priority =>
    refine ⟨{ priority := [r], background := [e] },{ background := [e] },?_,?_,mem_singleton_self e⟩
    · simp [run,exec,CryptoOwnerRunQueue.push,lane,own]
    · simp [CryptoOwnerRunQueue.pop,takeNext,own,free]
  | bulk =>
    refine ⟨{ bulk := [r], background := [e] },{ background := [e] },?_,?_,mem_singleton_self e⟩
    · simp [run,exec,CryptoOwnerRunQueue.push,lane,own]
    · simp [CryptoOwnerRunQueue.pop,takeNext,own,free]
  | background => exact absurd own higher

/-- Every run of the queue respects the dependencies, whatever is pushed of a collection of runs and in
whatever order, exactly when the collection mixes no generations of an owner. -/
theorem pops_after_dependencies_iff (pushed : OwnerRun → Prop) :
    (∀ ops, (∀ r, .push r ∈ ops → pushed r) → AfterDependencies ops) ↔ OneGeneration pushed := by
  constructor
  · intro all e r known own lane higher owner earlier
    by_contra differ
    obtain ⟨q,q',reached,popped,queued⟩ := pop_of_generation_ne lane higher differ
    have after := all [.push e,.push r,.pop] (by simp [known,own]) [.push e,.push r] [] q
      r q' rfl reached popped higher
    exact absurd (after e queued lane owner) (Nat.not_le.2 earlier)
  · intro one ops new
    exact one.afterDependencies new

/-! A background run from before a rekey does not stop a run of the next generation. -/

def rekeyedRuns : List Op := [.push ⟨⟨1,.fsp⟩,1,.background,0,1⟩,.push ⟨⟨1,.fsp⟩,2,.priority,1,1⟩]

theorem rekeyedRuns_overtaken : ((run {} rekeyedRuns).map fun q => (q.pop.1,q.pop.2.queued)) =
    some (some ⟨⟨1,.fsp⟩,2,.priority,1,1⟩,[⟨⟨1,.fsp⟩,1,.background,0,1⟩]) := by
  decide +kernel

end CryptoOwnerRunQueue

end Fips.Dataplane
