import Mathlib

set_option autoImplicit false

/-! A log whose entries are retired in the order they were issued, although they come back in blocks that
arrive in any order. -/

namespace InOrder

open List

variable {α : Type}

theorem insertIdx_length (front back : List α) (a : α) :
    (front ++ back).insertIdx front.length a = front ++ a :: back := by
  induction front with
  | nil => simp
  | cons b front ih => simp [ih]

/-- Consecutive entries of the log, from position `start` on. -/
structure Block (α : Type) where
  start : Nat
  items : List α

/-- The first `done` entries are retired. The others are in sorted blocks, or not in a block yet. -/
structure Tiles (log : List α) (done : Nat) (blocks : List (Block α)) (loose : List α) : Prop where
  nodup : log.Nodup
  done_le : done ≤ log.length
  nonempty : ∀ b ∈ blocks, b.items ≠ []
  placed : ∀ b ∈ blocks, b.items <+: log.drop b.start
  sorted : blocks.Pairwise fun a b => a.start + a.items.length ≤ b.start
  perm : (blocks.flatMap (·.items) ++ loose).Perm (log.drop done)

namespace Tiles

variable {log : List α} {done : Nat} {blocks : List (Block α)} {loose : List α}

theorem empty : Tiles ([] : List α) 0 [] [] := by
  constructor <;> simp

theorem length_eq (h : Tiles log done blocks loose) :
    (blocks.flatMap (·.items)).length + loose.length = log.length - done := by
  have same := h.perm.length_eq
  rwa [length_append,length_drop] at same

theorem issue (h : Tiles log done blocks loose) {a : α} (fresh : a ∉ log) :
    Tiles (log ++ [a]) done blocks (loose ++ [a]) where
  nodup := by
    rw [← concat_eq_append]
    exact h.nodup.concat fresh
  done_le := by
    have := h.done_le
    rw [length_append]
    omega
  nonempty := h.nonempty
  placed b mem := by
    have inside := h.placed b mem
    have some := length_pos_iff.2 (h.nonempty b mem)
    have bound := inside.length_le
    rw [length_drop] at bound
    rw [drop_append_of_le_length (by omega)]
    exact inside.trans (prefix_append _ _)
  sorted := h.sorted
  perm := by
    rw [drop_append_of_le_length h.done_le,← append_assoc]
    exact h.perm.append_right [a]

variable {b : Block α}

theorem getElem?_of_mem (h : Tiles log done blocks loose) (mem : b ∈ blocks) {i : Nat}
    (bound : i < b.items.length) :
    log[b.start + i]? = b.items[i]? := by
  obtain ⟨tail,split⟩ := h.placed b mem
  rw [← getElem?_drop,← split,getElem?_append_left bound]

theorem done_le_of_mem (h : Tiles log done blocks loose) (mem : b ∈ blocks) {i : Nat}
    (bound : i < b.items.length) :
    done ≤ b.start + i := by
  have here := h.getElem?_of_mem mem bound
  rw [getElem?_eq_getElem bound] at here
  have inDrop : b.items[i] ∈ log.drop done := h.perm.mem_iff.1
    (mem_append_left _ (mem_flatMap.2 ⟨b,mem,getElem_mem bound⟩))
  obtain ⟨j,later⟩ := mem_iff_getElem?.1 inDrop
  rw [getElem?_drop] at later
  obtain ⟨inLog,-⟩ := List.getElem?_eq_some_iff.1 here
  have same := (getElem?_inj inLog h.nodup).1 (here.trans later.symm)
  omega

/-- Entries are retired from the first block when it is next. -/
theorem drain {rest : List (Block α)} (h : Tiles log done (b :: rest) loose)
    (next : b.start = done) (n : Nat) : Tiles
    log (done + (b.items.take n).length)
      (if (b.items.drop n).isEmpty then rest else ⟨b.start + (b.items.take n).length,b.items.drop n⟩ :: rest)
        loose := by
  obtain ⟨tail,split⟩ := h.placed b mem_cons_self
  have bound := (h.placed b mem_cons_self).length_le
  have doneLe := h.done_le
  have parts : b.items.take n ++ b.items.drop n = b.items := take_append_drop n b.items
  have shifted : log.drop (done + (b.items.take n).length) = b.items.drop n ++ tail := by
    rw [← drop_drop,← next,← split]
    nth_rewrite 2 [← parts]
    rw [append_assoc,drop_left]
  have remaining : (b.items.drop n ++ (rest.flatMap (·.items) ++ loose)).Perm (b.items.drop n ++ tail) := by
    have all := h.perm
    rw [flatMap_cons,append_assoc,← next,← split] at all
    exact ((perm_append_left_iff _).1 all).append_left _
  have sorted := pairwise_cons.1 h.sorted
  have doneLe' : done + (b.items.take n).length ≤ log.length := by
    rw [length_drop] at bound
    have := length_take_le' n b.items
    omega
  by_cases used : b.items.drop n = []
  · rw [if_pos (isEmpty_iff.2 used)]
    refine ⟨h.nodup,doneLe',fun c mem => h.nonempty c (mem_cons_of_mem _ mem),
      fun c mem => h.placed c (mem_cons_of_mem _ mem),sorted.2,?_⟩
    rw [shifted]
    rw [used] at remaining ⊢
    exact remaining
  · rw [if_neg (by simpa using used)]
    refine ⟨h.nodup,doneLe',?_,?_,?_,?_⟩
    · exact forall_mem_cons.2 ⟨used,fun c mem => h.nonempty c (mem_cons_of_mem _ mem)⟩
    · refine forall_mem_cons.2 ⟨?_,fun c mem => h.placed c (mem_cons_of_mem _ mem)⟩
      rw [next,shifted]
      exact prefix_append _ _
    · refine pairwise_cons.2 ⟨fun c mem => ?_,sorted.2⟩
      have before := sorted.1 c mem
      have whole : (b.items.take n).length + (b.items.drop n).length = b.items.length := by
        rw [← length_append,parts]
      simp only
      omega
    · rw [shifted,flatMap_cons,append_assoc]
      exact remaining

theorem next {rest : List (Block α)} (h : Tiles log done (b :: rest) []) : b.start = done := by
  have someItem := length_pos_iff.2 (h.nonempty b mem_cons_self)
  have lower := h.done_le_of_mem mem_cons_self someItem
  have inside : done < log.length := by
    have bound := (h.placed b mem_cons_self).length_le
    rw [length_drop] at bound
    omega
  have mem : log[done] ∈ log.drop done := by
    rw [drop_eq_getElem_cons inside]
    exact mem_cons_self
  have covered := h.perm.mem_iff.2 mem
  rw [append_nil] at covered
  obtain ⟨c,inBlocks,inItems⟩ := mem_flatMap.1 covered
  obtain ⟨i,bound,found⟩ := mem_iff_getElem.1 inItems
  have here := h.getElem?_of_mem inBlocks bound
  rw [getElem?_eq_getElem bound,found,← getElem?_eq_getElem inside] at here
  have position : c.start + i = done := by
    obtain ⟨inLog,-⟩ := List.getElem?_eq_some_iff.1 (here.trans (List.getElem?_eq_getElem inside))
    exact (getElem?_inj inLog h.nodup).1 here
  obtain rfl | after := mem_cons.1 inBlocks
  · omega
  · have sorted := (pairwise_cons.1 h.sorted).1 c after
    omega

theorem done_eq (h : Tiles log done [] []) : done = log.length := by
  have left := h.length_eq
  have := h.done_le
  simp only [flatMap_nil,length_nil] at left
  omega

variable {start : Nat}

theorem apart (h : Tiles log done blocks loose) (mem : b ∈ blocks) {items : List α}
    (placed : items <+: log.drop start) (disjoint : items.Disjoint b.items) (nonempty : items ≠ []) :
    b.start + b.items.length ≤ start ∨ start + items.length ≤ b.start := by
  by_contra overlap
  obtain ⟨tail,split⟩ := placed
  have someItem := length_pos_iff.2 nonempty
  have someItem' := length_pos_iff.2 (h.nonempty b mem)
  obtain ⟨i,j,boundI,boundJ,meet⟩ : ∃ i j, i < b.items.length ∧ j < items.length ∧
    b.start + i = start + j := by
    rcases Nat.le_total b.start start with le | le
    · exact ⟨start - b.start,0,by omega,by omega,by omega⟩
    · exact ⟨0,b.start - start,by omega,by omega,by omega⟩
  have here := h.getElem?_of_mem mem boundI
  have there : log[start + j]? = items[j]? := by
    rw [← getElem?_drop,← split,getElem?_append_left boundJ]
  rw [meet,there,getElem?_eq_getElem boundI,getElem?_eq_getElem boundJ] at here
  exact disjoint (getElem_mem boundJ) (Option.some.inj here ▸ getElem_mem boundI)

variable {before after run : List α}

theorem disjoint_run (h : Tiles log done blocks (before ++ run ++ after)) (mem : b ∈ blocks) :
    run.Disjoint b.items := by
  have all : ((blocks.flatMap (·.items)) ++ (before ++ run ++ after)).Nodup :=
    h.perm.nodup_iff.2 (h.nodup.sublist (drop_sublist _ _))
  intro a inRun inBlock
  refine disjoint_of_nodup_append all (mem_flatMap.2 ⟨b,mem,inBlock⟩) ?_
  simp [inRun]

theorem start_ne (h : Tiles log done blocks (before ++ run ++ after)) (placed : run <+: log.drop start)
    (nonempty : run ≠ []) (mem : b ∈ blocks) : b.start ≠ start := by
  have := length_pos_iff.2 nonempty
  have := length_pos_iff.2 (h.nonempty b mem)
  obtain le | le := h.apart mem placed (h.disjoint_run mem) nonempty <;> omega

theorem starts_lt (h : Tiles log done blocks loose) : blocks.Pairwise fun a b => a.start < b.start := by
  refine h.sorted.imp_of_mem fun {a b} inA _ le => ?_
  have := length_pos_iff.2 (h.nonempty a inA)
  omega

theorem le_of_mem_dropWhile (h : Tiles log done blocks loose) (mem : b ∈ blocks.dropWhile (·.start < start)) :
    start ≤ b.start := by
  cases rest : blocks.dropWhile (·.start < start) with
  | nil => rw [rest] at mem; cases mem
  | cons first others =>
    have notBefore := dropWhile_get_zero_not (p := (·.start < start)) blocks (by simp [rest])
    have sorted := h.starts_lt.sublist (rest ▸ dropWhile_sublist _)
    rw [rest] at mem
    simp only [rest,get_eq_getElem,decide_eq_true_eq,not_lt] at notBefore
    obtain rfl | later := mem_cons.1 mem
    · exact notBefore
    · exact notBefore.trans (rel_of_pairwise_cons sorted later).le

/-- A new block goes between the blocks that start before it and the others. -/
theorem stage (h : Tiles log done blocks (before ++ run ++ after)) (placed : run <+: log.drop start)
    (nonempty : run ≠ []) :
    Tiles log done (blocks.takeWhile (·.start < start) ++ ⟨start,run⟩ :: blocks.dropWhile (·.start < start))
      (before ++ after) := by
  have starts (b : Block α) (mem : b ∈ blocks.takeWhile (·.start < start)) : b.start < start := by
    simpa using mem_takeWhile_imp mem
  have ends (b : Block α) (mem : b ∈ blocks.dropWhile (·.start < start)) := h.le_of_mem_dropWhile mem
  have split : blocks = blocks.takeWhile (·.start < start) ++ blocks.dropWhile (·.start < start) :=
    takeWhile_append_dropWhile.symm
  generalize blocks.takeWhile (·.start < start) = earlier,blocks.dropWhile (·.start < start) =
    later at starts ends split
  have disjoint (b : Block α) (mem : b ∈ blocks) := h.disjoint_run mem
  subst split
  have inEarlier (b : Block α) (mem : b ∈ earlier) : b.start + b.items.length ≤ start := by
    have inBlocks := mem_append_left later mem
    have := starts b mem
    obtain le | le := h.apart inBlocks placed (disjoint b inBlocks) nonempty <;> omega
  have inLater (b : Block α) (mem : b ∈ later) : start + run.length ≤ b.start := by
    have inBlocks := mem_append_right earlier mem
    have := ends b mem
    have := length_pos_iff.2 (h.nonempty b inBlocks)
    obtain le | le := h.apart inBlocks placed (disjoint b inBlocks) nonempty <;> omega
  have cases {p : Block α → Prop} (new : p ⟨start,run⟩) (old : ∀ b ∈ earlier ++ later, p b) :
      ∀ b ∈ earlier ++ ⟨start,run⟩ :: later, p b := by
    intro b mem
    obtain inside | rfl | inside := (mem_append.1 mem).imp_right mem_cons.1
    · exact old b (mem_append_left _ inside)
    · exact new
    · exact old b (mem_append_right _ inside)
  refine ⟨h.nodup,h.done_le,cases nonempty h.nonempty,cases placed h.placed,?_,?_⟩
  · obtain ⟨sortedEarlier,sortedLater,across⟩ := pairwise_append.1 h.sorted
    refine pairwise_append.2 ⟨sortedEarlier,pairwise_cons.2 ⟨inLater,sortedLater⟩,?_⟩
    intro a inA b inB
    obtain rfl | inside := mem_cons.1 inB
    · exact inEarlier a inA
    · exact across a inA b inside
  · refine List.Perm.trans ?_ h.perm
    simp only [flatMap_append,flatMap_cons,append_assoc]
    refine List.Perm.append_left _ ?_
    exact (perm_append_comm_assoc _ _ _).trans (List.Perm.append_left _ (perm_append_comm_assoc _ _ _))

end Tiles

end InOrder
