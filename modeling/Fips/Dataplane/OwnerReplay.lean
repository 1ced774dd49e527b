import Fips.Basic
import Fips.Lib.RingBitmap

set_option autoImplicit false

namespace Fips.Dataplane
open RingBitmap List

def replayBlockBitsLog : Nat := 6
def replayBlockBits : Nat := 1 <<< replayBlockBitsLog
def replayRingBlocks : Nat := 1 <<< 7
def replayWindowSize : Nat := (replayRingBlocks-1)*replayBlockBits
def replayBlockMask : Nat := replayRingBlocks-1
def replayBitMask : Nat := replayBlockBits-1

instance : NeZero replayRingBlocks := ⟨by decide⟩

structure ReplayWindow where
  highest : Option Nat
  ring : Ring 64 replayRingBlocks
  deriving DecidableEq

def ReplayWindow.default : ReplayWindow := ⟨none,Vector.replicate replayRingBlocks 0⟩

def counterBlock (counter : Nat) : Nat := counter >>> replayBlockBitsLog

theorem blockMask_lt (b : Nat) : b &&& replayBlockMask < replayRingBlocks :=
  Nat.lt_of_le_of_lt Nat.and_le_right (by decide)

def ringIndex (counter : Nat) : Fin replayRingBlocks :=
  ⟨counterBlock counter &&& replayBlockMask,blockMask_lt _⟩

def counterBit (counter : Nat) : BitVec 64 := 1#64 <<< (counter &&& replayBitMask)

section Window

variable (w : ReplayWindow)

/-- The boolean says whether the word changed. -/
def ReplayWindow.setCounterBit (counter : Nat) : Bool × ReplayWindow :=
  let old := w.ring[ringIndex counter]
  let new := old ||| counterBit counter
  (old != new,{ w with ring := w.ring.set (ringIndex counter) new })

def ReplayWindow.advance (highest counter : Nat) : ReplayWindow :=
  let current := counterBlock highest
  let target := counterBlock counter
  let diff := if replayRingBlocks < target-current then replayRingBlocks else target-current
  let clear (ring : Ring 64 replayRingBlocks) (offset : Nat) : Ring 64 replayRingBlocks :=
    ring.set ((current+offset) &&& replayBlockMask) 0 (blockMask_lt _)
  { w with ring := (List.range' 1 diff).foldl clear w.ring }

def ReplayWindow.accept (counter : Nat) : Bool × ReplayWindow :=
  if counter = u64Max then (false,w)
  else match w.highest with
    | none => { w with highest := some counter }.setCounterBit counter
    | some highest =>
      if highest < counter then
        { w.advance highest counter with highest := some counter }.setCounterBit counter
      else if replayWindowSize < highest-counter then (false,w)
      else w.setCounterBit counter

def ReplayWindow.canAccept (counter : Nat) : Bool :=
  if counter = u64Max then false
  else match w.highest with
    | none => true
    | some highest =>
      if highest < counter then true
      else highest-counter ≤ replayWindowSize &&
        w.ring[ringIndex counter] &&& counterBit counter == 0#64

/-- Any finite sequence of calls on the default window. The first component lists the
counters whose call returned true, in order. -/
def acceptStep (s : List Nat × ReplayWindow) (counter : Nat) : List Nat × ReplayWindow :=
  (if (s.2.accept counter).1 then s.1 ++ [counter] else s.1,(s.2.accept counter).2)

def acceptAll (calls : List Nat) : List Nat × ReplayWindow :=
  calls.foldl acceptStep ([],.default)

def delivered (calls : List Nat) : List Nat := (acceptAll calls).1
def windowAfter (calls : List Nat) : ReplayWindow := (acceptAll calls).2

theorem counterBlock_eq (c : Nat) : counterBlock c = c/64 := by
  simp [counterBlock,replayBlockBitsLog,Nat.shiftRight_eq_div_pow]

theorem and_blockMask (b : Nat) : b &&& replayBlockMask = b % replayRingBlocks :=
  Nat.and_two_pow_sub_one_eq_mod b 7

theorem counterBit_eq (c : Nat) : counterBit c = mask 64 c := by
  have h : c &&& replayBitMask = c % 64 := Nat.and_two_pow_sub_one_eq_mod c 6
  rw [counterBit,h,mask]

theorem ringIndex_eq (c : Nat) : ringIndex c = slot replayRingBlocks (c/64) := by
  simp only [ringIndex,slot,counterBlock_eq,and_blockMask]

theorem setCounterBit_ring (c : Nat) :
    (w.setCounterBit c).2 = { w with ring := w.ring.setBit c } := by
  simp only [ReplayWindow.setCounterBit,ringIndex_eq,counterBit_eq]
  rfl

theorem setCounterBit_fresh (c : Nat) :
    (w.setCounterBit c).1 = !w.ring.bit c := by
  have h := w.ring.setBit_word_eq c (by decide)
  simp only [Ring.setBit,Ring.word_setWord] at h
  simp only [ReplayWindow.setCounterBit,ringIndex_eq,counterBit_eq]
  rw [Bool.eq_iff_iff]
  simp only [bne_iff_ne,Bool.not_eq_true']
  rw [← Bool.not_eq_true,← h,eq_comm]
  rfl

theorem and_counterBit (c : Nat) :
    (w.ring[ringIndex c] &&& counterBit c == 0#64) = !w.ring.bit c := by
  rw [Bool.eq_iff_iff,beq_iff_eq,counterBit_eq,Bool.not_eq_true']
  simp only [ringIndex_eq]
  exact and_mask_eq_zero (w.ring.word (c/64)) c (by decide)

theorem advance_ring (h c : Nat) :
    (w.advance h c).ring =
      (List.range' (h/64+1) (min (c/64-h/64) replayRingBlocks)).foldl Ring.clearWord w.ring := by
  have hdiff : (if replayRingBlocks < c/64-h/64 then replayRingBlocks else c/64-h/64) =
      min (c/64-h/64) replayRingBlocks := by
    split <;> omega
  simp only [ReplayWindow.advance,counterBlock_eq,hdiff,and_blockMask]
  rw [← map_add_range',foldl_map]
  rfl

/-- The window stands for the list of delivered counters: nothing has been touched
before the first delivery, and afterwards the ring tracks the deliveries up to the
block of the highest one. -/
def Represents (ds : List Nat) : Prop :=
  match w.highest with
  | none => ds = [] ∧ w = .default
  | some h => h ∈ ds ∧ (∀ d ∈ ds, d ≤ h) ∧ ds.Nodup ∧ Tracks w.ring { d | d ∈ ds } (h/64)

end Window

theorem represents_default : Represents .default [] := ⟨rfl,rfl⟩

variable {w : ReplayWindow} {ds : List Nat}

theorem Represents.nodup (hw : Represents w ds) : ds.Nodup := by
  unfold Represents at hw
  split at hw
  · simp [hw.1]
  · exact hw.2.2.1

theorem Represents.highest_eq (hw : Represents w ds) : w.highest = ds.max? := by
  unfold Represents at hw
  split at hw
  · rename_i hh
    simp [hh,hw.1]
  · rename_i h hh
    rw [hh,eq_comm,max?_eq_some_iff]
    exact ⟨hw.1,hw.2.1⟩

variable {h c : Nat}

theorem window_block_live (hc : h-c ≤ replayWindowSize) : h/64 < c/64+replayRingBlocks := by
  have hs : replayWindowSize = 8128 := rfl
  have hr : replayRingBlocks = 128 := rfl
  omega

/-- The verdict on a counter, in terms of what has been delivered. -/
def Admissible (w : ReplayWindow) (ds : List Nat) (c : Nat) : Prop :=
  c ≠ u64Max ∧ (ds = [] ∨ ∃ h, w.highest = some h ∧
    (h < c ∨ h-c ≤ replayWindowSize ∧ c ∉ ds))

theorem canAccept_iff (hw : Represents w ds) (c : Nat) : w.canAccept c = true ↔ Admissible w ds c := by
  unfold Represents at hw
  simp only [ReplayWindow.canAccept,Admissible]
  by_cases hmax : c = u64Max
  · simp [hmax]
  · cases hh : w.highest with
    | none =>
      simp only [hh] at hw
      simp [hw.1]
    | some h =>
      simp only [hh] at hw
      obtain ⟨hmem,hle,-,htracks⟩ := hw
      have hne : ds ≠ [] := ne_nil_of_mem hmem
      by_cases hlt : h < c
      · simp [hmax,hlt]
      · simp only [Option.some.injEq]
        by_cases hdiff : h-c ≤ replayWindowSize
        · have hbit := htracks.bit_iff c (Nat.div_le_div_right (Nat.not_lt.mp hlt))
            (window_block_live hdiff)
          rw [and_counterBit]
          simp only [Set.mem_ofPred_eq] at hbit
          simp [hmax,hlt,hne,← hbit]
        · simp [hmax,hlt,hdiff,hne]

theorem tracks_snoc {r : Ring 64 replayRingBlocks} {k : Nat} (h : Tracks r { d | d ∈ ds } k) (hc : c/64 ≤ k)
    (hc' : k < c/64+replayRingBlocks) : Tracks (r.setBit c) { d | d ∈ ds ++ [c] } k := by
  have hset : { d | d ∈ ds ++ [c] } = insert c { d | d ∈ ds } := by
    ext d
    simp [or_comm]
  rw [hset]
  exact h.insert (by decide) hc hc'

theorem represents_snoc {r : Ring 64 replayRingBlocks} (hmem : h ∈ ds ++ [c])
    (hle : ∀ d ∈ ds, d ≤ h) (hc : c ≤ h) (hnodup : ds.Nodup) (hnot : c ∉ ds)
    (htracks : Tracks r { d | d ∈ ds ++ [c] } (h/64)) :
    Represents ⟨some h,r⟩ (ds ++ [c]) := by
  refine ⟨hmem,?_,?_,htracks⟩
  · intro d hd
    rcases mem_append.mp hd with hd | hd
    · exact hle d hd
    · exact mem_singleton.mp hd ▸ hc
  · rw [← concat_eq_append]
    exact hnodup.concat hnot

theorem advance_tracks (ht : Tracks w.ring { d | d ∈ ds } (h/64)) (hc : h < c) :
    Tracks (w.advance h c).ring { d | d ∈ ds } (c/64) := by
  have hle : h/64 ≤ c/64 := Nat.div_le_div_right (Nat.le_of_lt hc)
  rw [advance_ring]
  apply ht.advance_clearWords hle
  rcases Nat.le_total (c/64-h/64) replayRingBlocks with hd | hd
  · exact Or.inl (by omega)
  · rw [Nat.min_eq_right hd]
    exact Or.inr ⟨Nat.le_refl _,by omega⟩

theorem accept_first (c : Nat) (hmax : c ≠ u64Max) (hw : w = .default) :
    (w.accept c).1 = true ∧ Represents (w.accept c).2 [c] := by
  subst hw
  have hacc : ReplayWindow.default.accept c =
      ReplayWindow.setCounterBit { ReplayWindow.default with highest := some c } c := by
    simp [ReplayWindow.accept,hmax,ReplayWindow.default]
  rw [hacc,setCounterBit_fresh,setCounterBit_ring]
  refine ⟨by simp [ReplayWindow.default,Ring.bit],by simp,by simp,by simp,?_⟩
  have hempty : Tracks (Vector.replicate replayRingBlocks (0 : BitVec 64))
      { d | d ∈ ([] : List Nat) } (c/64) := by
    simpa using Tracks.empty (c/64)
  exact tracks_snoc hempty (Nat.le_refl _) (Nat.lt_add_of_pos_right (Nat.pos_of_neZero _))

section Accepting

variable (hw : Represents w ds)
include hw

theorem accept_newer (hh : w.highest = some h) (c : Nat) (hmax : c ≠ u64Max) (hlt : h < c) :
    (w.accept c).1 = true ∧ Represents (w.accept c).2 (ds ++ [c]) := by
  simp only [Represents,hh] at hw
  obtain ⟨-,hle,hnodup,htracks⟩ := hw
  have hacc : w.accept c =
      ReplayWindow.setCounterBit { w.advance h c with highest := some c } c := by
    simp [ReplayWindow.accept,hmax,hh,hlt]
  have hnot : c ∉ ds := fun hc => Nat.not_lt.mpr (hle c hc) hlt
  have hadv := advance_tracks htracks hlt
  have hlive : c/64 < c/64+replayRingBlocks :=
    Nat.lt_add_of_pos_right (Nat.pos_of_neZero _)
  have hbit := hadv.bit_iff c (Nat.le_refl _) hlive
  simp only [Set.mem_ofPred_eq,hnot,iff_false] at hbit
  rw [hacc,setCounterBit_fresh,setCounterBit_ring]
  exact ⟨by simp [hbit],represents_snoc (by simp)
    (fun d hd => Nat.le_of_lt (Nat.lt_of_le_of_lt (hle d hd) hlt))
    (Nat.le_refl _) hnodup hnot (tracks_snoc hadv (Nat.le_refl _) hlive)⟩

theorem accept_inside (hh : w.highest = some h) (c : Nat) (hmax : c ≠ u64Max) (hle : c ≤ h)
    (hdiff : h-c ≤ replayWindowSize) :
    w.accept c = w.setCounterBit c ∧ (w.ring.bit c = true ↔ c ∈ ds) ∧
      Tracks (w.ring.setBit c) { d | d ∈ ds ++ [c] } (h/64) := by
  simp only [Represents,hh] at hw
  obtain ⟨-,-,-,htracks⟩ := hw
  have hblock : c/64 ≤ h/64 := Nat.div_le_div_right hle
  refine ⟨?_,htracks.bit_iff c hblock (window_block_live hdiff),
    tracks_snoc htracks hblock (window_block_live hdiff)⟩
  simp only [ReplayWindow.accept,hmax,if_false,hh,Nat.not_lt.mpr hle,Nat.not_lt.mpr hdiff]

theorem accept_repeated (hh : w.highest = some h) (c : Nat) (hmax : c ≠ u64Max) (hle : c ≤ h)
    (hdiff : h-c ≤ replayWindowSize) (hc : c ∈ ds) : w.accept c = (false,w) := by
  obtain ⟨hacc,hbit,-⟩ := accept_inside hw hh c hmax hle hdiff
  have hset := w.ring.setBit_of_bit c (by decide) (hbit.mpr hc)
  apply Prod.ext
  · rw [hacc,setCounterBit_fresh]
    simp [hbit.mpr hc]
  · rw [hacc,setCounterBit_ring,hset]

theorem accept_fresh (hh : w.highest = some h) (c : Nat) (hmax : c ≠ u64Max) (hle : c ≤ h)
    (hdiff : h-c ≤ replayWindowSize) (hc : c ∉ ds) :
    (w.accept c).1 = true ∧ Represents (w.accept c).2 (ds ++ [c]) := by
  obtain ⟨hacc,hbit,htracks⟩ := accept_inside hw hh c hmax hle hdiff
  have hfresh : w.ring.bit c = false := by simpa [hc] using hbit
  rw [hacc,setCounterBit_fresh,hfresh,setCounterBit_ring,hh]
  simp only [Represents,hh] at hw
  obtain ⟨hmem,hle',hnodup,-⟩ := hw
  exact ⟨Bool.not_false,represents_snoc (mem_append_left _ hmem) hle' hle hnodup hc htracks⟩

/-- Everything a call can do: deliver an admissible counter and record it, or refuse
and leave the window exactly as it was. -/
theorem accept_cases (c : Nat) :
    (Admissible w ds c ∧ (w.accept c).1 = true ∧ Represents (w.accept c).2 (ds ++ [c])) ∨
      (¬ Admissible w ds c ∧ w.accept c = (false,w)) := by
  by_cases hmax : c = u64Max
  · exact Or.inr ⟨fun h => h.1 hmax,by simp [ReplayWindow.accept,hmax]⟩
  · cases hh : w.highest with
    | none =>
      simp only [Represents,hh] at hw
      obtain ⟨rfl,hw⟩ := hw
      exact Or.inl ⟨⟨hmax,Or.inl rfl⟩,accept_first c hmax hw⟩
    | some h =>
      have hds : ds ≠ [] := by
        simp only [Represents,hh] at hw
        exact ne_nil_of_mem hw.1
      have hadm : Admissible w ds c ↔ h < c ∨ h-c ≤ replayWindowSize ∧ c ∉ ds := by
        simp [Admissible,hmax,hds,hh]
      rw [hadm]
      rcases Nat.lt_or_ge h c with hlt | hle
      · exact Or.inl ⟨Or.inl hlt,accept_newer hw hh c hmax hlt⟩
      · by_cases hdiff : h-c ≤ replayWindowSize
        · by_cases hc : c ∈ ds
          · exact Or.inr ⟨by simp [hc,Nat.not_lt.mpr hle],accept_repeated hw hh c hmax hle hdiff hc⟩
          · exact Or.inl ⟨Or.inr ⟨hdiff,hc⟩,accept_fresh hw hh c hmax hle hdiff hc⟩
        · refine Or.inr ⟨by simp [hdiff,Nat.not_lt.mpr hle],?_⟩
          simp only [ReplayWindow.accept,hmax,if_false,hh,Nat.not_lt.mpr hle,
            Nat.not_le.mp hdiff,if_true]

end Accepting

theorem acceptAll_represents (calls : List Nat) :
    Represents (windowAfter calls) (delivered calls) := by
  induction calls using List.reverseRecOn with
  | nil => exact represents_default
  | append_singleton calls c ih =>
    have hstep : acceptAll (calls ++ [c]) = acceptStep (acceptAll calls) c := by
      simp [acceptAll]
    rw [windowAfter,delivered,hstep,acceptStep]
    rcases accept_cases ih c with ⟨-,htrue,hrep⟩ | ⟨-,hsame⟩
    · simp only [windowAfter] at htrue hrep
      rw [if_pos htrue]
      exact hrep
    · simp only [windowAfter] at hsame
      simp only [hsame]
      exact ih

/-- Each counter is delivered at most once, a fresh counter of the window is never
refused, the pre-check agrees with the verdict, and a refusal changes nothing. -/
theorem accept_run (calls : List Nat) (c : Nat) :
    (((windowAfter calls).accept c).1 = true ↔
      c ≠ u64Max ∧ (delivered calls = [] ∨ ∃ h, (windowAfter calls).highest = some h ∧
        (h < c ∨ h-c ≤ 8128 ∧ c ∉ delivered calls))) ∧
    (windowAfter calls).highest = (delivered calls).max? ∧
    (delivered calls).Nodup ∧
    (windowAfter calls).canAccept c = ((windowAfter calls).accept c).1 ∧
    (((windowAfter calls).accept c).1 = false → ∀ d, d ≠ c →
      ((windowAfter calls).accept c).2.canAccept d = (windowAfter calls).canAccept d ∧
      (((windowAfter calls).accept c).2.accept d).1 = ((windowAfter calls).accept d).1) := by
  have hw := acceptAll_represents calls
  have hverdict : ((windowAfter calls).accept c).1 = true ↔
      Admissible (windowAfter calls) (delivered calls) c := by
    rcases accept_cases hw c with ⟨hadm,htrue,-⟩ | ⟨hadm,hsame⟩
    · simp [hadm,htrue]
    · simp [hadm,hsame]
  refine ⟨hverdict,hw.highest_eq,hw.nodup,?_,?_⟩
  · rw [Bool.eq_iff_iff,canAccept_iff hw c,hverdict]
  · intro hfalse d _
    rcases accept_cases hw c with ⟨-,htrue,-⟩ | ⟨-,hsame⟩
    · rw [hfalse] at htrue
      contradiction
    · rw [hsame]
      exact ⟨rfl,rfl⟩

example : delivered [1,1+8128,1,2+8128,1,2] = [1,1+8128,2+8128,2] := by decide

end Fips.Dataplane
