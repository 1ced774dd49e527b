import Fips.Basic
import Fips.Lib.RingBitmap

set_option autoImplicit false

namespace Fips.Noise
open RingBitmap

def replayWindowSize : Nat := 8192

/-- One extra word retains a full window even when its oldest and newest counters
lie in partial words. -/
def ringWords : Nat := replayWindowSize/64+1

instance : NeZero ringWords := ⟨by decide⟩

inductive ReplayRejection where
  | duplicate | tooOld
  deriving DecidableEq, Repr

structure ReplayWindow where
  highest : Nat
  bitmap : Ring 64 ringWords
  deriving DecidableEq

def ReplayWindow.new : ReplayWindow := ⟨0,Vector.replicate ringWords 0⟩

def wordIndex (counter : Nat) : Fin ringWords := slot ringWords (counter/64)

def ReplayWindow.rejectionReason (w : ReplayWindow) (counter : Nat) : Option ReplayRejection :=
  if counter = u64Max then some .tooOld
  else if w.highest < counter then none
  else if replayWindowSize ≤ w.highest-counter then some .tooOld
  else if w.bitmap[wordIndex counter] &&& 1#64 <<< (counter%64) = 0#64 then none
  else some .duplicate

def ReplayWindow.check (w : ReplayWindow) (counter : Nat) : Bool :=
  (w.rejectionReason counter).isNone

/-- The part of `accept` that moves the window: every word whose block lies above the
old top is emptied, or the whole ring when the jump covers it. -/
def ReplayWindow.advance (w : ReplayWindow) (counter : Nat) : ReplayWindow :=
  let currentWord := w.highest/64
  let nextWord := counter/64
  ⟨counter,
    if ringWords ≤ nextWord-currentWord then Vector.replicate ringWords 0
    else (List.range' (currentWord+1) (nextWord-currentWord)).foldl Ring.clearWord w.bitmap⟩

def ReplayWindow.accept (w : ReplayWindow) (counter : Nat) : ReplayWindow :=
  if counter = u64Max then w
  else if w.highest < counter then
    let w := w.advance counter
    { w with bitmap := w.bitmap.setBit counter }
  else if replayWindowSize ≤ w.highest-counter then w
  else { w with bitmap := w.bitmap.setBit counter }

def ReplayWindow.acceptAll (calls : List Nat) : ReplayWindow :=
  calls.foldl ReplayWindow.accept .new

def largestAccepted : List Nat → Nat
  | [] => 0
  | c :: cs => max (if c = u64Max then 0 else c) (largestAccepted cs)

def OlderThanWindow (h c : Nat) : Prop := c ≤ h ∧ replayWindowSize ≤ h-c

def acceptedSet (calls : List Nat) : Set Nat :=
  { c | ∃ before after, calls = before ++ c :: after ∧ c ≠ u64Max ∧
    ¬ OlderThanWindow (largestAccepted before) c }

open Classical in
/-- The verdict of an unbounded replay set on a counter. -/
noncomputable def expectedReason (S : Set Nat) (h c : Nat) : Option ReplayRejection :=
  if c = u64Max then some .tooOld
  else if h < c then none
  else if replayWindowSize ≤ h-c then some .tooOld
  else if c ∈ S then some .duplicate
  else none

theorem largestAccepted_append (cs ds : List Nat) :
    largestAccepted (cs ++ ds) = max (largestAccepted cs) (largestAccepted ds) := by
  induction cs with
  | nil => simp [largestAccepted]
  | cons c cs ih => simp [largestAccepted,ih]

theorem largestAccepted_snoc (cs : List Nat) (c : Nat) :
    largestAccepted (cs ++ [c]) =
      if c = u64Max then largestAccepted cs else max (largestAccepted cs) c := by
  rw [largestAccepted_append]
  by_cases hc : c = u64Max <;> simp [largestAccepted,hc]

theorem acceptedSet_nil : acceptedSet [] = ∅ := by
  simp [acceptedSet]

theorem mem_acceptedSet_snoc (cs : List Nat) (c d : Nat) :
    d ∈ acceptedSet (cs ++ [c]) ↔
      d ∈ acceptedSet cs ∨ d = c ∧ c ≠ u64Max ∧ ¬ OlderThanWindow (largestAccepted cs) c := by
  constructor
  · rintro ⟨before,after,hsplit,hmax,hlive⟩
    rcases List.append_eq_append_iff.mp hsplit with ⟨mid,hb,hmid⟩ | ⟨mid,hb,hmid⟩
    · cases mid with
      | nil =>
        obtain ⟨rfl,-⟩ := hmid
        rw [List.append_nil] at hb
        exact Or.inr ⟨rfl,hmax,hb ▸ hlive⟩
      | cons e mid =>
        simp at hmid
    · cases mid with
      | nil =>
        obtain ⟨rfl,-⟩ := hmid
        rw [List.append_nil] at hb
        exact Or.inr ⟨rfl,hmax,hb ▸ hlive⟩
      | cons e mid =>
        obtain ⟨rfl,-⟩ := hmid
        exact Or.inl ⟨before,mid,hb,hmax,hlive⟩
  · rintro (⟨before,after,hsplit,hmax,hlive⟩ | ⟨rfl,hmax,hlive⟩)
    · exact ⟨before,after ++ [c],by simp [hsplit],hmax,hlive⟩
    · exact ⟨cs,[],rfl,hmax,hlive⟩

/-- The ring tracks the accepted set up to the block of the highest counter, and no
accepted counter is above the highest. -/
structure Represents (w : ReplayWindow) (S : Set Nat) (h : Nat) : Prop where
  highest_eq : w.highest = h
  tracks : Tracks w.bitmap S (h/64)
  le_highest : ∀ c ∈ S, c ≤ h

theorem represents_new : Represents .new ∅ 0 :=
  ⟨rfl,Tracks.empty 0,by simp⟩

variable {h c : Nat}

theorem window_block_live (hc : h-c < replayWindowSize) : h/64 < c/64+ringWords := by
  have hs : replayWindowSize = 8192 := rfl
  have hr : ringWords = 129 := rfl
  omega

variable {w : ReplayWindow} {S : Set Nat}

theorem advance_tracks (hw : Represents w S h) (hc : h < c) : Tracks (w.advance c).bitmap S (c/64) := by
  have hle : h/64 ≤ c/64 := Nat.div_le_div_right (Nat.le_of_lt hc)
  simp only [ReplayWindow.advance,hw.highest_eq]
  split
  · apply hw.tracks.advance hle
    · omega
    · simp [Ring.bit]
  · exact hw.tracks.advance_clearWords hle (Or.inl (by omega))

theorem accept_newer (hw : Represents w S h) (hmax : c ≠ u64Max) (hc : h < c) :
    Represents (w.accept c) (insert c S) c := by
  have hacc : w.accept c = { w.advance c with bitmap := (w.advance c).bitmap.setBit c } := by
    simp [ReplayWindow.accept,hmax,hw.highest_eq,hc]
  rw [hacc]
  refine ⟨rfl,(advance_tracks hw hc).insert (by decide) (Nat.le_refl _) ?_,?_⟩
  · have hr : ringWords = 129 := rfl
    omega
  · rintro d (rfl | hd)
    · exact Nat.le_refl d
    · exact Nat.le_of_lt (Nat.lt_of_le_of_lt (hw.le_highest d hd) hc)

theorem accept_expired (hw : Represents w S h) (hold : OlderThanWindow h c) : w.accept c = w := by
  obtain ⟨hle,hdiff⟩ := hold
  simp [ReplayWindow.accept,hw.highest_eq,Nat.not_lt.mpr hle,hdiff]

theorem accept_inside (hw : Represents w S h) (hmax : c ≠ u64Max) (hle : c ≤ h)
    (hdiff : h-c < replayWindowSize) :
    Represents (w.accept c) (insert c S) h := by
  have hacc : w.accept c = { w with bitmap := w.bitmap.setBit c } := by
    simp [ReplayWindow.accept,hmax,hw.highest_eq,Nat.not_lt.mpr hle,Nat.not_le.mpr hdiff]
  rw [hacc]
  refine ⟨hw.highest_eq,hw.tracks.insert (by decide) (Nat.div_le_div_right hle)
    (window_block_live hdiff),?_⟩
  rintro d (rfl | hd)
  · exact hle
  · exact hw.le_highest d hd

/-- What one call does to the abstract set and the highest counter. -/
theorem accept_represents {calls : List Nat}
    (hw : Represents w (acceptedSet calls) (largestAccepted calls)) (c : Nat) :
    Represents (w.accept c) (acceptedSet (calls ++ [c])) (largestAccepted (calls ++ [c])) := by
  have hset : ∀ (hmax : c ≠ u64Max) (hlive : ¬ OlderThanWindow (largestAccepted calls) c),
      acceptedSet (calls ++ [c]) = insert c (acceptedSet calls) := by
    intro hmax hlive
    ext d
    rw [mem_acceptedSet_snoc]
    simp [hmax,hlive,or_comm]
  rw [largestAccepted_snoc]
  by_cases hmax : c = u64Max
  · have hsame : acceptedSet (calls ++ [c]) = acceptedSet calls := by
      ext d
      rw [mem_acceptedSet_snoc]
      simp [hmax]
    rw [hsame,hmax]
    exact hw
  · rw [if_neg hmax]
    by_cases hold : OlderThanWindow (largestAccepted calls) c
    · have hsame : acceptedSet (calls ++ [c]) = acceptedSet calls := by
        ext d
        rw [mem_acceptedSet_snoc]
        simp [hold]
      rw [hsame,accept_expired hw hold,max_eq_left hold.1]
      exact hw
    · rw [hset hmax hold]
      rcases Nat.lt_or_ge (largestAccepted calls) c with hlt | hle
      · rw [max_eq_right (Nat.le_of_lt hlt)]
        exact accept_newer hw hmax hlt
      · have hdiff : largestAccepted calls-c < replayWindowSize :=
          Nat.not_le.mp (fun hd => hold ⟨hle,hd⟩)
        rw [max_eq_left hle]
        exact accept_inside hw hmax hle hdiff

theorem acceptAll_represents (calls : List Nat) :
    Represents (.acceptAll calls) (acceptedSet calls) (largestAccepted calls) := by
  induction calls using List.reverseRecOn with
  | nil => rw [acceptedSet_nil]; exact represents_new
  | append_singleton calls c ih =>
    rw [ReplayWindow.acceptAll,List.foldl_append]
    exact accept_represents ih c

theorem rejectionReason_represents (hw : Represents w S h) (c : Nat) :
    w.rejectionReason c = expectedReason S h c := by
  simp only [ReplayWindow.rejectionReason,expectedReason,hw.highest_eq]
  split
  · rfl
  · split
    · rfl
    · split
      · rfl
      · rename_i hle hdiff
        have hbit := hw.tracks.bit_iff c (Nat.div_le_div_right (Nat.not_lt.mp hle))
          (window_block_live (Nat.not_le.mp hdiff))
        have hmask := and_mask_eq_zero (w.bitmap.word (c/64)) c (by decide : 0 < 64)
        have hread : w.bitmap[wordIndex c] &&& 1#64 <<< (c%64) = 0#64 ↔
            c ∉ S := by
          rw [← hbit,Bool.not_eq_true]
          exact hmask
        by_cases hS : c ∈ S
        · rw [if_neg (fun h => hread.mp h hS),if_pos hS]
        · rw [if_pos (hread.mpr hS),if_neg hS]

/-- After any sequence of calls the window answers every counter as the unbounded
set of accepted counters would. -/
theorem acceptAll_refines_set (calls : List Nat) (c : Nat) :
    (ReplayWindow.acceptAll calls).rejectionReason c =
        expectedReason (acceptedSet calls) (largestAccepted calls) c ∧
      (ReplayWindow.acceptAll calls).highest = largestAccepted calls :=
  ⟨rejectionReason_represents (acceptAll_represents calls) c,
    (acceptAll_represents calls).highest_eq⟩

example : (ReplayWindow.acceptAll [5,5+8192*3,7,6+8192*3]).rejectionReason (5+8192*3) =
    some .duplicate := by decide

end Fips.Noise
