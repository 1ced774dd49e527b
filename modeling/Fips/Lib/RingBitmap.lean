import Mathlib

set_option autoImplicit false

namespace RingBitmap

/-- A ring of `n` words of `w` bits. Counter `c` belongs to block `c / w`, and block
`b` is stored in word `b % n`, so a word is shared by every block of its residue. -/
abbrev Ring (w n : Nat) := Vector (BitVec w) n

variable {w n : Nat} [NeZero n]

def slot (n b : Nat) [NeZero n] : Fin n := ⟨b % n,Nat.mod_lt b (Nat.pos_of_neZero n)⟩

section Rings

variable (r : Ring w n)

def Ring.word (b : Nat) : BitVec w := r[slot n b]

def Ring.setWord (b : Nat) (v : BitVec w) : Ring w n :=
  r.set (slot n b).val v (slot n b).isLt

def Ring.clearWord (b : Nat) : Ring w n := r.setWord b 0

def mask (w c : Nat) : BitVec w := 1#w <<< (c % w)

def Ring.setBit (c : Nat) : Ring w n :=
  r.setWord (c/w) (r.word (c/w) ||| mask w c)

def Ring.bit (c : Nat) : Bool := (r.word (c/w)).getLsbD (c % w)

theorem Ring.word_setWord (b d : Nat) (v : BitVec w) :
    (r.setWord b v).word d = if b % n = d % n then v else r.word d := by
  simp only [word,setWord,slot,Fin.getElem_fin,Vector.getElem_set]

theorem Ring.word_congr {b d : Nat} (h : b % n = d % n) :
    r.word b = r.word d := by simp [word,slot,h]

@[simp] theorem Ring.word_replicate (v : BitVec w) (b : Nat) :
    Ring.word (Vector.replicate n v) b = v := by
  simp [word]

theorem mask_getLsbD {w : Nat} (c d : Nat) (hw : 0 < w) :
    (mask w c).getLsbD (d % w) = decide (d % w = c % w) := by
  have hc := Nat.mod_lt c hw
  rw [mask,← BitVec.twoPow_eq]
  simp [hc,eq_comm]

theorem and_mask_eq_zero {w : Nat} (v : BitVec w) (c : Nat) (hw : 0 < w) :
    v &&& mask w c = 0#w ↔ v.getLsbD (c % w) = false := by
  have hc := Nat.mod_lt c hw
  rw [mask,← BitVec.twoPow_eq,BitVec.and_twoPow]
  by_cases hv : v.getLsbD (c % w) = true
  · have hz : BitVec.twoPow w (c % w) ≠ 0#w := by
      intro h
      simpa [hc] using congrArg (BitVec.getLsbD · (c % w)) h
    simp [hz]
  · simp [hv]

theorem Ring.bit_setBit (c d : Nat) (hw : 0 < w) :
    (r.setBit c).bit d =
      (r.bit d || decide (c/w % n = d/w % n ∧ d % w = c % w)) := by
  simp only [bit,setBit,word_setWord]
  by_cases hs : c/w % n = d/w % n
  · rw [if_pos hs,BitVec.getLsbD_or,mask_getLsbD c d hw,r.word_congr hs]
    simp [hs]
  · simp [hs]

theorem Ring.bit_clearWord (b d : Nat) :
    (r.clearWord b).bit d = (r.bit d && decide (b % n ≠ d/w % n)) := by
  simp only [bit,clearWord,word_setWord]
  by_cases hs : b % n = d/w % n <;> simp [hs]

theorem Ring.bit_clearWords (bs : List Nat) (r : Ring w n) (d : Nat) :
    (bs.foldl Ring.clearWord r).bit d =
      (r.bit d && decide (∀ b ∈ bs, b % n ≠ d/w % n)) := by
  induction bs generalizing r with
  | nil => simp
  | cons b bs ih =>
    rw [List.foldl_cons,ih,bit_clearWord]
    by_cases hb : b % n = d/w % n <;> simp [hb]

theorem Ring.setBit_word_eq (c : Nat) (hw : 0 < w) :
    (r.setBit c).word (c/w) = r.word (c/w) ↔ r.bit c = true := by
  simp only [setBit,word_setWord,if_true]
  constructor
  · intro h
    have hb := congrArg (fun v => v.getLsbD (c % w)) h
    simp only [BitVec.getLsbD_or,mask_getLsbD c c hw] at hb
    simpa [bit] using hb.symm
  · intro h
    apply BitVec.eq_of_getLsbD_eq
    intro i hi
    by_cases hc : i = c % w
    · subst hc
      have hb : (r.word (c/w)).getLsbD (c % w) = true := h
      simp [hb]
    · have hm := mask_getLsbD c i hw
      rw [Nat.mod_eq_of_lt hi] at hm
      simp [hm,hc]

theorem Ring.setBit_of_bit (c : Nat) (hw : 0 < w) (h : r.bit c = true) :
    r.setBit c = r := by
  have hs := (r.setBit_word_eq c hw).mpr h
  simp only [setBit,word_setWord,if_true] at hs
  simp only [setBit,hs]
  apply Vector.ext
  intro i hi
  simp only [setWord,word,Vector.getElem_set]
  split
  · rename_i hi
    simp [hi]
  · rfl

end Rings

/-- The ring holds the set `S` for every counter of the last `n` blocks up to `top`.
Older blocks have lost their word to a newer block of the same residue. -/
structure Tracks (r : Ring w n) (S : Set Nat) (top : Nat) : Prop where
  bit_iff : ∀ c, c/w ≤ top → top < c/w + n → (r.bit c = true ↔ c ∈ S)
  bounded : ∀ c ∈ S, c/w ≤ top

theorem Tracks.empty (top : Nat) :
    Tracks (Vector.replicate n (0 : BitVec w)) ∅ top := by
  refine ⟨?_,by simp⟩
  simp [Ring.bit]

theorem live_block_unique {n b d top : Nat} (hb : b ≤ top) (hb' : top < b+n)
    (hd : d ≤ top) (hd' : top < d+n) (h : b % n = d % n) : b = d := by
  have h₁ := Nat.div_add_mod b n
  have h₂ := Nat.div_add_mod d n
  have hq : b/n = d/n := by
    by_contra hne
    rcases Nat.lt_or_gt_of_ne hne with hlt | hlt
    · have := Nat.mul_le_mul_left n (Nat.succ_le_of_lt hlt)
      rw [Nat.mul_succ] at this
      omega
    · have := Nat.mul_le_mul_left n (Nat.succ_le_of_lt hlt)
      rw [Nat.mul_succ] at this
      omega
  rw [hq] at h₁
  omega

theorem Tracks.insert {r : Ring w n} {S : Set Nat} {top c : Nat} (hw : 0 < w)
    (h : Tracks r S top) (hc : c/w ≤ top) (hc' : top < c/w + n) :
    Tracks (r.setBit c) (insert c S) top := by
  refine ⟨?_,?_⟩
  · intro d hd hd'
    rw [Ring.bit_setBit r c d hw]
    simp only [Bool.or_eq_true,decide_eq_true_eq,h.bit_iff d hd hd']
    constructor
    · rintro (hS | ⟨hs,hm⟩)
      · exact Or.inr hS
      · have hb := live_block_unique hc hc' hd hd' hs
        have h₁ := Nat.div_add_mod c w
        have h₂ := Nat.div_add_mod d w
        rw [← hb,hm] at h₂
        exact Or.inl (h₂.symm.trans h₁)
    · rintro (rfl | hS)
      · exact Or.inr ⟨rfl,rfl⟩
      · exact Or.inl hS
  · intro d hd
    rcases hd with rfl | hd
    · exact hc
    · exact h.bounded d hd

theorem Tracks.advance {r r' : Ring w n} {S : Set Nat} {top top' : Nat}
    (h : Tracks r S top) (hle : top ≤ top')
    (hkeep : ∀ c, c/w ≤ top → top' < c/w + n → r'.bit c = r.bit c)
    (hnew : ∀ c, top < c/w → c/w ≤ top' → top' < c/w + n → r'.bit c = false) :
    Tracks r' S top' := by
  refine ⟨?_,fun c hc => Nat.le_trans (h.bounded c hc) hle⟩
  intro c hc hc'
  by_cases ht : c/w ≤ top
  · rw [hkeep c ht hc']
    exact h.bit_iff c ht (by omega)
  · rw [hnew c (by omega) hc hc']
    have hS : c ∉ S := fun hS => ht (h.bounded c hS)
    simp [hS]

/-- Clearing the words of the blocks `top+1, ..., top+k` advances the ring by `k`
blocks, and by any number of blocks once `k` covers the whole ring. -/
theorem Tracks.advance_clearWords {r : Ring w n} {S : Set Nat} {top top' k : Nat}
    (h : Tracks r S top) (hle : top ≤ top') (hk : top+k = top' ∨ n ≤ k ∧ top+k ≤ top') :
    Tracks ((List.range' (top+1) k).foldl Ring.clearWord r) S top' := by
  apply h.advance hle
  · intro c hc hc'
    rw [Ring.bit_clearWords]
    suffices hs : ∀ b ∈ List.range' (top+1) k, b % n ≠ c/w % n by
      rw [decide_eq_true hs,Bool.and_true]
    intro b hb hs
    rw [List.mem_range'_1] at hb
    rcases hk with hk | ⟨hn,hk⟩
    · have hbc : b = c/w :=
        live_block_unique (by omega : b ≤ top') (by omega) (by omega) hc' hs
      omega
    · omega
  · intro c hc hct hc'
    rw [Ring.bit_clearWords]
    suffices hs : ∃ b ∈ List.range' (top+1) k, b % n = c/w % n by
      obtain ⟨b,hb,hs⟩ := hs
      simp only [Bool.and_eq_false_iff,decide_eq_false_iff_not]
      exact Or.inr (fun hall => hall b hb hs)
    rcases hk with hk | ⟨hn,hk⟩
    · exact ⟨c/w,by rw [List.mem_range'_1]; omega,rfl⟩
    · refine ⟨top+1+(c/w-(top+1))%n,?_,?_⟩
      · have hm := Nat.mod_lt (c/w-(top+1)) (Nat.pos_of_neZero n)
        rw [List.mem_range'_1]; omega
      · rw [Nat.add_mod_mod]
        congr 1
        omega

end RingBitmap
