import Fips.Lib.Checked

set_option autoImplicit false

/-! The fixed-point jitter and round-trip estimators of the measurement protocol. -/

namespace Fips.Mmp

open Option

/-- The result of an operation on `i64`, `none` when it overflows. -/
def i64 (value : Int) : Option Int :=
  if -9223372036854775808 ≤ value ∧ value ≤ 9223372036854775807 then some value else none

theorem i64_eq {value : Int} (low : -9223372036854775808 ≤ value) (high : value ≤ 9223372036854775807) :
    i64 value = some value := if_pos ⟨low,high⟩

structure JitterEstimator where
  jitterQ4 : Int
  deriving DecidableEq

namespace JitterEstimator

def new : JitterEstimator := ⟨0⟩

def update (self : JitterEstimator) (transitDelta : Int32) : Option JitterEstimator := do
  let absD ← i64 transitDelta.toInt.natAbs
  let change ← i64 (absD - self.jitterQ4 >>> (4 : Nat))
  return { jitterQ4 := ← i64 (self.jitterQ4 + change) }

def jitterUs (self : JitterEstimator) : Nat := (self.jitterQ4 >>> (4 : Nat) % 2 ^ 32).toNat

def Within (self : JitterEstimator) (bound : Nat) : Prop :=
  0 ≤ self.jitterQ4 ∧ self.jitterQ4 ≤ 16 * bound + 15

variable {self : JitterEstimator} {bound : Nat}

theorem update_within {delta : Int32} (within : self.Within bound) (small : delta.toInt.natAbs ≤ bound)
    (fits : bound ≤ 2 ^ 31) : ∃ next, self.update delta = some next ∧ next.Within bound := by
  obtain ⟨low,high⟩ := within
  have shifted : self.jitterQ4 >>> (4 : Nat) = self.jitterQ4 / 16 := Int.shiftRight_eq_div_pow _ 4
  refine ⟨⟨self.jitterQ4 + (delta.toInt.natAbs - self.jitterQ4 / 16)⟩,?_,?_,?_⟩
  · rw [update,i64_eq (by omega) (by omega),bind_eq_bind,bind_some,shifted,i64_eq (by omega) (by omega)]
    simp only [bind_some]
    rw [i64_eq (by omega) (by omega)]
    rfl
  · show 0 ≤ self.jitterQ4 + (delta.toInt.natAbs - self.jitterQ4 / 16)
    omega
  · show self.jitterQ4 + (delta.toInt.natAbs - self.jitterQ4 / 16) ≤ 16 * bound + 15
    omega

theorem Within.jitterUs_eq (within : self.Within bound) (fits : bound ≤ 2 ^ 31) :
    (self.jitterUs : Int) = self.jitterQ4 / 16 ∧ self.jitterUs ≤ bound := by
  obtain ⟨low,high⟩ := within
  have shifted : self.jitterQ4 >>> (4 : Nat) = self.jitterQ4 / 16 := Int.shiftRight_eq_div_pow _ 4
  rw [jitterUs]
  omega

theorem run_within {deltas : List Int32} (small : ∀ d ∈ deltas, d.toInt.natAbs ≤ bound)
    (fits : bound ≤ 2 ^ 31) :
    ∃ e, deltas.foldlM update new = some e ∧ e.Within bound :=
  Checked.exists_foldlM (fun _ (e : JitterEstimator) => e.Within bound) [] deltas
    ⟨by decide,by simp only [new]; omega⟩
    fun _ d hd _ within => update_within within (small d hd) fits

end JitterEstimator

structure SrttEstimator where
  srttUs : Int
  rttvarUs : Int
  initialized : Bool
  deriving DecidableEq

namespace SrttEstimator

def new : SrttEstimator := { srttUs := 0,rttvarUs := 0,initialized := false }

def update (self : SrttEstimator) (rttUs : Int) : Option SrttEstimator :=
  if !self.initialized then
    return { srttUs := rttUs,rttvarUs := rttUs.tdiv 2,initialized := true }
  else do
    let difference ← i64 (self.srttUs - rttUs)
    let err ← i64 difference.natAbs
    let keptVar ← i64 (self.rttvarUs - self.rttvarUs >>> (2 : Nat))
    let rttvar ← i64 (keptVar + err >>> (2 : Nat))
    let kept ← i64 (self.srttUs - self.srttUs >>> (3 : Nat))
    return { self with srttUs := ← i64 (kept + rttUs >>> (3 : Nat)),rttvarUs := rttvar }

/-- The rounding of the three shifts is at most 7 for the average and 10 for the variance. -/
structure Within (self : SrttEstimator) (a b : Int) : Prop where
  srtt_low : max 0 (a - 7) ≤ self.srttUs
  srtt_high : self.srttUs ≤ b + 7
  rttvar_low : 0 ≤ self.rttvarUs
  rttvar_high : self.rttvarUs ≤ max (b / 2) (b - a + 10)

variable {self : SrttEstimator} {a b r : Int}

theorem update_within (nonneg : 0 ≤ a) (below : b < 2 ^ 60) (low : a ≤ r) (high : r ≤ b)
    (within : self.initialized = true → self.Within a b) :
    ∃ next, self.update r = some next ∧ next.initialized = true ∧ next.Within a b := by
  cases fresh : self.initialized with
  | false =>
    have half : r.tdiv 2 = r / 2 := Int.tdiv_eq_ediv_of_nonneg (by omega)
    refine ⟨⟨r,r.tdiv 2,true⟩,by simp [update,fresh],rfl,?_⟩
    rw [half]
    constructor <;> simp only <;> omega
  | true =>
    obtain ⟨h₁,h₂,h₃,h₄⟩ := within fresh
    have var : self.rttvarUs >>> (2 : Nat) = self.rttvarUs / 4 := Int.shiftRight_eq_div_pow _ 2
    have err : ((self.srttUs - r).natAbs : Int) >>> (2 : Nat) = (self.srttUs - r).natAbs / 4 :=
      Int.shiftRight_eq_div_pow _ 2
    have avg : self.srttUs >>> (3 : Nat) = self.srttUs / 8 := Int.shiftRight_eq_div_pow _ 3
    have new : r >>> (3 : Nat) = r / 8 := Int.shiftRight_eq_div_pow _ 3
    refine ⟨⟨self.srttUs - self.srttUs / 8 + r / 8,
      self.rttvarUs - self.rttvarUs / 4 + (self.srttUs - r).natAbs / 4,true⟩,?_,rfl,?_⟩
    · rw [update,fresh,i64_eq (by omega) (by omega)]
      simp only [Bool.not_true,Bool.false_eq_true,if_false,bind_eq_bind,bind_some]
      rw [i64_eq (by omega) (by omega),bind_some,var,err,avg,new,i64_eq (by omega) (by omega),bind_some,
        i64_eq (by omega) (by omega),bind_some,i64_eq (by omega) (by omega),bind_some,
        i64_eq (by omega) (by omega)]
      rfl
    · constructor <;> simp only <;> omega

theorem run_within {samples : List Int} (nonneg : 0 ≤ a) (below : b < 2 ^ 60)
    (sampled : ∀ r ∈ samples, a ≤ r ∧ r ≤ b) :
    ∃ e, samples.foldlM update new = some e ∧ (samples ≠ [] → e.Within a b) := by
  obtain ⟨e,run,_,within⟩ := Checked.exists_foldlM (m := Option) (f := update)
    (fun done e => (e.initialized = true → e.Within a b) ∧ (done ≠ [] → e.Within a b)) [] samples
    (s := new) ⟨fun fresh => (by cases fresh),fun some => absurd rfl some⟩ fun done r hr s kept => by
      obtain ⟨next,step,_,within⟩ := update_within nonneg below (sampled r hr).1 (sampled r hr).2 kept.1
      exact ⟨next,step,fun _ => within,fun _ => within⟩
  exact ⟨e,run,within⟩

end SrttEstimator

/-- An `i32` has no more than 2³¹ for its absolute value, so the bound of the deltas never exceeds the
`u32` of the report. -/
theorem estimators_within_inputs (a b : Int) (bound : Nat) (samples : List Int)
    (deltas : List Int32) (nonneg : 0 ≤ a) (below : b < 2 ^ 60) (sampled : ∀ r ∈ samples, a ≤ r ∧ r ≤ b)
    (small : ∀ d ∈ deltas, d.toInt.natAbs ≤ bound) :
    (∃ e, samples.foldlM SrttEstimator.update .new = some e ∧ (samples ≠ [] →
      max 0 (a - 7) ≤ e.srttUs ∧ e.srttUs ≤ b + 7 ∧ 0 ≤ e.rttvarUs ∧ e.rttvarUs ≤ max (b / 2) (b - a + 10))) ∧
    ∃ e, deltas.foldlM JitterEstimator.update .new = some e ∧ 0 ≤ e.jitterQ4 ∧ e.jitterQ4 ≤ 16 * bound + 15 ∧
      (e.jitterUs : Int) = e.jitterQ4 / 16 ∧ e.jitterUs ≤ bound := by
  constructor
  · obtain ⟨e,run,within⟩ := SrttEstimator.run_within nonneg below sampled
    refine ⟨e,run,fun some => ?_⟩
    obtain ⟨h₁,h₂,h₃,h₄⟩ := within some
    exact ⟨h₁,h₂,h₃,h₄⟩
  · have fits : min bound (2 ^ 31) ≤ 2 ^ 31 := min_le_right _ _
    have smaller (d : Int32) (hd : d ∈ deltas) : d.toInt.natAbs ≤ min bound (2 ^ 31) := by
      have least := d.le_toInt
      have most := d.toInt_lt
      have := small d hd
      omega
    obtain ⟨e,run,within⟩ := JitterEstimator.run_within smaller fits
    obtain ⟨eq,le⟩ := within.jitterUs_eq fits
    obtain ⟨low,high⟩ := within
    exact ⟨e,run,low,by omega,eq,by omega⟩

theorem estimators_within_inputs_sample :
    ∃ e, [-3,2].foldlM JitterEstimator.update .new = some e ∧ 0 ≤ e.jitterQ4 ∧
    e.jitterQ4 ≤ 16 * (3 : Nat) + 15 ∧ (e.jitterUs : Int) = e.jitterQ4 / 16 ∧ e.jitterUs ≤ 3 :=
  (estimators_within_inputs 5 1000 3 [5,1000,7] [-3,2] (by decide) (by decide) (by decide) (by simp)).2

end Fips.Mmp
