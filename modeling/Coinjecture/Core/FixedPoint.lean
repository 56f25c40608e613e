import Coinjecture.Lib.LinearLog
import Coinjecture.Lib.Newton
import Coinjecture.Lib.Saturating
import Coinjecture.Lib.Words

/-! # Fixed-point arithmetic

The integer square root, and the logarithm and the quality factor of a work score in millionths. Each
function has no value where the source would lose a bit or divide by zero.

* `isqrt_bounds` : the root is the integer square root, for every `u128`.
* `computes_logScore` : the logarithm is the piecewise linear one.
-/

namespace Coinjecture.Core.FixedPoint

open Lib.LinearLog
open Lib.Newton
open Lib.Saturating
open Lib.Words

abbrev Fixed64 := BitVec 64

def SCALE : BitVec 64 := 1000000

def SCALE_U128 : BitVec 128 := SCALE.setWidth 128

def SHIFT : ℕ := 32

/-! ### The square root -/

/-- `u128::div_ceil`. -/
def divCeil (a b : BitVec 128) : Option (BitVec 128) := do
  let d ← checkedDiv a b
  if 0 < a % b then checkedAdd d 1 else some d

/-- The `while` loop of `isqrt`. -/
def isqrtLoop (n x y : BitVec 128) : Option (BitVec 128) :=
  if _ : y < x then do
    let q ← checkedDiv n y
    let sum ← checkedAdd y q
    let half ← checkedDiv sum 2
    isqrtLoop n y half
  else some x
termination_by x.toNat

def isqrt (n : BitVec 128) : Option (BitVec 128) :=
  if n = 0 then some 0
  else do
    let y ← divCeil n 2
    isqrtLoop n n y

theorem computes_divCeil_two (n : BitVec 128) : Computes (divCeil n 2) ((n.toNat + 1) / 2) := by
  have hn : n.toNat < 2 ^ 128 := n.isLt
  have htwo : (2 : BitVec 128).toNat = 2 := rfl
  refine computes_bind (computes_checkedDiv (by decide)) fun d hd => ?_
  rw [htwo] at hd
  have hrem : 0 < n % 2 ↔ 0 < n.toNat % 2 := by
    rw [BitVec.lt_def, BitVec.toNat_umod]
    rfl
  split_ifs with hodd
  · have hodd' := hrem.mp hodd
    have hone : (1 : BitVec 128).toNat = 1 := rfl
    have hsum := computes_checkedAdd (a := d) (b := 1) (by omega)
    rwa [hone, show d.toNat + 1 = (n.toNat + 1) / 2 by omega] at hsum
  · have heven := mt hrem.mpr hodd
    have hval := computes_some d
    rwa [show d.toNat = (n.toNat + 1) / 2 by omega] at hval

/-- The loop, from a number between the root and `n` and the step from there. -/
theorem computes_isqrtLoop {n x y : BitVec 128} (hx : 0 < x.toNat) (hroot : n.toNat.sqrt ≤ x.toNat)
    (hle : x.toNat ≤ n.toNat) (hy : y.toNat = newtonStep n.toNat x.toNat) :
    Computes (isqrtLoop n x y) n.toNat.sqrt := by
  have hrooty : n.toNat.sqrt ≤ y.toNat := hy ▸ sqrt_le_newtonStep hx
  have hpos : 0 < n.toNat.sqrt := Nat.sqrt_pos.mpr (hx.trans_le hle)
  unfold isqrtLoop
  split_ifs with hlt
  · have hyx : y.toNat < x.toNat := hlt
    have hn : n.toNat < 2 ^ 128 := n.isLt
    have hfit : y.toNat + n.toNat / y.toNat < 2 ^ 128 :=
      (add_div_le hrooty (hyx.trans_le hle)).trans_lt (by omega)
    refine computes_bind (computes_checkedDiv (hpos.trans_le hrooty)) fun q hq => ?_
    refine computes_bind (computes_checkedAdd (hq ▸ hfit)) fun sum hsum => ?_
    refine computes_bind (computes_checkedDiv (by decide)) fun half hhalf => ?_
    have hstep : half.toNat = newtonStep n.toNat y.toNat := by
      rw [hhalf, hsum, hq]
      rfl
    exact computes_isqrtLoop (hpos.trans_le hrooty) hrooty (hyx.le.trans hle) hstep
  · have hyx : ¬ y.toNat < x.toNat := hlt
    have hexit : x.toNat ≤ n.toNat.sqrt := le_sqrt_of_le_newtonStep (hy ▸ not_lt.mp hyx)
    have hval := computes_some x
    rwa [hexit.antisymm hroot] at hval
termination_by x.toNat

theorem computes_isqrt (n : BitVec 128) : Computes (isqrt n) n.toNat.sqrt := by
  unfold isqrt
  split_ifs with hzero
  · rw [hzero]
    exact ⟨0, rfl, Nat.sqrt_zero.symm⟩
  · have hpos : 0 < n.toNat := Nat.pos_of_ne_zero fun h => hzero (BitVec.eq_of_toNat_eq h)
    refine computes_bind (computes_divCeil_two n) fun y hy => ?_
    exact computes_isqrtLoop hpos (Nat.sqrt_le_self _) le_rfl (hy.trans (newtonStep_self hpos).symm)

/-- The integer square root, without an overflow, of every `u128`. -/
theorem isqrt_bounds (n : BitVec 128) : ∃ r, isqrt n = some r ∧
    r.toNat ^ 2 ≤ n.toNat ∧ n.toNat < (r.toNat + 1) ^ 2 := by
  obtain ⟨r, hr, hval⟩ := computes_isqrt n
  refine ⟨r, hr, ?_, ?_⟩
  · rw [hval]
    exact Nat.sqrt_le' _
  · rw [hval]
    exact Nat.lt_succ_sqrt' _

/-! ### Products -/

/-- `mul`: the product of two fixed-point numbers, where it fits. -/
def mul (a b : Fixed64) : Option Fixed64 := do
  let product ← checkedMul (a.setWidth 128) (b.setWidth 128)
  let result ← checkedDiv product SCALE_U128
  if (BitVec.allOnes 64).setWidth 128 < result then none else some (result.setWidth 64)

/-- `apply_quality`, for a quality in basis points. -/
def applyQuality (score : Fixed64) (qualityBps : BitVec 16) : Option Fixed64 :=
  if qualityBps = 0 then some 0
  else if 10000 ≤ qualityBps then some score
  else do
    let product ← checkedMul (score.setWidth 128) (qualityBps.setWidth 128)
    let scaled ← checkedDiv product 10000
    checkedCast 64 scaled

/-- `mul` gives the product if it fits, and nothing otherwise. -/
theorem mul_eq (a b : Fixed64) : mul a b =
    if a.toNat * b.toNat / 1000000 < 2 ^ 64 then some (BitVec.ofNat 64 (a.toNat * b.toNat / 1000000))
    else none := by
  have ha : (a.setWidth 128).toNat = a.toNat := by
    rw [BitVec.toNat_setWidth]
    exact Nat.mod_eq_of_lt (a.isLt.trans (by decide))
  have hb : (b.setWidth 128).toNat = b.toNat := by
    rw [BitVec.toNat_setWidth]
    exact Nat.mod_eq_of_lt (b.isLt.trans (by decide))
  have hfit : a.toNat * b.toNat < 2 ^ 128 :=
    (Nat.mul_lt_mul'' a.isLt b.isLt).trans_le (by decide)
  obtain ⟨product, hproduct, hval⟩ :=
    computes_checkedMul (a := a.setWidth 128) (b := b.setWidth 128) (by rwa [ha, hb])
  obtain ⟨result, hresult, hrval⟩ := computes_checkedDiv (a := product) (b := SCALE_U128) (by decide)
  rw [hval, ha, hb, show SCALE_U128.toNat = 1000000 from rfl] at hrval
  have hlarge : (BitVec.allOnes 64).setWidth 128 < result ↔ ¬ a.toNat * b.toNat / 1000000 < 2 ^ 64 := by
    rw [BitVec.lt_def, hrval, show ((BitVec.allOnes 64).setWidth 128).toNat = 2 ^ 64 - 1 from rfl]
    omega
  have hcast : result.setWidth 64 = BitVec.ofNat 64 (a.toNat * b.toNat / 1000000) := by
    rw [← hrval]
    exact BitVec.eq_of_toNat_eq (by rw [BitVec.toNat_setWidth, BitVec.toNat_ofNat])
  rw [mul, hproduct, Option.bind_eq_bind, Option.bind_some, hresult, Option.bind_some, hcast]
  by_cases hlt : a.toNat * b.toNat / 1000000 < 2 ^ 64
  · rw [if_neg (fun h => hlarge.mp h hlt), if_pos hlt]
  · rw [if_pos (hlarge.mpr hlt), if_neg hlt]

/-- A quality below the whole takes its share of the score. -/
def qualityShare (score quality : ℕ) : ℕ := score * min quality 10000 / 10000

theorem toNat_setWidth_of_le {w v : ℕ} (a : BitVec w) (h : w ≤ v) : (a.setWidth v).toNat = a.toNat := by
  rw [BitVec.toNat_setWidth]
  exact Nat.mod_eq_of_lt (a.isLt.trans_le (Nat.pow_le_pow_right two_pos h))

theorem qualityShare_le (score quality : ℕ) : qualityShare score quality ≤ score := by
  refine Nat.div_le_of_le_mul ?_
  rw [mul_comm]
  exact Nat.mul_le_mul_right _ (min_le_right _ _)

theorem qualityShare_mono {a b q r : ℕ} (hscore : a ≤ b) (hquality : q ≤ r) :
    qualityShare a q ≤ qualityShare b r :=
  Nat.div_le_div_right (Nat.mul_le_mul hscore (min_le_min_right _ hquality))

theorem computes_applyQuality (score : Fixed64) (quality : BitVec 16) :
    Computes (applyQuality score quality) (qualityShare score.toNat quality.toNat) := by
  have hscore : score.toNat < 2 ^ 64 := score.isLt
  have hquality : quality.toNat < 2 ^ 16 := quality.isLt
  have hfull : 10000 ≤ quality ↔ 10000 ≤ quality.toNat := Iff.rfl
  unfold applyQuality
  split_ifs with hzero hwhole
  · exact ⟨0, rfl, by simp [hzero, qualityShare]⟩
  · exact ⟨score, rfl, by rw [qualityShare, min_eq_right (hfull.mp hwhole), Nat.mul_div_cancel _ (by decide)]⟩
  · have hs : (score.setWidth 128).toNat = score.toNat := toNat_setWidth_of_le score (by decide)
    have hq : (quality.setWidth 128).toNat = quality.toNat := toNat_setWidth_of_le quality (by decide)
    have hshare : qualityShare score.toNat quality.toNat = score.toNat * quality.toNat / 10000 := by
      rw [qualityShare, min_eq_left (not_le.mp (mt hfull.mpr hwhole)).le]
    have hprod : score.toNat * quality.toNat < 2 ^ 128 :=
      (Nat.mul_lt_mul'' hscore hquality).trans_le (by decide)
    refine computes_bind (computes_checkedMul (by rwa [hs, hq])) fun product hproduct => ?_
    refine computes_bind (computes_checkedDiv (by decide)) fun scaled hscaled => ?_
    have hval : scaled.toNat = qualityShare score.toNat quality.toNat := by
      rw [hscaled, hproduct, hs, hq, hshare]
      rfl
    rw [← hval]
    refine computes_checkedCast ?_
    rw [hval]
    exact (qualityShare_le _ _).trans_lt hscore

/-! ### The logarithm -/

/-- The fractional part in `log2_ratio`: the chord over the normalised mantissa. -/
def log2Frac (ratioFp : BitVec 128) (shiftAmount : ℕ) : Option Fixed64 := do
  let mantissa ← checkedCast 64 (ratioFp >>> shiftAmount)
  let mantissaFrac := satSub mantissa (1 <<< SHIFT)
  let product ← checkedMul (mantissaFrac.setWidth 128) SCALE_U128
  checkedCast 64 (product >>> SHIFT)

/-- The score of a ratio with `SHIFT` binary places, in `log2_ratio`. -/
def log2Score (ratioFp : BitVec 128) (totalBits : ℕ) : Option Fixed64 := do
  let floorK := BitVec.ofNat 64 (totalBits - SHIFT)
  let frac ← log2Frac ratioFp (totalBits - SHIFT)
  let whole ← checkedMul floorK SCALE
  checkedAdd whole frac

/-- `log2_ratio`: there is no score for a ratio of one or less. -/
def log2Ratio (numerator denominator : BitVec 64) : Option (Option Fixed64) :=
  if denominator = 0 ∨ numerator ≤ denominator then some none
  else do
    let shifted ← checkedShl (numerator.setWidth 128) SHIFT
    let ratioFp ← checkedDiv shifted (denominator.setWidth 128)
    if ratioFp = 0 then some none
    else
      let totalBits := 127 - ratioFp.clz.toNat
      if totalBits < SHIFT then some none
      else some <$> log2Score ratioFp totalBits

/-- The logarithm of a ratio, in millionths. -/
def logScore (n d : ℕ) : ℕ := linearLog 1000000 32 (n * 2 ^ 32 / d)

theorem le_ratio {n d : ℕ} (hd : 0 < d) (h : d ≤ n) : 2 ^ 32 ≤ n * 2 ^ 32 / d := by
  rw [Nat.le_div_iff_mul_le hd, mul_comm]
  exact Nat.mul_le_mul_right _ h

theorem ratio_lt {n : ℕ} (hn : n < 2 ^ 64) (d : ℕ) : n * 2 ^ 32 / d < 2 ^ 96 :=
  (Nat.div_le_self _ _).trans_lt (by omega)

theorem logScore_div {n d : ℕ} (hd : 0 < d) (h : d ≤ n) :
    logScore n d / 1000000 = Nat.log 2 (n / d) := by
  rw [logScore, linearLog_div (by decide) (le_ratio hd h), log2_shifted_div hd h]

theorem logScore_lt {n d : ℕ} (hn : n < 2 ^ 64) (hd : 0 < d) (h : d ≤ n) :
    logScore n d < 64 * 1000000 := by
  have hpos : n * 2 ^ 32 / d ≠ 0 := Nat.ne_of_gt ((Nat.two_pow_pos 32).trans_le (le_ratio hd h))
  have hlog : (n * 2 ^ 32 / d).log2 < 96 := (Nat.log2_lt hpos).mpr (ratio_lt hn d)
  have hchord : chord 1000000 32 (n * 2 ^ 32 / d) < 1000000 := chord_lt (by decide) (le_ratio hd h)
  unfold logScore linearLog
  omega

theorem logScore_mono {n m d e : ℕ} (he : 0 < e) (hd : d ≤ n) (hn : n ≤ m) (hed : e ≤ d) :
    logScore n d ≤ logScore m e := by
  refine linearLog_mono (by decide) (le_ratio (he.trans_le hed) hd) ?_
  exact (Nat.div_le_div_right (Nat.mul_le_mul_right _ hn)).trans (Nat.div_le_div_left hed he)

theorem log2Ratio_none {n d : BitVec 64} (h : d = 0 ∨ n ≤ d) : log2Ratio n d = some none := if_pos h

theorem computes_log2Frac {ratio : BitVec 128} (h : 2 ^ 32 ≤ ratio.toNat) :
    Computes (log2Frac ratio (ratio.toNat.log2 - 32)) (chord 1000000 32 ratio.toNat) := by
  have hlow := le_mantissa h
  have hhigh := mantissa_lt h
  have hscale : SCALE_U128.toNat = 1000000 := rfl
  have hshr : (ratio >>> (ratio.toNat.log2 - 32)).toNat = mantissa 32 ratio.toNat := by
    rw [BitVec.toNat_ushiftRight, Nat.shiftRight_eq_div_pow, mantissa]
  refine computes_bind (computes_checkedCast (by rw [hshr]; omega)) fun m hm => ?_
  have hfrac : ((satSub m (1 <<< SHIFT)).setWidth 128).toNat = mantissa 32 ratio.toNat - 2 ^ 32 := by
    rw [toNat_setWidth_of_le _ (by decide), toNat_satSub, hm, hshr]
    rfl
  refine computes_bind (computes_checkedMul (by rw [hfrac, hscale]; omega)) fun product hproduct => ?_
  have hchord : (product >>> SHIFT).toNat = chord 1000000 32 ratio.toNat := by
    rw [BitVec.toNat_ushiftRight, Nat.shiftRight_eq_div_pow, hproduct, hfrac, hscale, chord, SHIFT]
  have hlt : chord 1000000 32 ratio.toNat < 1000000 := chord_lt (by decide) h
  rw [← hchord]
  exact computes_checkedCast (by rw [hchord]; omega)

theorem computes_log2Score {ratio : BitVec 128} (h : 2 ^ 32 ≤ ratio.toNat) :
    Computes (log2Score ratio ratio.toNat.log2) (linearLog 1000000 32 ratio.toNat) := by
  have hchord : chord 1000000 32 ratio.toNat < 1000000 := chord_lt (by decide) h
  have hbits : ratio.toNat.log2 < 128 :=
    (Nat.log2_lt (Nat.ne_of_gt ((Nat.two_pow_pos 32).trans_le h))).mpr ratio.isLt
  have hscale : SCALE.toNat = 1000000 := rfl
  have hfloor : (BitVec.ofNat 64 (ratio.toNat.log2 - SHIFT)).toNat = ratio.toNat.log2 - 32 := by
    rw [BitVec.toNat_ofNat, SHIFT]
    exact Nat.mod_eq_of_lt (by omega)
  refine computes_bind (computes_log2Frac h) fun frac hfrac => ?_
  refine computes_bind (computes_checkedMul (by rw [hfloor, hscale]; omega)) fun whole hwhole => ?_
  have hsum := computes_checkedAdd (a := whole) (b := frac) (by rw [hwhole, hfloor, hscale]; omega)
  rwa [hwhole, hfloor, hscale, hfrac] at hsum

/-- Of a ratio above one the score is the piecewise linear logarithm, and no bit is lost. -/
theorem computes_logScore {n d : BitVec 64} (hd : d ≠ 0) (h : d < n) :
    ∃ score, log2Ratio n d = some (some score) ∧ score.toNat = logScore n.toNat d.toNat := by
  have hn : n.toNat < 2 ^ 64 := n.isLt
  have hdpos : 0 < d.toNat := Nat.pos_of_ne_zero fun hzero => hd (BitVec.eq_of_toNat_eq hzero)
  have hlt : d.toNat < n.toNat := h
  have hn' : (n.setWidth 128).toNat = n.toNat := toNat_setWidth_of_le n (by decide)
  have hd' : (d.setWidth 128).toNat = d.toNat := toNat_setWidth_of_le d (by decide)
  obtain ⟨shifted, hshifted, hshiftedval⟩ :=
    computes_checkedShl (a := n.setWidth 128) (k := SHIFT) (by rw [hn', SHIFT]; omega)
  obtain ⟨ratio, hratio, hratioval⟩ :=
    computes_checkedDiv (a := shifted) (b := d.setWidth 128) (by rwa [hd'])
  rw [hshiftedval, hn', hd', SHIFT] at hratioval
  have hlow : 2 ^ 32 ≤ ratio.toNat := hratioval ▸ le_ratio hdpos hlt.le
  have hpos : 0 < ratio.toNat := (Nat.two_pow_pos 32).trans_le hlow
  have hne : ratio ≠ 0 := by
    rintro rfl
    simp at hpos
  have hbits : 127 - ratio.clz.toNat = ratio.toNat.log2 := sub_clz_eq_log2 hpos
  obtain ⟨score, hscore, hscoreval⟩ := computes_log2Score hlow
  have hguard : ¬ (d = 0 ∨ n ≤ d) := not_or.mpr ⟨hd, BitVec.not_le.mpr h⟩
  have hwide : ¬ ratio.toNat.log2 < SHIFT := not_lt.mpr (le_log2_of_le hlow)
  refine ⟨score, ?_, by rw [hscoreval, hratioval, logScore]⟩
  rw [log2Ratio, if_neg hguard, hshifted, Option.bind_eq_bind, Option.bind_some, hratio,
    Option.bind_some, if_neg hne]
  simp only [hbits, if_neg hwide, hscore, Option.map_eq_map, Option.map_some]

end Coinjecture.Core.FixedPoint
