import Mathlib.Data.Int.Log
import Coinjecture.Lib.Float64

/-! # The order of the floats

Rounding to nearest keeps the order of the numbers, and so does every operation that ends in one
rounding. A comparison of such a result with a fixed float is then decided at the two neighbours
between which it changes. -/

namespace Coinjecture.Lib.Float64

/-! ### The nearest integer -/

section RoundDiv

theorem roundDiv_mono {n d n' d' : ℕ} (hd : 0 < d) (hd' : 0 < d') (h : n * d' ≤ n' * d) :
    F64.roundDiv n d ≤ F64.roundDiv n' d' := by
  have hquot : n / d ≤ n' / d' := by
    rw [Nat.le_div_iff_mul_le hd']
    refine Nat.le_of_mul_le_mul_right ?_ hd
    calc n / d * d' * d = n / d * d * d' := by ring
      _ ≤ n * d' := Nat.mul_le_mul_right _ (Nat.div_mul_le_self n d)
      _ ≤ n' * d := h
  unfold F64.roundDiv
  rcases hquot.lt_or_eq with hlt | heq
  · simp only
    split_ifs <;> omega
  -- the quotients are the same: the remainders are in the same order
  have hn := Nat.div_add_mod n d
  have hn' := Nat.div_add_mod n' d'
  rw [← heq] at hn' ⊢
  have hrem : n % d * d' ≤ n' % d' * d := by
    rw [← hn, ← hn'] at h
    linarith
  have hle (hhalf : d ≤ 2 * (n % d)) : d' ≤ 2 * (n' % d') := by
    refine Nat.le_of_mul_le_mul_right ?_ hd
    calc d' * d = d * d' := Nat.mul_comm _ _
      _ ≤ 2 * (n % d) * d' := Nat.mul_le_mul_right _ hhalf
      _ ≤ 2 * (n' % d') * d := by linarith
  have hlt (hhalf : d < 2 * (n % d)) : d' < 2 * (n' % d') := by
    refine Nat.lt_of_mul_lt_mul_right (a := d) ?_
    calc d' * d = d * d' := Nat.mul_comm _ _
      _ < 2 * (n % d) * d' := Nat.mul_lt_mul_of_pos_right hhalf hd'
      _ ≤ 2 * (n' % d') * d := by linarith
  simp only
  split_ifs <;> omega

theorem roundDiv_one (n : ℕ) : F64.roundDiv n 1 = n := by
  simp [F64.roundDiv, Nat.mod_one]

theorem roundDiv_le {n d k : ℕ} (hd : 0 < d) (h : n ≤ k * d) : F64.roundDiv n d ≤ k := by
  have : F64.roundDiv n d ≤ F64.roundDiv k 1 := roundDiv_mono hd Nat.one_pos (by omega)
  rwa [roundDiv_one] at this

theorem le_roundDiv {n d k : ℕ} (hd : 0 < d) (h : k * d ≤ n) : k ≤ F64.roundDiv n d := by
  have : F64.roundDiv k 1 ≤ F64.roundDiv n d := roundDiv_mono Nat.one_pos hd (by omega)
  rwa [roundDiv_one] at this

end RoundDiv

/-! ### The exponent -/

section Exponent

variable {n d : ℕ}

/-- A fraction with a power of two moved into its numerator or its denominator. -/
theorem scaled_div (n d : ℕ) (s : ℤ) :
    ((n * 2 ^ s.toNat : ℕ) : ℚ) / (d * 2 ^ (-s).toNat : ℕ) = n / d * (2 : ℚ) ^ s := by
  push_cast
  rcases le_total 0 s with hs | hs
  · obtain ⟨k, rfl⟩ := Int.eq_ofNat_of_zero_le hs
    have hzero : (-(k : ℤ)).toNat = 0 := by omega
    rw [hzero, pow_zero, mul_one, Int.toNat_natCast, zpow_natCast]
    ring
  · obtain ⟨k, hk⟩ := Int.eq_ofNat_of_zero_le (neg_nonneg.mpr hs)
    have hzero : s.toNat = 0 := by omega
    have hneg : s = -(k : ℤ) := by omega
    rw [hzero, pow_zero, mul_one, hk, Int.toNat_natCast, hneg, zpow_neg, zpow_natCast, ← div_eq_mul_inv,
      div_div]

theorem scaled_pos (hd : 0 < d) (s : ℤ) : (0 : ℚ) < (d * 2 ^ (-s).toNat : ℕ) := by
  have : 0 < d * 2 ^ (-s).toNat := by positivity
  exact_mod_cast this

theorem scaled_le_iff (hd : 0 < d) (k : ℕ) (s : ℤ) :
    n * 2 ^ s.toNat ≤ k * (d * 2 ^ (-s).toNat) ↔ (n : ℚ) / d * 2 ^ s ≤ k := by
  rw [← scaled_div, div_le_iff₀ (scaled_pos hd s), ← Nat.cast_mul, Nat.cast_le]

theorem le_scaled_iff (hd : 0 < d) (k : ℕ) (s : ℤ) :
    k * (d * 2 ^ (-s).toNat) ≤ n * 2 ^ s.toNat ↔ (k : ℚ) ≤ n / d * 2 ^ s := by
  rw [← scaled_div, le_div_iff₀ (scaled_pos hd s), ← Nat.cast_mul, Nat.cast_le]

theorem zpow_le_div_iff (hd : 0 < d) (k : ℤ) :
    d * 2 ^ k.toNat ≤ n * 2 ^ (-k).toNat ↔ (2 : ℚ) ^ k ≤ n / d := by
  have hscaled := le_scaled_iff (n := n) hd 1 (-k)
  have hpow : (0 : ℚ) < 2 ^ k := by positivity
  rw [one_mul, neg_neg, Nat.cast_one, zpow_neg, ← div_eq_mul_inv, one_le_div₀ hpow] at hscaled
  exact hscaled

theorem zpow_log2_le (hn : 0 < n) : (2 : ℚ) ^ (Nat.log2 n : ℤ) ≤ n := by
  rw [zpow_natCast]
  exact_mod_cast Nat.log2_self_le hn.ne'

theorem lt_zpow_log2 (n : ℕ) : (n : ℚ) < 2 ^ ((Nat.log2 n : ℤ) + 1) := by
  have : n < 2 ^ (Nat.log2 n + 1) := Nat.lt_log2_self
  exact_mod_cast this

theorem log_div_range (hn : 0 < n) (hd : 0 < d) : (Nat.log2 n : ℤ) - Nat.log2 d - 1 ≤ Int.log 2 ((n : ℚ) / d) ∧
    Int.log 2 ((n : ℚ) / d) < (Nat.log2 n : ℤ) - Nat.log2 d + 1 := by
  have hq : (0 : ℚ) < n / d := by positivity
  have htwo : (1 : ℕ) < 2 := by omega
  have hdpos : (0 : ℚ) < d := by exact_mod_cast hd
  have hlow : (2 : ℚ) ^ ((Nat.log2 n : ℤ) - Nat.log2 d - 1) ≤ n / d := by
    rw [le_div_iff₀ hdpos]
    calc (2 : ℚ) ^ ((Nat.log2 n : ℤ) - Nat.log2 d - 1) * d
        ≤ 2 ^ ((Nat.log2 n : ℤ) - Nat.log2 d - 1) * 2 ^ ((Nat.log2 d : ℤ) + 1) :=
          mul_le_mul_of_nonneg_left (lt_zpow_log2 d).le (by positivity)
      _ = 2 ^ (Nat.log2 n : ℤ) := by
          rw [← zpow_add₀ two_ne_zero]
          congr 1
          ring
      _ ≤ n := zpow_log2_le hn
  have hhigh : (n : ℚ) / d < 2 ^ ((Nat.log2 n : ℤ) - Nat.log2 d + 1) := by
    rw [div_lt_iff₀ hdpos]
    calc (n : ℚ) < 2 ^ ((Nat.log2 n : ℤ) + 1) := lt_zpow_log2 n
      _ = 2 ^ ((Nat.log2 n : ℤ) - Nat.log2 d + 1) * 2 ^ (Nat.log2 d : ℤ) := by
          rw [← zpow_add₀ two_ne_zero]
          congr 1
          ring
      _ ≤ _ := mul_le_mul_of_nonneg_left (zpow_log2_le hd) (by positivity)
  exact ⟨(Int.zpow_le_iff_le_log htwo hq).mp (by exact_mod_cast hlow),
    (Int.lt_zpow_iff_log_lt htwo hq).mp (by exact_mod_cast hhigh)⟩

theorem floorLog2_eq (hn : 0 < n) (hd : 0 < d) : F64.floorLog2 n d = Int.log 2 ((n : ℚ) / d) := by
  have hq : (0 : ℚ) < n / d := by positivity
  have htwo : (1 : ℕ) < 2 := by omega
  obtain ⟨hge, hlt⟩ := log_div_range hn hd
  have hiff : d * 2 ^ ((Nat.log2 n : ℤ) - Nat.log2 d).toNat ≤
      n * 2 ^ (-((Nat.log2 n : ℤ) - Nat.log2 d)).toNat ↔
        (Nat.log2 n : ℤ) - Nat.log2 d ≤ Int.log 2 ((n : ℚ) / d) := by
    rw [zpow_le_div_iff hd]
    exact_mod_cast Int.zpow_le_iff_le_log htwo hq
  simp only [F64.floorLog2]
  split_ifs with hcond
  · have := hiff.mp hcond
    omega
  · have := mt hiff.mpr hcond
    omega

end Exponent

/-! ### Rounding -/

section Round

theorem bits_ofBits (neg : Bool) {b : ℕ} (hb : b < 2 ^ 63) :
    (F64.ofBits neg b).bits.toNat = if neg then 2 ^ 63 + b else b := by
  refine UInt64.toNat_ofNat_of_lt' ?_
  have hsize : UInt64.size = 2 ^ 64 := rfl
  cases neg with
  | false => simp only [Bool.false_eq_true, if_false]; omega
  | true => simp only [if_true]; omega

theorem negative_ofBits {b : ℕ} (hb : b < 2 ^ 63) : (F64.ofBits false b).negative = false := by
  rw [F64.negative, bits_ofBits false hb, decide_eq_false_iff_not]
  simp only [Bool.false_eq_true, if_false]
  omega

theorem key_ofBits {b : ℕ} (hb : b < 2 ^ 63) : (F64.ofBits false b).key = b := by
  rw [F64.key, negative_ofBits hb, bits_ofBits false hb]
  simp only [Bool.false_eq_true, if_false]
  omega

/-- The exponent and the significand of the rounded number. The significand is below the next power of
two unless it rounds up to it, and it is normal unless the exponent is the least one. -/
theorem round_parts {n d : ℕ} (hn : 0 < n) (hd : 0 < d) : ∃ (e : ℤ) (m : ℕ),
    e = max 1 (Int.log 2 ((n : ℚ) / d) + 1023) ∧
      m = F64.roundDiv (n * 2 ^ (1075 - e).toNat) (d * 2 ^ (-(1075 - e)).toNat) ∧
      m ≤ 2 ^ 53 ∧ (1 < e → 2 ^ 52 ≤ m) ∧
      (F64.round false n d).key = ((min ((e - 1).toNat * 2 ^ 52 + m) (2047 * 2 ^ 52) : ℕ) : ℤ) ∧
      (F64.round false n d).negative = false := by
  have hq : (0 : ℚ) < n / d := by positivity
  have htwo : (1 : ℕ) < 2 := by omega
  refine ⟨_, _, rfl, rfl, ?_⟩
  generalize he : max 1 (Int.log 2 ((n : ℚ) / d) + 1023) = e
  have hD : 0 < d * 2 ^ (-(1075 - e)).toNat := by positivity
  have hpow : (0 : ℚ) < 2 ^ (1075 - e) := by positivity
  refine ⟨roundDiv_le hD ?_, fun hnormal => le_roundDiv hD ?_, ?_⟩
  · have hlt : (n : ℚ) / d < (2 : ℚ) ^ (e - 1022) := by
      have := (Int.lt_zpow_iff_log_lt htwo hq (x := e - 1022)).mpr (by omega)
      exact_mod_cast this
    rw [scaled_le_iff hd]
    calc (n : ℚ) / d * 2 ^ (1075 - e) ≤ 2 ^ (e - 1022) * 2 ^ (1075 - e) :=
          mul_le_mul_of_nonneg_right hlt.le hpow.le
      _ = ((2 ^ 53 : ℕ) : ℚ) := by
          rw [← zpow_add₀ two_ne_zero]
          have : e - 1022 + (1075 - e) = 53 := by ring
          rw [this]
          norm_num
  · have hle : (2 : ℚ) ^ (e - 1023) ≤ n / d := by
      have := (Int.zpow_le_iff_le_log htwo hq (x := e - 1023)).mpr (by omega)
      exact_mod_cast this
    rw [le_scaled_iff hd]
    calc ((2 ^ 52 : ℕ) : ℚ) = 2 ^ (e - 1023) * 2 ^ (1075 - e) := by
          rw [← zpow_add₀ two_ne_zero]
          have : e - 1023 + (1075 - e) = 52 := by ring
          rw [this]
          norm_num
      _ ≤ (n : ℚ) / d * 2 ^ (1075 - e) := mul_le_mul_of_nonneg_right hle hpow.le
  · simp only [F64.round, floorLog2_eq hn hd, if_neg hn.ne', he]
    generalize (e - 1).toNat * 2 ^ 52 +
      F64.roundDiv (n * 2 ^ (1075 - e).toNat) (d * 2 ^ (-(1075 - e)).toNat) = b
    split_ifs with hover
    · have hinf : 2047 * 2 ^ 52 < 2 ^ 63 := by omega
      rw [min_eq_right hover, F64.inf]
      exact ⟨key_ofBits hinf, negative_ofBits hinf⟩
    · have hlt : b < 2 ^ 63 := by omega
      rw [min_eq_left (not_le.mp hover).le]
      exact ⟨key_ofBits hlt, negative_ofBits hlt⟩

theorem round_zero (d : ℕ) : F64.round false 0 d = F64.ofBits false 0 := by
  rw [F64.round, if_pos rfl]

/-- A rounded number that is not negative: its sign, and its place up to the infinity. -/
theorem round_range (n : ℕ) {d : ℕ} (hd : 0 < d) :
    (F64.round false n d).negative = false ∧ 0 ≤ (F64.round false n d).key ∧
      (F64.round false n d).key ≤ 2047 * 2 ^ 52 := by
  rcases Nat.eq_zero_or_pos n with rfl | hn
  · rw [round_zero]
    exact ⟨by decide, by decide, by decide⟩
  · obtain ⟨e, m, -, -, -, -, hkey, hneg⟩ := round_parts hn hd
    rw [hkey]
    exact ⟨hneg, by omega, by omega⟩

/-- Rounding keeps the order. -/
theorem round_mono {n d n' d' : ℕ} (hd : 0 < d) (hd' : 0 < d') (h : n * d' ≤ n' * d) :
    (F64.round false n d).key ≤ (F64.round false n' d').key := by
  rcases Nat.eq_zero_or_pos n with rfl | hn
  · rw [round_zero]
    exact (round_range n' hd').2.1
  have hn' : 0 < n' := Nat.pos_of_mul_pos_right ((Nat.mul_pos hn hd').trans_le h)
  obtain ⟨e, m, he, hm, hm53, -, hkey, -⟩ := round_parts hn hd
  obtain ⟨e', m', he', hm', -, hm52, hkey', -⟩ := round_parts hn' hd'
  have hq : (0 : ℚ) < n / d := by positivity
  have hle : (n : ℚ) / d ≤ n' / d' := by
    rw [div_le_div_iff₀ (by exact_mod_cast hd) (by exact_mod_cast hd')]
    exact_mod_cast h
  have hlog : Int.log 2 ((n : ℚ) / d) ≤ Int.log 2 ((n' : ℚ) / d') := Int.log_mono_right hq hle
  rw [hkey, hkey']
  refine Int.ofNat_le.mpr (min_le_min_right _ ?_)
  rcases (show e ≤ e' by omega).lt_or_eq with hlt | heq
  · -- a carry reaches the next power of two, not beyond
    have hstep : (e - 1).toNat + 1 ≤ (e' - 1).toNat := by omega
    calc (e - 1).toNat * 2 ^ 52 + m ≤ (e - 1).toNat * 2 ^ 52 + 2 ^ 53 := Nat.add_le_add_left hm53 _
      _ = ((e - 1).toNat + 1) * 2 ^ 52 + 2 ^ 52 := by ring
      _ ≤ (e' - 1).toNat * 2 ^ 52 + m' :=
          Nat.add_le_add (Nat.mul_le_mul_right _ hstep) (hm52 (by omega))
  · subst heq
    refine Nat.add_le_add_left ?_ _
    rw [hm, hm']
    refine roundDiv_mono (by positivity) (by positivity) ?_
    generalize 2 ^ (1075 - e).toNat = a
    generalize 2 ^ (-(1075 - e)).toNat = b
    calc n * a * (d' * b) = n * d' * (a * b) := by ring
      _ ≤ n' * d * (a * b) := Nat.mul_le_mul_right _ h
      _ = n' * a * (d * b) := by ring

theorem ofNat_mono {n n' : ℕ} (h : n ≤ n') : (F64.ofNat n).key ≤ (F64.ofNat n').key :=
  round_mono Nat.one_pos Nat.one_pos (by omega)

theorem ofRat_eq {q : ℚ} (hq : 0 ≤ q) : F64.ofRat false q = F64.round false q.num.natAbs q.den := by
  rw [F64.ofRat]
  split_ifs with hzero
  · rfl
  · rw [decide_eq_false (not_lt.mpr hq)]

theorem ofRat_mono {q q' : ℚ} (hq : 0 ≤ q) (h : q ≤ q') :
    (F64.ofRat false q).key ≤ (F64.ofRat false q').key := by
  rw [ofRat_eq hq, ofRat_eq (hq.trans h)]
  refine round_mono q.den_pos q'.den_pos ?_
  have hnum : 0 ≤ q.num := Rat.num_nonneg.mpr hq
  have hnum' : 0 ≤ q'.num := Rat.num_nonneg.mpr (hq.trans h)
  have := (Rat.le_iff q q').mp h
  zify
  rwa [abs_of_nonneg hnum, abs_of_nonneg hnum']

end Round

/-! ### Numbers -/

section Numbers

variable {x y : F64}

theorem key_of_nonneg (hx : x.negative = false) : x.key = (x.bits.toNat : ℤ) ∧ x.bits.toNat < 2 ^ 63 := by
  have hlt : x.bits.toNat < 2 ^ 63 := by simpa [F64.negative] using hx
  rw [F64.key, hx]
  simp only [Bool.false_eq_true, if_false]
  omega

theorem isFinite_iff (hx : x.negative = false) : x.isFinite = true ↔ x.key < 2047 * 2 ^ 52 := by
  obtain ⟨hkey, hlt⟩ := key_of_nonneg hx
  rw [hkey, F64.isFinite, F64.expo, decide_eq_true_eq]
  omega

theorem isZero_iff (hx : x.negative = false) : x.isZero = true ↔ x.key = 0 := by
  obtain ⟨hkey, hlt⟩ := key_of_nonneg hx
  rw [hkey, F64.isZero, F64.expo, F64.frac, decide_eq_true_eq]
  omega

theorem toRat_nonneg (hx : x.negative = false) : 0 ≤ x.toRat := by
  rw [F64.toRat, hx, if_neg Bool.false_ne_true, F64.mag]
  positivity

/-- The exponent and the significand of a number that is not negative. -/
theorem toRat_parts (hx : x.negative = false) : ∃ e m : ℕ, x.toRat = m * (2 : ℚ) ^ ((e : ℤ) - 1075) ∧
    x.key = (((e - 1) * 2 ^ 52 + m : ℕ) : ℤ) ∧ m < 2 ^ 53 ∧ 1 ≤ e ∧ (1 < e → 2 ^ 52 ≤ m) := by
  obtain ⟨hkey, hlt⟩ := key_of_nonneg hx
  refine ⟨max x.expo 1, x.mant, ?_, ?_⟩
  · rw [F64.toRat, hx, if_neg Bool.false_ne_true, F64.mag, Nat.cast_max, Nat.cast_one]
  rw [hkey, Nat.cast_inj]
  unfold F64.mant F64.expo F64.frac
  generalize x.bits.toNat = b at hlt
  have hexp : b / 2 ^ 52 % 2 ^ 11 = b / 2 ^ 52 := Nat.mod_eq_of_lt (by omega)
  have hsplit := Nat.div_add_mod b (2 ^ 52)
  have hfrac : b % 2 ^ 52 < 2 ^ 52 := Nat.mod_lt b (by norm_num)
  rw [hexp]
  generalize b / 2 ^ 52 = e at hsplit
  generalize b % 2 ^ 52 = f at hsplit hfrac
  split_ifs with hzero
  · subst hzero
    omega
  · rw [max_eq_left (by omega)]
    refine ⟨?_, by omega, by omega, by omega⟩
    rw [← hsplit]
    obtain ⟨k, rfl⟩ := Nat.exists_eq_add_of_lt (Nat.pos_of_ne_zero hzero)
    omega

theorem toRat_mono (hx : x.negative = false) (hy : y.negative = false) (h : x.key ≤ y.key) :
    x.toRat ≤ y.toRat := by
  obtain ⟨e, m, hrat, hkey, hm, he, hm'⟩ := toRat_parts hx
  obtain ⟨f, k, hrat', hkey', hk, hf, hk'⟩ := toRat_parts hy
  rw [hkey, hkey', Nat.cast_le] at h
  rw [hrat, hrat']
  rcases lt_trichotomy e f with hlt | rfl | hgt
  · calc (m : ℚ) * 2 ^ ((e : ℤ) - 1075) ≤ 2 ^ 53 * 2 ^ ((e : ℤ) - 1075) := by
          have : (m : ℚ) ≤ 2 ^ 53 := by exact_mod_cast hm.le
          gcongr
      _ = 2 ^ 52 * 2 ^ ((e : ℤ) + 1 - 1075) := by
          have : (e : ℤ) + 1 - 1075 = (e : ℤ) - 1075 + 1 := by ring
          rw [this, zpow_add_one₀ two_ne_zero]
          ring
      _ ≤ k * 2 ^ ((f : ℤ) - 1075) := by
          have : (2 : ℚ) ^ 52 ≤ k := by exact_mod_cast hk' (by omega)
          gcongr
          · norm_num
          · omega
  · have : (m : ℚ) ≤ k := by exact_mod_cast (Nat.add_le_add_iff_left.mp h)
    gcongr
  · have := hm' (by omega)
    omega

theorem lt_iff (hx : x.isNaN = false) (hy : y.isNaN = false) : x.lt y = true ↔ x.key < y.key := by
  simp only [F64.lt, hx, hy, Bool.not_false, Bool.true_and, decide_eq_true_eq]

theorem le_iff (hx : x.isNaN = false) (hy : y.isNaN = false) : x.le y = true ↔ x.key ≤ y.key := by
  simp only [F64.le, hx, hy, Bool.not_false, Bool.true_and, decide_eq_true_eq]

end Numbers

/-! ### Quotients -/

section Div

variable {x x' y : F64}

theorem isNaN_ofBits (neg : Bool) {b : ℕ} (hb : b ≤ 2047 * 2 ^ 52) : (F64.ofBits neg b).isNaN = false := by
  have hbits := bits_ofBits neg (b := b) (by omega)
  simp only [F64.isNaN, F64.expo, F64.frac, hbits]
  rw [decide_eq_false_iff_not]
  cases neg with
  | false => simp only [Bool.false_eq_true, if_false]; omega
  | true => simp only [if_true]; omega

theorem isNaN_round (neg : Bool) (n d : ℕ) : (F64.round neg n d).isNaN = false := by
  simp only [F64.round]
  split_ifs with hzero hover
  · exact isNaN_ofBits neg (Nat.zero_le _)
  · exact isNaN_ofBits neg le_rfl
  · exact isNaN_ofBits neg (not_le.mp hover).le

theorem isNaN_div (hx : x.isNaN = false) (hy : y.isNaN = false) (hinf : y.isInf = false)
    (hzero : y.isZero = false) : (x.div y).isNaN = false := by
  simp only [F64.div, hx, hy, hinf, hzero, Bool.or_self, Bool.false_eq_true, if_false]
  split_ifs
  · exact isNaN_ofBits _ le_rfl
  · exact isNaN_round ..

theorem ofNat_finite {n : ℕ} (hlt : n < 2 ^ 64) :
    (F64.ofNat n).negative = false ∧ (F64.ofNat n).isFinite = true := by
  obtain ⟨hneg, -, -⟩ := round_range n Nat.one_pos
  refine ⟨hneg, (isFinite_iff hneg).mpr ?_⟩
  have hlast : (F64.ofNat (2 ^ 64 - 1)).key < 2047 * 2 ^ 52 := by decide +kernel
  exact (ofNat_mono (Nat.le_sub_one_of_lt hlt)).trans_lt hlast

/-- The bits of the float nearest to a positive `u64` are those of a finite number that is not zero. -/
theorem ofNat_normal {n : ℕ} (hpositive : 0 < n) (hlt : n < 2 ^ 64) :
    (F64.ofNat n).isInf = false ∧ (F64.ofNat n).isZero = false := by
  obtain ⟨hneg, hfinite⟩ := ofNat_finite hlt
  constructor
  · simp only [F64.isFinite, decide_eq_true_eq] at hfinite
    simp [F64.isInf, hfinite]
  · rw [← Bool.not_eq_true, isZero_iff hneg]
    have hone : 0 < (F64.ofNat 1).key := by decide +kernel
    exact (hone.trans_le (ofNat_mono hpositive)).ne'

theorem negative_mul (hx : x.negative = false) (hy : y.negative = false) : (x.mul y).negative = false := by
  simp only [F64.mul, hx, hy, bne_self_eq_false]
  split_ifs
  · decide
  · decide
  · decide
  · have hq := mul_nonneg (toRat_nonneg hx) (toRat_nonneg hy)
    rw [ofRat_eq hq]
    exact (round_range _ (x.toRat * y.toRat).den_pos).1

/-- A number over a positive number is one rounding. -/
theorem div_eq (hx : x.negative = false) (hfinite : x.isFinite = true) (hy : y.negative = false)
    (hfinite' : y.isFinite = true) (hzero : y.isZero = false) :
    x.div y = F64.ofRat false (x.toRat / y.toRat) := by
  simp only [F64.isFinite, decide_eq_true_eq] at hfinite hfinite'
  simp [F64.div, F64.isNaN, F64.isInf, hx, hfinite, hy, hfinite', hzero]

theorem div_mono (hx : x.negative = false) (hx' : x'.negative = false) (hfinite : x'.isFinite = true)
    (hy : y.negative = false) (hfinite' : y.isFinite = true) (hzero : y.isZero = false) (h : x.key ≤ x'.key) :
    (x.div y).key ≤ (x'.div y).key := by
  have hxfinite : x.isFinite = true := (isFinite_iff hx).mpr (h.trans_lt ((isFinite_iff hx').mp hfinite))
  rw [div_eq hx hxfinite hy hfinite' hzero, div_eq hx' hfinite hy hfinite' hzero]
  have hpos := toRat_nonneg hy
  exact ofRat_mono (div_nonneg (toRat_nonneg hx) hpos)
    (div_le_div_of_nonneg_right (toRat_mono hx hx' h) hpos)

/-- Quotients of two `u64` by the same float are in the order of the numerators. -/
theorem ofNat_div_mono {n n' : ℕ} (h : n ≤ n') (hlt : n' < 2 ^ 64) (hy : y.negative = false)
    (hfinite : y.isFinite = true) (hzero : y.isZero = false) :
    ((F64.ofNat n).div y).key ≤ ((F64.ofNat n').div y).key := by
  obtain ⟨hneg, -⟩ := ofNat_finite (h.trans_lt hlt)
  obtain ⟨hneg', hfinite'⟩ := ofNat_finite hlt
  exact div_mono hneg hneg' hfinite' hy hfinite hzero (ofNat_mono h)

/-- The integers that fit the significand are floats. -/
theorem toRat_ofNat {n : ℕ} (h : n < 2 ^ 53) : (F64.ofNat n).toRat = n := by
  rcases Nat.eq_zero_or_pos n with rfl | hn
  · rw [F64.ofNat, round_zero, Nat.cast_zero]
    decide +kernel
  obtain ⟨e, m, he, hm, -, -, hkey, hneg⟩ := round_parts hn Nat.one_pos
  obtain ⟨f, k, hrat, hkey', hk, hf, hk'⟩ := toRat_parts hneg
  have hpos : (0 : ℚ) < n := by exact_mod_cast hn
  obtain ⟨l, hl⟩ : ∃ l : ℕ, Int.log 2 ((n : ℚ) / (1 : ℕ)) = l :=
    ⟨Nat.log 2 n, by rw [Nat.cast_one, div_one, Int.log_natCast]⟩
  have hlog : n < 2 ^ (l + 1) ∧ 2 ^ l ≤ n := by
    rw [Nat.cast_one, div_one, Int.log_natCast, Nat.cast_inj] at hl
    subst hl
    exact ⟨Nat.lt_pow_succ_log_self Nat.one_lt_two n, Nat.pow_log_le_self 2 hn.ne'⟩
  have hl52 : l ≤ 52 := by
    have := (Nat.pow_lt_pow_iff_right Nat.one_lt_two).mp (hlog.2.trans_lt h)
    omega
  -- the significand is the number shifted to 53 bits
  obtain ⟨s, hs⟩ : ∃ s : ℕ, l + s = 52 := ⟨52 - l, by omega⟩
  have he' : e = (l : ℤ) + 1023 := by rw [he, hl]; omega
  have hm' : m = n * 2 ^ s := by
    have h1 : (1075 - e).toNat = s := by omega
    have h2 : (-(1075 - e)).toNat = 0 := by omega
    rw [hm, h1, h2, pow_zero, Nat.mul_one, roundDiv_one]
  have hlow : 2 ^ 52 ≤ m := by
    rw [hm', ← hs, pow_add]
    exact Nat.mul_le_mul_right _ hlog.2
  have hhigh : m < 2 ^ 53 := by
    rw [hm', show (53 : ℕ) = l + 1 + s by omega, pow_add 2 (l + 1)]
    exact Nat.mul_lt_mul_of_pos_right hlog.1 (by positivity)
  rw [hkey, Nat.cast_inj] at hkey'
  have hfe : (f : ℤ) = e := by omega
  have hkm : k = m := by omega
  rw [F64.ofNat, hrat, hfe, hkm, hm', he', Nat.cast_mul, Nat.cast_pow, Nat.cast_ofNat, mul_assoc,
    ← zpow_natCast (2 : ℚ) s, ← zpow_add₀ two_ne_zero]
  have : (s : ℤ) + ((l : ℤ) + 1023 - 1075) = 0 := by omega
  rw [this, zpow_zero, mul_one]

/-- The quotient of two such integers is one rounding of their quotient. -/
theorem key_ofNat_div {a b : ℕ} (ha : a < 2 ^ 53) (hb : b < 2 ^ 53) (hpos : 0 < b) :
    ((F64.ofNat a).div (F64.ofNat b)).key = (F64.round false a b).key := by
  obtain ⟨hneg, hfinite⟩ := ofNat_finite (n := a) (by omega)
  obtain ⟨hneg', hfinite'⟩ := ofNat_finite (n := b) (by omega)
  rw [div_eq hneg hfinite hneg' hfinite' (ofNat_normal hpos (by omega)).2, toRat_ofNat ha, toRat_ofNat hb]
  have hq : (0 : ℚ) ≤ (a : ℚ) / b := by positivity
  rw [ofRat_eq hq]
  have hden := ((a : ℚ) / b).den_pos
  have hcross : ((a : ℚ) / b).num.natAbs * b = a * ((a : ℚ) / b).den := by
    have hnum : (((a : ℚ) / b).num.natAbs : ℚ) = ((a : ℚ) / b).num := by
      rw [Nat.cast_natAbs, abs_of_nonneg (Rat.num_nonneg.mpr hq)]
    have hb' : (b : ℚ) ≠ 0 := by exact_mod_cast hpos.ne'
    have hden' : (((a : ℚ) / b).den : ℚ) ≠ 0 := by exact_mod_cast hden.ne'
    have hdiv := Rat.num_div_den ((a : ℚ) / b)
    rw [div_eq_div_iff hden' hb', ← hnum] at hdiv
    exact_mod_cast hdiv
  exact le_antisymm (round_mono hden hpos hcross.le) (round_mono hpos hden hcross.ge)

/-- Where something that grows with the number comes above a bound. -/
theorem lt_iff_of_step {f : UInt64 → ℤ} (hf : ∀ a b, a ≤ b → f a ≤ f b) {bound : ℤ} {n k : UInt64}
    (hsucc : k.toNat = n.toNat + 1) (hbelow : f n ≤ bound) (habove : bound < f k) (m : UInt64) :
    bound < f m ↔ n < m := by
  constructor
  · intro hlt
    by_contra hle
    exact absurd (hlt.trans_le (hf _ _ (UInt64.not_lt.mp hle))) (not_lt.mpr hbelow)
  · intro hlt
    have hle : k ≤ m := UInt64.le_iff_toNat_le.mpr (hsucc ▸ UInt64.lt_iff_toNat_lt.mp hlt)
    exact habove.trans_le (hf _ _ hle)

/-- A number that is cut off at zero and one. -/
theorem clamp_range (hx : x.isNaN = false) :
    F64.zero.le (x.clamp F64.zero F64.one) = true ∧ (x.clamp F64.zero F64.one).le F64.one = true := by
  have hzero : F64.zero.isNaN = false := by decide
  have hone : F64.one.isNaN = false := by decide
  simp only [F64.clamp]
  split_ifs with hlow hhigh
  · exact ⟨by decide, by decide⟩
  · exact ⟨by decide, by decide⟩
  · rw [lt_iff hx hzero, not_lt] at hlow
    rw [lt_iff hone hx, not_lt] at hhigh
    exact ⟨(le_iff hzero hx).mpr hlow, (le_iff hx hone).mpr hhigh⟩

end Div

end Coinjecture.Lib.Float64
