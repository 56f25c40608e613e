import Mathlib.Tactic

/-! # IEEE-754 binary64

A float is its 64 bits. Comparison and the saturating conversion to an unsigned integer read the
bits; the arithmetic operations are the exact ones on rationals followed by one rounding to nearest,
ties to even (`ofRat`). Operations that are not correctly rounded on every platform are not here. -/

namespace Coinjecture.Lib.Float64

/-- A binary64 value. -/
structure F64 where
  bits : UInt64
  deriving DecidableEq

namespace F64

def negative (x : F64) : Bool := 2 ^ 63 ≤ x.bits.toNat
def expo (x : F64) : ℕ := x.bits.toNat / 2 ^ 52 % 2 ^ 11
def frac (x : F64) : ℕ := x.bits.toNat % 2 ^ 52

def isFinite (x : F64) : Bool := x.expo ≠ 2047
def isInf (x : F64) : Bool := x.expo = 2047 ∧ x.frac = 0
def isNaN (x : F64) : Bool := x.expo = 2047 ∧ x.frac ≠ 0

def isZero (x : F64) : Bool := x.expo = 0 ∧ x.frac = 0

/-- The integer the significand stands for; the value is `mant * 2 ^ (max expo 1 - 1075)`. -/
def mant (x : F64) : ℕ := if x.expo = 0 then x.frac else 2 ^ 52 + x.frac

/-- The absolute value of a finite float. -/
def mag (x : F64) : ℚ := x.mant * (2 : ℚ) ^ ((max x.expo 1 : ℤ) - 1075)

/-- The value of a finite float. -/
def toRat (x : F64) : ℚ := if x.negative then -x.mag else x.mag

/-- The order of the floats that are numbers is the order of these integers. -/
def key (x : F64) : ℤ :=
  if x.negative then -(x.bits.toNat % 2 ^ 63 : ℕ) else (x.bits.toNat % 2 ^ 63 : ℕ)

/-- `x < y`; false if one is NaN. -/
def lt (x y : F64) : Bool := !x.isNaN && !y.isNaN && x.key < y.key

/-- `x <= y`; false if one is NaN. -/
def le (x y : F64) : Bool := !x.isNaN && !y.isNaN && x.key ≤ y.key

def ofBits (neg : Bool) (b : ℕ) : F64 := ⟨UInt64.ofNat (if neg then 2 ^ 63 + b else b)⟩

def zero : F64 := ⟨0⟩
def one : F64 := ⟨0x3FF0000000000000⟩
def inf (neg : Bool) : F64 := ofBits neg (2047 * 2 ^ 52)
def nan : F64 := ⟨0x7FF8000000000000⟩

/-- The largest `k` with `2 ^ k ≤ n / d`, for `0 < n`, `0 < d`. -/
def floorLog2 (n d : ℕ) : ℤ :=
  let k : ℤ := (Nat.log2 n : ℤ) - Nat.log2 d
  if d * 2 ^ k.toNat ≤ n * 2 ^ (-k).toNat then k else k - 1

/-- `n / d` to the nearest integer, ties to even. -/
def roundDiv (n d : ℕ) : ℕ :=
  let q := n / d
  if 2 * (n % d) < d then q else if d < 2 * (n % d) then q + 1 else q + q % 2

/-- The float nearest to `n / d`, ties to even. The significand may round up to the next power of
two: the carry then falls into the exponent bits. -/
def round (neg : Bool) (n d : ℕ) : F64 :=
  if n = 0 then ofBits neg 0
  else
    let e := max 1 (floorLog2 n d + 1023)
    let s := 1075 - e
    let m := roundDiv (n * 2 ^ s.toNat) (d * 2 ^ (-s).toNat)
    let b := (e - 1).toNat * 2 ^ 52 + m
    if 2047 * 2 ^ 52 ≤ b then inf neg else ofBits neg b

/-- The float nearest to a nonzero rational; `neg` is the sign of an exact zero. -/
def ofRat (neg : Bool) (q : ℚ) : F64 :=
  round (if q = 0 then neg else q < 0) q.num.natAbs q.den

def neg (x : F64) : F64 := ofBits (!x.negative) (x.bits.toNat % 2 ^ 63)

def add (x y : F64) : F64 :=
  if x.isNaN || y.isNaN then nan
  else if x.isInf then if y.isInf && x.negative != y.negative then nan else x
  else if y.isInf then y
  else ofRat (x.negative && y.negative) (x.toRat + y.toRat)

def sub (x y : F64) : F64 := add x (neg y)

def mul (x y : F64) : F64 :=
  let s := x.negative != y.negative
  if x.isNaN || y.isNaN then nan
  else if x.isInf || y.isInf then if x.isZero || y.isZero then nan else inf s
  else ofRat s (x.toRat * y.toRat)

def div (x y : F64) : F64 :=
  let s := x.negative != y.negative
  if x.isNaN || y.isNaN then nan
  else if x.isInf then if y.isInf then nan else inf s
  else if y.isInf then ofBits s 0
  else if y.isZero then if x.isZero then nan else inf s
  else ofRat s (x.toRat / y.toRat)

/-- The square root. `r` is the root of the value times `2 ^ 256`, with a half added where it is not
exact, so that rounding sees on which side of a float the root lies. -/
def sqrt (x : F64) : F64 :=
  if x.isNaN then nan
  else if x.isZero then x
  else if x.negative then nan
  else if x.isInf then x
  else
    let e := Nat.max x.expo 1 + 1
    let n := x.mant * 2 ^ (2 * 128 + e % 2)
    let r := Nat.sqrt n
    let half := if r * r = n then 2 * r else 2 * r + 1
    -- the value is `n * 2 ^ (2 * (e / 2) - 1076 - 256)`
    round false (half * 2 ^ (e / 2)) (2 ^ (538 + 128 + 1))

/-- `max`: the other argument if one is NaN. -/
def max (x y : F64) : F64 := if x.isNaN then y else if x.lt y then y else x

def clamp (x lo hi : F64) : F64 := if x.lt lo then lo else if hi.lt x then hi else x

/-- `ceil`: the sign stays when the result is zero. -/
def ceil (x : F64) : F64 := if x.isFinite then ofRat x.negative ⌈x.toRat⌉ else x

/-- `n as f64`. -/
def ofNat (n : ℕ) : F64 := round false n 1

/-- `x as uN`: towards zero, clamped to the type, NaN to zero. -/
def toUnsigned (w : ℕ) (x : F64) : BitVec w :=
  if x.isNaN || x.negative then 0
  else if x.isInf then BitVec.allOnes w
  else
    let v := if 1075 ≤ x.expo then x.mant * 2 ^ (x.expo - 1075)
      else x.mant / 2 ^ (1075 - Nat.max x.expo 1)
    if 2 ^ w ≤ v then BitVec.allOnes w else BitVec.ofNat w v

end F64

/-! ### Integer parts -/

/-- The integer part of a number that is not negative, at most. -/
theorem toUnsigned_le {w : ℕ} {x : F64} (hfinite : x.isFinite = true) (hnonneg : 0 ≤ x.toRat) :
    ((x.toUnsigned w).toNat : ℚ) ≤ x.toRat := by
  have hexpo : x.expo ≠ 2047 := by simpa [F64.isFinite] using hfinite
  unfold F64.toUnsigned
  by_cases hnegative : x.negative = true
  · rw [hnegative, Bool.or_true, if_pos rfl]
    exact_mod_cast hnonneg
  have hnan : x.isNaN = false := by simp [F64.isNaN, hexpo]
  have hinf : x.isInf = false := by simp [F64.isInf, hexpo]
  rw [Bool.not_eq_true] at hnegative
  rw [hnan, hnegative, hinf, Bool.or_false, if_neg Bool.false_ne_true, if_neg Bool.false_ne_true]
  have hrat : x.toRat = x.mag := by rw [F64.toRat, hnegative, if_neg Bool.false_ne_true]
  -- the integer part as the conversion computes it
  have hpart : ((if 1075 ≤ x.expo then x.mant * 2 ^ (x.expo - 1075)
      else x.mant / 2 ^ (1075 - Nat.max x.expo 1) : ℕ) : ℚ) ≤ x.toRat := by
    rw [hrat, F64.mag]
    split_ifs with hlarge
    · have hmax : (max x.expo 1 : ℤ) - 1075 = ((x.expo - 1075 : ℕ) : ℤ) := by omega
      rw [hmax, zpow_natCast]
      push_cast
      exact le_rfl
    · have hmax : (max x.expo 1 : ℤ) - 1075 = -((1075 - Nat.max x.expo 1 : ℕ) : ℤ) := by
        have : Nat.max x.expo 1 = max x.expo 1 := rfl
        omega
      rw [hmax, zpow_neg, zpow_natCast, ← div_eq_mul_inv]
      have hdiv : ((x.mant / 2 ^ (1075 - Nat.max x.expo 1) : ℕ) : ℚ) ≤
          (x.mant : ℚ) / ((2 ^ (1075 - Nat.max x.expo 1) : ℕ) : ℚ) := Nat.cast_div_le
      rwa [Nat.cast_pow] at hdiv
  refine le_trans ?_ hpart
  generalize (if 1075 ≤ x.expo then x.mant * 2 ^ (x.expo - 1075)
      else x.mant / 2 ^ (1075 - Nat.max x.expo 1) : ℕ) = part
  rw [Nat.cast_le]
  simp only
  split_ifs with hover
  · rw [BitVec.toNat_allOnes]
    exact (Nat.sub_le _ _).trans hover
  · rw [BitVec.toNat_ofNat]
    exact Nat.mod_le _ _

end Coinjecture.Lib.Float64
