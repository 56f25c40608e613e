import Coinjecture.Lib.Float64
import Mathlib.Data.Fintype.Defs

/-! # The dimensional token pools

The eight pools with their times `τ_n` and scales `e^(-η τ_n)`. The exponential is the platform's, a
parameter here. -/

namespace Coinjecture.Tokenomics.Pools

open Lib.Float64

/-- `1/√2`. -/
def ETA : F64 := ⟨0x3FE6A09E667F3BCD⟩

inductive PoolType where
  | genesis
  | networkCoupling
  | staking
  | governance
  | bounties
  | development
  | ecosystem
  | reserve
  deriving DecidableEq

/-- `PoolType::all`. -/
def PoolType.all : List PoolType :=
  [genesis, networkCoupling, staking, governance, bounties, development, ecosystem, reserve]

instance : Fintype PoolType where
  elems := ⟨PoolType.all, by decide⟩
  complete poolType := by cases poolType <;> decide

/-- 0.00, 0.20, 0.41, 0.68, 0.98, 1.36, 1.96 and 2.72. -/
def PoolType.tau : PoolType → F64
  | genesis => F64.zero
  | networkCoupling => ⟨0x3FC999999999999A⟩
  | staking => ⟨0x3FDA3D70A3D70A3D⟩
  | governance => ⟨0x3FE5C28F5C28F5C3⟩
  | bounties => ⟨0x3FEF5C28F5C28F5C⟩
  | development => ⟨0x3FF5C28F5C28F5C3⟩
  | ecosystem => ⟨0x3FFF5C28F5C28F5C⟩
  | reserve => ⟨0x4005C28F5C28F5C3⟩

/-- `D_n`. -/
def PoolType.scale (exp : F64 → F64) (poolType : PoolType) : F64 := exp (ETA.neg.mul poolType.tau)

/-- `staking::delta_critical`. -/
def deltaCritical : F64 := ETA.mul (F64.one.sub ETA)

end Coinjecture.Tokenomics.Pools
