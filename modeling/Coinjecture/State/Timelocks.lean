import Coinjecture.Core.Types
import Coinjecture.Lib.Table

/-! # Time-locked balances

One record per transaction hash. A lock leaves the store only when it is removed. -/

namespace Coinjecture.State.Timelocks

open Lib.Table
open Core.Types

structure TimeLock where
  txHash : Hash
  «from» : Address
  recipient : Address
  amount : Balance
  unlockTime : Int64
  createdAtHeight : UInt64
  deriving DecidableEq

/-- `TimeLockState`. -/
abbrev TimeLockState := Keyed TimeLock.txHash

namespace TimeLockState

/-- `TimeLockState::add_timelock`: a lock under the same hash is overwritten. -/
def addTimelock (timelock : TimeLock) (s : TimeLockState) : TimeLockState := s.insert timelock

abbrev getTimelock (txHash : Hash) (s : TimeLockState) : Option TimeLock := s.get txHash

def removeTimelock (txHash : Hash) (s : TimeLockState) : TimeLockState := s.erase txHash

end TimeLockState

end Coinjecture.State.Timelocks
