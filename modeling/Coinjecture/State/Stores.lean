import Coinjecture.Lib.Postings
import Coinjecture.State.Accounts
import Coinjecture.State.Timelocks
import Coinjecture.State.Escrows
import Coinjecture.State.Channels
import Coinjecture.State.TrustLines
import Coinjecture.State.DimensionalPools
import Coinjecture.State.Marketplace

/-! # The ledger

The seven stores a block is applied to. `on…` runs a store's operation inside the ledger; `balance`,
`setBalance` and `setNonce` are the account operations the block applier uses throughout. `credit`
and `debit` name the two ways it changes a balance: `setBalance` of what was read plus, or minus, an
amount. -/

namespace Coinjecture.State.Stores

open Lib.Effect Lib.Postings Lib.Table
open Core.Types
open State.Accounts State.Timelocks State.Escrows
open State.Channels State.TrustLines State.DimensionalPools
open State.Marketplace

@[ext] structure Ledger where
  accounts : AccountState
  timelocks : TimeLockState
  escrows : EscrowState
  channels : ChannelState
  trustlines : TrustLineState
  pools : DimensionalPoolState
  marketplace : MarketplaceState

namespace Ledger

abbrev balance (a : Address) (L : Ledger) : Balance := L.accounts.balances a

abbrev nonce (a : Address) (L : Ledger) : UInt64 := L.accounts.nonces a

def setBalance (a : Address) (v : Balance) (L : Ledger) : Ledger :=
  { L with accounts := L.accounts.setBalance a v }

def setNonce (a : Address) (n : UInt64) (L : Ledger) : Ledger :=
  { L with accounts := L.accounts.setNonce a n }

def credit (a : Address) (v : Balance) (L : Ledger) : Ledger := L.setBalance a (L.balance a + v)

def debit (a : Address) (v : Balance) (L : Ledger) : Ledger := L.setBalance a (L.balance a - v)

theorem setBalance_self (a : Address) (L : Ledger) : L.setBalance a (L.balance a) = L := by
  simp only [setBalance, AccountState.setBalance, balance, Function.update_eq_self]

theorem setNonce_self (a : Address) (L : Ledger) : L.setNonce a (L.nonce a) = L := by
  simp only [setNonce, AccountState.setNonce, nonce, Function.update_eq_self]

theorem credit_zero (a : Address) (L : Ledger) : L.credit a 0 = L := by
  rw [credit, add_zero, setBalance_self]

/-- A ledger with accounts only. -/
def ofAccounts (s : AccountState) : Ledger where
  accounts := s
  timelocks := .empty
  escrows := .empty
  channels := .empty
  trustlines := .empty
  pools := ⟨.empty, .empty⟩
  marketplace := ⟨.empty, fun _ => none, fun _ => none⟩

/-! A credit or a debit as a posting to the balances. -/

theorem balances_credit (a : Address) (v : Balance) (L : Ledger) :
    (L.credit a v).accounts.balances = L.accounts.balances + Pi.single a v :=
  update_add L.accounts.balances a v

theorem balances_debit (a : Address) (v : Balance) (L : Ledger) :
    (L.debit a v).accounts.balances = L.accounts.balances - Pi.single a v :=
  update_sub L.accounts.balances a v

theorem balance_credit (a x : Address) (v : Balance) (L : Ledger) :
    (L.credit a v).balance x = L.balance x + if a = x then v else 0 := by
  rw [balance, balances_credit, Pi.add_apply, Pi.single_apply]
  simp only [eq_comm]

theorem balance_credits (a b x : Address) (u v : Balance) (L : Ledger) :
    ((L.credit a u).credit b v).balance x =
      L.balance x + ((if a = x then u else 0) + if b = x then v else 0) := by
  rw [balance_credit, balance_credit, add_assoc]

theorem balance_debit_self (a : Address) (v : Balance) (L : Ledger) :
    (L.debit a v).balance a = L.balance a - v :=
  Function.update_self ..

def withEscrows (e : EscrowState) (L : Ledger) : Ledger := { L with escrows := e }
def withChannels (c : ChannelState) (L : Ledger) : Ledger := { L with channels := c }
def withTrustlines (t : TrustLineState) (L : Ledger) : Ledger := { L with trustlines := t }
def withPools (p : DimensionalPoolState) (L : Ledger) : Ledger := { L with pools := p }
def withMarketplace (m : MarketplaceState) (L : Ledger) : Ledger := { L with marketplace := m }

variable {α : Type}

def onTimelocks (f : TimeLockState → TimeLockState) (L : Ledger) : Ledger :=
  { L with timelocks := f L.timelocks }

def onEscrows (x : Exec Failure EscrowState α) : Exec Failure Ledger α :=
  zoom Ledger.escrows withEscrows x

def onChannels (x : Exec Failure ChannelState α) : Exec Failure Ledger α :=
  zoom Ledger.channels withChannels x

def onTrustlines (x : Exec Failure TrustLineState α) : Exec Failure Ledger α :=
  zoom Ledger.trustlines withTrustlines x

def onPools (x : Exec Failure DimensionalPoolState α) : Exec Failure Ledger α :=
  zoom Ledger.pools withPools x

def onMarketplace (x : Exec Failure MarketplaceState α) : Exec Failure Ledger α :=
  zoom Ledger.marketplace withMarketplace x

end Ledger

/-! ### Store operations inside the ledger -/

open Ledger

variable {α : Type} {L : Ledger}

theorem EndsAs.onEscrows {x : Exec Failure EscrowState α} {o : Option (α × EscrowState)}
    (h : EndsAs x L.escrows o) : EndsAs (onEscrows x) L (o.map fun r => (r.1, L.withEscrows r.2)) :=
  EndsAs.zoom (fun _ => rfl) h

theorem EndsAs.onChannels {x : Exec Failure ChannelState α} {o : Option (α × ChannelState)}
    (h : EndsAs x L.channels o) :
    EndsAs (onChannels x) L (o.map fun r => (r.1, L.withChannels r.2)) :=
  EndsAs.zoom (fun _ => rfl) h

theorem EndsAs.onTrustlines {x : Exec Failure TrustLineState α} {o : Option (α × TrustLineState)}
    (h : EndsAs x L.trustlines o) :
    EndsAs (onTrustlines x) L (o.map fun r => (r.1, L.withTrustlines r.2)) :=
  EndsAs.zoom (fun _ => rfl) h

theorem EndsAs.onPools {x : Exec Failure DimensionalPoolState α}
    {o : Option (α × DimensionalPoolState)} (h : EndsAs x L.pools o) :
    EndsAs (onPools x) L (o.map fun r => (r.1, L.withPools r.2)) :=
  EndsAs.zoom (fun _ => rfl) h

theorem EndsAs.onMarketplace {x : Exec Failure MarketplaceState α}
    {o : Option (α × MarketplaceState)} (h : EndsAs x L.marketplace o) :
    EndsAs (onMarketplace x) L (o.map fun r => (r.1, L.withMarketplace r.2)) :=
  EndsAs.zoom (fun _ => rfl) h

theorem run_onMarketplace {x : Exec Failure MarketplaceState α} {s : MarketplaceState}
    {r : Except Failure α} (h : run x L.marketplace = (r, s)) :
    run (onMarketplace x) L = (r, L.withMarketplace s) :=
  run_zoom_of h

end Coinjecture.State.Stores
