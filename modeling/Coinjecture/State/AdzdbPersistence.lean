import Coinjecture.Lib.Trace
import Coinjecture.State.AccountFiles
import Coinjecture.State.AdzdbAccounts

/-! # Operations of the ADZDB account store

Every operation changes a map in memory and then saves that map, to a temporary file that is renamed; nobody
reads the temporary one. What becomes of a save is not up to the store: it is written, or the system refuses a
write, or the process ends before the rename or after it. After that the store is opened again from the files.

* `run_operation` : memory becomes what the operation makes of the accounts, and the file what memory is.
* `atomic_iff` : an operation is done whole or not at all, except where a save fails after memory was changed. -/

namespace Coinjecture.State.AdzdbPersistence

open Lib.Bincode Lib.Effect Lib.Trace
open Core.Types
open State.Accounts (AccountState)
open State.AccountFiles
open State.AdzdbAccounts (transferred transferred_eq_self_iff)

/-- `balances.dat` and `nonces.dat`, where they exist. -/
structure Files where
  balances : Option Bytes
  nonces : Option Bytes
  deriving DecidableEq

/-- `AdzdbAccountState`, and the files in its directory. -/
structure AdzdbAccountState where
  balances : HashMap Balance
  nonces : HashMap UInt64
  files : Files

/-- What becomes of a save. The entries are written in this order. -/
inductive Save where
  | written (order : ℕ)
  | failed (message : String)
  | crashed
  | crashedAfterRename (order : ℕ)
  deriving DecidableEq

namespace AdzdbAccountState

def loadOrEmpty {V : Type} (file : StateFile V) : Option Bytes → Except Ending (HashMap V)
  | some bytes => (run (load file) bytes).1
  | none => .ok HashMap.empty

/-- `AdzdbAccountState::new`, on a directory with these files. -/
def new (files : Files) : Except Ending AdzdbAccountState := do
  let balances ← loadOrEmpty balancesFile files.balances
  let nonces ← loadOrEmpty noncesFile files.nonces
  return ⟨balances, nonces, files⟩

def getBalance (address : Address) (s : AdzdbAccountState) : Balance := (s.balances.get address).getD 0

def getNonce (address : Address) (s : AdzdbAccountState) : UInt64 := (s.nonces.get address).getD 0

def putBalances (order : ℕ) (s : AdzdbAccountState) : AdzdbAccountState :=
  { s with files := { s.files with balances := some (fileBytes balancesFile order s.balances) } }

def putNonces (order : ℕ) (s : AdzdbAccountState) : AdzdbAccountState :=
  { s with files := { s.files with nonces := some (fileBytes noncesFile order s.nonces) } }

/-- A save that renames by `put`. -/
def save (put : ℕ → AdzdbAccountState → AdzdbAccountState) : Save → Exec Ending AdzdbAccountState Unit
  | .written order => modify (put order)
  | .failed message => throw (.Err (.IoError message))
  | .crashed => throw .Crash
  | .crashedAfterRename order => do
    modify (put order)
    throw .Crash

def saveBalances : Save → Exec Ending AdzdbAccountState Unit := save putBalances

def saveNonces : Save → Exec Ending AdzdbAccountState Unit := save putNonces

/-- `balances.insert`. -/
def insertBalance (address : Address) (balance : Balance) : Exec Ending AdzdbAccountState Unit := do
  let balances ← gets AdzdbAccountState.balances
  let balances ← okOr .Crash (balances.insert? address balance)
  modify fun s => { s with balances }

/-- `nonces.insert`. -/
def insertNonce (address : Address) (nonce : UInt64) : Exec Ending AdzdbAccountState Unit := do
  let nonces ← gets AdzdbAccountState.nonces
  let nonces ← okOr .Crash (nonces.insert? address nonce)
  modify fun s => { s with nonces }

variable (saved savedNonces : Save)

def setBalance (address : Address) (balance : Balance) : Exec Ending AdzdbAccountState Unit := do
  insertBalance address balance
  saveBalances saved

def setNonce (address : Address) (nonce : UInt64) : Exec Ending AdzdbAccountState Unit := do
  insertNonce address nonce
  saveNonces savedNonces

def incrementNonce (address : Address) : Exec Ending AdzdbAccountState UInt64 := do
  let newNonce := (← gets (getNonce address)) + 1
  setNonce savedNonces address newNonce
  return newNonce

/-- Both balances are read before either is written. -/
def transfer (src dst : Address) (amount : Balance) : Exec Ending AdzdbAccountState Unit := do
  let fromBalance ← gets (getBalance src)
  throwIf (fromBalance < amount) (.Err (.InsufficientBalance src fromBalance amount))
  let toBalance ← gets (getBalance dst)
  insertBalance src (fromBalance - amount)
  insertBalance dst (toBalance + amount)
  saveBalances saved

def insertBalances : List (Address × Balance) → Exec Ending AdzdbAccountState Unit
  | [] => pure ()
  | (address, balance) :: changes => do
    insertBalance address balance
    insertBalances changes

def applyBatch (changes : List (Address × Balance)) : Exec Ending AdzdbAccountState Unit := do
  insertBalances changes
  saveBalances saved

def flush : Exec Ending AdzdbAccountState Unit := do
  saveBalances saved
  saveNonces savedNonces

end AdzdbAccountState

open AdzdbAccountState

/-! ### What the store stands for -/

/-- The accounts, as the store answers. -/
def view (s : AdzdbAccountState) : AccountState := ⟨fun a => s.getBalance a, fun a => s.getNonce a⟩

/-- The operations. -/
inductive Operation where
  | setBalance (address : Address) (balance : Balance)
  | setNonce (address : Address) (nonce : UInt64)
  | incrementNonce (address : Address)
  | transfer (src dst : Address) (amount : Balance)
  | applyBatch (changes : List (Address × Balance))
  | flush
  deriving DecidableEq

namespace Operation

/-- What it makes of the accounts. -/
def apply (v : AccountState) : Operation → AccountState
  | .setBalance address balance => v.setBalance address balance
  | .setNonce address nonce => v.setNonce address nonce
  | .incrementNonce address => v.incrementNonce address
  | .transfer src dst amount => if v.getBalance src < amount then v else transferred src dst amount v
  | .applyBatch changes => changes.foldl (fun v change => v.setBalance change.1 change.2) v
  | .flush => v

/-- The operation, with what becomes of its save of the balances, and of the nonces. -/
def exec (saved savedNonces : Save) : Operation → Exec Ending AdzdbAccountState Unit
  | .setBalance address balance => AdzdbAccountState.setBalance saved address balance
  | .setNonce address nonce => AdzdbAccountState.setNonce savedNonces address nonce
  | .incrementNonce address => do
    let _ ← AdzdbAccountState.incrementNonce savedNonces address
  | .transfer src dst amount => AdzdbAccountState.transfer saved src dst amount
  | .applyBatch changes => AdzdbAccountState.applyBatch saved changes
  | .flush => AdzdbAccountState.flush saved savedNonces

end Operation

/-! ### Files and memory -/

/-- The store that is opened from these files answers so. -/
def Reloads (files : Files) (v : AccountState) : Prop := ∃ t, new files = .ok t ∧ view t = v

/-- The files are what memory is. -/
def InSync (s : AdzdbAccountState) : Prop := Reloads s.files (view s)

theorem reloads_iff {files : Files} {v : AccountState} : Reloads files v ↔
    (∃ m, loadOrEmpty balancesFile files.balances = .ok m ∧ ∀ a, (m.get a).getD 0 = v.balances a) ∧
      ∃ n, loadOrEmpty noncesFile files.nonces = .ok n ∧ ∀ a, (n.get a).getD 0 = v.nonces a := by
  constructor
  · rintro ⟨t, hnew, rfl⟩
    unfold new at hnew
    cases hbalances : loadOrEmpty balancesFile files.balances with
    | error e =>
      rw [hbalances] at hnew
      cases hnew
    | ok m =>
      cases hnonces : loadOrEmpty noncesFile files.nonces with
      | error e =>
        rw [hbalances, hnonces] at hnew
        cases hnew
      | ok n =>
        rw [hbalances, hnonces] at hnew
        cases hnew
        exact ⟨⟨m, rfl, fun a => rfl⟩, n, rfl, fun a => rfl⟩
  · rintro ⟨⟨m, hbalances, hm⟩, n, hnonces, hn⟩
    refine ⟨⟨m, n, files⟩, ?_, AccountState.ext (funext hm) (funext hn)⟩
    rw [new, hbalances, hnonces]
    rfl

theorem files_of_new {files : Files} {t : AdzdbAccountState} (h : new files = .ok t) : t.files = files := by
  unfold new at h
  cases hbalances : loadOrEmpty balancesFile files.balances with
  | error e =>
    rw [hbalances] at h
    cases h
  | ok m =>
    cases hnonces : loadOrEmpty noncesFile files.nonces with
    | error e =>
      rw [hbalances, hnonces] at h
      cases h
    | ok n =>
      rw [hbalances, hnonces] at h
      cases h
      rfl

theorem inSync_of_new {files : Files} {t : AdzdbAccountState} (h : new files = .ok t) : InSync t :=
  ⟨t, by rw [files_of_new h, h], rfl⟩

/-- After a save of the balances these are read back, and the nonces as before. -/
theorem reloads_putBalances {s : AdzdbAccountState} {v : AccountState} (h : Reloads s.files v) (order : ℕ) :
    Reloads (putBalances order s).files ⟨(view s).balances, v.nonces⟩ := by
  obtain ⟨m, hload, hget⟩ := load_fileBytes balancesFile order s.balances
  refine reloads_iff.mpr ⟨⟨m, hload, fun a => ?_⟩, (reloads_iff.mp h).2⟩
  rw [hget]
  rfl

theorem reloads_putNonces {s : AdzdbAccountState} {v : AccountState} (h : Reloads s.files v) (order : ℕ) :
    Reloads (putNonces order s).files ⟨v.balances, (view s).nonces⟩ := by
  obtain ⟨n, hload, hget⟩ := load_fileBytes noncesFile order s.nonces
  refine reloads_iff.mpr ⟨(reloads_iff.mp h).1, n, hload, fun a => ?_⟩
  rw [hget]
  rfl

/-! ### Changes in memory -/

/-- The computation makes these accounts of those in memory, if there is room, and touches no file. -/
structure Becomes (x : Exec Ending AdzdbAccountState Unit) (room : Prop) (s : AdzdbAccountState)
    (w : AccountState) : Prop where
  ok : room → ∃ s', run x s = (.ok (), s') ∧ s'.files = s.files ∧ view s' = w
  crash : ¬ room → ∃ s', run x s = (.error .Crash, s') ∧ s'.files = s.files

theorem view_insertBalance {s : AdzdbAccountState} {address : Address} {balance : Balance}
    {balances : HashMap Balance} (h : s.balances.insert? address balance = some balances) :
    view { s with balances } = (view s).setBalance address balance := by
  refine AccountState.ext (funext fun a => ?_) rfl
  rw [AccountState.balances_setBalance, Function.update_apply]
  change (balances.get a).getD 0 = _
  rw [HashMap.get_insert? h]
  split_ifs
  · rfl
  · rfl

theorem run_insertBalance (address : Address) (balance : Balance) (s : AdzdbAccountState) :
    run (insertBalance address balance) s = match s.balances.insert? address balance with
      | some balances => (.ok (), { s with balances })
      | none => (.error .Crash, s) := by
  rw [insertBalance, run_gets_bind]
  cases s.balances.insert? address balance with
  | none => rw [run_okOr_none_bind]
  | some balances =>
    rw [run_okOr_some_bind]
    rfl

theorem becomes_insertNonce (address : Address) (nonce : UInt64) (s : AdzdbAccountState) :
    Becomes (insertNonce address nonce) (s.nonces.Room [address]) s ((view s).setNonce address nonce) := by
  have hrun : run (insertNonce address nonce) s = match s.nonces.insert? address nonce with
      | some nonces => (.ok (), { s with nonces })
      | none => (.error .Crash, s) := by
    rw [insertNonce, run_gets_bind]
    cases s.nonces.insert? address nonce with
    | none => rw [run_okOr_none_bind]
    | some nonces =>
      rw [run_okOr_some_bind]
      rfl
  cases hinsert : s.nonces.insert? address nonce with
  | none =>
    rw [hinsert] at hrun
    exact ⟨fun hroom => absurd hroom (HashMap.insert?_eq_none.mp hinsert), fun _ => ⟨s, hrun, rfl⟩⟩
  | some nonces =>
    rw [hinsert] at hrun
    have hroom : s.nonces.Room [address] := by
      by_contra hfull
      rw [HashMap.insert?_eq_none.mpr hfull] at hinsert
      cases hinsert
    refine ⟨fun _ => ⟨_, hrun, rfl, AccountState.ext rfl (funext fun a => ?_)⟩, fun hfull => absurd hroom hfull⟩
    rw [AccountState.nonces_setNonce, Function.update_apply]
    change (nonces.get a).getD 0 = _
    rw [HashMap.get_insert? hinsert]
    split_ifs
    · rfl
    · rfl

theorem becomes_insertBalances (changes : List (Address × Balance)) (s : AdzdbAccountState) :
    Becomes (insertBalances changes) (s.balances.Room (changes.map Prod.fst)) s
      ((Operation.applyBatch changes).apply (view s)) := by
  induction changes generalizing s with
  | nil =>
    refine ⟨fun _ => ⟨s, rfl, rfl, rfl⟩, fun hfull => absurd ?_ hfull⟩
    rw [List.map_nil, HashMap.Room, List.toFinset_nil, Finset.union_empty, HashMap.card_keys]
    exact s.balances.fits
  | cons change changes ih =>
    obtain ⟨address, balance⟩ := change
    have hrun := run_insertBalance address balance s
    cases hinsert : s.balances.insert? address balance with
    | none =>
      rw [hinsert] at hrun
      refine ⟨fun hroom => ?_, fun _ => ⟨s, run_bind_error hrun _, rfl⟩⟩
      exact absurd (hroom.mono (by simp)) (HashMap.insert?_eq_none.mp hinsert)
    | some balances =>
      rw [hinsert] at hrun
      have hrest := ih { s with balances }
      rw [HashMap.room_insert? hinsert, view_insertBalance hinsert] at hrest
      refine ⟨fun hroom => ?_, fun hfull => ?_⟩
      · obtain ⟨s', hrest, hfiles, hview⟩ := hrest.ok hroom
        exact ⟨s', (run_bind_ok hrun _).trans hrest, hfiles, hview⟩
      · obtain ⟨s', hrest, hfiles⟩ := hrest.crash hfull
        exact ⟨s', (run_bind_ok hrun _).trans hrest, hfiles⟩

/-! ### Whole or not at all -/

/-- An operation that makes `w` of `v`: done, it is in memory and in the files; with an error memory is as
before; in any case the store can be opened again, before the operation or after it. -/
def Atomic (v w : AccountState) : Except Ending Unit × AdzdbAccountState → Prop
  | (.ok _, s') => view s' = w ∧ Reloads s'.files w
  | (.error (.Err _), s') => view s' = v ∧ (Reloads s'.files v ∨ Reloads s'.files w)
  | (.error .Crash, s') => Reloads s'.files v ∨ Reloads s'.files w

/-- … and with an error the files are as before too. -/
def Whole (v w : AccountState) : Except Ending Unit × AdzdbAccountState → Prop
  | (.error (.Err _), s') => view s' = v ∧ Reloads s'.files v
  | r => Atomic v w r

theorem Whole.atomic {v w : AccountState} {r : Except Ending Unit × AdzdbAccountState} (h : Whole v w r) :
    Atomic v w r := by
  obtain ⟨(e | _) | u, s'⟩ := r
  · exact ⟨h.1, .inl h.2⟩
  · exact h
  · exact h

/-- A save is refused. -/
def Save.fails : Save → Bool
  | .failed _ => true
  | _ => false

/-- The operation is whole, unless this is the case; then it is not atomic. -/
structure WholeUnless (refused : Prop) (v w : AccountState) (r : Except Ending Unit × AdzdbAccountState) : Prop where
  whole : ¬ refused → Whole v w r
  torn : refused → ¬ Atomic v w r

theorem WholeUnless.congr {refused refused' : Prop} {v w : AccountState} {r : Except Ending Unit × AdzdbAccountState}
    (h : WholeUnless refused v w r) (hiff : refused' ↔ refused) : WholeUnless refused' v w r :=
  ⟨fun hnot => h.whole (mt hiff.mpr hnot), fun hrefused => h.torn (hiff.mp hrefused)⟩

/-- Memory is changed to `w`, and then a file is written. -/
theorem whole_save {x : Exec Ending AdzdbAccountState Unit} {put : ℕ → AdzdbAccountState → AdzdbAccountState}
    {room : Prop} {s : AdzdbAccountState} {w : AccountState} (hx : Becomes x room s w) (hsync : InSync s)
    (hput : ∀ s' order, s'.files = s.files → view s' = w →
      view (put order s') = w ∧ Reloads (put order s').files w) (saved : Save) :
    WholeUnless (saved.fails = true ∧ room ∧ w ≠ view s) (view s) w (run (x >>= fun _ => save put saved) s) := by
  by_cases hroom : room
  · obtain ⟨s', hrun, hfiles, hview⟩ := hx.ok hroom
    have hbefore : Reloads s'.files (view s) := hfiles ▸ hsync
    rw [run_bind_ok hrun]
    cases saved with
    | written order => exact ⟨fun _ => hput s' order hfiles hview, fun h => absurd h.1 Bool.false_ne_true⟩
    | failed message =>
      refine ⟨fun h => ⟨hview.trans ?_, hbefore⟩, fun h hatomic => h.2.2 (hview.symm.trans hatomic.1)⟩
      exact not_not.mp fun hne => h ⟨rfl, hroom, hne⟩
    | crashed => exact ⟨fun _ => .inl hbefore, fun h => absurd h.1 Bool.false_ne_true⟩
    | crashedAfterRename order =>
      exact ⟨fun _ => .inr (hput s' order hfiles hview).2, fun h => absurd h.1 Bool.false_ne_true⟩
  · obtain ⟨s', hrun, hfiles⟩ := hx.crash hroom
    rw [run_bind_error hrun]
    exact ⟨fun _ => .inl (hfiles ▸ hsync), fun h => absurd h.2.1 hroom⟩

/-! ### One operation after the other -/

/-- An operation, and what becomes of its saves. -/
structure Step where
  operation : Operation
  saved : Save
  savedNonces : Save

namespace Step

def exec (step : Step) : Exec Ending AdzdbAccountState Unit := step.operation.exec step.saved step.savedNonces

def AtomicAt (step : Step) (s : AdzdbAccountState) : Prop :=
  Atomic (view s) (step.operation.apply (view s)) (run step.exec s)

/-- A save is refused after an operation has changed an answer of the store in memory. -/
def WriteFails (step : Step) (s : AdzdbAccountState) : Prop :=
  match step.operation with
  | .setBalance address balance =>
    step.saved.fails = true ∧ s.balances.Room [address] ∧ s.getBalance address ≠ balance
  | .setNonce address nonce =>
    step.savedNonces.fails = true ∧ s.nonces.Room [address] ∧ s.getNonce address ≠ nonce
  | .incrementNonce address => step.savedNonces.fails = true ∧ s.nonces.Room [address]
  | .transfer src dst amount =>
    step.saved.fails = true ∧ s.balances.Room [src, dst] ∧ amount ≤ s.getBalance src ∧ amount ≠ 0
  | .applyBatch changes => step.saved.fails = true ∧ s.balances.Room (changes.map Prod.fst) ∧
      ∃ change ∈ changes, changes.reverse.lookup change.1 ≠ some (s.getBalance change.1)
  | .flush => False

end Step

theorem nonces_applyBatch (changes : List (Address × Balance)) (v : AccountState) :
    ((Operation.applyBatch changes).apply v).nonces = v.nonces := by
  simp only [Operation.apply]
  induction changes generalizing v with
  | nil => rfl
  | cons change changes ih => exact ih _

theorem balances_applyBatch (changes : List (Address × Balance)) (v : AccountState) (a : Address) :
    ((Operation.applyBatch changes).apply v).balances a = (changes.reverse.lookup a).getD (v.balances a) := by
  simp only [Operation.apply]
  induction changes generalizing v with
  | nil => rfl
  | cons change changes ih =>
    obtain ⟨address, balance⟩ := change
    rw [List.foldl_cons, ih, List.reverse_cons, List.lookup_append, List.lookup_cons, List.lookup_nil,
      AccountState.balances_setBalance, Function.update_apply]
    cases changes.reverse.lookup a with
    | some b => rfl
    | none =>
      split_ifs with ha
      · rw [ha, beq_self_eq_true]
        rfl
      · rw [beq_eq_false_iff_ne.mpr ha]
        rfl

theorem applyBatch_eq_self_iff (changes : List (Address × Balance)) (v : AccountState) :
    (Operation.applyBatch changes).apply v ≠ v ↔
      ∃ change ∈ changes, changes.reverse.lookup change.1 ≠ some (v.balances change.1) := by
  constructor
  · intro hne
    by_contra hall
    push Not at hall
    refine hne (AccountState.ext (funext fun a => ?_) (nonces_applyBatch changes v))
    rw [balances_applyBatch]
    cases hlookup : changes.reverse.lookup a with
    | none => rfl
    | some b =>
      have hmem := Lib.Table.mem_of_lookup hlookup
      have hsame := hall _ (List.mem_reverse.mp hmem)
      rw [hlookup] at hsame
      exact Option.some.inj hsame
  · rintro ⟨⟨address, balance⟩, hmem, hne⟩ hsame
    refine hne ?_
    have hbalance := balances_applyBatch changes v address
    rw [hsame] at hbalance
    cases hlookup : changes.reverse.lookup address with
    | none =>
      have hnone := List.lookup_eq_none_iff.mp hlookup _ (List.mem_reverse.mpr hmem)
      exact absurd rfl (bne_iff_ne.mp hnone)
    | some b =>
      rw [hlookup] at hbalance
      exact congrArg some hbalance.symm

/-- The balances are saved after these insertions. -/
theorem whole_insertBalances (changes : List (Address × Balance)) {s : AdzdbAccountState} (hsync : InSync s)
    (saved : Save) :
    WholeUnless (saved.fails = true ∧ s.balances.Room (changes.map Prod.fst) ∧
        (Operation.applyBatch changes).apply (view s) ≠ view s)
      (view s) ((Operation.applyBatch changes).apply (view s))
      (run (AdzdbAccountState.applyBatch saved changes) s) := by
  refine @whole_save _ putBalances _ _ _ (becomes_insertBalances changes s) hsync (fun s' order hfiles hview => ?_) saved
  refine ⟨hview, ?_⟩
  have hreloads : Reloads s'.files (view s) := hfiles ▸ hsync
  have hput := reloads_putBalances hreloads order
  rw [hview, ← nonces_applyBatch changes (view s)] at hput
  exact hput

/-- A balance set is a batch of one. -/
theorem setBalance_eq_applyBatch (saved : Save) (address : Address) (balance : Balance) :
    AdzdbAccountState.setBalance saved address balance = AdzdbAccountState.applyBatch saved [(address, balance)] := by
  simp only [AdzdbAccountState.setBalance, AdzdbAccountState.applyBatch, insertBalances, bind_assoc, pure_bind]

/-- A transfer that is covered is a batch of two. -/
theorem run_transfer (saved : Save) (src dst : Address) (amount : Balance) (s : AdzdbAccountState) :
    run (AdzdbAccountState.transfer saved src dst amount) s =
      if s.getBalance src < amount then
        (.error (.Err (.InsufficientBalance src (s.getBalance src) amount)), s)
      else run (AdzdbAccountState.applyBatch saved
        [(src, s.getBalance src - amount), (dst, s.getBalance dst + amount)]) s := by
  simp only [AdzdbAccountState.transfer, AdzdbAccountState.applyBatch, insertBalances, bind_assoc, pure_bind,
    run_gets_bind, run_throwIf_bind]

theorem run_incrementNonce (savedNonces : Save) (address : Address) (s : AdzdbAccountState) (saved : Save) :
    run ((Operation.incrementNonce address).exec saved savedNonces) s =
      run (AdzdbAccountState.setNonce savedNonces address (s.getNonce address + 1)) s := by
  simp only [Operation.exec, AdzdbAccountState.incrementNonce, bind_assoc, pure_bind, run_gets_bind,
    bind_pure_unit]

theorem setBalance_eq_self_iff {v : AccountState} {address : Address} {balance : Balance} :
    v.setBalance address balance ≠ v ↔ v.getBalance address ≠ balance := by
  rw [not_iff_not, AccountState.ext_iff, AccountState.balances_setBalance, AccountState.nonces_setBalance,
    and_iff_left rfl, Function.update_eq_self_iff]
  exact eq_comm

theorem setNonce_eq_self_iff {v : AccountState} {address : Address} {nonce : UInt64} :
    v.setNonce address nonce ≠ v ↔ v.getNonce address ≠ nonce := by
  rw [not_iff_not, AccountState.ext_iff, AccountState.balances_setNonce, AccountState.nonces_setNonce,
    and_iff_right rfl, Function.update_eq_self_iff]
  exact eq_comm

theorem whole_setNonce (address : Address) (nonce : UInt64) {s : AdzdbAccountState} (hsync : InSync s)
    (saved : Save) :
    WholeUnless (saved.fails = true ∧ s.nonces.Room [address] ∧ (view s).setNonce address nonce ≠ view s)
      (view s) ((view s).setNonce address nonce) (run (AdzdbAccountState.setNonce saved address nonce) s) := by
  refine @whole_save _ putNonces _ _ _ (becomes_insertNonce address nonce s) hsync (fun s' order hfiles hview => ⟨hview, ?_⟩) saved
  have hreloads : Reloads s'.files (view s) := hfiles ▸ hsync
  have hput := reloads_putNonces hreloads order
  rw [hview] at hput
  exact hput

/-- Both saves of memory as it is leave the files as they are, as far as they are read. -/
theorem whole_flush {s : AdzdbAccountState} (hsync : InSync s) (saved savedNonces : Save) :
    Whole (view s) (view s) (run (AdzdbAccountState.flush saved savedNonces) s) := by
  have hbalances := fun order => reloads_putBalances hsync order
  have hsecond : ∀ s', view s' = view s → Reloads s'.files (view s) →
      Whole (view s) (view s) (run (saveNonces savedNonces) s') := by
    intro s' hview hreloads
    have hput := fun order => reloads_putNonces hreloads order
    rw [hview] at hput
    cases savedNonces with
    | written order => exact ⟨hview, hput order⟩
    | failed message => exact ⟨hview, hreloads⟩
    | crashed => exact .inl hreloads
    | crashedAfterRename order => exact .inl (hput order)
  cases saved with
  | written order => exact hsecond (putBalances order s) rfl (hbalances order)
  | failed message => exact ⟨rfl, hsync⟩
  | crashed => exact .inl hsync
  | crashedAfterRename order => exact .inl (hbalances order)

/-- An operation is whole where no save is refused after a change, and not atomic where one is. -/
theorem whole_step (step : Step) {s : AdzdbAccountState} (hsync : InSync s) :
    WholeUnless (step.WriteFails s) (view s) (step.operation.apply (view s)) (run step.exec s) := by
  obtain ⟨operation, saved, savedNonces⟩ := step
  cases operation with
  | setBalance address balance =>
    have h := whole_insertBalances [(address, balance)] hsync saved
    rw [← setBalance_eq_applyBatch] at h
    refine h.congr (and_congr_right fun _ => and_congr_right fun _ => ?_)
    exact (setBalance_eq_self_iff (v := view s)).symm
  | setNonce address nonce =>
    refine (whole_setNonce address nonce hsync savedNonces).congr
      (and_congr_right fun _ => and_congr_right fun _ => ?_)
    exact (setNonce_eq_self_iff (v := view s)).symm
  | incrementNonce address =>
    have hne : (view s).setNonce address (s.getNonce address + 1) ≠ view s := by
      refine setNonce_eq_self_iff.mpr fun heq => ?_
      exact absurd (left_eq_add.mp heq) (by decide)
    rw [Step.exec, run_incrementNonce]
    refine (whole_setNonce address (s.getNonce address + 1) hsync savedNonces).congr ?_
    exact and_congr_right fun _ => (and_iff_left hne).symm
  | transfer src dst amount =>
    rw [Step.exec, Operation.exec, run_transfer, Operation.apply]
    by_cases hcovered : s.getBalance src < amount
    · rw [if_pos hcovered, if_pos (show (view s).getBalance src < amount from hcovered)]
      exact ⟨fun _ => ⟨rfl, hsync⟩, fun hfails => absurd hfails.2.2.1 (BitVec.not_le.mpr hcovered)⟩
    · rw [if_neg hcovered, if_neg (show ¬ (view s).getBalance src < amount from hcovered)]
      have h := whole_insertBalances
        [(src, s.getBalance src - amount), (dst, s.getBalance dst + amount)] hsync saved
      refine h.congr (and_congr_right fun _ => and_congr_right fun _ => ?_)
      exact (and_iff_right (BitVec.not_lt.mp hcovered)).trans
        (not_congr (transferred_eq_self_iff (s := view s)).symm)
  | applyBatch changes =>
    refine (whole_insertBalances changes hsync saved).congr
      (and_congr_right fun _ => and_congr_right fun _ => ?_)
    exact (applyBatch_eq_self_iff changes (view s)).symm
  | flush => exact ⟨fun _ => whole_flush hsync saved savedNonces, False.elim⟩

/-! ### Runs -/

/-- The store after the step. If the process has ended it is opened again. -/
def next (step : Step) (s : AdzdbAccountState) : AdzdbAccountState :=
  match run step.exec s with
  | (.error .Crash, s') => match new s'.files with
    | .ok t => t
    | .error _ => s'
  | (_, s') => s'

def store : Machine Step AdzdbAccountState := ⟨next, fun _ _ => false⟩

theorem inSync_next {step : Step} {s : AdzdbAccountState} (hsync : InSync s) (hfails : ¬ step.WriteFails s) :
    InSync (next step s) := by
  have hwhole := (whole_step step hsync).whole hfails
  unfold next
  match hrun : run step.exec s with
  | (.ok u, s') =>
    rw [hrun] at hwhole
    obtain ⟨hview, hreloads⟩ := hwhole
    rw [← hview] at hreloads
    exact hreloads
  | (.error (.Err e), s') =>
    rw [hrun] at hwhole
    obtain ⟨hview, hreloads⟩ := hwhole
    rw [← hview] at hreloads
    exact hreloads
  | (.error .Crash, s') =>
    rw [hrun] at hwhole
    obtain ⟨t, hnew, -⟩ | ⟨t, hnew, -⟩ := hwhole
    · simp only [hnew]
      exact inSync_of_new hnew
    · simp only [hnew]
      exact inSync_of_new hnew

/-- In a run of the store from the files it is opened from, every operation is done whole or not at all, with
memory as before where it returns an error, if and only if no write is refused after a change in memory. -/
theorem atomic_iff (files : Files) (s : AdzdbAccountState) (hopen : new files = .ok s) (steps : List Step) :
    (∀ p ∈ store.trace steps s, p.1.AtomicAt p.2) ↔ ∀ p ∈ store.trace steps s, ¬ p.1.WriteFails p.2 := by
  refine Machine.forall_trace_iff (Q := fun _ t => InSync t) (fun step _ t hsync => ⟨fun hatomic hfails => ?_,
    fun hfails => ?_⟩) (fun step _ t hsync hfails => inSync_next hsync hfails) (inSync_of_new hopen)
  · exact (whole_step step hsync).torn hfails hatomic
  · exact ((whole_step step hsync).whole hfails).atomic

/-! ### Alice pays Bob -/

namespace Sample

def noFiles : Files := ⟨none, none⟩

def empty : AdzdbAccountState := ⟨HashMap.empty, HashMap.empty, noFiles⟩

def alice : Address := ⟨0xa1a1a1a1a1a1a1a1a1a1a1a1a1a1a1a1a1a1a1a1a1a1a1a1a1a1a1a1a1a1a1a1⟩

def bob : Address := ⟨0xb0b0b0b0b0b0b0b0b0b0b0b0b0b0b0b0b0b0b0b0b0b0b0b0b0b0b0b0b0b0b0b0⟩

/-- Alice gets 100. -/
def funded : Step := ⟨.setBalance alice 100, .written 0, .written 0⟩

/-- She pays 30 to Bob, and this becomes of the save. -/
def pays (saved : Save) : Step := ⟨.transfer alice bob 30, saved, .written 0⟩

def diskFull : Save := .failed "Failed to flush balances file: No space left on device (os error 28)"

end Sample

/-- The process ends right after the rename, and then in a flush between the two files. -/
theorem atomic_iff_crashes : (∀ p ∈ store.trace [Sample.funded, Sample.pays (.crashedAfterRename 1),
      ⟨.flush, .written 1, .crashed⟩] Sample.empty, p.1.AtomicAt p.2) ∧
    (next Sample.funded Sample.empty).getBalance Sample.alice = 100 ∧
    (run (Sample.pays (.crashedAfterRename 1)).exec (next Sample.funded Sample.empty)).1 = .error .Crash := by
  refine ⟨(atomic_iff Sample.noFiles Sample.empty rfl _).mpr fun p hp hfails => ?_, by decide +kernel,
    by decide +kernel⟩
  obtain ⟨step, s⟩ := p
  have hmem := Machine.mem_of_mem_trace hp
  simp only [List.mem_cons, List.not_mem_nil, or_false] at hmem
  obtain rfl | rfl | rfl := hmem
  · exact absurd hfails.1 Bool.false_ne_true
  · exact absurd hfails.1 Bool.false_ne_true
  · exact hfails

/-- The disk is full: the transfer returns an error and Bob has the money, until the store is opened again. -/
theorem refused_write_keeps_change :
    let s := next Sample.funded Sample.empty
    let r := run (Sample.pays Sample.diskFull).exec s
    r.1 = .error (.Err (.IoError "Failed to flush balances file: No space left on device (os error 28)")) ∧
      (s.getBalance Sample.alice, s.getBalance Sample.bob) = (100, 0) ∧
      (r.2.getBalance Sample.alice, r.2.getBalance Sample.bob) = (70, 30) ∧ Reloads r.2.files (view s) ∧
      ¬ ∀ p ∈ store.trace [Sample.funded, Sample.pays Sample.diskFull] Sample.empty, p.1.AtomicAt p.2 := by
  have hopen := @inSync_of_new Sample.noFiles Sample.empty rfl
  have hsync : InSync (next Sample.funded Sample.empty) :=
    inSync_next hopen fun hfails => absurd hfails.1 Bool.false_ne_true
  refine ⟨by decide +kernel, by decide +kernel, by decide +kernel, hsync, fun hatomic => ?_⟩
  have htransfer := hatomic (Sample.pays Sample.diskFull, next Sample.funded Sample.empty)
    (List.mem_cons_of_mem _ List.mem_cons_self)
  exact (whole_step (Sample.pays Sample.diskFull) hsync).torn
    ⟨rfl, by decide +kernel, by decide +kernel, by decide⟩ htransfer

end Coinjecture.State.AdzdbPersistence
