import Coinjecture.Lib.Table
import Coinjecture.Node.PeerConsensus

/-! # Keeping the peer table

Status reports, disconnections, reports of incompatible tips and the maintenance of the peer table, which is a
map: its entries are listed in some order, no two of them for one peer.

A session of a peer is what has happened to it since it was last added: the tips that it has told, the
incompatible tips that have been reported of it, and when that penalty was cleared.

* `active_peers_of_history` : whom the answers of the node are read off, and with which tips, is told by the
  sessions alone. Missed rounds and the filter never exclude a peer that is not stale, and a peer that
  disconnects leaves its quarantine behind. -/

namespace Coinjecture.Node.PeerTracking

open Lib.Table
open Core.Types
open Node.PeerConsensus

def INCOMPATIBLE_TIP_QUARANTINE_AFTER : UInt32 := 3

def INCOMPATIBLE_TIP_QUARANTINE_SECS : ℕ := 120

/-- The end of a quarantine that begins now. -/
def quarantineEnd (now : ℕ) : ℕ := now + INCOMPATIBLE_TIP_QUARANTINE_SECS * 1000000000

/-- `get_mut`, and a change of the entry. -/
def alter (peerId : String) (f : PeerState → PeerState) (peers : Peers) : Peers :=
  peers.map fun p => if p.1 = peerId then (p.1, f p.2) else p

/-- The entry of a peer that has told its tip. -/
def retold (now : ℕ) (height : UInt64) (hash : Bytes32) (cumulativeWork : BitVec 128) (peer : PeerState) :
    PeerState :=
  { peer with
    bestHeight := height
    bestHash := hash
    cumulativeWork := cumulativeWork
    lastSeen := now
    missedRounds := 0
    isFiltered := false }

def updatePeer (now : ℕ) (peerId : String) (height : UInt64) (hash : Bytes32) (cumulativeWork : BitVec 128)
    (peers : Peers) : Peers :=
  if (peers.lookup peerId).isSome then
    alter peerId (retold now height hash cumulativeWork) peers
  else peers ++ [(peerId, { PeerState.new now height hash with cumulativeWork := cumulativeWork })]

def markPeerDisconnected (peerId : String) (peers : Peers) : Peers := peers.filter fun p => p.1 ≠ peerId

def removePeer (peerId : String) (peers : Peers) : Peers := peers.filter fun p => p.1 ≠ peerId

/-- One more report, and the quarantine if it is the third. -/
def countReport (now : ℕ) (state : PeerState) : PeerState :=
  let reports : UInt32 := .ofNat (min (state.incompatibleTipReports.toNat + 1) (2 ^ 32 - 1))
  if INCOMPATIBLE_TIP_QUARANTINE_AFTER ≤ reports then
    { state with quarantineUntil := some (quarantineEnd now), incompatibleTipReports := 0 }
  else { state with incompatibleTipReports := reports }

def noteIncompatibleTip (now : ℕ) (peerId : String) (peers : Peers) : Peers :=
  alter peerId (countReport now) peers

def clearIncompatibleTipPenalty (peerId : String) (peers : Peers) : Peers :=
  alter peerId (fun state => { state with incompatibleTipReports := 0 }) peers

/-- A stale peer misses a round, and is filtered if it has missed too many. -/
def missRound (now : ℕ) (maxMissedRounds : UInt32) (state : PeerState) : PeerState :=
  if state.isStale now && !state.isFiltered then
    { state with
      missedRounds := state.missedRounds + 1
      isFiltered := decide (maxMissedRounds ≤ state.missedRounds + 1) }
  else state

def maintenanceTick (now : ℕ) (maxMissedRounds : UInt32) (peers : Peers) : Peers :=
  peers.map fun p => (p.1, missRound now maxMissedRounds p.2)

/-! ### Runs -/

inductive Act where
  | updatePeer (peerId : String) (height : UInt64) (hash : Bytes32) (cumulativeWork : BitVec 128)
  | markPeerDisconnected (peerId : String)
  | removePeer (peerId : String)
  | noteIncompatibleTip (peerId : String)
  | clearIncompatibleTipPenalty (peerId : String)
  | maintenanceTick

structure Event where
  now : ℕ
  act : Act

def step (maxMissedRounds : UInt32) (peers : Peers) (e : Event) : Peers :=
  match e.act with
  | .updatePeer peerId height hash cumulativeWork => updatePeer e.now peerId height hash cumulativeWork peers
  | .markPeerDisconnected peerId => markPeerDisconnected peerId peers
  | .removePeer peerId => removePeer peerId peers
  | .noteIncompatibleTip peerId => noteIncompatibleTip e.now peerId peers
  | .clearIncompatibleTipPenalty peerId => clearIncompatibleTipPenalty peerId peers
  | .maintenanceTick => maintenanceTick e.now maxMissedRounds peers

/-- The table after these events. -/
def table (maxMissedRounds : UInt32) (events : List Event) : Peers := events.foldl (step maxMissedRounds) []

/-! ### Sessions -/

structure Tip where
  height : UInt64
  hash : Bytes32
  cumulativeWork : BitVec 128
  deriving DecidableEq

inductive Mark where
  | told (tip : Tip)
  | reported
  | cleared
  deriving DecidableEq

abbrev Session := List (ℕ × Mark)

/-- A session begins with a tip and ends when the peer disconnects or is removed. -/
def extend (peerId : String) (session : Session) (e : Event) : Session :=
  match e.act with
  | .updatePeer id height hash cumulativeWork =>
    if id = peerId then session ++ [(e.now, .told ⟨height, hash, cumulativeWork⟩)] else session
  | .markPeerDisconnected id => if id = peerId then [] else session
  | .removePeer id => if id = peerId then [] else session
  | .noteIncompatibleTip id => if id = peerId ∧ session ≠ [] then session ++ [(e.now, .reported)] else session
  | .clearIncompatibleTipPenalty id =>
    if id = peerId ∧ session ≠ [] then session ++ [(e.now, .cleared)] else session
  | .maintenanceTick => session

def sessionOf (peerId : String) (events : List Event) : Session := events.foldl (extend peerId) []

/-- The tip that was told last, and when. -/
def lastTip (session : Session) : Option (ℕ × Tip) :=
  session.reverse.findSome? fun
    | (now, .told tip) => some (now, tip)
    | _ => none

/-- The reports since the penalty was last cleared. -/
def reports (session : Session) : ℕ :=
  (session.reverse.takeWhile fun p => p.2 ≠ .cleared).countP fun p => p.2 = .reported

/-- There was a third report at this time, or a sixth, and so on. -/
def Convicted (session : Session) (now : ℕ) : Prop :=
  ∃ before after, session = before ++ (now, .reported) :: after ∧ 3 ∣ reports (before ++ [(now, .reported)])

/-! ### One more mark -/

variable {session : Session} {now : ℕ} {mark : Mark}

theorem lastTip_told (session : Session) (now : ℕ) (tip : Tip) :
    lastTip (session ++ [(now, .told tip)]) = some (now, tip) := by
  unfold lastTip
  rw [List.reverse_append, List.reverse_singleton, List.singleton_append, List.findSome?_cons]

theorem lastTip_append (hmark : ∀ tip, mark ≠ .told tip) :
    lastTip (session ++ [(now, mark)]) = lastTip session := by
  unfold lastTip
  rw [List.reverse_append, List.reverse_singleton, List.singleton_append, List.findSome?_cons]
  cases mark with
  | told tip => exact absurd rfl (hmark tip)
  | reported => rfl
  | cleared => rfl

theorem reports_told (session : Session) (now : ℕ) (tip : Tip) :
    reports (session ++ [(now, .told tip)]) = reports session := by
  unfold reports
  simp

theorem reports_reported (session : Session) (now : ℕ) :
    reports (session ++ [(now, .reported)]) = reports session + 1 := by
  unfold reports
  simp

theorem reports_cleared (session : Session) (now : ℕ) : reports (session ++ [(now, .cleared)]) = 0 := by
  unfold reports
  simp

theorem convicted_append {t : ℕ} : Convicted (session ++ [(now, mark)]) t ↔
    Convicted session t ∨ (mark = .reported ∧ t = now ∧ 3 ∣ reports session + 1) := by
  constructor
  · rintro ⟨before, after, hsplit, hthird⟩
    rcases List.eq_nil_or_concat after with rfl | ⟨after, last, rfl⟩
    · obtain ⟨rfl, hlast⟩ := List.append_inj' hsplit rfl
      obtain ⟨rfl, rfl⟩ := Prod.mk.inj (List.singleton_inj.mp hlast)
      rw [reports_reported] at hthird
      exact .inr ⟨rfl, rfl, hthird⟩
    · rw [List.concat_eq_append, ← List.cons_append, ← List.append_assoc] at hsplit
      obtain ⟨rfl, -⟩ := List.append_inj' hsplit rfl
      exact .inl ⟨before, after, rfl, hthird⟩
  · rintro (⟨before, after, rfl, hthird⟩ | ⟨rfl, rfl, hthird⟩)
    · exact ⟨before, after ++ [(now, mark)], by rw [List.append_assoc, List.cons_append], hthird⟩
    · exact ⟨session, [], rfl, by rw [reports_reported]; exact hthird⟩

/-! ### What the table says of one peer -/

def retoldTip (now : ℕ) (tip : Tip) : PeerState → PeerState :=
  retold now tip.height tip.hash tip.cumulativeWork

/-- An entry that goes by this session, at this time. -/
structure Describes (session : Session) (clock : ℕ) (s : PeerState) : Prop where
  tip : lastTip session = some (s.lastSeen, ⟨s.bestHeight, s.bestHash, s.cumulativeWork⟩)
  reports : s.incompatibleTipReports.toNat = reports session % 3
  quarantine : ∀ now, s.isQuarantined now = true ↔ ∃ t, Convicted session t ∧ now < quarantineEnd t
  filtered : s.isFiltered = true → CONSENSUS_STALE_THRESHOLD < clock - s.lastSeen
  past : ∀ t, Convicted session t → t ≤ clock

theorem not_convicted_nil {t : ℕ} : ¬ Convicted [] t := by
  rintro ⟨before, after, hsplit, -⟩
  exact absurd hsplit (by simp)

/-- A peer that is added is in no quarantine. -/
theorem describes_new (now : ℕ) (tip : Tip) : Describes ([] ++ [(now, .told tip)]) now
    { PeerState.new now tip.height tip.hash with cumulativeWork := tip.cumulativeWork } where
  tip := lastTip_told [] now tip
  reports := by
    rw [reports_told]
    rfl
  quarantine t := by
    simp only [convicted_append, not_convicted_nil, false_or, reduceCtorEq, false_and, exists_false, iff_false]
    exact Bool.false_ne_true
  filtered h := absurd h Bool.false_ne_true
  past t h := by
    simp only [convicted_append, not_convicted_nil, false_or, reduceCtorEq, false_and] at h

namespace Describes

variable {s : PeerState} {clock : ℕ} (h : Describes session clock s) (hclock : clock ≤ now)

include h hclock

theorem mono : Describes session now s where
  tip := h.tip
  reports := h.reports
  quarantine := h.quarantine
  filtered hfiltered := by
    have hstale := h.filtered hfiltered
    omega
  past t ht := (h.past t ht).trans hclock

theorem told (tip : Tip) : Describes (session ++ [(now, .told tip)]) now (retoldTip now tip s) where
  tip := lastTip_told session now tip
  reports := by
    rw [reports_told]
    exact h.reports
  quarantine t := by
    simp only [convicted_append, reduceCtorEq, false_and, or_false]
    exact h.quarantine t
  filtered hfiltered := absurd hfiltered Bool.false_ne_true
  past t ht := by
    simp only [convicted_append, reduceCtorEq, false_and, or_false] at ht
    exact (h.past t ht).trans hclock

theorem cleared : Describes (session ++ [(now, .cleared)]) now { s with incompatibleTipReports := 0 } where
  tip := (lastTip_append fun _ hmark => by cases hmark).trans h.tip
  reports := by
    rw [reports_cleared]
    rfl
  quarantine t := by
    simp only [convicted_append, reduceCtorEq, false_and, or_false]
    exact h.quarantine t
  filtered hfiltered := (h.mono hclock).filtered hfiltered
  past t ht := by
    simp only [convicted_append, reduceCtorEq, false_and, or_false] at ht
    exact (h.past t ht).trans hclock

/-- The third report convicts, and the count begins again. -/
theorem reported : Describes (session ++ [(now, .reported)]) now (countReport now s) := by
  have hreports := h.reports
  have hcount : (UInt32.ofNat (min (s.incompatibleTipReports.toNat + 1) (2 ^ 32 - 1))).toNat =
      PeerTracking.reports session % 3 + 1 := by
    rw [UInt32.toNat_ofNat', hreports]
    omega
  have hpast : ∀ t, Convicted (session ++ [(now, .reported)]) t → t ≤ now := by
    intro t ht
    rcases convicted_append.mp ht with ht | ⟨-, rfl, -⟩
    · exact (h.past t ht).trans hclock
    · exact le_rfl
  have htip : lastTip (session ++ [(now, .reported)]) =
      some (s.lastSeen, ⟨s.bestHeight, s.bestHash, s.cumulativeWork⟩) :=
    (lastTip_append fun _ hmark => by cases hmark).trans h.tip
  have hlimit : INCOMPATIBLE_TIP_QUARANTINE_AFTER.toNat = 3 := rfl
  unfold countReport
  simp only [UInt32.le_iff_toNat_le, hcount, hlimit]
  split_ifs with hthird
  · refine ⟨htip, ?_, fun t => ?_, (h.mono hclock).filtered, hpast⟩
    · rw [reports_reported]
      change 0 = _
      omega
    · have hconvicted : Convicted (session ++ [(now, .reported)]) now :=
        convicted_append.mpr (.inr ⟨rfl, rfl, by omega⟩)
      have hlast : ∀ t', Convicted (session ++ [(now, .reported)]) t' →
          quarantineEnd t' ≤ quarantineEnd now := by
        intro t' ht'
        unfold quarantineEnd
        exact Nat.add_le_add_right (hpast t' ht') _
      have hquarantined : PeerState.isQuarantined t { s with
          quarantineUntil := some (quarantineEnd now), incompatibleTipReports := 0 } = true ↔
            t < quarantineEnd now := decide_eq_true_iff
      rw [hquarantined]
      exact ⟨fun hin => ⟨now, hconvicted, hin⟩, fun ⟨t', ht', hin⟩ => hin.trans_le (hlast t' ht')⟩
  · refine ⟨htip, ?_, fun t => ?_, (h.mono hclock).filtered, hpast⟩
    · rw [reports_reported, hcount]
      omega
    · have hsame : ∀ t', Convicted (session ++ [(now, .reported)]) t' ↔ Convicted session t' := by
        intro t'
        rw [convicted_append]
        constructor
        · rintro (ht' | ⟨-, -, hdvd⟩)
          · exact ht'
          · omega
        · exact .inl
      simp only [hsame]
      exact h.quarantine t

/-- Only a peer that is stale is filtered. -/
theorem missRound (maxMissedRounds : UInt32) : Describes session now (missRound now maxMissedRounds s) := by
  have hmono := h.mono hclock
  unfold PeerTracking.missRound
  split_ifs with hstale
  · rw [Bool.and_eq_true] at hstale
    exact ⟨hmono.tip, hmono.reports, hmono.quarantine, fun _ => of_decide_eq_true hstale.1, hmono.past⟩
  · exact hmono

/-- The filter does not matter: whom it excludes is stale for good. -/
theorem active_iff : (!s.isFiltered && !s.isStale now && !s.isQuarantined now) = true ↔
    now ≤ s.lastSeen + CONSENSUS_STALE_THRESHOLD ∧ ∀ t, Convicted session t → quarantineEnd t ≤ now := by
  have hfiltered := (h.mono hclock).filtered
  have hquarantine : s.isQuarantined now = false ↔ ∀ t, Convicted session t → quarantineEnd t ≤ now := by
    rw [← Bool.not_eq_true, h.quarantine]
    constructor
    · intro hnone t ht
      by_contra hin
      exact hnone ⟨t, ht, by omega⟩
    · rintro hpast ⟨t, ht, hin⟩
      have hle := hpast t ht
      omega
  rw [Bool.and_eq_true, Bool.and_eq_true, Bool.not_eq_true', Bool.not_eq_true', Bool.not_eq_true', hquarantine,
    PeerState.isStale, decide_eq_false_iff_not]
  constructor
  · rintro ⟨⟨-, hfresh⟩, hpast⟩
    exact ⟨by omega, hpast⟩
  · rintro ⟨hfresh, hpast⟩
    refine ⟨⟨?_, by omega⟩, hpast⟩
    by_contra hfilter
    have hstale := hfiltered (Bool.not_eq_false _ ▸ hfilter)
    omega

end Describes

/-! ### The table -/

section Table

variable {peers : Peers} {peerId id : String}

theorem map_fst_alter (f : PeerState → PeerState) : (alter id f peers).map Prod.fst = peers.map Prod.fst := by
  rw [alter, List.map_map]
  refine List.map_congr_left fun p hp => ?_
  rw [Function.comp_apply]
  split_ifs
  · rfl
  · rfl

theorem lookup_alter (f : PeerState → PeerState) :
    (alter id f peers).lookup peerId = if id = peerId then (peers.lookup peerId).map f else peers.lookup peerId := by
  induction peers with
  | nil => simp [alter]
  | cons p peers ih =>
    obtain ⟨a, s⟩ := p
    have hcons : alter id f ((a, s) :: peers) = (if a = id then (a, f s) else (a, s)) :: alter id f peers := rfl
    rw [hcons]
    by_cases ha : peerId = a
    · subst ha
      by_cases hid : peerId = id
      · subst hid
        simp
      · rw [if_neg hid, if_neg (Ne.symm hid)]
        simp
    · have hskip : ∀ t : PeerState, ((a, t) :: peers).lookup peerId = peers.lookup peerId := by
        intro t
        rw [List.lookup_cons, beq_eq_false_iff_ne.mpr ha]
      have hskip' : ∀ t : PeerState,
          ((a, t) :: alter id f peers).lookup peerId = (alter id f peers).lookup peerId := by
        intro t
        rw [List.lookup_cons, beq_eq_false_iff_ne.mpr ha]
      rw [hskip]
      split_ifs at ih ⊢ with hid haid
      · rw [hskip', ih]
      · rw [hskip', ih]
      · rw [hskip', ih]
      · rw [hskip', ih]

theorem lookup_map (f : PeerState → PeerState) :
    (peers.map fun p => (p.1, f p.2)).lookup peerId = (peers.lookup peerId).map f := by
  induction peers with
  | nil => rfl
  | cons p peers ih =>
    obtain ⟨a, s⟩ := p
    rw [List.map_cons, List.lookup_cons, List.lookup_cons]
    cases peerId == a with
    | true => rfl
    | false => exact ih

theorem lookup_filter_self : (peers.filter fun p => p.1 ≠ peerId).lookup peerId = none := by
  rw [List.lookup_eq_none_iff]
  intro p hp
  have hne := (List.mem_filter.mp hp).2
  simpa using Ne.symm (of_decide_eq_true hne)

theorem lookup_updatePeer (now : ℕ) (tip : Tip) :
    (updatePeer now id tip.height tip.hash tip.cumulativeWork peers).lookup peerId =
      if id = peerId then some (retoldTip now tip ((peers.lookup peerId).getD (.new now tip.height tip.hash)))
      else peers.lookup peerId := by
  unfold updatePeer
  by_cases hid : id = peerId
  · subst hid
    rw [if_pos rfl]
    cases hfound : peers.lookup id with
    | none =>
      rw [if_neg (by simp), List.lookup_append, hfound, Option.none_or, List.lookup_cons, beq_self_eq_true]
      rfl
    | some s =>
      rw [Option.isSome_some, if_pos rfl, lookup_alter, if_pos rfl, hfound]
      rfl
  · rw [if_neg hid]
    split_ifs
    · rw [lookup_alter, if_neg hid]
    · rw [List.lookup_append, List.lookup_cons, beq_eq_false_iff_ne.mpr (Ne.symm hid), List.lookup_nil,
        Option.or_none]

theorem nodup_updatePeer (h : (peers.map Prod.fst).Nodup) (now : ℕ) (height : UInt64) (hash : Bytes32)
    (cumulativeWork : BitVec 128) :
    ((updatePeer now id height hash cumulativeWork peers).map Prod.fst).Nodup := by
  unfold updatePeer
  split_ifs with hfound
  · rw [map_fst_alter]
    exact h
  · rw [Bool.not_eq_true, Option.isSome_eq_false_iff, Option.isNone_iff_eq_none, List.lookup_eq_none_iff] at hfound
    rw [List.map_append, List.map_singleton, List.nodup_append]
    refine ⟨h, List.nodup_singleton _, fun a ha b hb => ?_⟩
    obtain ⟨p, hp, rfl⟩ := List.mem_map.mp ha
    rw [List.mem_singleton.mp hb]
    simpa using Ne.symm (bne_iff_ne.mp (hfound p hp))

end Table

/-- What the table has for a peer, if anything, goes by its session. -/
def Goes (session : Session) (clock : ℕ) : Option PeerState → Prop
  | none => session = []
  | some s => Describes session clock s

structure Inv (events : List Event) (clock : ℕ) (peers : Peers) : Prop where
  nodup : (peers.map Prod.fst).Nodup
  entry : ∀ peerId, Goes (sessionOf peerId events) clock (peers.lookup peerId)

theorem Describes.ne_nil {s : PeerState} {clock : ℕ} (h : Describes session clock s) : session ≠ [] := by
  rintro rfl
  exact absurd h.tip (by simp [lastTip])

section Step

variable {clock : ℕ} {o : Option PeerState} (h : Goes session clock o) (hclock : clock ≤ now)

include h hclock

theorem Goes.mono : Goes session now o := by
  cases o with
  | none => exact h
  | some s => exact Describes.mono h hclock

theorem Goes.told (tip : Tip) : Goes (session ++ [(now, .told tip)]) now
    (some (retoldTip now tip (o.getD (.new now tip.height tip.hash)))) := by
  cases o with
  | none =>
    obtain rfl : session = [] := h
    exact describes_new now tip
  | some s => exact Describes.told h hclock tip

omit hclock in
theorem Goes.marked {f : PeerState → PeerState}
    (hf : ∀ s, Describes session clock s → Describes (session ++ [(now, mark)]) now (f s)) :
    Goes (if session ≠ [] then session ++ [(now, mark)] else session) now (o.map f) := by
  cases o with
  | none =>
    obtain rfl : session = [] := h
    exact rfl
  | some s =>
    rw [if_pos (Describes.ne_nil h)]
    exact hf s h

end Step

theorem Inv.step {events : List Event} {clock : ℕ} {peers : Peers} (h : Inv events clock peers) {e : Event}
    (hclock : clock ≤ e.now) (maxMissedRounds : UInt32) :
    Inv (events ++ [e]) e.now (step maxMissedRounds peers e) := by
  have hsession : ∀ peerId, sessionOf peerId (events ++ [e]) =
      extend peerId (sessionOf peerId events) e := by
    intro peerId
    unfold sessionOf
    rw [List.foldl_append, List.foldl_cons, List.foldl_nil]
  obtain ⟨now, act⟩ := e
  constructor
  · cases act with
    | updatePeer => exact nodup_updatePeer h.nodup ..
    | markPeerDisconnected => exact (List.filter_sublist.map _).nodup h.nodup
    | removePeer => exact (List.filter_sublist.map _).nodup h.nodup
    | noteIncompatibleTip id =>
      change ((noteIncompatibleTip now id peers).map Prod.fst).Nodup
      unfold noteIncompatibleTip
      rw [map_fst_alter]
      exact h.nodup
    | clearIncompatibleTipPenalty id =>
      change ((clearIncompatibleTipPenalty id peers).map Prod.fst).Nodup
      unfold clearIncompatibleTipPenalty
      rw [map_fst_alter]
      exact h.nodup
    | maintenanceTick =>
      change ((peers.map fun p => (p.1, missRound now maxMissedRounds p.2)).map Prod.fst).Nodup
      rw [List.map_map]
      exact h.nodup
  · intro peerId
    have hentry := h.entry peerId
    rw [hsession]
    cases act with
    | updatePeer id height hash cumulativeWork =>
      have hlookup := @lookup_updatePeer peers peerId id now ⟨height, hash, cumulativeWork⟩
      change Goes _ now ((updatePeer now id height hash cumulativeWork peers).lookup peerId)
      rw [hlookup]
      unfold extend
      simp only
      split_ifs
      · exact hentry.told hclock _
      · exact hentry.mono hclock
    | markPeerDisconnected id =>
      change Goes _ now ((peers.filter fun p => p.1 ≠ id).lookup peerId)
      unfold extend
      simp only
      split_ifs with hid
      · subst hid
        rw [lookup_filter_self]
        exact rfl
      · rw [lookup_filter_ne (Ne.symm hid)]
        exact hentry.mono hclock
    | removePeer id =>
      change Goes _ now ((peers.filter fun p => p.1 ≠ id).lookup peerId)
      unfold extend
      simp only
      split_ifs with hid
      · subst hid
        rw [lookup_filter_self]
        exact rfl
      · rw [lookup_filter_ne (Ne.symm hid)]
        exact hentry.mono hclock
    | noteIncompatibleTip id =>
      change Goes _ now ((noteIncompatibleTip now id peers).lookup peerId)
      unfold noteIncompatibleTip extend
      rw [lookup_alter]
      simp only
      by_cases hid : id = peerId
      · simp only [hid, true_and, if_true]
        exact hentry.marked fun s hs => hs.reported hclock
      · simp only [hid, false_and, if_false]
        exact hentry.mono hclock
    | clearIncompatibleTipPenalty id =>
      change Goes _ now ((clearIncompatibleTipPenalty id peers).lookup peerId)
      unfold clearIncompatibleTipPenalty extend
      rw [lookup_alter]
      simp only
      by_cases hid : id = peerId
      · simp only [hid, true_and, if_true]
        exact hentry.marked fun s hs => hs.cleared hclock
      · simp only [hid, false_and, if_false]
        exact hentry.mono hclock
    | maintenanceTick =>
      change Goes _ now ((peers.map fun p => (p.1, missRound now maxMissedRounds p.2)).lookup peerId)
      rw [lookup_map]
      cases hfound : peers.lookup peerId with
      | none =>
        rw [hfound] at hentry
        exact hentry
      | some s =>
        rw [hfound] at hentry
        exact Describes.missRound hentry hclock maxMissedRounds

theorem inv_table (maxMissedRounds : UInt32) {events : List Event}
    (hordered : events.Pairwise fun e e' => e.now ≤ e'.now) {clock : ℕ}
    (hclock : ∀ e ∈ events, e.now ≤ clock) : Inv events clock (table maxMissedRounds events) := by
  induction events using List.reverseRecOn generalizing clock with
  | nil => exact ⟨List.nodup_nil, fun _ => rfl⟩
  | append_singleton events e ih =>
    obtain ⟨hbefore, -, hlast⟩ := List.pairwise_append.mp hordered
    have hinv := ih hbefore fun e' he' => hlast e' he' e (List.mem_singleton_self e)
    have hstep := hinv.step le_rfl maxMissedRounds
    have htable : table maxMissedRounds (events ++ [e]) =
        PeerTracking.step maxMissedRounds (table maxMissedRounds events) e := by
      unfold table
      rw [List.foldl_append, List.foldl_cons, List.foldl_nil]
    rw [htable]
    have hle := hclock e (List.mem_append_right _ (List.mem_singleton_self e))
    exact ⟨hstep.nodup, fun peerId => (hstep.entry peerId).mono hle⟩

/-- At any time after these events, the active peers are those that told their tip less than the stale
threshold ago, in a session without a conviction in the last two minutes; each is there once, with the tip that
it told last. -/
theorem active_peers_of_history (maxMissedRounds : UInt32) {events : List Event}
    (hordered : events.Pairwise fun e e' => e.now ≤ e'.now) {now : ℕ} (hnow : ∀ e ∈ events, e.now ≤ now) :
    ((activePeers now (table maxMissedRounds events)).map Prod.fst).Nodup ∧ ∀ peerId tip,
      (∃ s, (peerId, s) ∈ activePeers now (table maxMissedRounds events) ∧
        tip = ⟨s.bestHeight, s.bestHash, s.cumulativeWork⟩) ↔
      ∃ t, lastTip (sessionOf peerId events) = some (t, tip) ∧ now ≤ t + CONSENSUS_STALE_THRESHOLD ∧
        ∀ t', Convicted (sessionOf peerId events) t' → quarantineEnd t' ≤ now := by
  have hinv := inv_table maxMissedRounds hordered hnow
  refine ⟨(List.filter_sublist.map _).nodup hinv.nodup, fun peerId tip => ?_⟩
  have hentry := hinv.entry peerId
  constructor
  · rintro ⟨s, hmem, rfl⟩
    obtain ⟨hin, hactive⟩ := List.mem_filter.mp hmem
    rw [(lookup_eq_some_iff_mem hinv.nodup).mpr hin] at hentry
    have hdescribes : Describes (sessionOf peerId events) now s := hentry
    exact ⟨s.lastSeen, hdescribes.tip, (hdescribes.active_iff le_rfl).mp hactive⟩
  · rintro ⟨t, htip, hactive⟩
    cases hfound : (table maxMissedRounds events).lookup peerId with
    | none =>
      rw [hfound] at hentry
      have hnil : sessionOf peerId events = [] := hentry
      rw [hnil] at htip
      cases htip
    | some s =>
      rw [hfound] at hentry
      have hdescribes : Describes (sessionOf peerId events) now s := hentry
      obtain ⟨rfl, rfl⟩ := Prod.mk.inj (Option.some.inj (hdescribes.tip.symm.trans htip))
      refine ⟨s, List.mem_filter.mpr ⟨mem_of_lookup hfound, ?_⟩, rfl⟩
      exact (hdescribes.active_iff le_rfl).mpr hactive

/-! ### A quarantine, and a way out of it -/

namespace Sample

def tip : Tip := ⟨100, 7, 5000⟩

/-- Three reports within three seconds. -/
def threeReports : List Event :=
  [⟨0, .updatePeer "a" 100 7 5000⟩, ⟨1000000000, .noteIncompatibleTip "a"⟩,
    ⟨2000000000, .noteIncompatibleTip "a"⟩, ⟨3000000000, .noteIncompatibleTip "a"⟩]

def reconnected : List Event :=
  threeReports ++ [⟨50000000000, .markPeerDisconnected "a"⟩, ⟨51000000000, .updatePeer "a" 100 7 5000⟩]

end Sample

open Sample in
theorem active_peers_of_history_reconnected :
    (¬ ∃ s, ("a", s) ∈ activePeers 100000000000 (table 4 threeReports) ∧
      tip = ⟨s.bestHeight, s.bestHash, s.cumulativeWork⟩) ∧
    ∃ s, ("a", s) ∈ activePeers 100000000000 (table 4 reconnected) ∧
      tip = ⟨s.bestHeight, s.bestHash, s.cumulativeWork⟩ := by
  have hconvicted := (@active_peers_of_history 4 threeReports (by decide) 100000000000 (by decide)).2 "a" tip
  have hagain := (@active_peers_of_history 4 reconnected (by decide) 100000000000 (by decide)).2 "a" tip
  constructor
  · rw [hconvicted]
    rintro ⟨-, -, -, hpast⟩
    have hthird : Convicted (sessionOf "a" threeReports) 3000000000 :=
      ⟨[(0, .told tip), (1000000000, .reported), (2000000000, .reported)], [], by decide, by decide⟩
    exact absurd (hpast _ hthird) (by decide)
  · rw [hagain]
    have hsession : sessionOf "a" reconnected = [] ++ [(51000000000, .told tip)] := by decide
    refine ⟨51000000000, by rw [hsession]; exact lastTip_told _ _ _, by decide, fun t ht => ?_⟩
    rw [hsession] at ht
    simp only [convicted_append, not_convicted_nil, false_or, reduceCtorEq, false_and] at ht

end Coinjecture.Node.PeerTracking
