import Coinjecture.Network.Cpp.Peers

/-! # The peer table

An inbound connection looks for its peer on the list before it puts it there, an outbound one while it does.
An entry can be replaced by that of another connection, and the end of a message loop takes off whatever
entry its peer id has.

* `router_eq_peers` : whatever happens, the router has the peers of the list whenever no connection is on its
  way from the one to the other.
* `peer_table_consistent` : if no id is put on the list before the connection that put it there has ended its
  loop, a peer has one message loop at most, and a loop that ends takes off its own entry. -/

namespace Coinjecture.Network.Cpp.PeerTable

open Lib.Trace
open Core.Types
open Network.Security
open Network.Cpp.Peers

namespace CppNetwork

/-- The connection has put this peer on the list, and its loop has not ended. -/
def HasRegistered (n : CppNetwork) (id : ℕ) (peerId : PeerId) : Prop :=
  ∃ progress, n.stage id = some (.registered peerId progress)

/-- The connection is about to add this peer to the router. -/
def IsInserting (n : CppNetwork) (id : ℕ) (peerId : PeerId) : Prop :=
  n.stage id = some (.registered peerId .inserted)

/-- The message loop of the connection has been spawned and has not ended. -/
def IsLooping (n : CppNetwork) (id : ℕ) (peerId : PeerId) : Prop :=
  ∃ progress, n.stage id = some (.registered peerId progress) ∧ progress ≠ .inserted ∧ progress ≠ .routed

/-- No connection has registered this peer. -/
def isFree (peerId : PeerId) (n : CppNetwork) : Bool :=
  (List.range n.opened).all fun i => match n.live i with
    | some ⟨_, _, .registered q _⟩ => q ≠ peerId
    | _ => true

end CppNetwork

/-- A peer has one message loop at most, and the router has the peers of the list but for those on their way
to it. -/
structure Consistent (n : CppNetwork) : Prop where
  loops : ∀ peerId i j, CppNetwork.IsLooping n i peerId → CppNetwork.IsLooping n j peerId → i = j
  router : ∀ peerId, peerId ∈ n.router ↔
    n.hasPeer peerId = true ∧ ∀ i, ¬ CppNetwork.IsInserting n i peerId

/-- A loop that ends takes off the list what it put there. -/
def TakesOwn : Event × CppNetwork → Prop
  | (.loopEnded id, n) => ∀ q ∈ n.peers, q ∉ (n.loopEnded id).peers → q.connection = id
  | _ => True

/-- A peer that is put on the list is that of no other connection whose loop has not ended. -/
def notReplaced : Event × CppNetwork → Bool
  | (.register id, n) => match n.live id with
    | some ⟨_, isOutbound, .admitted peerId⟩ =>
      isOutbound && n.hasPeer peerId || CppNetwork.isFree peerId n
    | _ => true
  | _ => true

/-! ### What every step keeps -/

/-- What a run keeps in any case. -/
structure Inv (n : CppNetwork) : Prop where
  fresh : ∀ i, n.opened ≤ i → n.stage i = none
  entry : ∀ q ∈ n.peers, CppNetwork.HasRegistered n q.connection q.id
  known : ∀ peerId ∈ n.router, n.hasPeer peerId = true
  pending : ∀ q ∈ n.peers, q.id ∉ n.router → ∃ i, CppNetwork.IsInserting n i q.id

/-- What a run keeps under the condition. -/
structure Tidy (n : CppNetwork) : Prop where
  unique : ∀ peerId i j, CppNetwork.HasRegistered n i peerId → CppNetwork.HasRegistered n j peerId → i = j
  unrouted : ∀ peerId i, CppNetwork.IsInserting n i peerId → peerId ∉ n.router

/-- A step that puts no peer on the list or the router and takes none off. -/
structure Quiet (n n' : CppNetwork) : Prop where
  fresh : (∀ i, n.opened ≤ i → n.stage i = none) → ∀ i, n'.opened ≤ i → n'.stage i = none
  peers : ∀ q' ∈ n'.peers, ∃ q ∈ n.peers, q.id = q'.id ∧ q.connection = q'.connection
  listed : ∀ q ∈ n.peers, ∃ q' ∈ n'.peers, q'.id = q.id
  router : n'.router = n.router
  registered : ∀ i peerId, CppNetwork.HasRegistered n' i peerId ↔ CppNetwork.HasRegistered n i peerId
  inserting : ∀ i peerId, CppNetwork.IsInserting n' i peerId ↔ CppNetwork.IsInserting n i peerId

namespace Inv

variable {n n' : CppNetwork} (h : Inv n)

include h

theorem quiet (hquiet : Quiet n n') : Inv n' where
  fresh := hquiet.fresh h.fresh
  entry q' hq' := by
    obtain ⟨q, hq, hid, hconnection⟩ := hquiet.peers q' hq'
    rw [← hid, ← hconnection, hquiet.registered]
    exact h.entry q hq
  known peerId hpeerId := by
    rw [hquiet.router] at hpeerId
    obtain ⟨q, hq, rfl⟩ := CppNetwork.hasPeer_iff.mp (h.known peerId hpeerId)
    exact CppNetwork.hasPeer_iff.mpr (hquiet.listed q hq)
  pending q' hq' hrouter := by
    obtain ⟨q, hq, hid, -⟩ := hquiet.peers q' hq'
    rw [hquiet.router, ← hid] at hrouter
    obtain ⟨i, hi⟩ := h.pending q hq hrouter
    exact ⟨i, hid ▸ (hquiet.inserting i q.id).mpr hi⟩

theorem dropPeers (gone : PeerId → Bool) : Inv (n.dropPeers gone) where
  fresh := h.fresh
  entry q hq := h.entry q (List.mem_of_mem_filter hq)
  known peerId hpeerId := by
    obtain ⟨hpeerId, hstays⟩ := Finset.mem_filter.mp hpeerId
    obtain ⟨q, hq, rfl⟩ := CppNetwork.hasPeer_iff.mp (h.known peerId hpeerId)
    refine CppNetwork.hasPeer_iff.mpr ⟨q, List.mem_filter.mpr ⟨hq, ?_⟩, rfl⟩
    rw [Bool.not_eq_true']
    exact Bool.eq_false_iff.mpr hstays
  pending q hq hrouter := by
    obtain ⟨hq, hstays⟩ := List.mem_filter.mp hq
    rw [Bool.not_eq_true'] at hstays
    refine h.pending q hq fun hmem => hrouter (Finset.mem_filter.mpr ⟨hmem, ?_⟩)
    rw [hstays]
    exact Bool.false_ne_true

end Inv

namespace Tidy

variable {n n' : CppNetwork} (h : Tidy n)

include h

/-- A step that lists nothing. -/
theorem mono (hregistered : ∀ i peerId, CppNetwork.HasRegistered n' i peerId → CppNetwork.HasRegistered n i peerId)
    (hinserting : ∀ i peerId, CppNetwork.IsInserting n' i peerId → CppNetwork.IsInserting n i peerId)
    (hrouter : n'.router ⊆ n.router) : Tidy n' where
  unique peerId i j hi hj := h.unique peerId i j (hregistered i peerId hi) (hregistered j peerId hj)
  unrouted peerId i hi hmem := h.unrouted peerId i (hinserting i peerId hi) (hrouter hmem)

theorem quiet (hquiet : Quiet n n') : Tidy n' :=
  h.mono (fun i peerId => (hquiet.registered i peerId).mp) (fun i peerId => (hquiet.inserting i peerId).mp)
    hquiet.router.subset

end Tidy

/-! ### Quiet steps -/

namespace Quiet

variable {n : CppNetwork}

theorem refl (n : CppNetwork) : Quiet n n :=
  ⟨id, fun q hq => ⟨q, hq, rfl, rfl⟩, fun q hq => ⟨q, hq, rfl⟩, rfl, fun _ _ => Iff.rfl, fun _ _ => Iff.rfl⟩

theorem trans {n₁ n₂ n₃ : CppNetwork} (h : Quiet n₁ n₂) (h' : Quiet n₂ n₃) : Quiet n₁ n₃ where
  fresh hfresh := h'.fresh (h.fresh hfresh)
  peers q₃ hq₃ := by
    obtain ⟨q₂, hq₂, hid₂, hconnection₂⟩ := h'.peers q₃ hq₃
    obtain ⟨q₁, hq₁, hid₁, hconnection₁⟩ := h.peers q₂ hq₂
    exact ⟨q₁, hq₁, hid₁.trans hid₂, hconnection₁.trans hconnection₂⟩
  listed q₁ hq₁ := by
    obtain ⟨q₂, hq₂, hid₂⟩ := h.listed q₁ hq₁
    obtain ⟨q₃, hq₃, hid₃⟩ := h'.listed q₂ hq₂
    exact ⟨q₃, hq₃, hid₃.trans hid₂⟩
  router := h'.router.trans h.router
  registered i peerId := (h'.registered i peerId).trans (h.registered i peerId)
  inserting i peerId := (h'.inserting i peerId).trans (h.inserting i peerId)

/-- The same peers, router and tasks. -/
theorem of_eq {n' : CppNetwork} (hpeers : n'.peers = n.peers) (hrouter : n'.router = n.router)
    (hlive : n'.live = n.live) (hopened : n'.opened = n.opened) : Quiet n n' := by
  have hstage : n'.stage = n.stage := by
    funext i
    rw [CppNetwork.stage, CppNetwork.stage, hlive]
  refine ⟨fun hfresh => ?_, fun q hq => ⟨q, hpeers ▸ hq, rfl, rfl⟩, fun q hq => ⟨q, hpeers ▸ hq, rfl⟩, hrouter,
    fun i peerId => ?_, fun i peerId => ?_⟩
  · rw [hopened, hstage]
    exact hfresh
  · rw [CppNetwork.HasRegistered, CppNetwork.HasRegistered, hstage]
  · rw [CppNetwork.IsInserting, CppNetwork.IsInserting, hstage]

theorem touch (peerId : PeerId) : Quiet n (n.touch peerId) where
  fresh := id
  peers q' hq' := by
    obtain ⟨q, hq, rfl⟩ := List.mem_map.mp hq'
    refine ⟨q, hq, ?_⟩
    split_ifs
    · exact ⟨rfl, rfl⟩
    · exact ⟨rfl, rfl⟩
  listed q hq := by
    refine ⟨_, List.mem_map_of_mem hq, ?_⟩
    split_ifs
    · rfl
    · rfl
  router := rfl
  registered _ _ := Iff.rfl
  inserting _ _ := Iff.rfl

/-- One connection gets from a stage to another, or is opened or closed. -/
theorem of_stage {n' : CppNetwork} {id : ℕ} {before after : Option Stage} (hbefore : n.stage id = before)
    (hstage : ∀ i, n'.stage i = if i = id then after else n.stage i) (hpeers : n'.peers = n.peers)
    (hrouter : n'.router = n.router)
    (hfresh : (∀ i, n.opened ≤ i → n.stage i = none) → ∀ i, n'.opened ≤ i → n'.stage i = none)
    (hregistered : ∀ peerId, (∃ progress, after = some (.registered peerId progress)) ↔
      ∃ progress, before = some (.registered peerId progress))
    (hinserting : ∀ peerId, after = some (.registered peerId .inserted) ↔
      before = some (.registered peerId .inserted)) : Quiet n n' where
  fresh := hfresh
  peers q hq := ⟨q, hpeers ▸ hq, rfl, rfl⟩
  listed q hq := ⟨q, hpeers ▸ hq, rfl⟩
  router := hrouter
  registered i peerId := by
    unfold CppNetwork.HasRegistered
    rw [hstage]
    split_ifs with hi
    · rw [hi, hbefore]
      exact hregistered peerId
    · rfl
  inserting i peerId := by
    unfold CppNetwork.IsInserting
    rw [hstage]
    split_ifs with hi
    · rw [hi, hbefore]
      exact hinserting peerId
    · rfl

/-- A connection that has not registered its peer, or no longer, gets to such a stage. -/
theorem restage {id : ℕ} {c : Connection} (hlive : n.live id = some c) {stage : Stage}
    (hregistered : ∀ peerId, (∃ progress, stage = .registered peerId progress) ↔
      ∃ progress, c.stage = .registered peerId progress)
    (hinserting : ∀ peerId, stage = .registered peerId .inserted ↔ c.stage = .registered peerId .inserted) :
    Quiet n (n.restage id c stage) := by
  have hbefore := CppNetwork.stage_of_live hlive
  refine of_stage hbefore (n.stage_restage id c stage) rfl rfl (fun hfresh i hi => ?_) (fun peerId => ?_)
    fun peerId => ?_
  · rw [CppNetwork.stage_restage, if_neg]
    · exact hfresh i hi
    · rintro rfl
      rw [hfresh i hi] at hbefore
      cases hbefore
  · simpa using hregistered peerId
  · simpa using hinserting peerId

/-- A connection that has not registered its peer, or no longer, ends. -/
theorem close {id : ℕ} {c : Connection} (hlive : n.live id = some c)
    (hregistered : ∀ peerId progress, c.stage ≠ .registered peerId progress) : Quiet n (n.close id) := by
  have hbefore := CppNetwork.stage_of_live hlive
  refine of_stage hbefore (n.stage_close id) rfl rfl (fun hfresh i hi => ?_) (fun peerId => ?_)
    fun peerId => ?_
  · rw [CppNetwork.stage_close]
    split_ifs
    · rfl
    · exact hfresh i hi
  · simpa using fun progress => hregistered peerId progress
  · simpa using hregistered peerId .inserted

theorem opens (hfresh : n.stage n.opened = none) {c : Connection}
    (hregistered : ∀ peerId progress, c.stage ≠ .registered peerId progress) : Quiet n (n.opens c) := by
  refine of_stage hfresh (n.stage_opens c) rfl rfl (fun hfresh i hi => ?_) (fun peerId => ?_)
    fun peerId => ?_
  · have hlt : n.opened < i := hi
    rw [CppNetwork.stage_opens, if_neg (by omega)]
    exact hfresh i (by omega)
  · simpa using fun progress => hregistered peerId progress
  · simpa using hregistered peerId .inserted

theorem handshakeFailed (id : ℕ) (mismatch : Bool) : Quiet n (n.handshakeFailed id mismatch) := by
  simp only [CppNetwork.handshakeFailed]
  split
  · rename_i addr isOutbound hlive
    have hclose : Quiet n (n.close id) := close hlive nofun
    split_ifs
    · exact hclose.trans (of_eq rfl rfl rfl rfl)
    · exact hclose
  · exact refl n

theorem helloPassed (id : ℕ) (peerId : PeerId) : Quiet n (n.helloPassed id peerId) := by
  simp only [CppNetwork.helloPassed]
  split
  · rename_i addr isOutbound hlive
    split_ifs
    · exact close hlive nofun
    · exact restage hlive (by simp) (by simp)
  · exact refl n

theorem spawn (id : ℕ) : Quiet n (n.spawn id) := by
  simp only [CppNetwork.spawn]
  split
  · rename_i addr isOutbound peerId hlive
    exact restage hlive (by simp) (by simp)
  · exact refl n

theorem loopChecked (id : ℕ) : Quiet n (n.loopChecked id) := by
  simp only [CppNetwork.loopChecked]
  split
  · rename_i addr isOutbound peerId hlive
    refine restage hlive (by simp) fun q => ?_
    split_ifs
    · simp
    · simp
  · exact refl n

theorem afterRead (peerId : PeerId) (r : Read) : Quiet n (n.afterRead peerId r).1 := by
  obtain ⟨⟨hpeers, hrouter⟩, hlive, hopened, -⟩ := n.afterRead_view peerId r
  rcases hpeers with hpeers | hpeers
  · exact of_eq hpeers hrouter hlive hopened
  · exact (touch peerId).trans (of_eq hpeers hrouter hlive hopened)

theorem received (id : ℕ) (r : Read) : Quiet n (n.received id r) := by
  simp only [CppNetwork.received]
  split
  · rename_i addr isOutbound peerId hlive
    obtain ⟨-, hsame, -⟩ := n.afterRead_view peerId r
    refine (afterRead peerId r).trans (restage (hsame ▸ hlive) (by simp) fun q => ?_)
    split_ifs
    · simp
    · simp
  · exact refl n

theorem strikesCleared (id : ℕ) : Quiet n (n.strikesCleared id) := by
  simp only [CppNetwork.strikesCleared]
  split
  · rename_i addr isOutbound peerId hlive
    exact (close hlive nofun).trans (of_eq rfl rfl rfl rfl)
  · exact refl n

end Quiet

/-! ### Steps on the list and the router -/

/-- What is on the list after a peer is put there. -/
theorem mem_insertPeer {p q : Peer} {n : CppNetwork} :
    q ∈ (n.insertPeer p).peers ↔ q = p ∨ q ∈ n.peers ∧ q.id ≠ p.id := by
  simp [CppNetwork.insertPeer]

namespace Inv

variable {n : CppNetwork} (h : Inv n)

include h

/-- The connection of a stage has been opened. -/
theorem lt_opened {i : ℕ} {stage : Stage} (hi : n.stage i = some stage) : i < n.opened := by
  by_contra hle
  rw [h.fresh i (not_lt.mp hle)] at hi
  cases hi

theorem insert {id : ℕ} {addr : SocketAddr} {isOutbound : Bool} {peerId : PeerId}
    (hlive : n.live id = some ⟨addr, isOutbound, .admitted peerId⟩) :
    Inv ((n.insertPeer ⟨peerId, id, addr, n.now⟩).restage id ⟨addr, isOutbound, .admitted peerId⟩
      (.registered peerId .inserted)) := by
  have hstage := CppNetwork.stage_of_live hlive
  refine ⟨fun i hi => ?_, fun q hq => ?_, fun p hp => ?_, fun q hq hrouter => ?_⟩
  · have hlt := h.lt_opened hstage
    have hne : i ≠ id := by
      rintro rfl
      exact absurd hlt (not_lt.mpr hi)
    rw [CppNetwork.stage_restage, if_neg hne]
    exact h.fresh i hi
  · unfold CppNetwork.HasRegistered
    rw [CppNetwork.stage_restage]
    rcases mem_insertPeer.mp hq with rfl | ⟨hq, -⟩
    · exact ⟨.inserted, if_pos rfl⟩
    · obtain ⟨progress, hprogress⟩ := h.entry q hq
      have hne : q.connection ≠ id := by
        intro heq
        rw [heq, hstage] at hprogress
        cases hprogress
      exact ⟨progress, (if_neg hne).trans hprogress⟩
  · obtain ⟨q, hq, rfl⟩ := CppNetwork.hasPeer_iff.mp (h.known p hp)
    refine CppNetwork.hasPeer_iff.mpr ?_
    by_cases heq : q.id = peerId
    · exact ⟨_, mem_insertPeer.mpr (.inl rfl), heq.symm⟩
    · exact ⟨q, mem_insertPeer.mpr (.inr ⟨hq, heq⟩), rfl⟩
  · unfold CppNetwork.IsInserting
    simp only [CppNetwork.stage_restage]
    rcases mem_insertPeer.mp hq with rfl | ⟨hq, -⟩
    · exact ⟨id, if_pos rfl⟩
    · obtain ⟨i, hi⟩ := h.pending q hq hrouter
      have hne : i ≠ id := by
        rintro rfl
        rw [CppNetwork.IsInserting, hstage] at hi
        cases hi
      exact ⟨i, (if_neg hne).trans hi⟩

theorem register (id : ℕ) : Inv (n.register id) := by
  simp only [CppNetwork.register]
  split
  · rename_i addr isOutbound peerId hlive
    split_ifs
    · exact h.quiet (.close hlive nofun)
    · exact h.insert hlive
  · exact h

theorem route (id : ℕ) : Inv (n.route id) := by
  simp only [CppNetwork.route]
  split
  · rename_i addr isOutbound peerId hlive
    have hstage := CppNetwork.stage_of_live hlive
    have hrestage := n.stage_restage id ⟨addr, isOutbound, .registered peerId .inserted⟩
      (.registered peerId .routed)
    refine ⟨fun i hi => ?_, fun q hq => ?_, fun p hp => ?_, fun q hq hrouter => ?_⟩
    · have hlt := h.lt_opened hstage
      have hne : i ≠ id := by
        rintro rfl
        exact absurd hlt (not_lt.mpr hi)
      exact (hrestage i).trans ((if_neg hne).trans (h.fresh i hi))
    · obtain ⟨progress, hprogress⟩ := h.entry q hq
      by_cases heq : q.connection = id
      · rw [heq, hstage] at hprogress
        cases hprogress
        exact ⟨.routed, (hrestage _).trans (if_pos heq)⟩
      · exact ⟨progress, (hrestage _).trans ((if_neg heq).trans hprogress)⟩
    · by_cases hpeer : n.hasPeer peerId = true
      · rw [if_pos hpeer] at hp
        rcases Finset.mem_insert.mp hp with rfl | hp
        · exact hpeer
        · exact h.known p hp
      · rw [if_neg hpeer] at hp
        exact h.known p hp
    · have hpeer : n.hasPeer q.id = true := CppNetwork.hasPeer_iff.mpr ⟨q, hq, rfl⟩
      have hne : q.id ≠ peerId := by
        rintro rfl
        rw [if_pos hpeer] at hrouter
        exact hrouter (Finset.mem_insert_self _ _)
      have hout : q.id ∉ n.router := by
        split_ifs at hrouter
        · exact fun hmem => hrouter (Finset.mem_insert_of_mem hmem)
        · exact hrouter
      obtain ⟨i, hi⟩ := h.pending q hq hout
      have hi' : i ≠ id := by
        rintro rfl
        rw [CppNetwork.IsInserting, hstage] at hi
        cases hi
        exact hne rfl
      exact ⟨i, (hrestage i).trans ((if_neg hi').trans hi)⟩
  · exact h

/-- Dropping a peer that is not on the list changes nothing. -/
theorem drop_absent {peerId : PeerId} (hpeer : n.hasPeer peerId = false) :
    n.dropPeers (fun q => q = peerId) = n := by
  have hpeers : n.peers.filter (fun q => !decide (q.id = peerId)) = n.peers := by
    refine List.filter_eq_self.mpr fun q hq => ?_
    simpa using CppNetwork.not_hasPeer_iff.mp hpeer q hq
  have hrouter : n.router.filter (fun q => ¬ decide (q = peerId) = true) = n.router := by
    refine Finset.filter_eq_self.mpr fun q hq => ?_
    rintro heq
    have hlisted := h.known q hq
    rw [of_decide_eq_true heq, hpeer] at hlisted
    cases hlisted
  simp only [CppNetwork.dropPeers, hpeers, hrouter]

/-- The end of a loop drops its peer, on the list or not. -/
theorem loopEnded_eq {id : ℕ} {addr : SocketAddr} {isOutbound : Bool} {peerId : PeerId}
    (hlive : n.live id = some ⟨addr, isOutbound, .registered peerId .leaving⟩) :
    n.loopEnded id = (n.dropPeers fun q => q = peerId).restage id
      ⟨addr, isOutbound, .registered peerId .leaving⟩ (.left peerId) := by
  simp only [CppNetwork.loopEnded, hlive]
  split_ifs with hpeer
  · rfl
  · rw [h.drop_absent (Bool.eq_false_iff.mpr hpeer)]

theorem loopEnded (id : ℕ) : Inv (n.loopEnded id) := by
  by_cases hleaving : ∃ addr isOutbound peerId,
      n.live id = some ⟨addr, isOutbound, .registered peerId .leaving⟩
  · obtain ⟨addr, isOutbound, peerId, hlive⟩ := hleaving
    rw [h.loopEnded_eq hlive]
    have hdropped := h.dropPeers fun q => q = peerId
    have hstage := CppNetwork.stage_of_live hlive
    refine ⟨fun i hi => ?_, fun q hq => ?_, hdropped.known, fun q hq hrouter => ?_⟩
    · have hlt := h.lt_opened hstage
      have hne : i ≠ id := by
        rintro rfl
        exact absurd hlt (not_lt.mpr hi)
      rw [CppNetwork.stage_restage, if_neg hne]
      exact hdropped.fresh i hi
    · obtain ⟨progress, hprogress⟩ := hdropped.entry q hq
      have hne : q.connection ≠ id := by
        intro heq
        have hsame := hprogress
        rw [heq] at hsame
        have hid := Option.some.inj (hsame.symm.trans hstage)
        obtain ⟨-, hother⟩ := List.mem_filter.mp hq
        cases hid
        simp at hother
      refine ⟨progress, ?_⟩
      rw [CppNetwork.stage_restage, if_neg hne]
      exact hprogress
    · obtain ⟨i, hi⟩ := hdropped.pending q hq hrouter
      have hne : i ≠ id := by
        rintro rfl
        have hid := Option.some.inj (Eq.symm hi |>.trans hstage)
        cases hid
      refine ⟨i, ?_⟩
      unfold CppNetwork.IsInserting
      rw [CppNetwork.stage_restage, if_neg hne]
      exact hi
  · have hsame : n.loopEnded id = n := by
      unfold CppNetwork.loopEnded
      split
      · rename_i addr isOutbound peerId hlive
        exact absurd ⟨addr, isOutbound, peerId, hlive⟩ hleaving
      · rfl
    rw [hsame]
    exact h

theorem removePeer (peerId : PeerId) : Inv (n.removePeer peerId) := by
  unfold CppNetwork.removePeer
  split_ifs
  · exact h.dropPeers _
  · exact h

theorem cleanupStalePeers : Inv n.cleanupStalePeers :=
  (h.dropPeers (n.isStale ·)).quiet (.of_eq rfl rfl rfl rfl)

end Inv

/-- Every step keeps the invariant. -/
theorem inv_next (e : Event × CppNetwork) (h : Inv e.2) : Inv (machine.next e.1 e.2) := by
  obtain ⟨e, n⟩ := e
  cases e with
  | tick d => exact h.quiet (.of_eq rfl rfl rfl rfl)
  | accept addr free =>
    change Inv (n.accept addr free)
    unfold CppNetwork.accept
    split_ifs
    · exact h
    · exact h.quiet (.opens (h.fresh _ le_rfl) nofun)
    · exact h
  | dial addr =>
    change Inv (n.dial addr)
    unfold CppNetwork.dial
    split_ifs
    · exact h
    · exact h.quiet (.opens (h.fresh _ le_rfl) nofun)
  | handshakeFailed id mismatch => exact h.quiet (.handshakeFailed id mismatch)
  | helloPassed id peerId => exact h.quiet (.helloPassed id peerId)
  | register id => exact h.register id
  | route id => exact h.route id
  | spawn id => exact h.quiet (.spawn id)
  | loopChecked id => exact h.quiet (.loopChecked id)
  | received id r => exact h.quiet (.received id r)
  | loopEnded id => exact h.loopEnded id
  | strikesCleared id => exact h.quiet (.strikesCleared id)
  | touch peerId => exact h.quiet (.touch peerId)
  | removePeer peerId => exact h.removePeer peerId
  | cleanupStalePeers => exact h.cleanupStalePeers

/-- Whenever no connection is on its way from the list to the router, both have the same peers. -/
theorem router_eq_peers (banDuration : ℕ) (es : List Event)
    (hsettled : ∀ i peerId, ¬ CppNetwork.IsInserting (machine.final es (.new banDuration)) i peerId)
    (peerId : PeerId) : peerId ∈ (machine.final es (.new banDuration)).router ↔
      (machine.final es (.new banDuration)).hasPeer peerId = true := by
  have hnew : Inv (.new banDuration) := ⟨fun _ _ => rfl, nofun, nofun, nofun⟩
  have h : Inv (machine.final es (.new banDuration)) := Machine.invariant (fun e _ => inv_next e) hnew
  refine ⟨h.known peerId, fun hpeer => ?_⟩
  obtain ⟨q, hq, rfl⟩ := CppNetwork.hasPeer_iff.mp hpeer
  by_contra hrouter
  obtain ⟨i, hi⟩ := h.pending q hq hrouter
  exact hsettled i q.id hi

/-! ### Under the condition -/

namespace Tidy

variable {n : CppNetwork} (hinv : Inv n) (h : Tidy n)

include hinv

theorem not_registered_of_isFree {peerId : PeerId} (hfree : CppNetwork.isFree peerId n = true) (i : ℕ) :
    ¬ CppNetwork.HasRegistered n i peerId := by
  rintro ⟨progress, hi⟩
  have hlt := hinv.lt_opened hi
  have hall := List.all_eq_true.mp hfree i (List.mem_range.mpr hlt)
  obtain ⟨⟨addr, isOutbound, stage⟩, hlive, rfl⟩ := Option.map_eq_some_iff.mp hi
  simp [hlive] at hall

include h

/-- A peer that nobody has registered is put on the list. -/
theorem insert {id : ℕ} {addr : SocketAddr} {isOutbound : Bool} {peerId : PeerId}
    (hfree : CppNetwork.isFree peerId n = true) :
    Tidy ((n.insertPeer ⟨peerId, id, addr, n.now⟩).restage id ⟨addr, isOutbound, .admitted peerId⟩
      (.registered peerId .inserted)) := by
  have hnone := not_registered_of_isFree hinv hfree
  have hback : ∀ i p, CppNetwork.HasRegistered ((n.insertPeer ⟨peerId, id, addr, n.now⟩).restage id
      ⟨addr, isOutbound, .admitted peerId⟩ (.registered peerId .inserted)) i p →
      i = id ∧ p = peerId ∨ CppNetwork.HasRegistered n i p := by
    rintro i p ⟨progress, hi⟩
    rw [CppNetwork.stage_restage] at hi
    split_ifs at hi with heq
    · cases hi
      exact .inl ⟨heq, rfl⟩
    · exact .inr ⟨progress, hi⟩
  refine ⟨fun p i j hi hj => ?_, fun p i hi hmem => ?_⟩
  · rcases hback i p hi with ⟨rfl, rfl⟩ | hi'
    · rcases hback j p hj with ⟨rfl, -⟩ | hj'
      · rfl
      · exact absurd hj' (hnone j)
    · rcases hback j p hj with ⟨rfl, rfl⟩ | hj'
      · exact absurd hi' (hnone i)
      · exact h.unique p i j hi' hj'
  · rw [CppNetwork.IsInserting, CppNetwork.stage_restage] at hi
    split_ifs at hi with heq
    · cases hi
      obtain ⟨q, hq, hid⟩ := CppNetwork.hasPeer_iff.mp (hinv.known peerId hmem)
      exact hnone _ (hid ▸ hinv.entry q hq)
    · exact h.unrouted p i hi hmem

theorem register {id : ℕ} (hcond : notReplaced (.register id, n) = true) : Tidy (n.register id) := by
  simp only [notReplaced] at hcond
  simp only [CppNetwork.register]
  split
  · rename_i addr isOutbound peerId hlive
    rw [hlive] at hcond
    split_ifs with hpeer
    · refine h.quiet (.close hlive fun _ _ heq => ?_)
      cases heq
    · rw [Bool.or_eq_true] at hcond
      exact insert hinv h (hcond.resolve_left hpeer)
  · exact h

omit hinv in
theorem route (id : ℕ) : Tidy (n.route id) := by
  simp only [CppNetwork.route]
  split
  · rename_i addr isOutbound peerId hlive
    have hstage := CppNetwork.stage_of_live hlive
    have hrestage := n.stage_restage id ⟨addr, isOutbound, .registered peerId .inserted⟩
      (.registered peerId .routed)
    have hback : ∀ i p progress,
        (n.restage id ⟨addr, isOutbound, .registered peerId .inserted⟩ (.registered peerId .routed)).stage i =
          some (.registered p progress) →
        CppNetwork.HasRegistered n i p ∧ (progress = .inserted → i ≠ id ∧ CppNetwork.IsInserting n i p) := by
      intro i p progress hi
      rw [hrestage] at hi
      split_ifs at hi with heq
      · cases hi
        exact ⟨⟨.inserted, heq ▸ hstage⟩, nofun⟩
      · refine ⟨⟨progress, hi⟩, ?_⟩
        rintro rfl
        exact ⟨heq, hi⟩
    refine ⟨fun p i j hi hj => ?_, fun p i hi hmem => ?_⟩
    · obtain ⟨a, ha⟩ := hi
      obtain ⟨b, hb⟩ := hj
      exact h.unique p i j (hback i p a ha).1 (hback j p b hb).1
    · obtain ⟨hregistered, hinserted⟩ := hback i p .inserted hi
      obtain ⟨hne, hinserting⟩ := hinserted rfl
      have hp : p ≠ peerId := by
        rintro rfl
        exact hne (h.unique p i id hregistered ⟨.inserted, hstage⟩)
      have hbefore : p ∈ n.router := by
        split_ifs at hmem
        · exact Finset.mem_of_mem_insert_of_ne hmem hp
        · exact hmem
      exact h.unrouted p i hinserting hbefore
  · exact h

omit hinv in
theorem dropPeers (gone : PeerId → Bool) : Tidy (n.dropPeers gone) :=
  h.mono (fun _ _ => id) (fun _ _ => id) (Finset.filter_subset _ _)

theorem loopEnded (id : ℕ) : Tidy (n.loopEnded id) := by
  by_cases hleaving : ∃ addr isOutbound peerId,
      n.live id = some ⟨addr, isOutbound, .registered peerId .leaving⟩
  · obtain ⟨addr, isOutbound, peerId, hlive⟩ := hleaving
    rw [hinv.loopEnded_eq hlive]
    refine (dropPeers h fun q => q = peerId).mono (fun i p hi => ?_) (fun i p hi => ?_) subset_rfl
    · obtain ⟨progress, hi⟩ := hi
      rw [CppNetwork.stage_restage] at hi
      split_ifs at hi
      · cases hi
      · exact ⟨progress, hi⟩
    · rw [CppNetwork.IsInserting, CppNetwork.stage_restage] at hi
      split_ifs at hi
      · cases hi
      · exact hi
  · have hsame : n.loopEnded id = n := by
      unfold CppNetwork.loopEnded
      split
      · rename_i addr isOutbound peerId hlive
        exact absurd ⟨addr, isOutbound, peerId, hlive⟩ hleaving
      · rfl
    rw [hsame]
    exact h

/-- The entry that the end of a loop takes off is its own. -/
theorem takesOwn (id : ℕ) : TakesOwn (.loopEnded id, n) := by
  intro q hq hgone
  by_cases hleaving : ∃ addr isOutbound peerId,
      n.live id = some ⟨addr, isOutbound, .registered peerId .leaving⟩
  · obtain ⟨addr, isOutbound, peerId, hlive⟩ := hleaving
    rw [hinv.loopEnded_eq hlive] at hgone
    have hid : q.id = peerId := by
      by_contra hne
      exact hgone (List.mem_filter.mpr ⟨hq, by simpa using hne⟩)
    have hentry := hinv.entry q hq
    rw [hid] at hentry
    exact h.unique peerId _ _ hentry ⟨.leaving, CppNetwork.stage_of_live hlive⟩
  · refine absurd hq fun _ => hgone ?_
    unfold CppNetwork.loopEnded
    split
    · rename_i addr isOutbound peerId hlive
      exact absurd ⟨addr, isOutbound, peerId, hlive⟩ hleaving
    · exact hq

theorem consistent : Consistent n where
  loops peerId i j := by
    rintro ⟨a, ha, -⟩ ⟨b, hb, -⟩
    exact h.unique peerId i j ⟨a, ha⟩ ⟨b, hb⟩
  router peerId := by
    refine ⟨fun hmem => ⟨hinv.known peerId hmem, fun i hi => h.unrouted peerId i hi hmem⟩, ?_⟩
    rintro ⟨hpeer, hsettled⟩
    obtain ⟨q, hq, rfl⟩ := CppNetwork.hasPeer_iff.mp hpeer
    by_contra hrouter
    obtain ⟨i, hi⟩ := hinv.pending q hq hrouter
    exact hsettled i hi

end Tidy

/-- A step that meets the condition keeps the peer table tidy. -/
theorem tidy_next (e : Event × CppNetwork) (hcond : notReplaced e = true) (hinv : Inv e.2) (h : Tidy e.2) :
    Tidy (machine.next e.1 e.2) := by
  obtain ⟨e, n⟩ := e
  cases e with
  | tick d => exact h.quiet (.of_eq rfl rfl rfl rfl)
  | accept addr free =>
    change Tidy (n.accept addr free)
    unfold CppNetwork.accept
    split_ifs
    · exact h
    · exact h.quiet (.opens (hinv.fresh _ le_rfl) nofun)
    · exact h
  | dial addr =>
    change Tidy (n.dial addr)
    unfold CppNetwork.dial
    split_ifs
    · exact h
    · exact h.quiet (.opens (hinv.fresh _ le_rfl) nofun)
  | handshakeFailed id mismatch => exact h.quiet (.handshakeFailed id mismatch)
  | helloPassed id peerId => exact h.quiet (.helloPassed id peerId)
  | register id => exact h.register hinv hcond
  | route id => exact h.route id
  | spawn id => exact h.quiet (.spawn id)
  | loopChecked id => exact h.quiet (.loopChecked id)
  | received id r => exact h.quiet (.received id r)
  | loopEnded id => exact h.loopEnded hinv id
  | strikesCleared id => exact h.quiet (.strikesCleared id)
  | touch peerId => exact h.quiet (.touch peerId)
  | removePeer peerId =>
    change Tidy (n.removePeer peerId)
    unfold CppNetwork.removePeer
    split_ifs
    · exact h.dropPeers _
    · exact h
  | cleanupStalePeers => exact (h.dropPeers (n.isStale ·)).quiet (.of_eq rfl rfl rfl rfl)

/-- In a run that puts no peer on the list before the connection that put it there has ended its loop, a
peer has one message loop at most, a loop that ends takes off its own entry, and the router has the peers of
the list but for those on their way to it. -/
theorem peer_table_consistent (banDuration : ℕ) (es : List Event)
    (hcond : ∀ e ∈ machine.trace es (.new banDuration), notReplaced e = true) :
    (∀ e ∈ machine.trace es (.new banDuration), Consistent e.2 ∧ TakesOwn e) ∧
      Consistent (machine.final es (.new banDuration)) := by
  have hnew : Inv (.new banDuration) ∧ Tidy (.new banDuration) :=
    ⟨⟨fun _ _ => rfl, nofun, nofun, nofun⟩, ⟨nofun, nofun⟩⟩
  have hstep : ∀ e ∈ machine.trace es (.new banDuration), Inv e.2 ∧ Tidy e.2 →
      Inv (machine.next e.1 e.2) ∧ Tidy (machine.next e.1 e.2) :=
    fun e he h => ⟨inv_next e h.1, tidy_next e (hcond e he) h.1 h.2⟩
  refine ⟨fun e he => ?_, ?_⟩
  · obtain ⟨hinv, h⟩ := Machine.invariant_trace (P := fun n => Inv n ∧ Tidy n) hstep hnew e he
    refine ⟨h.consistent hinv, ?_⟩
    obtain ⟨e, n⟩ := e
    cases e with
    | loopEnded id => exact h.takesOwn hinv id
    | _ => trivial
  · obtain ⟨hinv, h⟩ := Machine.invariant (P := fun n => Inv n ∧ Tidy n) hstep hnew
    exact h.consistent hinv

def alice : PeerId := 7

def home : SocketAddr := ⟨.V4 0x0a000007, 707⟩

def away : SocketAddr := ⟨.V4 0x0a000008, 707⟩

/-- A peer comes, leaves and is called back. -/
def visits : List Event :=
  [.accept home true, .helloPassed 0 alice, .register 0, .route 0, .spawn 0, .loopChecked 0,
    .received 0 .failed, .loopEnded 0, .dial away, .helloPassed 1 alice, .register 1, .route 1, .spawn 1,
    .strikesCleared 0]

theorem peer_table_consistent_visits :
    Consistent (machine.final visits (.new 3600)) ∧ alice ∈ (machine.final visits (.new 3600)).router :=
  ⟨(peer_table_consistent 3600 visits (by decide)).2, by decide⟩

/-- A peer calls twice at once. -/
def doubleCall : List Event :=
  [.accept home true, .accept away true, .helloPassed 0 alice, .helloPassed 1 alice, .register 0]

def bothLooping : List Event :=
  doubleCall ++ [.route 0, .spawn 0, .register 1, .route 1, .spawn 1]

def firstLeaving : List Event := bothLooping ++ [.loopChecked 0, .received 0 .failed]

/-- The peer is on the list and not in the router, then has two message loops, and the end of the first one
takes off the entry of the second one. -/
theorem double_call :
    ((machine.final doubleCall (.new 3600)).hasPeer alice = true ∧
      alice ∉ (machine.final doubleCall (.new 3600)).router) ∧
    ¬ Consistent (machine.final bothLooping (.new 3600)) ∧
    ¬ TakesOwn (.loopEnded 0, machine.final firstLeaving (.new 3600)) := by
  refine ⟨by decide, fun h => ?_, fun h => ?_⟩
  · have hsame := h.loops alice 0 1 ⟨.checking, by decide, nofun, nofun⟩ ⟨.checking, by decide, nofun, nofun⟩
    cases hsame
  · have hown := h ⟨alice, 1, away, 0⟩ (by decide) (by decide)
    cases hown

end Coinjecture.Network.Cpp.PeerTable
