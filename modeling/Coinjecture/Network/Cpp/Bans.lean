import Coinjecture.Network.Cpp.PeerTable

/-! # Bans and the connections they are for

The accept loop asks the bans of addresses, and nothing asks those of peer ids. A ban takes the place of an
earlier one, also of one that runs longer, and the strikes of a peer id are forgotten when a connection of
it ends, as it does at the first malformed message.

* `bans_effective` : if banned peers do not answer, nobody is banned during its handshake, a short ban falls
  on no longer one and the strikes of a peer that reaches the threshold have not been forgotten, then who is
  banned is not put on the list, no ban is cut short and the threshold bans. -/

namespace Coinjecture.Network.Cpp.Bans

open Lib.Trace
open Core.Types
open Network.Security
open Network.Cpp.Peers
open Network.Cpp.PeerTable (Inv inv_next)

/-- Who is banned is not put on the list. -/
def RegistersUnbanned : Event × CppNetwork → Prop
  | (.register id, n) => ∀ addr isOutbound peerId, n.live id = some ⟨addr, isOutbound, .admitted peerId⟩ →
      (isOutbound && n.hasPeer peerId) = false →
      n.bans.isIpBanned n.now addr.ip = false ∧ n.bans.isPeerBanned n.now peerId = false
  | _ => True

/-- A ban that runs still runs, at least as long, in the other list. -/
structure KeptIn (now : ℕ) (b b' : PeerBanList) : Prop where
  ips : ∀ ip, ∀ t ∈ b.bannedIps ip, now < t → ∃ t' ∈ b'.bannedIps ip, t ≤ t'
  ids : ∀ peerId, ∀ t ∈ b.bannedPeers peerId, now < t → ∃ t' ∈ b'.bannedPeers peerId, t ≤ t'

def KeepsBans (e : Event × CppNetwork) : Prop := KeptIn e.2.now e.2.bans (machine.next e.1 e.2).bans

/-- A peer id from which the threshold number of malformed messages has come is banned. -/
def ThresholdBans : Event × CppNetwork → Prop
  | (.received id .malformed, n) => ∀ addr isOutbound peerId,
      n.live id = some ⟨addr, isOutbound, .registered peerId .reading⟩ →
      SECURITY_MALFORMED_STRIKE_THRESHOLD ≤ n.sent peerId + 1 →
      (n.received id .malformed).bans.isPeerBanned n.now peerId = true
  | _ => True

/-! ### The condition -/

/-- No other connection from this address is between its check, at the start or the Hello, and the list. -/
def noneWaiting (id : ℕ) (ip : IpAddr) (n : CppNetwork) : Bool :=
  (List.range n.opened).all fun i => i = id || match n.live i with
    | some ⟨addr, isOutbound, .handshaking⟩ => isOutbound || addr.ip ≠ ip
    | some ⟨addr, _, .admitted _⟩ => addr.ip ≠ ip
    | _ => true

def noneAdmitted (peerId : PeerId) (n : CppNetwork) : Bool :=
  (List.range n.opened).all fun i => match n.live i with
    | some ⟨_, _, .admitted q⟩ => q ≠ peerId
    | _ => true

/-- A ban that runs for less than the short time. -/
def isShort (now : ℕ) (ban : Option ℕ) : Bool := ban.all fun t => t ≤ now + BanList.SHORT_BAN_DURATION

/-- Where a ban for strikes does no harm. -/
def mayPunish (id : ℕ) (peerId : PeerId) (short : Bool) (n : CppNetwork) : Bool :=
  (n.peer peerId).all fun q => noneWaiting id q.addr.ip n && noneAdmitted peerId n &&
    (!short || isShort n.now (n.bans.bannedIps q.addr.ip) && isShort n.now (n.bans.bannedPeers peerId))

/-- A peer that says Hello is not banned, nor is the address that is called; nobody is banned between the
check and the list; a short ban falls on no longer one; and a peer that reaches the threshold is on the
list with all its strikes. -/
def respected : Event × CppNetwork → Bool
  | (.helloPassed id peerId, n) => match n.live id with
    | some ⟨addr, isOutbound, .handshaking⟩ =>
      !n.bans.isPeerBanned n.now peerId && !(isOutbound && n.bans.isIpBanned n.now addr.ip)
    | _ => true
  | (.handshakeFailed id mismatch, n) => match n.live id with
    | some ⟨addr, isOutbound, .handshaking⟩ => !(mismatch && !isOutbound) || noneWaiting id addr.ip n
    | _ => true
  | (.received id (.rateLimited strikes), n) => match n.live id with
    | some ⟨_, _, .registered peerId .reading⟩ =>
      strikes < SECURITY_RATE_STRIKE_THRESHOLD || mayPunish id peerId true n
    | _ => true
  | (.received id .malformed, n) => match n.live id with
    | some ⟨_, _, .registered peerId .reading⟩ =>
      (n.sent peerId + 1 < SECURITY_MALFORMED_STRIKE_THRESHOLD ||
        SECURITY_MALFORMED_STRIKE_THRESHOLD ≤ n.malformedStrikes peerId + 1 && n.hasPeer peerId) &&
      (n.malformedStrikes peerId + 1 < SECURITY_MALFORMED_STRIKE_THRESHOLD || mayPunish id peerId false n)
    | _ => true
  | _ => true

/-! ### Ban lists -/

theorem isIpBanned_iff {b : PeerBanList} {now : ℕ} {ip : IpAddr} :
    b.isIpBanned now ip = true ↔ ∃ t ∈ b.bannedIps ip, now < t := by
  unfold BanList.isIpBanned
  cases b.bannedIps ip with
  | none => simp
  | some t => simp

theorem isPeerBanned_iff {b : PeerBanList} {now : ℕ} {peerId : PeerId} :
    b.isPeerBanned now peerId = true ↔ ∃ t ∈ b.bannedPeers peerId, now < t := by
  unfold PeerBanList.isPeerBanned
  cases b.bannedPeers peerId with
  | none => simp
  | some t => simp

/-- A new entry that ends no earlier takes the place of an old one. -/
theorem exists_le_update {κ : Type} [DecidableEq κ] {bans : κ → Option ℕ} {key : κ} {t : ℕ}
    (hlater : ∀ t' ∈ bans key, t' ≤ t) (k : κ) :
    ∀ t' ∈ bans k, ∃ t'' ∈ Function.update bans key (some t) k, t' ≤ t'' := by
  intro t' ht'
  by_cases hk : k = key
  · subst hk
    exact ⟨t, by simp, hlater t' ht'⟩
  · exact ⟨t', by simpa [Function.update_of_ne hk] using ht', le_rfl⟩

/-- No ban runs longer than the long time. -/
structure Bounded (n : CppNetwork) : Prop where
  ips : ∀ ip, ∀ t ∈ n.bans.bannedIps ip, t ≤ n.now + n.bans.defaultBanDuration
  ids : ∀ peerId, ∀ t ∈ n.bans.bannedPeers peerId, t ≤ n.now + n.bans.defaultBanDuration
  short_le : BanList.SHORT_BAN_DURATION ≤ n.bans.defaultBanDuration

/-- Nobody else is banned than before, but for this address and id. -/
structure BannedOnly (now : ℕ) (b b' : PeerBanList) (ip : IpAddr) (peerId : Option PeerId) : Prop where
  ips : ∀ ip', ip' ≠ ip → b'.isIpBanned now ip' = b.isIpBanned now ip'
  ids : ∀ q, some q ≠ peerId → b'.isPeerBanned now q = b.isPeerBanned now q

theorem KeptIn.refl (now : ℕ) (b : PeerBanList) : KeptIn now b b :=
  ⟨fun _ t ht _ => ⟨t, ht, le_rfl⟩, fun _ t ht _ => ⟨t, ht, le_rfl⟩⟩

theorem keptIn_cleanup (now : ℕ) (b : PeerBanList) : KeptIn now b (b.cleanupExpiredBans now) := by
  refine ⟨fun ip t ht hlt => ⟨t, ?_, le_rfl⟩, fun peerId t ht hlt => ⟨t, ?_, le_rfl⟩⟩
  · exact Option.mem_filter_iff.mpr ⟨ht, decide_eq_true hlt⟩
  · exact Option.mem_filter_iff.mpr ⟨ht, decide_eq_true hlt⟩

/-! ### A punishment -/

section Punish

variable {n : CppNetwork} {peerId : PeerId} {short : Bool} {q : Peer}

/-- How long a ban runs. -/
def banTime (short : Bool) (b : PeerBanList) : ℕ :=
  if short then BanList.SHORT_BAN_DURATION else b.defaultBanDuration

theorem bannedIps_punish (hpeer : n.peer peerId = some q) : (n.punish peerId short).bans.bannedIps =
    Function.update n.bans.bannedIps q.addr.ip (some (n.now + banTime short n.bans)) := by
  unfold CppNetwork.punish
  rw [hpeer]
  cases short with
  | false => rfl
  | true => rfl

theorem bannedPeers_punish (hpeer : n.peer peerId = some q) : (n.punish peerId short).bans.bannedPeers =
    Function.update n.bans.bannedPeers peerId (some (n.now + banTime short n.bans)) := by
  unfold CppNetwork.punish
  rw [hpeer]
  cases short with
  | false => rfl
  | true => rfl

theorem defaultBanDuration_punish :
    (n.punish peerId short).bans.defaultBanDuration = n.bans.defaultBanDuration := by
  unfold CppNetwork.punish
  split
  · cases short with
    | false => rfl
    | true => rfl
  · rfl

theorem punish_absent (hpeer : n.peer peerId = none) : n.punish peerId short = n := by
  unfold CppNetwork.punish
  rw [hpeer]

theorem bannedOnly_punish (hpeer : n.peer peerId = some q) :
    BannedOnly n.now n.bans (n.punish peerId short).bans q.addr.ip (some peerId) where
  ips ip hip := by
    rw [Bool.eq_iff_iff, isIpBanned_iff, isIpBanned_iff, bannedIps_punish hpeer, Function.update_of_ne hip]
  ids p hp := by
    have hne : p ≠ peerId := fun heq => hp (congrArg some heq)
    rw [Bool.eq_iff_iff, isPeerBanned_iff, isPeerBanned_iff, bannedPeers_punish hpeer,
      Function.update_of_ne hne]

/-- What `mayPunish` asks keeps the bans that run. -/
theorem keptIn_punish (hbounded : Bounded n) {id : ℕ} (hmay : mayPunish id peerId short n = true) :
    KeptIn n.now n.bans (n.punish peerId short).bans := by
  cases hpeer : n.peer peerId with
  | none =>
    rw [punish_absent hpeer]
    exact .refl _ _
  | some q =>
    rw [mayPunish, hpeer, Option.all_some, Bool.and_eq_true] at hmay
    have hshort : short = true → (∀ t ∈ n.bans.bannedIps q.addr.ip, t ≤ n.now + BanList.SHORT_BAN_DURATION) ∧
        ∀ t ∈ n.bans.bannedPeers peerId, t ≤ n.now + BanList.SHORT_BAN_DURATION := by
      rintro rfl
      have hboth := hmay.2
      simp only [Bool.not_true, Bool.false_or, Bool.and_eq_true, isShort, Option.all_eq_true,
        decide_eq_true_eq] at hboth
      exact ⟨hboth.1, hboth.2⟩
    have hlater : (∀ t ∈ n.bans.bannedIps q.addr.ip, t ≤ n.now + banTime short n.bans) ∧
        ∀ t ∈ n.bans.bannedPeers peerId, t ≤ n.now + banTime short n.bans := by
      cases short with
      | true => exact hshort rfl
      | false => exact ⟨hbounded.ips _, hbounded.ids _⟩
    refine ⟨fun ip t ht _ => ?_, fun p t ht _ => ?_⟩
    · rw [bannedIps_punish hpeer]
      exact exists_le_update hlater.1 ip t ht
    · rw [bannedPeers_punish hpeer]
      exact exists_le_update hlater.2 p t ht

theorem le_of_mem_update {κ : Type} [DecidableEq κ] {bans : κ → Option ℕ} {key k : κ} {t t' bound : ℕ}
    (hbound : ∀ k, ∀ t' ∈ bans k, t' ≤ bound) (ht : t ≤ bound)
    (hmem : t' ∈ Function.update bans key (some t) k) : t' ≤ bound := by
  by_cases hk : k = key
  · subst hk
    rw [Function.update_self] at hmem
    cases hmem
    exact ht
  · rw [Function.update_of_ne hk] at hmem
    exact hbound k t' hmem

theorem banTime_le (hbounded : Bounded n) (short : Bool) :
    banTime short n.bans ≤ n.bans.defaultBanDuration := by
  unfold banTime
  split_ifs
  · exact hbounded.short_le
  · exact le_rfl

theorem Bounded.punish (hbounded : Bounded n) (peerId : PeerId) (short : Bool) :
    Bounded (n.punish peerId short) := by
  cases hpeer : n.peer peerId with
  | none =>
    rw [punish_absent hpeer]
    exact hbounded
  | some q =>
    have hnow : (n.punish peerId short).now = n.now := by rw [CppNetwork.punish_eq]
    have htime := banTime_le hbounded short
    refine ⟨fun ip t ht => ?_, fun p t ht => ?_, ?_⟩
    · rw [bannedIps_punish hpeer] at ht
      rw [hnow, defaultBanDuration_punish]
      exact le_of_mem_update hbounded.ips (by omega) ht
    · rw [bannedPeers_punish hpeer] at ht
      rw [hnow, defaultBanDuration_punish]
      exact le_of_mem_update hbounded.ids (by omega) ht
    · rw [defaultBanDuration_punish]
      exact hbounded.short_le

/-- Who is on the list is banned by a punishment. -/
theorem isPeerBanned_punish (hbounded : Bounded n) (hpeer : n.hasPeer peerId = true) :
    (n.punish peerId short).bans.isPeerBanned n.now peerId = true := by
  obtain ⟨q, hq⟩ : ∃ q, n.peer peerId = some q := by
    refine Option.isSome_iff_exists.mp ?_
    rw [CppNetwork.peer, List.find?_isSome]
    obtain ⟨q, hq, hid⟩ := CppNetwork.hasPeer_iff.mp hpeer
    exact ⟨q, hq, decide_eq_true hid⟩
  rw [isPeerBanned_iff, bannedPeers_punish hq, Function.update_self]
  refine ⟨_, rfl, ?_⟩
  have hpos : 0 < banTime short n.bans := by
    have hle := hbounded.short_le
    unfold banTime
    split_ifs
    · decide
    · rw [BanList.SHORT_BAN_DURATION] at hle
      omega
  omega

end Punish

/-! ### What a run keeps -/

/-- A connection between its check and the list is not banned. An address that is called is checked by
nobody before the Hello. -/
def Allowed (n : CppNetwork) (c : Connection) : Prop :=
  match c.stage with
  | .handshaking => c.isOutbound = false → n.bans.isIpBanned n.now c.addr.ip = false
  | .admitted peerId =>
    n.bans.isIpBanned n.now c.addr.ip = false ∧ n.bans.isPeerBanned n.now peerId = false
  | _ => True

def AllAllowed (n : CppNetwork) : Prop := ∀ i c, n.live i = some c → Allowed n c

theorem of_update {κ α : Type} [DecidableEq κ] {f : κ → α} {k i : κ} {v w : α}
    (h : Function.update f k v i = w) : v = w ∨ f i = w := by
  by_cases hi : i = k
  · subst hi
    exact .inl ((Function.update_self ..).symm.trans h)
  · exact .inr ((Function.update_of_ne hi ..).symm.trans h)

namespace AllAllowed

variable {n n' : CppNetwork} (h : AllAllowed n)

include h

/-- The bans and the time stay, and the connections that change are allowed. -/
theorem frame (hbans : n'.bans = n.bans) (hnow : n'.now = n.now)
    (hlive : ∀ i c, n'.live i = some c → n.live i = some c ∨ Allowed n c) : AllAllowed n' := by
  intro i c hi
  have hallowed : Allowed n c := (hlive i c hi).elim (h i c) fun hc => hc
  unfold Allowed at hallowed ⊢
  rw [hbans, hnow]
  exact hallowed

theorem restage {id : ℕ} {c : Connection} {stage : Stage} (hc : Allowed n { c with stage := stage }) :
    AllAllowed (n.restage id c stage) := by
  refine h.frame rfl rfl fun i c' hi => ?_
  rcases of_update hi with hsome | hsame
  · cases hsome
    exact .inr hc
  · exact .inl hsame

theorem close (id : ℕ) : AllAllowed (n.close id) := by
  refine h.frame rfl rfl fun i c' hi => ?_
  rcases of_update hi with hsome | hsame
  · cases hsome
  · exact .inl hsame

theorem opens {c : Connection} (hc : Allowed n c) : AllAllowed (n.opens c) := by
  refine h.frame rfl rfl fun i c' hi => ?_
  rcases of_update hi with hsome | hsame
  · cases hsome
    exact .inr hc
  · exact .inl hsame

/-- Fewer are banned. -/
theorem unban (hlive : n'.live = n.live)
    (hips : ∀ ip, n'.bans.isIpBanned n'.now ip = true → n.bans.isIpBanned n.now ip = true)
    (hids : ∀ peerId, n'.bans.isPeerBanned n'.now peerId = true → n.bans.isPeerBanned n.now peerId = true) :
    AllAllowed n' := by
  have hips' : ∀ {ip}, n.bans.isIpBanned n.now ip = false → n'.bans.isIpBanned n'.now ip = false :=
    fun {ip} hfree => Bool.eq_false_iff.mpr fun hbanned => by simp [hips ip hbanned] at hfree
  have hids' : ∀ {q}, n.bans.isPeerBanned n.now q = false → n'.bans.isPeerBanned n'.now q = false :=
    fun {q} hfree => Bool.eq_false_iff.mpr fun hbanned => by simp [hids q hbanned] at hfree
  intro i c hi
  have hallowed := h i c (hlive ▸ hi)
  unfold Allowed at hallowed ⊢
  split
  · rename_i hstage
    rw [hstage] at hallowed
    exact fun hin => hips' (hallowed hin)
  · rename_i peerId hstage
    rw [hstage] at hallowed
    exact ⟨hips' hallowed.1, hids' hallowed.2⟩
  · trivial

/-- An address and an id are banned that nobody has between the check and the list. -/
theorem ban {ip : IpAddr} {peerId : Option PeerId} (hlive : n'.live = n.live) (hnow : n'.now = n.now)
    (hban : BannedOnly n.now n.bans n'.bans ip peerId)
    (hnobody : ∀ i c, n.live i = some c →
      (c.stage = .handshaking → c.isOutbound = false → c.addr.ip ≠ ip) ∧
      ∀ p, c.stage = .admitted p → c.addr.ip ≠ ip ∧ some p ≠ peerId) : AllAllowed n' := by
  intro i c hi
  rw [hlive] at hi
  have hallowed := h i c hi
  obtain ⟨hwaiting, hadmitted⟩ := hnobody i c hi
  unfold Allowed at hallowed ⊢
  rw [hnow]
  split
  · rename_i hstage
    rw [hstage] at hallowed
    intro hin
    rw [hban.ips _ (hwaiting hstage hin)]
    exact hallowed hin
  · rename_i p hstage
    rw [hstage] at hallowed
    obtain ⟨hip, hp⟩ := hadmitted p hstage
    rw [hban.ips _ hip, hban.ids _ hp]
    exact hallowed
  · trivial

end AllAllowed

/-- What `noneWaiting` says of a connection. -/
theorem ne_of_noneWaiting {n : CppNetwork} (hinv : Inv n) {id : ℕ} {ip : IpAddr}
    (hwait : noneWaiting id ip n = true) {i : ℕ} {c : Connection} (hi : n.live i = some c) (hne : i ≠ id) :
    (c.stage = .handshaking → c.isOutbound = false → c.addr.ip ≠ ip) ∧
      ∀ p, c.stage = .admitted p → c.addr.ip ≠ ip := by
  have hlt := hinv.lt_opened (CppNetwork.stage_of_live hi)
  have hwaits := List.all_eq_true.mp hwait i (List.mem_range.mpr hlt)
  obtain ⟨addr, isOutbound, stage⟩ := c
  simp only [hi, decide_eq_false hne, Bool.false_or] at hwaits
  constructor
  · rintro rfl hin
    obtain rfl : isOutbound = false := hin
    simpa using hwaits
  · rintro p rfl
    simpa using hwaits

theorem ne_of_noneAdmitted {n : CppNetwork} (hinv : Inv n) {peerId : PeerId}
    (hentered : noneAdmitted peerId n = true) {i : ℕ} {c : Connection} (hi : n.live i = some c) {p : PeerId}
    (hstage : c.stage = .admitted p) : p ≠ peerId := by
  have hlt := hinv.lt_opened (CppNetwork.stage_of_live hi)
  have hadmits := List.all_eq_true.mp hentered i (List.mem_range.mpr hlt)
  obtain ⟨addr, isOutbound, stage⟩ := c
  obtain rfl : stage = .admitted p := hstage
  simpa [hi] using hadmits

/-! ### Every step -/

/-- A step that neither bans nor lets anybody get to the list. -/
structure Plain (n n' : CppNetwork) : Prop where
  bans : n'.bans = n.bans
  now : n'.now = n.now
  live : ∀ i c, n'.live i = some c → n.live i = some c ∨
    c.stage ≠ .handshaking ∧ ∀ peerId, c.stage ≠ .admitted peerId

namespace Plain

variable {n : CppNetwork}

theorem refl (n : CppNetwork) : Plain n n := ⟨rfl, rfl, fun _ _ h => .inl h⟩

theorem of_live {n' : CppNetwork} (hbans : n'.bans = n.bans) (hnow : n'.now = n.now)
    {id : ℕ} {o : Option Connection} (hlive : n'.live = Function.update n.live id o)
    (hstage : ∀ c ∈ o, c.stage ≠ .handshaking ∧ ∀ peerId, c.stage ≠ .admitted peerId) : Plain n n' where
  bans := hbans
  now := hnow
  live i c hi := by
    rw [hlive] at hi
    rcases of_update hi with hsome | hsame
    · exact .inr (hstage c hsome)
    · exact .inl hsame

theorem register (id : ℕ) : Plain n (n.register id) := by
  simp only [CppNetwork.register]
  split
  · split_ifs
    · refine of_live rfl rfl rfl fun c hc => ?_
      cases hc
    · refine of_live rfl rfl rfl fun c hc => ?_
      cases hc
      refine ⟨fun h => ?_, fun _ h => ?_⟩
      · cases h
      · cases h
  · exact refl n

theorem route (id : ℕ) : Plain n (n.route id) := by
  simp only [CppNetwork.route]
  split
  · refine of_live rfl rfl rfl fun c hc => ?_
    cases hc
    refine ⟨fun h => ?_, fun _ h => ?_⟩
    · cases h
    · cases h
  · exact refl n

theorem spawn (id : ℕ) : Plain n (n.spawn id) := by
  simp only [CppNetwork.spawn]
  split
  · refine of_live rfl rfl rfl fun c hc => ?_
    cases hc
    refine ⟨fun h => ?_, fun _ h => ?_⟩
    · cases h
    · cases h
  · exact refl n

theorem loopChecked (id : ℕ) : Plain n (n.loopChecked id) := by
  simp only [CppNetwork.loopChecked]
  split
  · refine of_live rfl rfl rfl fun c hc => ?_
    cases hc
    refine ⟨fun h => ?_, fun _ h => ?_⟩
    · cases h
    · cases h
  · exact refl n

theorem loopEnded (id : ℕ) : Plain n (n.loopEnded id) := by
  simp only [CppNetwork.loopEnded]
  split
  · split_ifs
    · refine of_live rfl rfl rfl fun c hc => ?_
      cases hc
      refine ⟨fun h => ?_, fun _ h => ?_⟩
      · cases h
      · cases h
    · refine of_live rfl rfl rfl fun c hc => ?_
      cases hc
      refine ⟨fun h => ?_, fun _ h => ?_⟩
      · cases h
      · cases h
  · exact refl n

theorem strikesCleared (id : ℕ) : Plain n (n.strikesCleared id) := by
  simp only [CppNetwork.strikesCleared]
  split
  · refine of_live rfl rfl rfl fun c hc => ?_
    cases hc
  · exact refl n

theorem removePeer (peerId : PeerId) : Plain n (n.removePeer peerId) := by
  simp only [CppNetwork.removePeer]
  split_ifs
  · exact ⟨rfl, rfl, fun _ _ h => .inl h⟩
  · exact refl n

end Plain

/-- A punishment does not depend on when the peer was last heard of. -/
theorem bans_punish_touch (n : CppNetwork) (peerId : PeerId) (short : Bool) :
    ((n.touch peerId).punish peerId short).bans = (n.punish peerId short).bans := by
  have hfind : (n.touch peerId).peer peerId =
      (n.peer peerId).map fun p => if p.id = peerId then { p with lastSeen := n.now } else p := by
    unfold CppNetwork.peer CppNetwork.touch
    rw [List.find?_map]
    refine congrArg _ (congrArg (fun q => List.find? q n.peers) (funext fun p => ?_))
    simp only [Function.comp_apply]
    split_ifs
    · rfl
    · rfl
  unfold CppNetwork.punish
  rw [hfind]
  cases n.peer peerId with
  | none => rfl
  | some p =>
    simp only [Option.map_some]
    split_ifs
    · rfl
    · rfl
    · rfl
    · rfl

theorem bans_punish_strike (n : CppNetwork) (peerId : PeerId) (short : Bool) :
    ((n.strike peerId).punish peerId short).bans = (n.punish peerId short).bans := by
  have hfind : (n.strike peerId).peer peerId = n.peer peerId := rfl
  unfold CppNetwork.punish
  rw [hfind]
  cases n.peer peerId with
  | none => rfl
  | some p => rfl

section Received

variable {n : CppNetwork} {id : ℕ} {r : Read} {addr : SocketAddr} {isOutbound : Bool} {peerId : PeerId}
  (hlive : n.live id = some ⟨addr, isOutbound, .registered peerId .reading⟩)

include hlive

theorem received_eq : n.received id r = (n.afterRead peerId r).1.restage id
    ⟨addr, isOutbound, .registered peerId .reading⟩
    (.registered peerId (if (n.afterRead peerId r).2 then .checking else .leaving)) := by
  simp only [CppNetwork.received, hlive]

/-- A read leaves the bans or punishes where it does no harm. -/
theorem bans_afterRead (hcond : respected (.received id r, n) = true) :
    (n.afterRead peerId r).1.bans = n.bans ∨ ∃ short, mayPunish id peerId short n = true ∧
      (n.afterRead peerId r).1.bans = (n.punish peerId short).bans := by
  cases r with
  | message => exact .inl rfl
  | rateLimited strikes =>
    simp only [respected, hlive, Bool.or_eq_true, decide_eq_true_eq] at hcond
    simp only [CppNetwork.afterRead]
    split_ifs with hstrikes
    · have hmay := hcond.resolve_left (not_lt.mpr hstrikes)
      exact .inr ⟨true, hmay, bans_punish_touch n peerId true⟩
    · exact .inl rfl
  | timeout exceeded => exact .inl rfl
  | malformed =>
    simp only [respected, hlive, Bool.and_eq_true, Bool.or_eq_true, decide_eq_true_eq] at hcond
    simp only [CppNetwork.afterRead]
    split_ifs with hstrikes
    · have hmay := hcond.2.resolve_left (not_lt.mpr hstrikes)
      exact .inr ⟨false, hmay, bans_punish_strike n peerId false⟩
    · exact .inl rfl
  | failed => exact .inl rfl

/-- The threshold bans, if the strikes have not been forgotten and the peer is on the list. -/
theorem thresholdBans_received (hbounded : Bounded n) (hcond : respected (.received id .malformed, n) = true)
    (hsent : SECURITY_MALFORMED_STRIKE_THRESHOLD ≤ n.sent peerId + 1) :
    (n.received id .malformed).bans.isPeerBanned n.now peerId = true := by
  simp only [respected, hlive, Bool.and_eq_true, Bool.or_eq_true, decide_eq_true_eq] at hcond
  obtain ⟨hstrikes, hpeer⟩ := hcond.1.resolve_left (not_lt.mpr hsent)
  rw [received_eq hlive]
  change ((n.afterRead peerId .malformed).1.bans).isPeerBanned n.now peerId = true
  simp only [CppNetwork.afterRead, if_pos hstrikes, bans_punish_strike]
  exact isPeerBanned_punish hbounded hpeer

end Received

/-- Nobody on the way to the list is banned, and bans end in time. -/
structure Safe (n : CppNetwork) : Prop where
  inv : Inv n
  allowed : AllAllowed n
  bounded : Bounded n

namespace Safe

variable {n : CppNetwork} (h : Safe n)

include h

theorem keptIn_received {id : ℕ} {r : Read} (hcond : respected (.received id r, n) = true) :
    KeptIn n.now n.bans (n.received id r).bans := by
  by_cases hreading : ∃ addr isOutbound peerId,
      n.live id = some ⟨addr, isOutbound, .registered peerId .reading⟩
  · obtain ⟨addr, isOutbound, peerId, hlive⟩ := hreading
    rw [received_eq hlive]
    change KeptIn n.now n.bans (n.afterRead peerId r).1.bans
    rcases bans_afterRead hlive hcond with hsame | ⟨short, hmay, hpunished⟩
    · rw [hsame]
      exact .refl _ _
    · rw [hpunished]
      exact keptIn_punish h.bounded hmay
  · have hsame : n.received id r = n := by
      unfold CppNetwork.received
      split
      · rename_i addr isOutbound peerId hlive
        exact absurd ⟨addr, isOutbound, peerId, hlive⟩ hreading
      · rfl
    rw [hsame]
    exact .refl _ _

theorem received {id : ℕ} {r : Read} (hcond : respected (.received id r, n) = true) :
    AllAllowed (n.received id r) ∧ Bounded (n.received id r) := by
  by_cases hreading : ∃ addr isOutbound peerId,
      n.live id = some ⟨addr, isOutbound, .registered peerId .reading⟩
  · obtain ⟨addr, isOutbound, peerId, hlive⟩ := hreading
    obtain ⟨-, hsame, -, hnow⟩ := n.afterRead_view peerId r
    rw [received_eq hlive]
    have hboth : AllAllowed (n.afterRead peerId r).1 ∧ Bounded (n.afterRead peerId r).1 := by
      rcases bans_afterRead hlive hcond with hbans | ⟨short, hmay, hpunished⟩
      · refine ⟨h.allowed.frame hbans hnow fun i c hi => .inl (hsame ▸ hi), ?_⟩
        exact ⟨hbans ▸ hnow ▸ h.bounded.ips, hbans ▸ hnow ▸ h.bounded.ids, hbans ▸ h.bounded.short_le⟩
      · have hbounded := h.bounded.punish peerId short
        have hnow' : (n.punish peerId short).now = n.now := by rw [CppNetwork.punish_eq]
        constructor
        · cases hpeer : n.peer peerId with
          | none =>
            rw [punish_absent hpeer] at hpunished
            exact h.allowed.frame hpunished hnow fun i c hi => .inl (hsame ▸ hi)
          | some q =>
            rw [mayPunish, hpeer, Option.all_some, Bool.and_eq_true, Bool.and_eq_true] at hmay
            refine h.allowed.ban hsame hnow (hpunished ▸ bannedOnly_punish hpeer) fun i c hi => ?_
            have hstage : i = id → ∃ progress, c.stage = .registered peerId progress := by
              rintro rfl
              rw [hlive] at hi
              cases hi
              exact ⟨.reading, rfl⟩
            refine ⟨fun hc hin => ?_, fun p hc => ?_⟩
            · refine (ne_of_noneWaiting h.inv hmay.1.1 hi fun heq => ?_).1 hc hin
              obtain ⟨progress, hregistered⟩ := hstage heq
              rw [hc] at hregistered
              cases hregistered
            · refine ⟨(ne_of_noneWaiting h.inv hmay.1.1 hi fun heq => ?_).2 p hc, fun heq => ?_⟩
              · obtain ⟨progress, hregistered⟩ := hstage heq
                rw [hc] at hregistered
                cases hregistered
              · exact ne_of_noneAdmitted h.inv hmay.1.2 hi hc (Option.some.inj heq)
        · refine ⟨?_, ?_, hpunished ▸ hbounded.short_le⟩
          · rw [hpunished, hnow, ← hnow']
            exact hbounded.ips
          · rw [hpunished, hnow, ← hnow']
            exact hbounded.ids
    exact ⟨hboth.1.restage trivial, hboth.2.ips, hboth.2.ids, hboth.2.short_le⟩
  · have hsame : n.received id r = n := by
      unfold CppNetwork.received
      split
      · rename_i addr isOutbound peerId hlive
        exact absurd ⟨addr, isOutbound, peerId, hlive⟩ hreading
      · rfl
    rw [hsame]
    exact ⟨h.allowed, h.bounded⟩

/-- A mismatch bans the address of an inbound connection, which ends. -/
theorem handshakeFailed {id : ℕ} {mismatch : Bool} (hcond : respected (.handshakeFailed id mismatch, n) = true) :
    (AllAllowed (n.handshakeFailed id mismatch) ∧ Bounded (n.handshakeFailed id mismatch)) ∧
      KeptIn n.now n.bans (n.handshakeFailed id mismatch).bans := by
  unfold CppNetwork.handshakeFailed
  split
  · rename_i addr isOutbound hlive
    simp only [respected, hlive, Bool.or_eq_true, Bool.not_eq_true'] at hcond
    have hclose := h.allowed.close id
    split_ifs with hban
    · have hwait := hcond.resolve_left (by simp [hban])
      refine ⟨⟨?_, ?_⟩, ?_⟩
      · have honly : BannedOnly n.now n.bans (PeerBanList.banAddress n.now addr.ip n.bans) addr.ip none := by
          refine ⟨fun ip hip => ?_, fun _ _ => rfl⟩
          rw [Bool.eq_iff_iff, isIpBanned_iff, isIpBanned_iff]
          simp only [PeerBanList.banAddress, BanList.banIp, Function.update_of_ne hip]
        refine hclose.ban rfl rfl honly fun i c hi => ?_
        have hne : i ≠ id := by
          rintro rfl
          rw [CppNetwork.close] at hi
          simp at hi
        have hi' : n.live i = some c := (Function.update_of_ne hne ..).symm.trans hi
        obtain ⟨hwaiting, hadmitted⟩ := ne_of_noneWaiting h.inv hwait hi' hne
        exact ⟨hwaiting, fun p hp => ⟨hadmitted p hp, Option.some_ne_none p⟩⟩
      · exact ⟨fun ip t ht => le_of_mem_update h.bounded.ips le_rfl ht, h.bounded.ids, h.bounded.short_le⟩
      · exact ⟨fun ip t ht _ => exists_le_update (h.bounded.ips addr.ip) ip t ht,
          fun _ t ht _ => ⟨t, ht, le_rfl⟩⟩
    · exact ⟨⟨hclose, h.bounded.ips, h.bounded.ids, h.bounded.short_le⟩, .refl _ _⟩
  · exact ⟨⟨h.allowed, h.bounded⟩, .refl _ _⟩

theorem helloPassed {id : ℕ} {peerId : PeerId} (hcond : respected (.helloPassed id peerId, n) = true) :
    AllAllowed (n.helloPassed id peerId) ∧ (n.helloPassed id peerId).bans = n.bans ∧
      (n.helloPassed id peerId).now = n.now := by
  unfold CppNetwork.helloPassed
  split
  · rename_i addr isOutbound hlive
    simp only [respected, hlive, Bool.and_eq_true, Bool.not_eq_true', Bool.and_eq_false_iff] at hcond
    split_ifs
    · exact ⟨h.allowed.close id, rfl, rfl⟩
    · refine ⟨h.allowed.restage ⟨?_, hcond.1⟩, rfl, rfl⟩
      cases isOutbound with
      | false => exact h.allowed id _ hlive rfl
      | true => exact hcond.2.resolve_left nofun
  · exact ⟨h.allowed, rfl, rfl⟩

theorem accept (addr : SocketAddr) (free : Bool) : AllAllowed (n.accept addr free) ∧
    (n.accept addr free).bans = n.bans ∧ (n.accept addr free).now = n.now := by
  unfold CppNetwork.accept
  split_ifs with hbanned
  · exact ⟨h.allowed, rfl, rfl⟩
  · exact ⟨h.allowed.opens fun _ => Bool.eq_false_iff.mpr hbanned, rfl, rfl⟩
  · exact ⟨h.allowed, rfl, rfl⟩

theorem dial (addr : SocketAddr) : AllAllowed (n.dial addr) ∧ (n.dial addr).bans = n.bans ∧
    (n.dial addr).now = n.now := by
  unfold CppNetwork.dial
  split_ifs
  · exact ⟨h.allowed, rfl, rfl⟩
  · exact ⟨h.allowed.opens nofun, rfl, rfl⟩

/-- The same bans at the same time are as long and as many. -/
theorem bounded_of_eq {n' : CppNetwork} (hbans : n'.bans = n.bans) (hnow : n'.now = n.now) : Bounded n' := by
  refine ⟨?_, ?_, ?_⟩
  · rw [hbans, hnow]
    exact h.bounded.ips
  · rw [hbans, hnow]
    exact h.bounded.ids
  · rw [hbans]
    exact h.bounded.short_le

theorem plain {n' : CppNetwork} (hplain : Plain n n') :
    (AllAllowed n' ∧ Bounded n') ∧ KeptIn n.now n.bans n'.bans := by
  refine ⟨⟨h.allowed.frame hplain.bans hplain.now fun i c hi => (hplain.live i c hi).imp_right ?_,
    h.bounded_of_eq hplain.bans hplain.now⟩, hplain.bans ▸ .refl _ _⟩
  rintro ⟨hhandshaking, hadmitted⟩
  unfold Allowed
  split
  · rename_i hstage
    exact absurd hstage hhandshaking
  · rename_i peerId hstage
    exact absurd hstage (hadmitted peerId)
  · trivial

theorem tick (d : ℕ) : AllAllowed { n with now := n.now + d } ∧ Bounded { n with now := n.now + d } := by
  constructor
  · refine h.allowed.unban rfl (fun ip hip => ?_) fun peerId hpeerId => ?_
    · obtain ⟨t, ht, hlt⟩ := isIpBanned_iff.mp hip
      exact isIpBanned_iff.mpr ⟨t, ht, lt_of_le_of_lt (Nat.le_add_right ..) hlt⟩
    · obtain ⟨t, ht, hlt⟩ := isPeerBanned_iff.mp hpeerId
      exact isPeerBanned_iff.mpr ⟨t, ht, lt_of_le_of_lt (Nat.le_add_right ..) hlt⟩
  · refine ⟨fun ip t ht => ?_, fun peerId t ht => ?_, h.bounded.short_le⟩
    · exact (h.bounded.ips ip t ht).trans (by simp only; omega)
    · exact (h.bounded.ids peerId t ht).trans (by simp only; omega)

theorem cleanup : AllAllowed n.cleanupStalePeers ∧ Bounded n.cleanupStalePeers := by
  constructor
  · refine h.allowed.unban rfl (fun ip hip => ?_) fun peerId hpeerId => ?_
    · obtain ⟨t, ht, hlt⟩ := isIpBanned_iff.mp hip
      exact isIpBanned_iff.mpr ⟨t, (Option.mem_filter_iff.mp ht).1, hlt⟩
    · obtain ⟨t, ht, hlt⟩ := isPeerBanned_iff.mp hpeerId
      exact isPeerBanned_iff.mpr ⟨t, (Option.mem_filter_iff.mp ht).1, hlt⟩
  · refine ⟨fun ip t ht => ?_, fun peerId t ht => ?_, h.bounded.short_le⟩
    · exact h.bounded.ips ip t (Option.mem_filter_iff.mp ht).1
    · exact h.bounded.ids peerId t (Option.mem_filter_iff.mp ht).1

/-- A step that meets the condition keeps all bans, and nobody banned gets to the list. -/
theorem next {e : Event} (hcond : respected (e, n) = true) :
    (AllAllowed (machine.next e n) ∧ Bounded (machine.next e n)) ∧ KeepsBans (e, n) := by
  cases e with
  | tick d => exact ⟨h.tick d, .refl _ _⟩
  | accept addr free =>
    obtain ⟨hallowed, hbans, hnow⟩ := h.accept addr free
    exact ⟨⟨hallowed, h.bounded_of_eq hbans hnow⟩, show KeptIn _ _ (n.accept addr free).bans from
      hbans ▸ .refl _ _⟩
  | dial addr =>
    obtain ⟨hallowed, hbans, hnow⟩ := h.dial addr
    exact ⟨⟨hallowed, h.bounded_of_eq hbans hnow⟩, show KeptIn _ _ (n.dial addr).bans from
      hbans ▸ .refl _ _⟩
  | handshakeFailed id mismatch => exact h.handshakeFailed hcond
  | helloPassed id peerId =>
    obtain ⟨hallowed, hbans, hnow⟩ := h.helloPassed hcond
    exact ⟨⟨hallowed, h.bounded_of_eq hbans hnow⟩, show KeptIn _ _ (n.helloPassed id peerId).bans from
      hbans ▸ .refl _ _⟩
  | register id => exact h.plain (.register id)
  | route id => exact h.plain (.route id)
  | spawn id => exact h.plain (.spawn id)
  | loopChecked id => exact h.plain (.loopChecked id)
  | received id r => exact ⟨h.received hcond, h.keptIn_received hcond⟩
  | loopEnded id => exact h.plain (.loopEnded id)
  | strikesCleared id => exact h.plain (.strikesCleared id)
  | touch peerId => exact h.plain ⟨rfl, rfl, fun _ _ hi => .inl hi⟩
  | removePeer peerId => exact h.plain (.removePeer peerId)
  | cleanupStalePeers => exact ⟨h.cleanup, keptIn_cleanup _ _⟩

theorem registersUnbanned (e : Event) : RegistersUnbanned (e, n) := by
  cases e with
  | register id =>
    intro addr isOutbound peerId hlive _
    exact h.allowed id _ hlive
  | _ => trivial

theorem thresholdBans {e : Event} (hcond : respected (e, n) = true) : ThresholdBans (e, n) := by
  cases e with
  | received id r =>
    cases r with
    | malformed =>
      intro addr isOutbound peerId hlive hsent
      exact thresholdBans_received hlive h.bounded hcond hsent
    | _ => trivial
  | _ => trivial

end Safe

/-- In a run whose steps meet the condition, with bans that last at least as long as the short ones, who is
banned is not put on the list, no ban is cut short, and the threshold number of malformed messages bans. -/
theorem bans_effective (banDuration : ℕ) (hlong : BanList.SHORT_BAN_DURATION ≤ banDuration) (es : List Event)
    (hcond : ∀ e ∈ machine.trace es (.new banDuration), respected e = true) :
    ∀ e ∈ machine.trace es (.new banDuration), RegistersUnbanned e ∧ KeepsBans e ∧ ThresholdBans e := by
  have hnew : Safe (.new banDuration) := by
    refine ⟨⟨fun _ _ => rfl, nofun, nofun, nofun⟩, nofun, nofun, nofun, hlong⟩
  have hstep : ∀ e ∈ machine.trace es (.new banDuration), Safe e.2 → Safe (machine.next e.1 e.2) := by
    intro e he h
    obtain ⟨hallowed, hbounded⟩ := (h.next (hcond e he)).1
    exact ⟨inv_next e h.inv, hallowed, hbounded⟩
  rintro ⟨e, n⟩ he
  have h : Safe n := Machine.invariant_trace (P := Safe) hstep hnew (e, n) he
  exact ⟨h.registersUnbanned e, (h.next (hcond _ he)).2, h.thresholdBans (hcond _ he)⟩

def mallory : PeerId := 13

def lair : SocketAddr := ⟨.V4 0x0a00000d, 1313⟩

/-- A connection from an address gets into its message loop. -/
def enters (id : ℕ) (addr : SocketAddr) (peerId : PeerId) : List Event :=
  [.accept addr true, .helloPassed id peerId, .register id, .route id, .spawn id, .loopChecked id]

/-- Connections of one peer id that say Hello before any of them is on the list. -/
def crowd : List Event :=
  (List.range 5).map (fun _ => .accept lair true) ++ (List.range 5).map (fun i => .helloPassed i mallory) ++
    (List.range 5).flatMap fun i => [.register i, .route i, .spawn i, .loopChecked i]

/-- As long as none of the five connections has ended, the strikes add up. -/
theorem bans_effective_crowd : (machine.final (crowd ++ (List.range 5).map (.received · .malformed))
      (.new 3600)).bans.isPeerBanned 0 mallory = true ∧
    ∀ e ∈ machine.trace (crowd ++ (List.range 5).map (.received · .malformed)) (.new 3600),
      RegistersUnbanned e ∧ KeepsBans e ∧ ThresholdBans e :=
  ⟨by decide +kernel, bans_effective 3600 (by decide) _ (by decide +kernel)⟩

/-- The address is banned and then called. -/
def calledBack : List Event :=
  [.accept lair true, .handshakeFailed 0 true, .dial lair, .helloPassed 1 mallory]

/-- The address is banned while another connection from it goes on. -/
def overdrawn : List Event :=
  enters 0 lair mallory ++ [.accept lair true, .handshakeFailed 1 true]

/-- The peer comes again after every malformed message, which ends the connection. -/
def comesAgain (times : ℕ) : List Event :=
  (List.range times).flatMap fun i =>
    enters i lair mallory ++ [.received i .malformed, .loopEnded i, .strikesCleared i]

/-- A banned address is called and put on the list, the ban of an address is cut short, and the fifth
malformed message of a peer id does not ban it. -/
theorem bans_ineffective :
    ¬ RegistersUnbanned (.register 1, machine.final calledBack (.new 3600)) ∧
    ¬ KeepsBans (.received 0 (.rateLimited 50), machine.final overdrawn (.new 3600)) ∧
    ¬ ThresholdBans (.received 4 .malformed,
      machine.final (comesAgain 4 ++ enters 4 lair mallory) (.new 3600)) := by
  refine ⟨fun h => ?_, fun h => ?_, fun h => ?_⟩
  · have hfree := (h lair true mallory (by decide +kernel) (by decide +kernel)).1
    exact absurd hfree (by decide +kernel)
  · obtain ⟨t, ht, hle⟩ := h.ips lair.ip 3600 (by decide +kernel) (by decide +kernel)
    have hshort : (machine.next (.received 0 (.rateLimited 50)) (machine.final overdrawn
      (.new 3600))).bans.bannedIps lair.ip = some 300 := by decide +kernel
    obtain rfl : 300 = t := Option.some.inj (hshort.symm.trans ht)
    omega
  · have hbanned := h lair false mallory (by decide +kernel) (by decide +kernel)
    exact absurd hbanned (by decide +kernel)

end Coinjecture.Network.Cpp.Bans
