import Coinjecture.Core.Types

/-! # Admission of connections

The limiter counts the connections of each address and all of them together, the eclipse guard those of
each subnet, except for loopback and private addresses. An address or subnet that is not in a map
has the count zero. Bans run out at an instant, given in seconds of the clock that is passed in. -/

namespace Coinjecture.Network.Security

open Core.Types

/-- `IpAddr`, by its bits. -/
inductive IpAddr where
  | V4 (bits : BitVec 32)
  | V6 (bits : BitVec 128)
  deriving DecidableEq

/-! ### Per address and in total -/

inductive ConnectionDenied where
  | TooManyFromIp (ip : IpAddr) (current max : ℕ)
  | TotalCapacityReached (current max : ℕ)
  deriving DecidableEq

structure ConnectionLimiter where
  perIp : IpAddr → ℕ
  total : ℕ
  maxPerIp : ℕ
  maxTotal : ℕ

namespace ConnectionLimiter

def new (maxPerIp maxTotal : ℕ) : ConnectionLimiter := ⟨fun _ => 0, 0, maxPerIp, maxTotal⟩

def tryAcquire (ip : IpAddr) (l : ConnectionLimiter) : Except ConnectionDenied ConnectionLimiter :=
  if l.maxTotal ≤ l.total then .error (.TotalCapacityReached l.total l.maxTotal)
  else if l.maxPerIp ≤ l.perIp ip then .error (.TooManyFromIp ip (l.perIp ip) l.maxPerIp)
  else .ok { l with perIp := Function.update l.perIp ip (l.perIp ip + 1), total := l.total + 1 }

def release (ip : IpAddr) (l : ConnectionLimiter) : ConnectionLimiter :=
  if 0 < l.perIp ip then
    { l with perIp := Function.update l.perIp ip (l.perIp ip - 1), total := l.total - 1 }
  else l

variable (l : ConnectionLimiter)

/-- A release lowers the count of this address, if it is not zero. -/
theorem perIp_release (ip ip' : IpAddr) :
    (l.release ip).perIp ip' = l.perIp ip' - if ip = ip' then 1 else 0 := by
  unfold release
  split_ifs with hpos heq heq
  · rw [← heq]
    exact Function.update_self ..
  · rw [Nat.sub_zero]
    exact Function.update_of_ne (Ne.symm heq) ..
  · subst heq
    omega
  · rfl

theorem total_release (ip : IpAddr) :
    (l.release ip).total = l.total - if 0 < l.perIp ip then 1 else 0 := by
  unfold release
  split_ifs
  · rfl
  · rfl

@[simp] theorem maxPerIp_release (ip : IpAddr) : (l.release ip).maxPerIp = l.maxPerIp := by
  unfold release
  split_ifs
  · rfl
  · rfl

@[simp] theorem maxTotal_release (ip : IpAddr) : (l.release ip).maxTotal = l.maxTotal := by
  unfold release
  split_ifs
  · rfl
  · rfl

theorem release_eq_self {ip : IpAddr} (h : l.perIp ip = 0) : l.release ip = l :=
  if_neg (by rw [h]; exact lt_irrefl 0)

theorem tryAcquire_ok {ip : IpAddr} {l' : ConnectionLimiter} :
    l.tryAcquire ip = .ok l' ↔ l.total < l.maxTotal ∧ l.perIp ip < l.maxPerIp ∧
      l' = { l with
        perIp := Function.update l.perIp ip (l.perIp ip + 1)
        total := l.total + 1 } := by
  unfold tryAcquire
  split_ifs with htotal hperIp
  · exact iff_of_false nofun fun h => absurd htotal (not_le.mpr h.1)
  · exact iff_of_false nofun fun h => absurd hperIp (not_le.mpr h.2.1)
  · simp only [Except.ok.injEq, not_le.mp htotal, not_le.mp hperIp, true_and]
    exact eq_comm

/-- What has just been acquired can be given back. -/
theorem release_of_tryAcquire {ip : IpAddr} {l' : ConnectionLimiter} (h : l.tryAcquire ip = .ok l') :
    l'.release ip = l := by
  obtain ⟨-, -, rfl⟩ := l.tryAcquire_ok.mp h
  simp [release]

end ConnectionLimiter

/-! ### Per subnet -/

/-- The first two octets of an IPv4 address, or the first four of an IPv6 address. -/
inductive SubnetKey where
  | V4 (bits : BitVec 16)
  | V6 (bits : BitVec 32)
  | Loopback
  deriving DecidableEq

namespace SubnetKey

/-- `Ipv4Addr::is_loopback` and `Ipv4Addr::is_private`. -/
def isLocal (v4 : BitVec 32) : Bool :=
  v4.extractLsb' 24 8 = 127 || v4.extractLsb' 24 8 = 10 || v4.extractLsb' 20 12 = 0xac1 ||
    v4.extractLsb' 16 16 = 0xc0a8

/-- `to_ipv4_mapped`, or else `to_ipv4`, of an IPv6 address. -/
def toIpv4 (v6 : BitVec 128) : Option (BitVec 32) :=
  if v6.extractLsb' 32 96 = 0xffff ∨ v6.extractLsb' 32 96 = 0 then some (v6.extractLsb' 0 32) else none

def ofV4 (v4 : BitVec 32) : SubnetKey := if isLocal v4 then .Loopback else .V4 (v4.extractLsb' 16 16)

/-- `SubnetKey::from_ip`. -/
def fromIp : IpAddr → SubnetKey
  | .V4 v4 => ofV4 v4
  | .V6 v6 =>
    if v6 = 1 then .Loopback
    else match toIpv4 v6 with
      | some v4 => ofV4 v4
      | none => .V6 (v6.extractLsb' 96 32)

end SubnetKey

structure EclipseGuard where
  subnetCounts : SubnetKey → ℕ
  maxPerSubnet : ℕ

namespace EclipseGuard

def new (maxPerSubnet : ℕ) : EclipseGuard := ⟨fun _ => 0, maxPerSubnet⟩

/-- `try_add`: the guard with the connection counted, or none if its subnet is full. -/
def tryAdd (ip : IpAddr) (g : EclipseGuard) : Option EclipseGuard :=
  let key := SubnetKey.fromIp ip
  if key = .Loopback then some g
  else if g.maxPerSubnet ≤ g.subnetCounts key then none
  else some { g with subnetCounts := Function.update g.subnetCounts key (g.subnetCounts key + 1) }

def remove (ip : IpAddr) (g : EclipseGuard) : EclipseGuard :=
  let key := SubnetKey.fromIp ip
  if key = .Loopback then g
  else { g with subnetCounts := Function.update g.subnetCounts key (g.subnetCounts key - 1) }

variable (g : EclipseGuard)

theorem subnetCounts_remove (ip : IpAddr) {key : SubnetKey} (hkey : key ≠ .Loopback) :
    (g.remove ip).subnetCounts key =
      g.subnetCounts key - if SubnetKey.fromIp ip = key then 1 else 0 := by
  simp only [remove]
  split_ifs with hloopback heq heq
  · exact absurd (heq.symm.trans hloopback) hkey
  · rfl
  · rw [← heq]
    exact Function.update_self ..
  · exact Function.update_of_ne (Ne.symm heq) ..

@[simp] theorem maxPerSubnet_remove (ip : IpAddr) : (g.remove ip).maxPerSubnet = g.maxPerSubnet := by
  simp only [remove]
  split_ifs
  · rfl
  · rfl

theorem tryAdd_eq_none {ip : IpAddr} :
    g.tryAdd ip = none ↔ SubnetKey.fromIp ip ≠ .Loopback ∧
      g.maxPerSubnet ≤ g.subnetCounts (SubnetKey.fromIp ip) := by
  simp only [tryAdd]
  split_ifs with hloopback hfull
  · exact iff_of_false nofun fun h => h.1 hloopback
  · exact iff_of_true rfl ⟨hloopback, hfull⟩
  · exact iff_of_false nofun fun h => hfull h.2

/-- A connection that is added is counted in its subnet. -/
theorem of_tryAdd {ip : IpAddr} {g' : EclipseGuard} (h : g.tryAdd ip = some g') :
    g'.maxPerSubnet = g.maxPerSubnet ∧
    (SubnetKey.fromIp ip ≠ .Loopback → g.subnetCounts (SubnetKey.fromIp ip) < g.maxPerSubnet) ∧
    ∀ key, key ≠ .Loopback →
      g'.subnetCounts key = g.subnetCounts key + if SubnetKey.fromIp ip = key then 1 else 0 := by
  simp only [tryAdd] at h
  split_ifs at h with hloopback hfull
  · cases h
    refine ⟨rfl, fun hne => absurd hloopback hne, fun key hkey => ?_⟩
    rw [if_neg fun heq => hkey (heq.symm.trans hloopback)]
    rfl
  · cases h
    refine ⟨rfl, fun _ => not_le.mp hfull, fun key _ => ?_⟩
    split_ifs with heq
    · rw [← heq]
      exact Function.update_self ..
    · exact Function.update_of_ne (Ne.symm heq) ..

theorem remove_eq_self {ip : IpAddr} (h : SubnetKey.fromIp ip = .Loopback) : g.remove ip = g :=
  if_pos h

end EclipseGuard

/-! ### Bans -/

/-- The part of the ban list that refuses connections: an address and the instant its ban runs out. -/
structure BanList where
  bannedIps : IpAddr → Option ℕ
  defaultBanDuration : ℕ

namespace BanList

def SHORT_BAN_DURATION : ℕ := 300

def new (defaultBanDuration : ℕ) : BanList := ⟨fun _ => none, defaultBanDuration⟩

def banIp (now : ℕ) (ip : IpAddr) (b : BanList) : BanList :=
  { b with bannedIps := Function.update b.bannedIps ip (some (now + b.defaultBanDuration)) }

def banIpShort (now : ℕ) (ip : IpAddr) (b : BanList) : BanList :=
  { b with bannedIps := Function.update b.bannedIps ip (some (now + SHORT_BAN_DURATION)) }

def isIpBanned (now : ℕ) (ip : IpAddr) (b : BanList) : Bool :=
  match b.bannedIps ip with
  | some expiresAt => now < expiresAt
  | none => false

/-- `cleanup_expired`. -/
def cleanupExpired (now : ℕ) (b : BanList) : BanList :=
  { b with bannedIps := fun ip => (b.bannedIps ip).filter fun expiresAt => now < expiresAt }

end BanList

/-- The ban list with the bans of peer ids. -/
structure PeerBanList extends BanList where
  bannedPeers : Bytes32 → Option ℕ

namespace PeerBanList

def new (defaultBanDuration : ℕ) : PeerBanList := ⟨.new defaultBanDuration, fun _ => none⟩

/-- `ban_ip`. -/
def banAddress (now : ℕ) (ip : IpAddr) (b : PeerBanList) : PeerBanList :=
  { b with toBanList := b.banIp now ip }

/-- `ban_ip_short`. -/
def banAddressShort (now : ℕ) (ip : IpAddr) (b : PeerBanList) : PeerBanList :=
  { b with toBanList := b.banIpShort now ip }

def banPeer (now : ℕ) (peerId : Bytes32) (b : PeerBanList) : PeerBanList :=
  { b with bannedPeers := Function.update b.bannedPeers peerId (some (now + b.defaultBanDuration)) }

def banPeerShort (now : ℕ) (peerId : Bytes32) (b : PeerBanList) : PeerBanList :=
  { b with bannedPeers := Function.update b.bannedPeers peerId (some (now + BanList.SHORT_BAN_DURATION)) }

def isPeerBanned (now : ℕ) (peerId : Bytes32) (b : PeerBanList) : Bool :=
  match b.bannedPeers peerId with
  | some expiresAt => now < expiresAt
  | none => false

/-- `cleanup_expired`. -/
def cleanupExpiredBans (now : ℕ) (b : PeerBanList) : PeerBanList where
  toBanList := b.cleanupExpired now
  bannedPeers peerId := (b.bannedPeers peerId).filter fun expiresAt => now < expiresAt

end PeerBanList

end Coinjecture.Network.Security
