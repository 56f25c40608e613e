import Coinjecture.Core.MessageCodes

/-! # Messages of the mesh

The envelope, its routing and its payload, with their bincode encodings, which are prefix codes. -/

namespace Coinjecture.Network.Mesh.Protocol

open Lib.Bincode Lib.Float64 Lib.Codes
open Core.Types
open Core.MessageCodes (enum_split)

structure NodeId where
  bytes : Bytes32
  deriving DecidableEq

inductive SocketAddr where
  | V4 (ip : BitVec 32) (port : UInt16)
  | V6 (ip : BitVec 128) (port : UInt16)
  deriving DecidableEq

structure NodeCommit where
  nodeId : NodeId
  solutionHash : Bytes32
  workScore : F64
  signature : Bytes
  deriving DecidableEq

inductive RoutingMode where
  | Broadcast
  | Direct (target : NodeId)
  deriving DecidableEq

inductive Payload where
  | ConsensusSalt (epoch : UInt64) (salt : Bytes32)
  | Solution (epoch : UInt64) (problemId : String) (solutionHash : Bytes32) (proof : Bytes)
  | Commit (epoch : UInt64) (blockHash : Bytes32) (commits : List NodeCommit)
  | BountySubmit (bountyId problemType : String) (payload : Bytes)
  | Heartbeat (epoch : UInt64) (peerCount : UInt16) (bestBlock : Bytes32)
  | BountyResult (bountyId : String) (accepted : Bool) (reward : UInt64) (details : Bytes)
  | ChainSyncRequest (fromBlock : UInt64) (toBlock : Option UInt64)
  | ChainSyncResponse (blocks : List Bytes) (hasMore : Bool)
  | PeerExchange (knownPeers : List (NodeId × SocketAddr))
  deriving DecidableEq

structure Envelope where
  msgId : Bytes32
  sender : NodeId
  routing : RoutingMode
  payload : Payload
  signature : Bytes
  ttl : UInt8
  timestamp : UInt64
  deriving DecidableEq

/-! ### Encodings -/

/-- `[u8; 32]`. -/
instance : Encode (BitVec 256) := ⟨fun x => beBytes 32 x.toNat⟩

instance : PrefixCode (BitVec 256) where
  Fits _ := True
  split {a b _ _} _ _ h := by
    obtain ⟨hnat, hrest⟩ := beBytes_split (k := 32) a.isLt b.isLt h
    exact ⟨BitVec.eq_of_toNat_eq hnat, hrest⟩

instance : Encode NodeId := ⟨fun id => encode id.bytes⟩

instance : PrefixCode NodeId where
  Fits _ := True
  split {a b _ _} _ _ h := by
    have hbytes : encode a.bytes ++ _ = encode b.bytes ++ _ := h
    obtain ⟨hbytes, hrest⟩ := PrefixCode.split trivial trivial hbytes
    cases a
    cases b
    exact ⟨congrArg NodeId.mk hbytes, hrest⟩

instance : Encode SocketAddr := ⟨fun
  | .V4 ip port => variant 0 ++ (beBytes 4 ip.toNat ++ encode port)
  | .V6 ip port => variant 1 ++ (beBytes 16 ip.toNat ++ encode port)⟩

instance : PrefixCode SocketAddr where
  Fits _ := True
  split {a b s t} _ _ h := by
    cases a with
    | V4 ip port =>
      cases b with
      | V4 ip' port' =>
        simp only [encode, List.append_assoc] at h
        obtain ⟨-, h⟩ := variant_split (by decide) (by decide) h
        obtain ⟨hip, h⟩ := beBytes_split (k := 4) ip.isLt ip'.isLt h
        obtain ⟨rfl, hrest⟩ := PrefixCode.split (α := UInt16) trivial trivial h
        exact ⟨by rw [BitVec.eq_of_toNat_eq hip], hrest⟩
      | V6 ip' port' =>
        simp only [encode, List.append_assoc] at h
        obtain ⟨htag, -⟩ := variant_split (by decide) (by decide) h
        cases htag
    | V6 ip port =>
      cases b with
      | V4 ip' port' =>
        simp only [encode, List.append_assoc] at h
        obtain ⟨htag, -⟩ := variant_split (by decide) (by decide) h
        cases htag
      | V6 ip' port' =>
        simp only [encode, List.append_assoc] at h
        obtain ⟨-, h⟩ := variant_split (by decide) (by decide) h
        obtain ⟨hip, h⟩ := beBytes_split (k := 16) ip.isLt ip'.isLt h
        obtain ⟨rfl, hrest⟩ := PrefixCode.split (α := UInt16) trivial trivial h
        exact ⟨by rw [BitVec.eq_of_toNat_eq hip], hrest⟩

def commitFields (c : NodeCommit) : NodeId × Bytes32 × F64 × Bytes :=
  (c.nodeId, c.solutionHash, c.workScore, c.signature)

instance : Encode NodeCommit := ⟨fun c => encode (commitFields c)⟩

instance : PrefixCode NodeCommit where
  Fits c := Fits (commitFields c)
  split {a b _ _} ha hb h := by
    have hfields : encode (commitFields a) ++ _ = encode (commitFields b) ++ _ := h
    obtain ⟨hfields, hrest⟩ := PrefixCode.split ha hb hfields
    obtain ⟨nodeId, solutionHash, workScore, signature⟩ := a
    obtain ⟨nodeId', solutionHash', workScore', signature'⟩ := b
    simp only [commitFields, Prod.mk.injEq] at hfields
    obtain ⟨rfl, rfl, rfl, rfl⟩ := hfields
    exact ⟨rfl, hrest⟩

instance : Encode RoutingMode := ⟨fun
  | .Broadcast => variant 0
  | .Direct target => variant 1 ++ encode target⟩

instance : PrefixCode RoutingMode where
  Fits _ := True
  split {a b s t} _ _ h := by
    cases a with
    | Broadcast =>
      cases b with
      | Broadcast =>
        obtain ⟨-, hrest⟩ := variant_split (by decide) (by decide) h
        exact ⟨rfl, hrest⟩
      | Direct target' =>
        simp only [encode, List.append_assoc] at h
        obtain ⟨htag, -⟩ := variant_split (by decide) (by decide) h
        cases htag
    | Direct target =>
      cases b with
      | Broadcast =>
        simp only [encode, List.append_assoc] at h
        obtain ⟨htag, -⟩ := variant_split (by decide) (by decide) h
        cases htag
      | Direct target' =>
        have htargets : variant 1 ++ (encode target ++ s) = variant 1 ++ (encode target' ++ t) := by
          rw [← List.append_assoc, ← List.append_assoc]
          exact h
        obtain ⟨-, htargets⟩ := variant_split (by decide) (by decide) htargets
        obtain ⟨rfl, hrest⟩ := PrefixCode.split trivial trivial htargets
        exact ⟨rfl, hrest⟩

/-- The fields of a variant. -/
theorem fields_split {α : Type} [Encode α] [PrefixCode α] {a b : α} {s t : Bytes}
    (h : encode a ++ s = encode b ++ t) (ha : Fits a) (hb : Fits b) : a = b ∧ s = t :=
  PrefixCode.split ha hb h

def payloadTag : Payload → ℕ
  | .ConsensusSalt .. => 0
  | .Solution .. => 1
  | .Commit .. => 2
  | .BountySubmit .. => 3
  | .Heartbeat .. => 4
  | .BountyResult .. => 5
  | .ChainSyncRequest .. => 6
  | .ChainSyncResponse .. => 7
  | .PeerExchange .. => 8

def payloadBody : Payload → Bytes
  | .ConsensusSalt epoch salt => encode (epoch, salt)
  | .Solution epoch problemId solutionHash proof => encode (epoch, problemId, solutionHash, proof)
  | .Commit epoch blockHash commits => encode (epoch, blockHash, commits)
  | .BountySubmit bountyId problemType payload => encode (bountyId, problemType, payload)
  | .Heartbeat epoch peerCount bestBlock => encode (epoch, peerCount, bestBlock)
  | .BountyResult bountyId accepted reward details => encode (bountyId, accepted, reward, details)
  | .ChainSyncRequest fromBlock toBlock => encode (fromBlock, toBlock)
  | .ChainSyncResponse blocks hasMore => encode (blocks, hasMore)
  | .PeerExchange knownPeers => encode knownPeers

instance : Encode Payload := ⟨fun p => variant (payloadTag p) ++ payloadBody p⟩

theorem payloadTag_lt (p : Payload) : payloadTag p < 256 ^ 4 := by
  cases p
  all_goals simp [payloadTag]

instance : PrefixCode Payload where
  Fits
    | .ConsensusSalt .. | .Heartbeat .. | .ChainSyncRequest .. => True
    | .Solution _ problemId _ proof => Fits problemId ∧ Fits proof
    | .Commit _ _ commits => Fits commits
    | .BountySubmit bountyId problemType payload => Fits bountyId ∧ Fits problemType ∧ Fits payload
    | .BountyResult bountyId _ _ details => Fits bountyId ∧ Fits details
    | .ChainSyncResponse blocks _ => Fits blocks
    | .PeerExchange knownPeers => Fits knownPeers
  split {a b s t} ha hb h := by
    obtain ⟨htag, h⟩ := enum_split (fun _ => rfl) payloadTag_lt h
    cases a with
    | ConsensusSalt epoch salt =>
      cases b with
      | ConsensusSalt epoch' salt' =>
        have hbody : encode (epoch, salt) ++ s = encode (epoch', salt') ++ t := h
        have hsplit := fields_split hbody
        obtain ⟨hfields, hrest⟩ := hsplit ⟨trivial, trivial⟩ ⟨trivial, trivial⟩
        cases hfields
        exact ⟨rfl, hrest⟩
      | _ => cases htag
    | Solution epoch problemId solutionHash proof =>
      cases b with
      | Solution epoch' problemId' solutionHash' proof' =>
        have hbody : encode (epoch, problemId, solutionHash, proof) ++ s =
            encode (epoch', problemId', solutionHash', proof') ++ t := h
        have hsplit := fields_split hbody
        obtain ⟨hfields, hrest⟩ := hsplit ⟨trivial, ha.1, trivial, ha.2⟩ ⟨trivial, hb.1, trivial, hb.2⟩
        cases hfields
        exact ⟨rfl, hrest⟩
      | _ => cases htag
    | Commit epoch blockHash commits =>
      cases b with
      | Commit epoch' blockHash' commits' =>
        have hbody : encode (epoch, blockHash, commits) ++ s =
            encode (epoch', blockHash', commits') ++ t := h
        have hsplit := fields_split hbody
        obtain ⟨hfields, hrest⟩ := hsplit ⟨trivial, trivial, ha⟩ ⟨trivial, trivial, hb⟩
        cases hfields
        exact ⟨rfl, hrest⟩
      | _ => cases htag
    | BountySubmit bountyId problemType payload =>
      cases b with
      | BountySubmit bountyId' problemType' payload' =>
        have hbody : encode (bountyId, problemType, payload) ++ s =
            encode (bountyId', problemType', payload') ++ t := h
        have hsplit := fields_split hbody
        obtain ⟨hfields, hrest⟩ := hsplit ⟨ha.1, ha.2.1, ha.2.2⟩ ⟨hb.1, hb.2.1, hb.2.2⟩
        cases hfields
        exact ⟨rfl, hrest⟩
      | _ => cases htag
    | Heartbeat epoch peerCount bestBlock =>
      cases b with
      | Heartbeat epoch' peerCount' bestBlock' =>
        have hbody : encode (epoch, peerCount, bestBlock) ++ s =
            encode (epoch', peerCount', bestBlock') ++ t := h
        have hsplit := fields_split hbody
        obtain ⟨hfields, hrest⟩ := hsplit ⟨trivial, trivial, trivial⟩ ⟨trivial, trivial, trivial⟩
        cases hfields
        exact ⟨rfl, hrest⟩
      | _ => cases htag
    | BountyResult bountyId accepted reward details =>
      cases b with
      | BountyResult bountyId' accepted' reward' details' =>
        have hbody : encode (bountyId, accepted, reward, details) ++ s =
            encode (bountyId', accepted', reward', details') ++ t := h
        have hsplit := fields_split hbody
        obtain ⟨hfields, hrest⟩ := hsplit ⟨ha.1, trivial, trivial, ha.2⟩ ⟨hb.1, trivial, trivial, hb.2⟩
        cases hfields
        exact ⟨rfl, hrest⟩
      | _ => cases htag
    | ChainSyncRequest fromBlock toBlock =>
      cases b with
      | ChainSyncRequest fromBlock' toBlock' =>
        have hbody : encode (fromBlock, toBlock) ++ s = encode (fromBlock', toBlock') ++ t := h
        have hsplit := fields_split hbody
        obtain ⟨hfields, hrest⟩ := hsplit ⟨trivial, fun _ _ => trivial⟩ ⟨trivial, fun _ _ => trivial⟩
        cases hfields
        exact ⟨rfl, hrest⟩
      | _ => cases htag
    | ChainSyncResponse blocks hasMore =>
      cases b with
      | ChainSyncResponse blocks' hasMore' =>
        have hbody : encode (blocks, hasMore) ++ s = encode (blocks', hasMore') ++ t := h
        have hsplit := fields_split hbody
        obtain ⟨hfields, hrest⟩ := hsplit ⟨ha, trivial⟩ ⟨hb, trivial⟩
        cases hfields
        exact ⟨rfl, hrest⟩
      | _ => cases htag
    | PeerExchange knownPeers =>
      cases b with
      | PeerExchange knownPeers' =>
        have hbody : encode knownPeers ++ s = encode knownPeers' ++ t := h
        have hsplit := fields_split hbody
        obtain ⟨hfields, hrest⟩ := hsplit ha hb
        cases hfields
        exact ⟨rfl, hrest⟩
      | _ => cases htag

end Coinjecture.Network.Mesh.Protocol
