import Coinjecture.Core.Crypto
import Coinjecture.Lib.MountainRange

/-! # Light synchronisation

The mountain range of the header hashes, its inclusion proofs, the FlyClient proofs of a server and their
verifier. The weight of a sample and the total work, which no check reads, are left out; the counters do not
reach the end of their 64 bits. -/

namespace Coinjecture.Node.LightSync

open Lib.Bincode Lib.MountainRange
open Core.Types Core.Blocks Core.Extern Core.Crypto

def FLYCLIENT_MIN_BLOCKS : ℕ := 1000

def HEADER_SIZE_BYTES : ℕ := 80

variable (ext : Ext)

def hashMmrNode (left right : Hash) (height : ℕ) : Hash :=
  ⟨ext.sha256 ("MMR_NODE".toUTF8.toList ++ leBytes 4 height ++ left.asBytes ++ right.asBytes)⟩

def hashBag (left right : Hash) : Hash :=
  ⟨ext.sha256 ("MMR_BAG".toUTF8.toList ++ left.asBytes ++ right.asBytes)⟩

/-- All that is hashed: headers, nodes and peaks. -/
def digest : Preimage Hash BlockHeader → Hash
  | .leaf header => BlockHeader.hash ext header
  | .node height left right => hashMmrNode ext left right height
  | .bag left right => hashBag ext left right

/-! ### The mountain range -/

structure MerkleMountainRange where
  leafCount : ℕ
  peaks : List Hash
  mmrSize : ℕ

namespace MerkleMountainRange

def withGenesis (genesisHash : Hash) : MerkleMountainRange := ⟨1, [genesisHash], 1⟩

def hasPeakAtHeight (height : ℕ) (m : MerkleMountainRange) : Bool :=
  if m.leafCount = 0 then false else (m.leafCount - 1).testBit height

/-- The loop of `append`, on the peaks from the last one: none if there is no peak to pop. -/
def merge (m : MerkleMountainRange) : List Hash → Hash → ℕ → Option (List Hash × ℕ)
  | [], newPeak, height => if m.hasPeakAtHeight height then none else some ([newPeak], 0)
  | leftPeak :: peaks, newPeak, height =>
    if m.hasPeakAtHeight height then
      (merge m peaks (hashMmrNode ext leftPeak newPeak height) (height + 1)).map fun r => (r.1, r.2 + 1)
    else some (newPeak :: leftPeak :: peaks, 0)

def append (leafHash : Hash) (m : MerkleMountainRange) : Option MerkleMountainRange :=
  let m := { m with leafCount := m.leafCount + 1, mmrSize := m.mmrSize + 1 }
  (merge ext m m.peaks.reverse leafHash 0).map fun r =>
    { m with peaks := r.1.reverse, mmrSize := m.mmrSize + r.2 }

def root (m : MerkleMountainRange) : Hash := bag (digest ext) .ZERO m.peaks

end MerkleMountainRange

structure MMRInclusionProof where
  leafHash : Hash
  leafIndex : UInt64
  mmrSize : ℕ
  authPath : List (Hash × Bool)
  peakIndex : ℕ
  peaks : List Hash
  deriving DecidableEq

namespace MMRInclusionProof

def verify (expectedRoot : Hash) (p : MMRInclusionProof) : Bool :=
  let current := climb (digest ext) 0 p.leafHash p.authPath
  p.peaks[p.peakIndex]? = some current && bag (digest ext) .ZERO p.peaks = expectedRoot

def sizeBytes (p : MMRInclusionProof) : ℕ :=
  32 + 8 + 8 + p.authPath.length * 33 + 8 + p.peaks.length * 32

end MMRInclusionProof

/-! ### FlyClient proofs -/

structure SampledBlock where
  header : BlockHeader
  mmrProof : MMRInclusionProof
  deriving DecidableEq

structure FlyClientProof where
  genesisHash : Hash
  tipHeader : BlockHeader
  mmrRoot : Hash
  sampledHeaders : List SampledBlock
  securityParam : ℕ
  deriving DecidableEq

inductive FlyClientError where
  | GenesisMismatch
  | InvalidTip
  | InvalidMMRProof (height : UInt64)
  | InsufficientSamples
  | NoVerifiedState
  | VerificationFailed (reason : String)
  deriving DecidableEq

namespace FlyClientProof

def verify (p : FlyClientProof) : Except FlyClientError Bool :=
  if p.tipHeader.height = 0 then .error .InvalidTip
  else match p.sampledHeaders.find? fun s => !s.mmrProof.verify ext p.mmrRoot with
    | some sampled => .error (.InvalidMMRProof sampled.header.height)
    | none =>
      if p.sampledHeaders.length < min p.securityParam p.tipHeader.height.toNat then
        .error .InsufficientSamples
      else .ok true

/-- It is an error or true. -/
theorem verify_cases (p : FlyClientProof) : (∃ e, p.verify ext = .error e) ∨ p.verify ext = .ok true := by
  unfold FlyClientProof.verify
  by_cases htip : p.tipHeader.height = 0
  · exact .inl ⟨_, if_pos htip⟩
  · rw [if_neg htip]
    cases p.sampledHeaders.find? fun s => !s.mmrProof.verify ext p.mmrRoot with
    | some sampled => exact .inl ⟨_, rfl⟩
    | none =>
      by_cases hfew : p.sampledHeaders.length < min p.securityParam p.tipHeader.height.toNat
      · exact .inl ⟨_, if_pos hfew⟩
      · exact .inr (if_neg hfew)

def sizeBytes (p : FlyClientProof) : ℕ :=
  32 + HEADER_SIZE_BYTES + 32 +
    (p.sampledHeaders.map fun s => HEADER_SIZE_BYTES + s.mmrProof.sizeBytes + 8).sum + 16 + 8

end FlyClientProof

structure VerificationResult where
  valid : Bool
  newTipHeight : UInt64
  proofSizeBytes : ℕ
  samplesVerified : ℕ
  deriving DecidableEq

structure LightClientVerifier where
  genesisHash : Hash
  verifiedTip : Option BlockHeader
  verifiedMmrRoot : Option Hash
  verificationCount : ℕ

namespace LightClientVerifier

def new (genesisHash : Hash) : LightClientVerifier := ⟨genesisHash, none, none, 0⟩

def verifyAndUpdate (proof : FlyClientProof) (v : LightClientVerifier) :
    Except FlyClientError (VerificationResult × LightClientVerifier) := do
  if proof.genesisHash ≠ v.genesisHash then throw .GenesisMismatch
  let _ ← proof.verify ext
  if v.verifiedTip.all fun currentTip => currentTip.height < proof.tipHeader.height then
    return (⟨true, proof.tipHeader.height, proof.sizeBytes, proof.sampledHeaders.length⟩,
      { v with
        verifiedTip := some proof.tipHeader
        verifiedMmrRoot := some proof.mmrRoot
        verificationCount := v.verificationCount + 1 })
  else
    return (⟨true, (v.verifiedTip.map BlockHeader.height).getD 0, proof.sizeBytes,
      proof.sampledHeaders.length⟩, v)

def accepts (proof : FlyClientProof) (v : LightClientVerifier) : Bool := (v.verifyAndUpdate ext proof).isOk

/-- A proof is accepted if it is for the genesis block and verifies. -/
theorem accepts_iff {proof : FlyClientProof} {v : LightClientVerifier} :
    v.accepts ext proof = true ↔ proof.genesisHash = v.genesisHash ∧ proof.verify ext = .ok true := by
  unfold accepts verifyAndUpdate
  by_cases hgenesis : proof.genesisHash = v.genesisHash
  · rcases proof.verify_cases ext with ⟨e, he⟩ | hok
    · rw [he]
      simp [hgenesis]
      rfl
    · rw [hok]
      simp only [hgenesis, ne_eq, not_true_eq_false, if_false, true_and, iff_true]
      by_cases htip : (v.verifiedTip.all fun currentTip => decide (currentTip.height < proof.tipHeader.height)) = true
      · simp [htip]
        rfl
      · simp [htip]
        rfl
  · simp [hgenesis]
    rfl

end LightClientVerifier

/-! ### The server -/

/-- `headers` and `fullHeaders` are maps; the entries of `fullHeaders` are listed in some order. -/
structure LightSyncServer where
  mmr : MerkleMountainRange
  headers : ℕ → Option Hash
  fullHeaders : List (ℕ × BlockHeader)
  chainHeight : ℕ

namespace LightSyncServer

def new (genesisHeader : BlockHeader) : LightSyncServer where
  mmr := .withGenesis (BlockHeader.hash ext genesisHeader)
  headers := Function.update (fun _ => none) 0 (some (BlockHeader.hash ext genesisHeader))
  fullHeaders := [(0, genesisHeader)]
  chainHeight := 0

def addHeader (header : BlockHeader) (s : LightSyncServer) : Option LightSyncServer :=
  let hash := BlockHeader.hash ext header
  let height := header.height.toNat
  (s.mmr.append ext hash).map fun mmr =>
    { mmr := mmr
      headers := Function.update s.headers height (some hash)
      fullHeaders := (height, header) :: s.fullHeaders.filter fun e => e.1 ≠ height
      chainHeight := height }

def siblingOf (pos : ℕ) : ℕ := if pos % 2 = 0 then pos + 1 else pos - 1

/-- The loop of `compute_auth_path`: the path is broken off after 65 rounds. -/
def authPathFrom (s : LightSyncServer) : ℕ → ℕ → List (Hash × Bool)
  | 0, _ => []
  | rounds + 1, pos =>
    if pos < s.mmr.leafCount then
      ((s.headers (siblingOf pos)).map fun sibling => (sibling, decide (pos % 2 = 0))).toList ++
        authPathFrom s rounds (pos / 2)
    else []

def computeAuthPath (height : ℕ) (s : LightSyncServer) : List (Hash × Bool) := s.authPathFrom 65 height

/-- The first peak that covers the height, when every peak had half the size of the one before it. -/
def findPeakIndex (height : ℕ) (s : LightSyncServer) : ℕ :=
  let count := s.mmr.peaks.length
  ((List.range count).find? fun i =>
    height < ((List.range (i + 1)).map fun j => 2 ^ (count - 1 - j)).sum).getD (count - 1)

def generateMmrProof (height : UInt64) (s : LightSyncServer) : Option MMRInclusionProof :=
  (s.headers height.toNat).map fun leafHash =>
    { leafHash := leafHash
      leafIndex := height
      mmrSize := s.mmr.mmrSize
      authPath := s.computeAuthPath height.toNat
      peakIndex := s.findPeakIndex height.toNat
      peaks := s.mmr.peaks }

/-- The proof in a sample of a short chain. -/
def proofOf (h : BlockHeader) (s : LightSyncServer) : MMRInclusionProof :=
  (s.generateMmrProof h.height).getD
    { leafHash := BlockHeader.hash ext h
      leafIndex := h.height
      mmrSize := s.mmr.mmrSize
      authPath := []
      peakIndex := 0
      peaks := s.mmr.peaks }

/-- The loop of `sample_blocks` on the heights that are drawn: none if they run out. -/
def drawSamples (s : LightSyncServer) (securityParam : ℕ) : List UInt64 → List SampledBlock →
    Option (List SampledBlock)
  | draws, sampled =>
    if securityParam ≤ sampled.length ∨ s.chainHeight ≤ sampled.length then some sampled
    else match draws with
      | [] => none
      | height :: draws =>
        if height = 0 ∨ height ∈ sampled.map (·.mmrProof.leafIndex) then
          drawSamples s securityParam draws sampled
        else match s.fullHeaders.lookup height.toNat, s.generateMmrProof height with
          | some header, some mmrProof => drawSamples s securityParam draws (sampled ++ [⟨header, mmrProof⟩])
          | _, _ => drawSamples s securityParam draws sampled

/-- What `sample_blocks` may return: all headers of a short chain in the order of the map, or the sorted
samples of a long one. -/
def Samples (s : LightSyncServer) (securityParam : ℕ) (sampled : List SampledBlock) : Prop :=
  if s.chainHeight < FLYCLIENT_MIN_BLOCKS then
    sampled.Perm (((s.fullHeaders.map Prod.snd).filter fun h => 0 < h.height).map fun h => ⟨h, s.proofOf ext h⟩)
  else ∃ draws drawn, s.drawSamples securityParam draws [] = some drawn ∧
    sampled = drawn.mergeSort fun a b => a.header.height ≤ b.header.height

/-- What `generate_flyclient_proof` may return. -/
def Generates (s : LightSyncServer) (securityParam : ℕ) (proof : FlyClientProof) : Prop :=
  ∃ tipHeader genesisHash sampled, s.fullHeaders.lookup s.chainHeight = some tipHeader ∧
    s.headers 0 = some genesisHash ∧ s.Samples ext securityParam sampled ∧
    proof = ⟨genesisHash, tipHeader, s.mmr.root ext, sampled, securityParam⟩

/-- The server after these headers. -/
def ofChain (genesis : BlockHeader) (rest : List BlockHeader) : Option LightSyncServer :=
  rest.foldlM (fun s header => s.addHeader ext header) (.new ext genesis)

end LightSyncServer

end Coinjecture.Node.LightSync
