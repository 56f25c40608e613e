import Coinjecture.Node.LightProofs

/-! # What an accepted FlyClient proof shows

The verifier takes the hash that an inclusion proof is for, the number of samples and the tip as the proof
has them. If they are what they are said to be (`Linked`), then the sampled headers are the leaves of the
mountain range at their heights, and the tip is the last of them.

* `sound_of_linked` : a linked proof that is accepted is sound, unless something that is hashed collides. -/

namespace Coinjecture.Node.LightSoundness

open Lib.Bincode Lib.MountainRange
open Core.Types Core.Blocks Core.Extern Core.Crypto
open Node.LightSync Node.LightProofs

/-- The root of the mountain range of these headers. -/
def rootOf (ext : Ext) (bs : List BlockHeader) : Hash :=
  bag (digest ext) .ZERO ((rowOf bs).reverse.map (Mountain.hash (digest ext)))

/-- What an accepted proof shows of the range of these headers, for the security parameter `k`. -/
structure Sound (bs : List BlockHeader) (k : ℕ) (p : FlyClientProof) : Prop where
  samples : ∀ s ∈ p.sampledHeaders, bs[s.header.height.toNat]? = some s.header
  tip : bs.getLast? = some p.tipHeader
  distinct : (p.sampledHeaders.map fun s => s.header.height).Nodup
  enough : min k p.tipHeader.height.toNat ≤ p.sampledHeaders.length

/-- What the verifier does not look at: every sample's inclusion proof is for its header and leads from the
place at its height, the tip is one of the samples and the range ends at its height, no header is listed
twice, and the proof's security parameter is no smaller than `k`. -/
structure Linked (ext : Ext) (bs : List BlockHeader) (k : ℕ) (p : FlyClientProof) : Prop where
  leaf : ∀ s ∈ p.sampledHeaders, s.mmrProof.leafHash = BlockHeader.hash ext s.header
  place : ∀ s ∈ p.sampledHeaders,
    position (rowOf bs).reverse s.mmrProof.peakIndex s.mmrProof.authPath = s.header.height.toNat
  tip : p.tipHeader ∈ p.sampledHeaders.map SampledBlock.header
  size : bs.length = p.tipHeader.height.toNat + 1
  once : (p.sampledHeaders.map SampledBlock.header).Nodup
  param : k ≤ p.securityParam

/-- What is hashed for the range of these headers, and for the samples of the proof. -/
def hashedIn (ext : Ext) (bs : List BlockHeader) (p : FlyClientProof) : List (Preimage Hash BlockHeader) :=
  (rowOf bs).flatMap (Mountain.hashed (digest ext)) ++
    bagged (digest ext) .ZERO ((rowOf bs).reverse.map (Mountain.hash (digest ext))) ++
      p.sampledHeaders.flatMap fun s =>
        .leaf s.header :: climbed (digest ext) 0 s.mmrProof.leafHash s.mmrProof.authPath ++
          bagged (digest ext) .ZERO s.mmrProof.peaks

instance (bs : List BlockHeader) (k : ℕ) (p : FlyClientProof) : Decidable (Sound bs k p) :=
  decidable_of_iff ((∀ s ∈ p.sampledHeaders, bs[s.header.height.toNat]? = some s.header) ∧
    bs.getLast? = some p.tipHeader ∧ (p.sampledHeaders.map fun s => s.header.height).Nodup ∧
      min k p.tipHeader.height.toNat ≤ p.sampledHeaders.length)
    ⟨fun ⟨h₁, h₂, h₃, h₄⟩ => ⟨h₁, h₂, h₃, h₄⟩, fun ⟨h₁, h₂, h₃, h₄⟩ => ⟨h₁, h₂, h₃, h₄⟩⟩

instance (ext : Ext) (l : List (Preimage Hash BlockHeader)) : Decidable (Collides ext l) :=
  inferInstanceAs (Decidable (∃ x ∈ l, ∃ y ∈ l, x ≠ y ∧ digest ext x = digest ext y))

variable {ext : Ext} {bs : List BlockHeader} {p : FlyClientProof}

theorem collisionFree_of_not_collides {l : List (Preimage Hash BlockHeader)} (h : ¬ Collides ext l) :
    CollisionFree (digest ext) l := by
  intro x hx y hy heq
  by_contra hne
  exact h ⟨x, hx, y, hy, hne, heq⟩

/-- What a proof that verifies has passed. -/
theorem verify_spec (h : p.verify ext = .ok true) : p.tipHeader.height ≠ 0 ∧
    (∀ s ∈ p.sampledHeaders, s.mmrProof.verify ext p.mmrRoot = true) ∧
      min p.securityParam p.tipHeader.height.toNat ≤ p.sampledHeaders.length := by
  unfold FlyClientProof.verify at h
  by_cases htip : p.tipHeader.height = 0
  · rw [if_pos htip] at h
    cases h
  · rw [if_neg htip] at h
    cases hfind : p.sampledHeaders.find? fun s => !s.mmrProof.verify ext p.mmrRoot with
    | some s =>
      rw [hfind] at h
      cases h
    | none =>
      simp only [hfind] at h
      refine ⟨htip, fun s hs => ?_, ?_⟩
      · have hnot := List.find?_eq_none.mp hfind s hs
        simpa using hnot
      · by_contra hfew
        rw [if_pos (by omega)] at h
        cases h

/-- A sample whose inclusion proof is for its header is the leaf at the place that the path leads from. -/
theorem sample_sound (hne : bs ≠ []) (hfree : ¬ Collides ext (hashedIn ext bs p)) {s : SampledBlock}
    (hs : s ∈ p.sampledHeaders) (hleaf : s.mmrProof.leafHash = BlockHeader.hash ext s.header)
    (hverify : s.mmrProof.verify ext (rootOf ext bs) = true) :
    bs[position (rowOf bs).reverse s.mmrProof.peakIndex s.mmrProof.authPath]? = some s.header := by
  simp only [MMRInclusionProof.verify, Bool.and_eq_true, decide_eq_true_eq] at hverify
  obtain ⟨hpeak, hroot⟩ := hverify
  have hsample : ∀ x, x ∈ Preimage.leaf s.header ::
      climbed (digest ext) 0 s.mmrProof.leafHash s.mmrProof.authPath ++
        bagged (digest ext) .ZERO s.mmrProof.peaks → x ∈ hashedIn ext bs p := fun x hx =>
    List.mem_append_right _ (List.mem_flatMap.mpr ⟨s, hs, hx⟩)
  have hdigest : s.mmrProof.leafHash = digest ext (.leaf s.header) := hleaf
  rw [hdigest] at hpeak hsample
  refine range_sound (collisionFree_of_not_collides hfree) hne ?_ ?_ ?_ hroot ?_ ?_ hpeak
  · exact fun t ht x hx => List.mem_append_left _ (List.mem_append_left _ (List.mem_flatMap.mpr ⟨t, ht, hx⟩))
  · exact fun x hx => List.mem_append_left _ (List.mem_append_right _ hx)
  · exact fun x hx => hsample x (List.mem_append_right _ hx)
  · exact hsample _ (List.mem_append_left _ List.mem_cons_self)
  · exact fun x hx => hsample x (List.mem_append_left _ (List.mem_cons_of_mem _ hx))

/-- If no header is sampled twice and each is the leaf at its height, then their heights differ. -/
theorem nodup_heights {samples : List SampledBlock} (honce : (samples.map SampledBlock.header).Nodup)
    (hleaves : ∀ s ∈ samples, bs[s.header.height.toNat]? = some s.header) :
    (samples.map fun s => s.header.height).Nodup := by
  have hinj : Set.InjOn BlockHeader.height {h | h ∈ samples.map SampledBlock.header} := by
    rintro a ha b hb heq
    obtain ⟨s, hs, rfl⟩ := List.mem_map.mp ha
    obtain ⟨t, ht, rfl⟩ := List.mem_map.mp hb
    have hget := hleaves s hs
    rw [heq, hleaves t ht] at hget
    exact (Option.some.inj hget).symm
  have hmap := honce.map_on fun a ha b hb heq => hinj ha hb heq
  rwa [List.map_map] at hmap

/-- A proof that is accepted and linked to the range of its root is sound for the verifier's own security
parameter, unless something that is hashed collides. -/
theorem sound_of_linked (ext : Ext) (v : LightClientVerifier) (bs : List BlockHeader) (p : FlyClientProof) (k : ℕ)
    (hfree : ¬ Collides ext (hashedIn ext bs p)) (hroot : p.mmrRoot = rootOf ext bs)
    (haccepts : v.accepts ext p = true) (hlinked : Linked ext bs k p) : Sound bs k p := by
  obtain ⟨-, hverify⟩ := (LightClientVerifier.accepts_iff ext).mp haccepts
  obtain ⟨-, hproofs, henough⟩ := verify_spec hverify
  have hne : bs ≠ [] := by
    rintro rfl
    cases hlinked.size
  have hleaves : ∀ s ∈ p.sampledHeaders, bs[s.header.height.toNat]? = some s.header := by
    intro s hs
    have hproof := hproofs s hs
    rw [hroot] at hproof
    rw [← hlinked.place s hs]
    exact sample_sound hne hfree hs (hlinked.leaf s hs) hproof
  refine ⟨hleaves, ?_, nodup_heights hlinked.once hleaves, ?_⟩
  · obtain ⟨s, hs, htip⟩ := List.mem_map.mp hlinked.tip
    have hget := hleaves s hs
    rw [htip] at hget
    rw [List.getLast?_eq_getElem?, hlinked.size]
    exact hget
  · have hparam := hlinked.param
    omega

/-! ### Two headers -/

def forgedHash : Hash := ⟨0x1a21ac31fd9a58ef621986aa7b5d937fedfb3d3da32053e90361dfc9c67fb427⟩

def farHash : Hash := ⟨0x54497bfa3cc5b39306fa6a49c6b3d76ddbe25abd2884284ba235f7fec13d49f0⟩

/-- The root of the genesis header and the block. -/
def pairHash : Hash := ⟨0xa0d4e0801ee683c03065047fecab82386b5f6611ddb76b89e4ad5eece9890872⟩

/-- A header with the height of the block that is not the block. -/
def forged : BlockHeader := sampleHeader 1 genesisHash 1767225661

/-- A header far above the block. -/
def far : BlockHeader := sampleHeader 5 blockHash 1767225960

def forgerExt : Ext :=
  { Ext.ofTables [(encode genesis, genesisHash.bytes), (encode block, blockHash.bytes),
      (encode forged, forgedHash.bytes), (encode far, farHash.bytes)] [] with
    sha256 := fun data => if data = sampleNode genesisHash 0 then pairHash.bytes else 0 }

/-- The block with its inclusion proof. -/
def blockSample : SampledBlock := ⟨block, ⟨blockHash, 1, 3, [(genesisHash, false)], 0, [pairHash]⟩⟩

/-- Any header with the root for its inclusion proof. -/
def rootSample (header : BlockHeader) : SampledBlock := ⟨header, ⟨pairHash, header.height, 3, [], 0, [pairHash]⟩⟩

def honestProof : FlyClientProof := ⟨genesisHash, block, pairHash, [blockSample], 1⟩

/-- A sample that is not in the range; a tip that is not; one header twice; no sample. -/
def forgedProofs : List FlyClientProof :=
  [⟨genesisHash, block, pairHash, [rootSample forged, blockSample], 2⟩,
    ⟨genesisHash, far, pairHash, [blockSample], 1⟩,
    ⟨genesisHash, block, pairHash, [blockSample, blockSample], 2⟩,
    ⟨genesisHash, block, pairHash, [], 0⟩]

theorem sound_of_linked_honestProof : Sound [genesis, block] 1 honestProof :=
  sound_of_linked forgerExt (.new genesisHash) [genesis, block] honestProof 1 (by decide +kernel)
    (by decide +kernel) (by decide +kernel)
    ⟨by decide +kernel, by decide +kernel, by decide +kernel, by decide, by decide, by decide⟩

/-- For the range of the two headers the proof is accepted, and it is not sound. -/
def IsAcceptedForgery (p : FlyClientProof) : Prop :=
  p.mmrRoot = rootOf forgerExt [genesis, block] ∧ ¬ Collides forgerExt (hashedIn forgerExt [genesis, block] p) ∧
    (LightClientVerifier.new genesisHash).accepts forgerExt p = true ∧ ¬ Sound [genesis, block] 1 p

instance : DecidablePred IsAcceptedForgery := fun _ => inferInstanceAs (Decidable (_ ∧ _ ∧ _ ∧ _))

theorem forgedProofs_accepted : forgedProofs.Forall IsAcceptedForgery :=
  List.forall_iff_forall_mem.mpr (by decide +kernel)

end Coinjecture.Node.LightSoundness
