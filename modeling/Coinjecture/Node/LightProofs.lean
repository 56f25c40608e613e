import Coinjecture.Lib.Table
import Coinjecture.Node.MountainShape

/-! # Proofs of the light synchronisation server

The server's mountain range is that of the headers it was given (`Represents`). The path that it computes is
always 64 or 65 steps long and consists of leaves, so that no path but that of a lone genesis block leads to
a peak.

* `proofs_incomplete` : for no chain are all inclusion proofs and all FlyClient proofs accepted, unless
  something that was hashed collides. -/

namespace Coinjecture.Node.LightProofs

open Lib.Bincode Lib.MountainRange Lib.Table
open Core.Types Core.Blocks Core.Extern Core.Crypto
open Node.LightSync
open Node.MountainShape (append_row)

/-- Headers of consecutive heights. -/
structure Chain where
  genesis : BlockHeader
  rest : List BlockHeader
  heights : ∀ i, ∀ h : BlockHeader, (genesis :: rest)[i]? = some h → h.height.toNat = i

def Chain.headers (c : Chain) : List BlockHeader := c.genesis :: c.rest

/-- All proofs of the server are accepted. -/
structure Complete (ext : Ext) (c : Chain) (s : LightSyncServer) : Prop where
  inclusion : ∀ h : UInt64, h.toNat < c.headers.length →
    ∃ p, s.generateMmrProof h = some p ∧ p.verify ext (s.mmr.root ext) = true
  flyClient : ∀ securityParam proof, s.Generates ext securityParam proof →
    (LightClientVerifier.new (BlockHeader.hash ext c.genesis)).accepts ext proof = true

/-- Two different things of the list have one hash. -/
def Collides (ext : Ext) (l : List (Preimage Hash BlockHeader)) : Prop :=
  ∃ x ∈ l, ∃ y ∈ l, x ≠ y ∧ digest ext x = digest ext y

/-- What is hashed for the range of these headers and for the inclusion proof of the first one. -/
def hashedFor (ext : Ext) (c : Chain) (s : LightSyncServer) : List (Preimage Hash BlockHeader) :=
  (rowOf c.headers).flatMap (Mountain.hashed (digest ext)) ++
    climbed (digest ext) 0 (BlockHeader.hash ext c.genesis) (s.computeAuthPath 0)

variable {ext : Ext}

/-! ### The range of the server -/

/-- The server has the range of these headers, and the headers by their heights. -/
structure Represents (ext : Ext) (s : LightSyncServer) (bs : List BlockHeader) : Prop where
  leafCount : s.mmr.leafCount = bs.length
  peaks : s.mmr.peaks = ((rowOf bs).map (Mountain.hash (digest ext))).reverse
  headers : ∀ i, s.headers i = bs[i]?.map (BlockHeader.hash ext)
  fullHeaders : ∀ i, s.fullHeaders.lookup i = bs[i]?
  chainHeight : s.chainHeight + 1 = bs.length

theorem represents_new (genesis : BlockHeader) : Represents ext (.new ext genesis) [genesis] where
  leafCount := rfl
  peaks := rfl
  headers i := by
    cases i with
    | zero => rfl
    | succ i => rfl
  fullHeaders i := by
    cases i with
    | zero => rfl
    | succ i => rfl
  chainHeight := rfl

namespace Represents

variable {s : LightSyncServer} {bs : List BlockHeader} (h : Represents ext s bs)

include h

/-- The next header comes to the range. -/
theorem addHeader {header : BlockHeader} (hheight : header.height.toNat = bs.length) :
    ∃ s', s.addHeader ext header = some s' ∧ Represents ext s' (bs ++ [header]) := by
  obtain ⟨mmr, happend, hcount, hpeaks, -⟩ := append_row (d := digest ext) (b := header) (fun _ _ _ => rfl)
    (row_rowOf bs) (h.peaks.trans rfl) (by rw [h.leafCount, count_rowOf])
  have hleaf : digest ext (.leaf header) = BlockHeader.hash ext header := rfl
  rw [hleaf] at happend
  refine ⟨_, by rw [LightSyncServer.addHeader, happend]; rfl, ?_, ?_, fun i => ?_, fun i => ?_, ?_⟩
  · rw [hcount, h.leafCount, List.length_append]
    rfl
  · rw [hpeaks, rowOf_append]
  · simp only [hheight]
    by_cases hi : i = bs.length
    · rw [hi, Function.update_self, List.getElem?_append_right le_rfl, Nat.sub_self]
      rfl
    · rw [Function.update_of_ne hi, h.headers]
      rcases lt_or_gt_of_ne hi with hlt | hgt
      · rw [List.getElem?_append_left hlt]
      · rw [List.getElem?_eq_none hgt.le, List.getElem?_eq_none (by simpa using hgt)]
  · simp only [hheight]
    by_cases hi : i = bs.length
    · rw [hi, List.lookup_cons, beq_self_eq_true, List.getElem?_append_right le_rfl, Nat.sub_self]
      rfl
    · rw [List.lookup_cons, beq_eq_false_iff_ne.mpr hi]
      simp only
      rw [lookup_filter_ne hi, h.fullHeaders]
      rcases lt_or_gt_of_ne hi with hlt | hgt
      · rw [List.getElem?_append_left hlt]
      · rw [List.getElem?_eq_none hgt.le, List.getElem?_eq_none (by simpa using hgt)]
  · rw [List.length_append, ← hheight]
    rfl

end Represents

/-- A chain is taken to the end, and the server then has its range. -/
theorem represents_ofChain (c : Chain) :
    ∃ s, LightSyncServer.ofChain ext c.genesis c.rest = some s ∧ Represents ext s c.headers := by
  obtain ⟨genesis, rest, hheights⟩ := c
  induction rest using List.reverseRecOn with
  | nil => exact ⟨_, rfl, represents_new genesis⟩
  | append_singleton rest header ih =>
    obtain ⟨s, hs, hrepresents⟩ := ih fun i h hi => by
      refine hheights i h ?_
      rw [← List.cons_append, List.getElem?_append_left (List.getElem?_eq_some_iff.mp hi).1]
      exact hi
    have hheight : header.height.toNat = (genesis :: rest).length := by
      refine hheights _ header ?_
      rw [← List.cons_append, List.getElem?_append_right le_rfl, Nat.sub_self]
      rfl
    obtain ⟨s', hs', hrepresents'⟩ := hrepresents.addHeader hheight
    refine ⟨s', ?_, hrepresents'⟩
    unfold LightSyncServer.ofChain at hs ⊢
    rw [List.foldlM_append, hs]
    simpa using hs'

/-! ### The path of the first header -/

section First

variable {s : LightSyncServer} {bs : List BlockHeader} (h : Represents ext s bs)

include h

/-- From the second header on, every step of the path of the first one is the second header. -/
theorem authPathFrom_zero {b : BlockHeader} (hb : bs[1]? = some b) (rounds : ℕ) :
    s.authPathFrom rounds 0 = List.replicate rounds (BlockHeader.hash ext b, true) := by
  have hlt : 1 < bs.length := (List.getElem?_eq_some_iff.mp hb).1
  induction rounds with
  | zero => rfl
  | succ rounds ih =>
    have hsibling : s.headers (LightSyncServer.siblingOf 0) = some (BlockHeader.hash ext b) := by
      rw [h.headers, LightSyncServer.siblingOf, if_pos rfl, hb]
      rfl
    rw [LightSyncServer.authPathFrom, if_pos (by rw [h.leafCount]; omega), hsibling, Nat.zero_div, ih,
      List.replicate_succ]
    rfl

theorem findPeakIndex_zero (hne : bs ≠ []) : s.findPeakIndex 0 = 0 := by
  have hcount : 0 < s.mmr.peaks.length := by
    rw [h.peaks, List.length_reverse, List.length_map, List.length_pos_iff]
    intro hnil
    have hlength := count_rowOf bs
    rw [hnil] at hlength
    exact hne (List.length_eq_zero_iff.mp hlength.symm)
  obtain ⟨k, hk⟩ := Nat.exists_eq_succ_of_ne_zero hcount.ne'
  unfold LightSyncServer.findPeakIndex
  simp only [hk, List.range_succ_eq_map]
  rw [List.find?_cons_of_pos]
  · rfl
  · simp

/-- The first peak of two headers or more is a node. -/
theorem first_peak (htwo : 2 ≤ bs.length) : ∃ k left right, k < bs.length ∧ 2 ^ (k + 1) ≤ bs.length ∧
    s.mmr.peaks[0]? = some (hashMmrNode ext left right k) ∧
      Preimage.node k left right ∈ (rowOf bs).flatMap (Mountain.hashed (digest ext)) := by
  have hcount := count_rowOf bs
  have hrow := row_rowOf bs
  rw [h.peaks]
  cases hlast : rowOf bs using List.reverseRecOn with
  | nil =>
    rw [hlast] at hcount
    have hzero : 0 = bs.length := hcount
    omega
  | append_singleton ts t =>
    rw [hlast] at hcount hrow
    have hsum : count (ts ++ [t]) = count ts + 2 ^ t.height := by
      simp [count]
    cases t with
    | leaf b =>
      have hnil : ts = [] := by
        refine List.eq_nil_iff_forall_not_mem.mpr fun u hu => ?_
        have hlt := (List.pairwise_append.mp hrow.ascending).2.2 u hu _ List.mem_cons_self
        exact absurd hlt (Nat.not_lt_zero _)
      rw [hnil] at hsum hcount
      have hone : count ([] ++ [Mountain.leaf b]) = 1 := hsum
      omega
    | node k left right =>
      have hle : 2 ^ (k + 1) ≤ bs.length := by
        rw [← hcount, hsum]
        exact Nat.le_add_left _ _
      have hlt : k < 2 ^ (k + 1) := (Nat.lt_succ_self k).trans Nat.lt_two_pow_self
      refine ⟨k, left.hash (digest ext), right.hash (digest ext), hlt.trans_le hle, hle, ?_, ?_⟩
      · rw [List.map_append, List.reverse_append]
        rfl
      · refine List.mem_flatMap.mpr ⟨_, List.mem_append_right _ List.mem_cons_self, ?_⟩
        exact List.mem_cons_self

end First

/-- A chain has at most as many headers as there are heights. -/
theorem Chain.length_le (c : Chain) : c.headers.length ≤ 2 ^ 64 := by
  cases hlast : c.headers.getLast? with
  | none =>
    rw [List.getLast?_eq_none_iff] at hlast
    rw [hlast]
    exact Nat.zero_le _
  | some h =>
    rw [List.getLast?_eq_getElem?] at hlast
    have hheight := c.heights _ h hlast
    have hlt := h.height.toNat_lt
    have hlength : c.headers.length = c.rest.length + 1 := rfl
    omega

/-- The last step of the path of the first header of two or more hashes a node of height 64. -/
theorem climb_zero {s : LightSyncServer} {c : Chain} (h : Represents ext s c.headers) {b : BlockHeader}
    (hb : c.headers[1]? = some b) : ∃ left right,
    climb (digest ext) 0 (BlockHeader.hash ext c.genesis) (s.computeAuthPath 0) =
      digest ext (.node 64 left right) ∧
    .node 64 left right ∈ climbed (digest ext) 0 (BlockHeader.hash ext c.genesis) (s.computeAuthPath 0) := by
  have hpath : s.computeAuthPath 0 = List.replicate 64 (BlockHeader.hash ext b, true) ++
      [(BlockHeader.hash ext b, true)] := by
    rw [LightSyncServer.computeAuthPath, authPathFrom_zero h hb, ← List.replicate_succ']
  rw [hpath, climb_append, climbed_append, List.length_replicate]
  exact ⟨_, _, rfl, List.mem_append_right _ List.mem_cons_self⟩

/-- The proof of the first header of two or more is not accepted. -/
theorem not_verify_zero {s : LightSyncServer} {c : Chain} (h : Represents ext s c.headers)
    (htwo : 2 ≤ c.headers.length) (hfree : ¬ Collides ext (hashedFor ext c s)) {p : MMRInclusionProof}
    (hp : s.generateMmrProof 0 = some p) (root : Hash) : p.verify ext root = false := by
  obtain ⟨b, hb⟩ : ∃ b, c.headers[1]? = some b := ⟨_, List.getElem?_eq_getElem (by omega)⟩
  have hfirst : s.headers 0 = some (BlockHeader.hash ext c.genesis) := h.headers 0
  obtain ⟨left, right, hclimb, hclimbed⟩ := climb_zero h hb
  obtain ⟨k, l, r, -, hk, hpeak, hhashed⟩ := first_peak h htwo
  have hproof : p.leafHash = BlockHeader.hash ext c.genesis ∧ p.authPath = s.computeAuthPath 0 ∧
      p.peakIndex = s.findPeakIndex 0 ∧ p.peaks = s.mmr.peaks := by
    have hzero : s.headers (0 : UInt64).toNat = some (BlockHeader.hash ext c.genesis) := hfirst
    rw [LightSyncServer.generateMmrProof, hzero, Option.map_some] at hp
    obtain rfl := Option.some.inj hp
    exact ⟨rfl, rfl, rfl, rfl⟩
  obtain ⟨hleaf, hpath, hindex, hpeaks⟩ := hproof
  refine Bool.eq_false_iff.mpr fun hverify => hfree ?_
  simp only [MMRInclusionProof.verify, Bool.and_eq_true, decide_eq_true_eq] at hverify
  obtain ⟨hverify, -⟩ := hverify
  rw [hleaf, hpath, hindex, hpeaks, findPeakIndex_zero h (List.cons_ne_nil _ _), hpeak, hclimb] at hverify
  refine ⟨.node k l r, List.mem_append_left _ hhashed, .node 64 left right,
    List.mem_append_right _ hclimbed, ?_, Option.some.inj hverify⟩
  rintro heq
  obtain ⟨rfl, -⟩ := Preimage.node.inj heq
  exact absurd (hk.trans c.length_le) (by decide)

/-- A server that has only the genesis header makes FlyClient proofs that no verifier accepts. -/
theorem flyClient_genesis {s : LightSyncServer} {c : Chain} (h : Represents ext s c.headers)
    (hone : c.rest = []) (securityParam : ℕ) : ∃ proof, s.Generates ext securityParam proof ∧
      ∀ v : LightClientVerifier, v.accepts ext proof = false := by
  have hheaders : c.headers = [c.genesis] := by rw [Chain.headers, hone]
  have hheight : s.chainHeight = 0 := by
    have hlength := h.chainHeight
    rw [hheaders] at hlength
    simpa using hlength
  have htip : s.fullHeaders.lookup s.chainHeight = some c.genesis := by
    rw [h.fullHeaders, hheight, hheaders]
    rfl
  have hzero : c.genesis.height = 0 := UInt64.toNat_inj.mp (c.heights 0 c.genesis rfl)
  refine ⟨_, ⟨c.genesis, _, ((s.fullHeaders.map Prod.snd).filter fun h => 0 < h.height).map
    fun h => ⟨h, s.proofOf ext h⟩, htip, h.headers 0, ?_, rfl⟩, fun v => ?_⟩
  · rw [LightSyncServer.Samples, if_pos (by rw [hheight]; decide)]
  · refine Bool.eq_false_iff.mpr fun haccepts => ?_
    obtain ⟨-, hverify⟩ := (LightClientVerifier.accepts_iff ext).mp haccepts
    rw [FlyClientProof.verify, if_pos hzero] at hverify
    cases hverify

/-- Every server has taken its chain, and it is not complete, unless something that it hashed collides: with
one header no FlyClient proof is accepted, with more the inclusion proof of the first one is not. -/
theorem proofs_incomplete (ext : Ext) (c : Chain) :
    ∃ s, LightSyncServer.ofChain ext c.genesis c.rest = some s ∧
      (¬ Complete ext c s ∨ Collides ext (hashedFor ext c s)) := by
  obtain ⟨s, hs, h⟩ := represents_ofChain c
  refine ⟨s, hs, ?_⟩
  by_cases hfree : Collides ext (hashedFor ext c s)
  · exact .inr hfree
  · refine .inl fun hcomplete => ?_
    cases hrest : c.rest with
    | nil =>
      obtain ⟨proof, hgenerates, hrejected⟩ := flyClient_genesis h hrest 0
      have haccepts := hcomplete.flyClient 0 proof hgenerates
      rw [hrejected] at haccepts
      cases haccepts
    | cons b rest =>
      have htwo : 2 ≤ c.headers.length := by
        rw [Chain.headers, hrest, List.length_cons, List.length_cons]
        omega
      obtain ⟨p, hp, hverify⟩ := hcomplete.inclusion 0 (Nat.lt_of_lt_of_le Nat.two_pos htwo)
      rw [not_verify_zero h htwo hfree hp] at hverify
      cases hverify

/-! ### Two headers -/

def sampleHeader (height : UInt64) (prevHash : Hash) (timestamp : Timestamp) : BlockHeader where
  version := 1
  height := height
  prevHash := prevHash
  timestamp := timestamp
  transactionsRoot := .ZERO
  solutionsRoot := .ZERO
  commitment := ⟨.ZERO, .ZERO⟩
  workScore := ⟨0⟩
  miner := ⟨0⟩
  nonce := 0
  solveTimeUs := 0
  verifyTimeUs := 0
  timeAsymmetryRatio := ⟨0⟩
  solutionQuality := ⟨0⟩
  complexityWeight := ⟨0⟩
  energyEstimateJoules := ⟨0⟩

def genesisHash : Hash := ⟨0xcdfc2ac7923bfc1ea1bb9085516d38f8380389abd6c2d295d71d429fe10dd99c⟩

def blockHash : Hash := ⟨0x2ec947e7f1b2c1c379da2e274500706b5b721e9aa76d18ed02f83a8eef3ad74d⟩

def genesis : BlockHeader := sampleHeader 0 .ZERO 1767225600

def block : BlockHeader := sampleHeader 1 genesisHash 1767225660

/-- The nodes that the proof of the genesis header hashes, one on the other. -/
def rungs : List Bytes32 :=
  [0xa0d4e0801ee683c03065047fecab82386b5f6611ddb76b89e4ad5eece9890872,
    0x988b76c7cb7f1d140cd996653b9acfe8aece37f927c50cfad213a7c6d0f0130a,
    0x229582d60babc9facc1683d20455b66caa38fcbc2ad35ec40630cb95cb7d76b6,
    0x3e0471663ca90fe82913186651923084d2880233c1fee952ab4cd5d7f2ad8f46,
    0xa9ffdd0a887d1fa8fffa9df7ef55145a8cfb35d7e4580dbe6a518e636b38ce5c,
    0xe16cfd502ac3991500c12209a66e28427acd34db08bc6a46f05a748874d8f788,
    0xde46487893ac03a1e3369b8f150046a5d0a782762d6d193f19487a9b02c68f47,
    0xf0830a9ff2d38bded6dd709b9a8ed6ea90197c85b1025d9d1c40bd70c0a15401,
    0xe520403f3ee2a0b55469d6ab691e947199e740f25b8d04d9b2df4e081f3a5f73,
    0x8f68cdbd637d12d271e02e3b5038e765a8aaaf851346c56a55549e17d8fb87ff,
    0xffe25f02a08406fcb4fcffcfdae6b5a3262da80b3bd51ad2f0ea01c7d7c84174,
    0x4c6a2a2229c9801300ec3dc0ef925a9d1e6ab87402708f0809a22a6f7a91c0ab,
    0x4f497c1d82e9022663284b6124aff026451573d5626d43266ad062e4afba5e4b,
    0x2fce15d6efef010d2f56001516319c12c83ac1db9d15efc4fe7792ff9cf5ed16,
    0xa0941a2cf35c876dff452ce5a3746a6c6c6f2d1037b6474a59984185a4049664,
    0x50c8cfce712fad416bba3705af2996fec5ec791aeadccbb3ab6a707a310ec412,
    0x4b3ff4b72a047bd33c66c57ba36a895762047457e62ea017408d404869e2e97a,
    0x3ac3e09d5019ca5923f8404b5f1bb8c9f25605eb8fce8060429ed66f9f8b792d,
    0xf078b85acee3bceccb9233e2eee798b8bf4cc4585870f1bc4152c2c8765068f6,
    0x1422d40f927eaf9d51802ed7b1527ae53389b74c1209289b12858ae0abbda66a,
    0xd483657d4389310499fc5cdc9b61910c29bcc0a425a7195a98fb45b81cda4fc7,
    0x743d5d3ae716bb075ffb1d15c5c9ee57ed56f21be41f7204e6ae689f885d2c42,
    0x946311a43166cb6ed410405dd2639d04e958937737614effa188b906b0d9e041,
    0xd1e6fbab7db158766b4584a7d6b4ab4f025e321ca0f9241059ea12c2aa28a924,
    0xa01d7a881ed6117dfc9b334c1f9d0db80781fbc9f189491be5f5c67d4dcd0be2,
    0xe5b14677bd40af66371fed1457a9200d70b0f0b05e11b89c3fc41cfdd91abc87,
    0x97620e35fa65c19cef89ade4acbe5f19423d8561cfe72eff4fd7ef253fbeadbe,
    0xbdf00ee7419d0b92c9eae6c14052cfc0f8f645719d6157732f7c8cc4aed28433,
    0xe140d67eb1c32b882102f92478b2c3a3e5f2eb991a289e81b9096959d41d7944,
    0x7483c6f477c6e6084096affb17ac3ab8f0024d686ebb5764ebeafe9932d9595e,
    0x448e4d8d7d06c9cf53b7ac4c5b94c256a3453d5aed0c99daa1795fd91f297380,
    0x998b0c998ca6495a96e8d03490130ca36a97e454cbd4c65762f3faf2e466accb,
    0x7c8fb32cfb3bb6291c0c1bbadc028c72398930a282c5e7697ea85269be7db4d2,
    0x106ccdecc7290eb0298ae06374e99cb095c591726d3e55a4473711973e705344,
    0x0908d9fd50c851dec3a6688b88a8f66f474b6b514c8accfeb033142ee3d67afa,
    0xc8eaf7c210a9379bcaf6a59c2b7b5f1e1b1e91129124eb48f4f5fe0d2b60cc65,
    0xaf27e6c1a7834133c14f9a20e921dc29d844a0b11c9a185727a2ebef031b7a6d,
    0xded656a18078eea5ff0cb3c5f9edea0be23d12bc2eb258b3326be018cc522cd4,
    0x8e68f1286d08731c011e89d06bf073b7c4937bce2df9f6f0b53a78c915e44400,
    0x6a090f7600bc0ccbab04396169eb83192d3df1c75180cb28769e6984c71fa5d0,
    0xcbb8a1549f7712e37cbf90db60e56b6ad9fe5e7fdf2ba51f73235072ed7e68e9,
    0x2f105980949f3b8b18b38c41ab5bdd5f22741e40ce1e39eb16a37be2947bf4ed,
    0x1e612b364e97f59c5d4c785c0b4c69693794be8a38e193f9b81b4bbb30558282,
    0x2fecacd6d3f189cb27bc089bb528134d5b97d3d0750ec698b08656522dcdbb8b,
    0xc800a95404c231b3925e701772edb715602cbf40cada5b78c1a2ccb94f304fd6,
    0x9fdadd9b9c1d852a4e18d68b09ce23406ed18f123b28f81c69ebf6f8be5fcd84,
    0x3b9ef40c1f28bfe11e20ed2f392944cccc6b99f6ad69bfa4f4be7ebcc53ab26a,
    0x75a43d53bdf6a7a77b7ebaafe540c66fe54ff6a9ab79c538622a117746b8f1ef,
    0xdf51bd01c6aecaf10b1f9261927699fc5cbdda6a0080c49bad93dd3a3ff2b091,
    0xb7e4a7b2c93120a8e320f6a63bca26f59c08118d08da2e888ae629a973c561ac,
    0x6cebe858a57f91461375604cd5b169c1f61d421d9a02989ac2b69e2f0bff987d,
    0x2350423a9068b4e7c513ae0958f3b9e81b08b41cf20783e0b31e8bf2e4eb8e40,
    0xb9470d00a052af3aa841dd7dc47c6141d7a73225eb8a739ebf6f794caa347b59,
    0x04bb28532ded516f0de2071ec259b30fd24b9c00bafb7f3f918d80b0421b411c,
    0x7994d54344a855143c8bd3c80819f48420425bef9aa682b1ab5a41c1c2a8a5fc,
    0x4da53d78f595570103b7f8adc08b42c64fd42f334bd684692c44aa16bfe53384,
    0x8377ae9c5116e02d92be1a8dffb624338cd4015e454db0660947eb0d79ea73cb,
    0x6187d82319d556fb03c28ca8d7ed8ff1222c634c7cf1329739657e64276f525b,
    0x1af1a8da8469ea2b3f6efecfc99e2e67a485d4a3f5677944df6e2bc76052ebbc,
    0xd7b3bb5b7f5f73e267773b6bc9c0a704d57de7520540832759397f679d7c7274,
    0x3b69560fa9c84581b19d4cdf40ea0eef2ee9b5007950c0d3afeb725538bbe845,
    0xb91b54dd1215ec570c8070a8435cb573f98c56e3ed55e451884b7a7e8b64f632,
    0xff67ab50078ea9a2d0a435142cd6817590620d4e324055d12b2ae305107de7a4,
    0x532923d095ad714fa568e27ce3269646c95a85fa143b123de5047e4217efb778,
    0x3dea0e3ba6c803baf4c66fc4c1bb649ef579a0f07f92f3f7261229fbfd0e5d48]

def sampleNode (left : Hash) (height : ℕ) : Bytes :=
  "MMR_NODE".toUTF8.toList ++ leBytes 4 height ++ left.asBytes ++ blockHash.asBytes

def sampleExt : Ext :=
  { Ext.ofTables [(encode genesis, genesisHash.bytes), (encode block, blockHash.bytes)] [] with
    sha256 := fun data =>
      (((((genesisHash.bytes :: rungs).zipIdx.map fun p => sampleNode ⟨p.1⟩ p.2).zip rungs)).lookup data).getD 0 }

/-- The server of two headers has a root, and no proof of its genesis header. -/
theorem genesis_unproved : (LightSyncServer.ofChain sampleExt genesis [block]).map (fun s =>
    (s.mmr.root sampleExt, (s.generateMmrProof 0).map fun p =>
      (p.authPath.length, p.verify sampleExt (s.mmr.root sampleExt)))) =
    some (⟨rungs.headD 0⟩, some (65, false)) := by
  decide +kernel

end Coinjecture.Node.LightProofs
