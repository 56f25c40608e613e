import Coinjecture.ApiServer.Indexer
import Coinjecture.Lib.Table
import Coinjecture.Node.LightSoundness

/-! # Runs of the indexer

The position never has a hash, so no reorganisation is noticed; and the hash in a row is not the one that the
parent field of the next row refers to. So the rows form a chain while there is no second one.

* `chained_of_modest` : while no second block is confirmed, the rows form a chain after every round without
  an error of the store;
* `served_of_linked` : where two rows form a chain, the JSON of a served header has the hash that another one
  has for its parent. -/

namespace Coinjecture.ApiServer.IndexRuns

open Lib.Bincode Lib.Table Lib.Trace
open Core.Types Core.Blocks Core.Extern
open ApiServer.Indexer
open Node.LightProofs (genesisHash block sampleHeader)
open Node.LightSoundness (forgedHash)

/-- The node answers with a block of the height that it is asked for, or with nothing. -/
def Serves (r : Round) : Prop :=
  ∀ height block, (r.calls height).answer = .served block → block = .null ∨
    ∃ header coinbase transactions solutionReveal,
      block = blockToJson header coinbase transactions solutionReveal ∧ header.height.toNat = height

/-- The row of a block with this header. -/
def rowOf (json : Json) (header : BlockHeader) : Row :=
  ⟨hexOfBytes (Hash.asBytes ⟨json.ext.blake3 (json.toVec (headerToJson header))⟩), hexOfBytes header.prevHash.asBytes⟩

/-- A header that has been served. -/
def ServedIn (rounds : List Round) (header : BlockHeader) : Prop :=
  ∃ r ∈ rounds, ∃ height coinbase transactions solutionReveal,
    (r.calls height).answer = .served (blockToJson header coinbase transactions solutionReveal)

/-- No second block is confirmed, and a row that an error has left above the position is written again. -/
structure Modest (confirmations : ℕ) (r : Round) (s : IndexState) : Prop where
  single : ∀ chainTip ∈ r.chainTip, chainTip - confirmations ≤ 1
  again : s.sync.lastIndexedHeight = 0 → (s.blocks.lookup 1).isSome →
    (∃ chainTip ∈ r.chainTip, confirmations < chainTip) ∧
      ∃ block, (r.calls 1).answer = .served block ∧ (blockHeight block).isSome

/-- At most one row, and a position without a hash that does not say more than there is. -/
structure Small (s : IndexState) : Prop where
  hash : s.sync.lastIndexedHash = ""
  low : s.sync.lastIndexedHeight ≤ 1
  rows : ∀ height, (s.blocks.lookup height).isSome → height = 1
  first : s.sync.lastIndexedHeight = 1 → (s.blocks.lookup 1).isSome

variable {json : Json} {confirmations : ℕ} {r : Round} {s : IndexState}

theorem Small.chained (h : Small s) (hzero : s.sync.lastIndexedHeight = 0 → s.blocks.lookup 1 = none) :
    Chained s := by
  have hlow := h.low
  refine ⟨fun height => ⟨fun hrow => ?_, fun hrange => ?_⟩, fun height row next hrow hnext => ?_⟩
  · obtain rfl := h.rows height hrow
    refine ⟨le_rfl, ?_⟩
    by_contra hlt
    rw [hzero (by omega)] at hrow
    cases hrow
  · obtain rfl : height = 1 := by omega
    exact h.first (by omega)
  · have hheight := h.rows height (Option.isSome_of_eq_some hrow)
    have hsucc := h.rows (height + 1) (Option.isSome_of_eq_some hnext)
    omega

/-- The rows after one has been written at height 1. -/
theorem Small.written (h : Small s) (row : Row) {height : ℕ} :
    (((1, row) :: s.blocks.filter fun e => e.1 ≠ 1).lookup height).isSome ↔ height = 1 := by
  rw [List.lookup_cons]
  by_cases heq : height = 1
  · subst heq
    simp
  · rw [beq_eq_false_iff_ne.mpr heq]
    simp only
    rw [lookup_filter_ne heq]
    exact ⟨fun hrow => h.rows height hrow, fun hrow => absurd hrow heq⟩

theorem Small.write (h : Small s) (row : Row) :
    Small ⟨⟨1, "", 1⟩, (1, row) :: s.blocks.filter fun e => e.1 ≠ 1⟩ where
  hash := rfl
  low := le_rfl
  rows _ hrow := (h.written row).mp hrow
  first _ := (h.written row).mpr rfl

/-- There is no row above the position, as it would be written again. -/
theorem Modest.none_above (h : Modest confirmations r s) (hzero : s.sync.lastIndexedHeight = 0)
    (hnot : ¬((∃ chainTip ∈ r.chainTip, confirmations < chainTip) ∧
      ∃ block, (r.calls 1).answer = .served block ∧ (blockHeight block).isSome)) : s.blocks.lookup 1 = none := by
  by_contra hsome
  exact hnot (h.again hzero (Option.isSome_iff_ne_none.mpr hsome))

/-- What `process_block` makes of a block: nothing, or a row of its own. -/
theorem processBlock_blockToJson (json : Json) (call : Call) (header : BlockHeader)
    (coinbase transactions solutionReveal : Value) (blocks : List (ℕ × Row)) :
    let written := (header.height.toNat, rowOf json header) :: blocks.filter fun e => e.1 ≠ header.height.toNat
    processBlock json call (blockToJson header coinbase transactions solutionReveal) blocks = (.storeError, blocks) ∨
      processBlock json call (blockToJson header coinbase transactions solutionReveal) blocks = (.storeError, written) ∨
      processBlock json call (blockToJson header coinbase transactions solutionReveal) blocks = (.done, written) := by
  simp only [processBlock, blockHeight_blockToJson, blockHash_blockToJson, parentHash_blockToJson]
  split_ifs
  · exact .inl rfl
  · exact .inr (.inl rfl)
  · exact .inr (.inr rfl)

/-- A round in which no second block is confirmed. -/
theorem small_runRound (hserves : Serves r) (hsingle : ∀ chainTip ∈ r.chainTip, chainTip - confirmations ≤ 1)
    (h : Small s) : Small (runRound json confirmations r s).1 ∧
      ((runRound json confirmations r s).2 = false → Modest confirmations r s →
        Chained (runRound json confirmations r s).1) := by
  have hlow := h.low
  -- a round that leaves the state as it was, with nothing above the position
  have hidle : ∀ again : Modest confirmations r s → s.sync.lastIndexedHeight = 0 → s.blocks.lookup 1 = none,
      Small s ∧ (false = false → Modest confirmations r s → Chained s) :=
    fun again => ⟨h, fun _ hmodest => h.chained (again hmodest)⟩
  unfold runRound
  cases htip : r.chainTip with
  | none =>
    refine hidle fun hmodest hzero => hmodest.none_above hzero ?_
    rintro ⟨⟨tip, hmem, -⟩, -⟩
    rw [htip] at hmem
    cases hmem
  | some chainTip =>
    have hsafe := hsingle chainTip htip
    have hreset : resetIfAhead chainTip s = s := if_neg (by omega)
    simp only [hreset]
    by_cases hle : chainTip - confirmations ≤ s.sync.lastIndexedHeight
    · rw [if_pos hle]
      refine hidle fun hmodest hzero => hmodest.none_above hzero ?_
      rintro ⟨⟨tip, hmem, hlt⟩, -⟩
      rw [htip] at hmem
      obtain rfl := Option.some.inj hmem
      omega
    · have hlast : s.sync.lastIndexedHeight = 0 := by omega
      have hcount : min (chainTip - confirmations) (0 + 100) - 0 = 1 := by omega
      rw [if_neg hle, hlast, hcount, indexHeights]
      simp only [Nat.zero_add]
      cases hanswer : (r.calls 1).answer with
      | failed =>
        simp only
        rw [if_neg (by omega)]
        refine hidle fun hmodest hzero => hmodest.none_above hzero ?_
        rintro ⟨-, block, hblock, -⟩
        rw [hanswer] at hblock
        cases hblock
      | served block =>
        simp only
        rw [if_neg (by simp [h.hash])]
        rcases hserves 1 block hanswer with rfl | ⟨header, coinbase, transactions, solutionReveal, rfl, hheight⟩
        · refine hidle fun hmodest hzero => hmodest.none_above hzero ?_
          rintro ⟨-, block, hblock, hheight⟩
          rw [hanswer] at hblock
          obtain rfl := Answer.served.inj hblock
          cases hheight
        · have hprocessed := processBlock_blockToJson json (r.calls 1) header coinbase transactions
            solutionReveal s.blocks
          simp only [hheight] at hprocessed
          rcases hprocessed with hresult | hresult | hresult
          · rw [hresult]
            exact ⟨h, nofun⟩
          · rw [hresult]
            refine ⟨⟨h.hash, h.low, fun height hrow => (h.written _).mp hrow, fun hone => ?_⟩, nofun⟩
            exact (h.written _).mpr rfl
          · rw [hresult]
            simp only [blockHashFromJson_blockToJson]
            have hwritten := h.write (rowOf json header)
            exact ⟨hwritten, fun _ _ => hwritten.chained nofun⟩

/-- While no second block is confirmed and a row left above the position is written again, the rows form a chain
after every round without an error of the store, and no block is added on another. -/
theorem chained_of_modest (json : Json) (confirmations : ℕ) (rounds : List Round) (hserves : ∀ r ∈ rounds, Serves r)
    (hmodest : ∀ e ∈ (machine json confirmations).trace rounds ⟨.default, []⟩, Modest confirmations e.1 e.2) :
    ∀ e ∈ (machine json confirmations).trace rounds ⟨.default, []⟩,
      ((runRound json confirmations e.1 e.2).2 = false → Chained (runRound json confirmations e.1 e.2).1) ∧
        ∀ height, ((runRound json confirmations e.1 e.2).1.blocks.lookup height).isSome → height = 1 := by
  have hstep : ∀ e ∈ (machine json confirmations).trace rounds ⟨.default, []⟩, Small e.2 →
      Small (runRound json confirmations e.1 e.2).1 ∧
        ((runRound json confirmations e.1 e.2).2 = false → Modest confirmations e.1 e.2 →
          Chained (runRound json confirmations e.1 e.2).1) :=
    fun e hmem hsmall => small_runRound (hserves e.1 (Machine.mem_of_mem_trace hmem)) (hmodest e hmem).single hsmall
  have hfresh : Small ⟨.default, []⟩ := ⟨rfl, Nat.zero_le 1, nofun, nofun⟩
  intro e hmem
  have hsmall : Small e.2 :=
    Machine.invariant_trace (fun e' hmem' hs => (hstep e' hmem' hs).1) hfresh e hmem
  obtain ⟨hnext, hchained⟩ := hstep e hmem hsmall
  exact ⟨fun herror => hchained herror (hmodest e hmem), hnext.rows⟩

/-! ### Two rows -/

/-- Every row is that of a header served in these rounds. -/
def RowsServed (json : Json) (rounds : List Round) (blocks : List (ℕ × Row)) : Prop :=
  ∀ e ∈ blocks, ∃ header, ServedIn rounds header ∧ e.2 = rowOf json header

variable {rounds : List Round}

theorem RowsServed.filter {blocks : List (ℕ × Row)} (h : RowsServed json rounds blocks) (p : ℕ × Row → Bool) :
    RowsServed json rounds (blocks.filter p) :=
  fun e he => h e (List.mem_of_mem_filter he)

theorem RowsServed.of_lookup {blocks : List (ℕ × Row)} (h : RowsServed json rounds blocks) {height : ℕ} {row : Row}
    (hrow : blocks.lookup height = some row) : ∃ header, ServedIn rounds header ∧ row = rowOf json header := by
  obtain ⟨before, after, rfl, -⟩ := List.lookup_eq_some_iff.mp hrow
  exact h (height, row) (List.mem_append_right before List.mem_cons_self)

theorem rowsServed_rollBack {call : Call} {parent : String} (h : RowsServed json rounds s.blocks) :
    RowsServed json rounds (rollBack call parent s).1.blocks := by
  unfold rollBack
  split_ifs
  · exact h
  · exact h
  · simp only
    split_ifs
    · exact h.filter _
    · exact h.filter _

theorem rowsServed_processBlock {height : ℕ} {block : Value} {blocks : List (ℕ × Row)} (hr : r ∈ rounds)
    (hserves : Serves r) (hanswer : (r.calls height).answer = .served block) (h : RowsServed json rounds blocks) :
    RowsServed json rounds (processBlock json (r.calls height) block blocks).2 := by
  rcases hserves height block hanswer with rfl | ⟨header, coinbase, transactions, solutionReveal, rfl, -⟩
  · exact h
  · have hserved : ServedIn rounds header := ⟨r, hr, height, coinbase, transactions, solutionReveal, hanswer⟩
    have hwritten : RowsServed json rounds
        ((header.height.toNat, rowOf json header) :: blocks.filter fun e => e.1 ≠ header.height.toNat) := by
      rintro e (- | ⟨-, he⟩)
      · exact ⟨header, hserved, rfl⟩
      · exact h.filter _ e he
    rcases processBlock_blockToJson json (r.calls height) header coinbase transactions solutionReveal blocks
      with hresult | hresult | hresult
    · rw [hresult]
      exact h
    · rw [hresult]
      exact hwritten
    · rw [hresult]
      exact hwritten

theorem rowsServed_indexHeights {chainTip : ℕ} (hr : r ∈ rounds) (hserves : Serves r) (count height : ℕ)
    (h : RowsServed json rounds s.blocks) :
    RowsServed json rounds (indexHeights json chainTip r.calls count height s).1.blocks := by
  induction count generalizing height s with
  | zero => exact h
  | succ count ih =>
    rw [indexHeights]
    cases hanswer : (r.calls height).answer with
    | failed =>
      simp only
      split_ifs
      · exact h
      · exact h
    | served block =>
      have hprocessed := rowsServed_processBlock hr hserves hanswer h
      simp only
      split_ifs
      · exact rowsServed_rollBack h
      · split
        next heq =>
          rw [heq] at hprocessed
          exact ih (height + 1) hprocessed
        next heq =>
          rw [heq] at hprocessed
          exact hprocessed
        next heq =>
          rw [heq] at hprocessed
          exact hprocessed

theorem rowsServed_runRound (hr : r ∈ rounds) (hserves : Serves r) (h : RowsServed json rounds s.blocks) :
    RowsServed json rounds (runRound json confirmations r s).1.blocks := by
  have hreset (chainTip : ℕ) : RowsServed json rounds (resetIfAhead chainTip s).blocks := by
    rw [resetIfAhead]
    split_ifs
    · exact h
    · exact h
  rw [runRound]
  split
  next => exact h
  next chainTip _ =>
    simp only
    split_ifs
    · exact hreset chainTip
    · exact rowsServed_indexHeights hr hserves _ _ (hreset chainTip)

/-- Where two rows form a chain, the JSON of a served header has the hash that another has for its parent. -/
theorem served_of_linked (hserves : ∀ r ∈ rounds, Serves r) {height : ℕ} {row next : Row}
    (hchained : Chained ((machine json confirmations).final rounds ⟨.default, []⟩))
    (hrow : ((machine json confirmations).final rounds ⟨.default, []⟩).blocks.lookup height = some row)
    (hnext : ((machine json confirmations).final rounds ⟨.default, []⟩).blocks.lookup (height + 1) = some next) :
    ∃ header later, ServedIn rounds header ∧ ServedIn rounds later ∧
      hexOfBytes (Hash.asBytes ⟨json.ext.blake3 (json.toVec (headerToJson header))⟩) =
        hexOfBytes later.prevHash.asBytes := by
  have hrows : RowsServed json rounds ((machine json confirmations).final rounds ⟨.default, []⟩).blocks := by
    refine Machine.invariant (P := fun s : IndexState => RowsServed json rounds s.blocks) (fun e hmem hs => ?_) nofun
    have hr := Machine.mem_of_mem_trace hmem
    exact rowsServed_runRound hr (hserves e.1 hr) hs
  obtain ⟨header, hserved, rfl⟩ := hrows.of_lookup hrow
  obtain ⟨later, hlater, rfl⟩ := hrows.of_lookup hnext
  exact ⟨header, later, hserved, hlater, (hchained.linked height _ _ hrow hnext).symm⟩

/-! ### A block and one on another chain -/

/-- A node with this header at its tip. -/
def roundOf (header : BlockHeader) : Round where
  chainTip := some header.height.toNat
  calls height :=
    ⟨.served (if height = header.height.toNat then blockToJson header .null (.array []) .null else .null),
      true, true, true, true, true⟩

theorem serves_roundOf (header : BlockHeader) : Serves (roundOf header) := by
  intro height served hanswer
  obtain rfl := Answer.served.inj hanswer
  by_cases heq : height = header.height.toNat
  · rw [if_pos heq]
    exact .inr ⟨header, _, _, _, rfl, heq.symm⟩
  · rw [if_neg heq]
    exact .inl rfl

/-- The row of the next header is added. -/
theorem runRound_roundOf {header : BlockHeader} (hnext : header.height.toNat = s.sync.lastIndexedHeight + 1)
    (hhash : s.sync.lastIndexedHash = "")
    (hunique : (rowOf json header).hash ∉
      (s.blocks.filter fun e => e.1 ≠ header.height.toNat).map fun e => e.2.hash) :
    runRound json 0 (roundOf header) s = (⟨⟨header.height.toNat, "", header.height.toNat⟩,
      (header.height.toNat, rowOf json header) :: s.blocks.filter fun e => e.1 ≠ header.height.toNat⟩, false) := by
  have hprocess (call : Call) (hblock : call.blockWritten = true) (hdetails : call.detailsWritten = true) :
      processBlock json call (blockToJson header .null (.array []) .null) s.blocks =
        (.done, (header.height.toNat, rowOf json header) ::
          s.blocks.filter fun e => e.1 ≠ header.height.toNat) := by
    have hrow : (⟨hexOfBytes (Hash.asBytes ⟨json.ext.blake3 (json.toVec (headerToJson header))⟩),
      hexOfBytes header.prevHash.asBytes⟩ : Row) = rowOf json header := rfl
    simp only [processBlock, blockHeight_blockToJson, blockHash_blockToJson, parentHash_blockToJson, hrow]
    rw [if_neg (by simp only [hblock, Bool.true_eq_false, false_or]; exact hunique),
      if_neg (by simp only [hdetails, Bool.true_eq_false, not_false_eq_true])]
  have hreset : resetIfAhead header.height.toNat s = s := if_neg (by omega)
  have hcount : min header.height.toNat (s.sync.lastIndexedHeight + 100) - s.sync.lastIndexedHeight = 0 + 1 := by
    omega
  simp only [runRound, roundOf, hreset, Nat.sub_zero]
  rw [if_neg (by omega), hcount, ← hnext, indexHeights]
  simp only [if_true]
  rw [if_neg (by simp [hhash]), hprocess _ rfl rfl]
  rfl

/-- The second block of a chain that does not have the block. -/
def later : BlockHeader := sampleHeader 2 forgedHash 1767225720

def bytesOf (text : String) : Bytes := text.toList.map fun c => UInt8.ofNat c.toNat

def zeros : Bytes := bytesOf "[0,0,0,0,0,0,0,0,0,0,0,0,0,0,0,0,0,0,0,0,0,0,0,0,0,0,0,0,0,0,0,0]"

def textBefore : Bytes :=
  bytesOf "\x7b\"commitment\":\x7b\"hash\":" ++ zeros ++ bytesOf ",\"problem_hash\":" ++ zeros ++
    bytesOf "\x7d,\"complexity_weight\":0.0,\"energy_estimate_joules\":0.0,\"height\":"

def textBetween : Bytes := bytesOf ",\"miner\":" ++ zeros ++ bytesOf ",\"nonce\":0,\"prev_hash\":"

def textAfter : Bytes :=
  bytesOf ",\"transactions_root\":" ++ zeros ++ bytesOf ",\"verify_time_us\":0,\"version\":1,\"work_score\":0.0\x7d"

/-- The JSON of a header like these. -/
def sampleText (height : UInt8) (prevHash timestamp : String) : Bytes :=
  textBefore ++ height :: (textBetween ++ bytesOf prevHash ++ bytesOf ",\"solution_quality\":0.0,\"solutions_root\":" ++
    zeros ++ bytesOf ",\"solve_time_us\":0,\"time_asymmetry_ratio\":0.0,\"timestamp\":" ++ bytesOf timestamp ++
    textAfter)

def blockText : Bytes := sampleText 49
  ("[205,252,42,199,146,59,252,30,161,187,144,133,81,109,56,248,56,3,137,171,214,194,210,149,215,29,66,159," ++
    "225,13,217,156]") "1767225660"

def laterText : Bytes := sampleText 50
  ("[26,33,172,49,253,154,88,239,98,25,134,170,123,93,147,127,237,251,61,61,163,32,83,233,3,97,223,201,198," ++
    "127,180,39]") "1767225720"

def blockDigest : Bytes32 := 0xcbca97560eaa1d6ec872b9db2f84ce4cdcfc852cd933fbc4b73ff92bbda568ea

def laterDigest : Bytes32 := 0x098b42320ae213442639b3f9f835308c311ffd83bd8c35f94f7b86be82c1563d

def sampleJson : Json where
  ext := Ext.ofTables [(blockText, blockDigest), (laterText, laterDigest)] []
  toVec header := if (header.field "height").asU64 = some 1 then blockText else laterText

theorem rowOf_block : rowOf sampleJson block =
    ⟨hexOfBytes (Hash.asBytes ⟨blockDigest⟩), hexOfBytes genesisHash.asBytes⟩ := by
  have hdigest : sampleJson.ext.blake3 blockText = blockDigest := by
    simp only [sampleJson, Ext.ofTables, List.lookup_cons_self, Option.getD_some]
  have htext : sampleJson.toVec (headerToJson block) = blockText := by
    simp only [sampleJson]
    exact if_pos rfl
  rw [rowOf, htext, hdigest]
  rfl

theorem rowOf_later : rowOf sampleJson later =
    ⟨hexOfBytes (Hash.asBytes ⟨laterDigest⟩), hexOfBytes forgedHash.asBytes⟩ := by
  have hne : laterText ≠ blockText := by
    intro heq
    have hrest := List.append_cancel_left heq
    exact absurd (List.cons.inj hrest).1 (by decide)
  have hdigest : sampleJson.ext.blake3 laterText = laterDigest := by
    simp only [sampleJson, Ext.ofTables]
    rw [List.lookup_cons, beq_eq_false_iff_ne.mpr hne]
    simp only [List.lookup_cons_self, Option.getD_some]
  have hheight : ((headerToJson later).field "height").asU64 = some 2 := rfl
  have htext : sampleJson.toVec (headerToJson later) = laterText := by
    simp only [sampleJson, hheight]
    exact if_neg (by decide)
  rw [rowOf, htext, hdigest]
  rfl

theorem hexOfBytes_ne {a b : Bytes}
    (h : ((a.map fun x => x.toNat).flatMap fun x => [hexDigit (x / 16), hexDigit (x % 16)]) ≠
      (b.map fun x => x.toNat).flatMap fun x => [hexDigit (x / 16), hexDigit (x % 16)]) :
    hexOfBytes a ≠ hexOfBytes b := fun heq => h (String.ofList_injective heq)

/-- The round with the block. -/
theorem runRound_block : runRound sampleJson 0 (roundOf block) ⟨.default, []⟩ =
    (⟨⟨1, "", 1⟩, [(1, rowOf sampleJson block)]⟩, false) :=
  runRound_roundOf rfl rfl List.not_mem_nil

/-- The round with the other block, which is added to the first one. -/
theorem runRound_later : runRound sampleJson 0 (roundOf later) ⟨⟨1, "", 1⟩, [(1, rowOf sampleJson block)]⟩ =
    (⟨⟨2, "", 2⟩, [(2, rowOf sampleJson later), (1, rowOf sampleJson block)]⟩, false) := by
  refine runRound_roundOf rfl rfl ?_
  rw [rowOf_later, rowOf_block]
  intro hmem
  exact hexOfBytes_ne (by decide +kernel) (List.mem_singleton.mp hmem)

/-- The index of the one block. -/
theorem chained_of_modest_block : Chained (runRound sampleJson 0 (roundOf block) ⟨.default, []⟩).1 := by
  have hserves : ∀ r ∈ [roundOf block], Serves r := by
    intro r hr
    rw [List.mem_singleton.mp hr]
    exact serves_roundOf block
  have htrace : (machine sampleJson 0).trace [roundOf block] ⟨.default, []⟩ = [(roundOf block, ⟨.default, []⟩)] :=
    rfl
  have hmodest : ∀ e ∈ (machine sampleJson 0).trace [roundOf block] ⟨.default, []⟩, Modest 0 e.1 e.2 := by
    intro e he
    rw [htrace] at he
    rw [List.mem_singleton.mp he]
    refine ⟨fun chainTip htip => ?_, nofun⟩
    obtain rfl := Option.some.inj htip
    decide
  refine (chained_of_modest sampleJson 0 [roundOf block] hserves hmodest (roundOf block, ⟨.default, []⟩) ?_).1 ?_
  · rw [htrace]
    exact List.mem_cons_self
  · rw [runRound_block]

/-- The node goes over to the other chain, and the indexer adds its second block to the first one of the old. -/
theorem reorganisation_unnoticed : Serves (roundOf block) ∧ Serves (roundOf later) ∧
    (runRound sampleJson 0 (roundOf block) ⟨.default, []⟩).2 = false ∧
    (runRound sampleJson 0 (roundOf later) (runRound sampleJson 0 (roundOf block) ⟨.default, []⟩).1).2 = false ∧
    (runRound sampleJson 0 (roundOf later) (runRound sampleJson 0 (roundOf block) ⟨.default, []⟩).1).1.blocks =
      [(2, rowOf sampleJson later), (1, rowOf sampleJson block)] ∧
    ¬Chained ((machine sampleJson 0).final [roundOf block, roundOf later] ⟨.default, []⟩) := by
  have hfinal : (machine sampleJson 0).final [roundOf block, roundOf later] ⟨.default, []⟩ =
      (runRound sampleJson 0 (roundOf later) (runRound sampleJson 0 (roundOf block) ⟨.default, []⟩).1).1 := by
    rw [Machine.final_cons rfl, Machine.final_cons rfl, Machine.final_nil]
    simp only [machine]
  rw [hfinal, runRound_block, runRound_later]
  refine ⟨serves_roundOf block, serves_roundOf later, rfl, rfl, rfl, fun h => ?_⟩
  have hlinked := h.linked 1 (rowOf sampleJson block) (rowOf sampleJson later) rfl rfl
  rw [rowOf_later, rowOf_block] at hlinked
  exact hexOfBytes_ne (by decide +kernel) hlinked

end Coinjecture.ApiServer.IndexRuns
