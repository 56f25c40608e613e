import Coinjecture.Lib.Words
import Coinjecture.Node.LightClient

/-! # Header synchronisation of a light client

A light client asks a full node for the headers above its best one, at most 2000 in one request, and stores
those that it is sent. Nobody checks that an answer was asked for, so that answers may be late, repeated or
lost, and the best header is the tip of the last FlyClient proof, which is not stored.

* `header_sync_rounds` : the client always has a prefix of the headers of the full node; as long as its best
  header is among them and less than 2000 below the last one, every answered request brings 2000 headers or
  all that there are, and otherwise no request brings any. -/

namespace Coinjecture.Node.HeaderSync

open Lib.Words
open Core.Types Core.Blocks Core.Extern Core.Crypto
open Node.LightSync Node.LightProofs Node.LightSoundness
open Node.LightClient

def MAX_HEADERS_PER_REQUEST : UInt64 := 2000

def HEADER_REQUEST_TIMEOUT_SECS : ℕ := 30

inductive LightClientMessage where
  | GetHeaders (fromHeight count requestId : UInt64)
  | Headers (headers : List BlockHeader) (requestId : UInt64) (hasMore : Bool)
  deriving DecidableEq

/-- Instants are nanoseconds. -/
structure HeaderRequest where
  fromHeight : UInt64
  count : UInt64
  requestedAt : ℕ
  peerId : String

/-- The entries of `pendingRequests`, which is a map, are listed in some order. -/
structure LightClientSync where
  state : LightClientState
  pendingRequests : List (UInt64 × HeaderRequest)
  nextRequestId : UInt64
  fullNodePeers : List String

def bestHeight (c : LightClientState) : UInt64 := c.bestHeader.elim 0 BlockHeader.height

namespace LightClientSync

variable (ext : Ext)

def new (state : LightClientState) : LightClientSync := ⟨state, [], 1, []⟩

def addFullNodePeer (peerId : String) (s : LightClientSync) : LightClientSync :=
  if peerId ∈ s.fullNodePeers then s else { s with fullNodePeers := s.fullNodePeers ++ [peerId] }

def removeFullNodePeer (peerId : String) (s : LightClientSync) : LightClientSync :=
  { s with fullNodePeers := s.fullNodePeers.filter fun p => p ≠ peerId }

def createHeaderRequest (fromHeight count : UInt64) (peerId : String) (now : ℕ) (s : LightClientSync) :
    LightClientMessage × LightClientSync :=
  let requestId := s.nextRequestId
  let request := ⟨fromHeight, min count MAX_HEADERS_PER_REQUEST, now, peerId⟩
  (.GetHeaders fromHeight (min count MAX_HEADERS_PER_REQUEST) requestId,
    { s with
      nextRequestId := requestId + 1
      pendingRequests := (requestId, request) :: s.pendingRequests.filter fun e => e.1 ≠ requestId })

def handleHeaders (headers : List BlockHeader) (requestId : UInt64) (s : LightClientSync) :
    Except LightClientError ℕ × LightClientSync :=
  let (stored, state) := s.state.storeHeaders ext headers
  (stored, { s with
    pendingRequests := s.pendingRequests.filter fun e => e.1 ≠ requestId
    state := state })

def handleNewHeader (header : BlockHeader) (s : LightClientSync) :
    Except LightClientError Bool × LightClientSync :=
  let (stored, state) := s.state.storeHeader ext header
  (stored, { s with state := state })

def getSyncRequest (networkHeight : UInt64) (s : LightClientSync) : Option (UInt64 × UInt64) :=
  let localHeight := bestHeight s.state
  if networkHeight ≤ localHeight then none
  else some (localHeight + 1, min (networkHeight - localHeight) MAX_HEADERS_PER_REQUEST)

def isTimedOut (now : ℕ) (request : HeaderRequest) : Bool :=
  decide (HEADER_REQUEST_TIMEOUT_SECS * 1000000000 < now - request.requestedAt)

def cleanupTimedOutRequests (now : ℕ) (s : LightClientSync) : List UInt64 × LightClientSync :=
  ((s.pendingRequests.filter fun e => isTimedOut now e.2).map Prod.fst,
    { s with pendingRequests := s.pendingRequests.filter fun e => !isTimedOut now e.2 })

/-- The next headers are asked for, unless the best one is high enough. -/
def sync (networkHeight : UInt64) (peerId : String) (now : ℕ) (s : LightClientSync) :
    Option LightClientMessage × LightClientSync :=
  match s.getSyncRequest networkHeight with
  | none => (none, s)
  | some (fromHeight, count) =>
    let (message, s) := s.createHeaderRequest fromHeight count peerId now
    (some message, s)

end LightClientSync

/-- What the full node reads its headers with, and how far. -/
structure HeaderServer where
  getHeader : UInt64 → Option BlockHeader
  bestHeight : UInt64

namespace HeaderServer

def updateBestHeight (height : UInt64) (s : HeaderServer) : HeaderServer := { s with bestHeight := height }

/-- The loop of `handle_get_headers`. -/
def headersFrom (s : HeaderServer) : ℕ → UInt64 → List BlockHeader
  | 0, _ => []
  | n + 1, height =>
    if s.bestHeight < height then []
    else match s.getHeader height with
      | none => []
      | some header => header :: headersFrom s n (height + 1)

def handleGetHeaders (fromHeight count requestId : UInt64) (s : HeaderServer) : LightClientMessage :=
  let count := min count MAX_HEADERS_PER_REQUEST
  .Headers (s.headersFrom ((fromHeight + count).toNat - fromHeight.toNat) fromHeight) requestId
    (fromHeight + count ≤ s.bestHeight)

/-- The answer to a request. -/
def answer (s : HeaderServer) : LightClientMessage → Option LightClientMessage
  | .GetHeaders fromHeight count requestId => some (s.handleGetHeaders fromHeight count requestId)
  | .Headers .. => none

end HeaderServer

/-! ### Runs -/

/-- A client, a full node, and all that they have sent. -/
structure Net where
  client : LightClientSync
  server : HeaderServer
  requests : List LightClientMessage
  answers : List LightClientMessage

inductive Event where
  | sync (networkHeight : UInt64) (peerId : String) (now : ℕ)
  | serve (request : LightClientMessage)
  | deliver (answer : LightClientMessage)
  | announce (height : UInt64)
  | prove (proof : FlyClientProof)
  | updateBestHeight (height : UInt64)
  | cleanup (now : ℕ)

/-- The full node has this header, and may show it. -/
def HeaderServer.shows (s : HeaderServer) (header : BlockHeader) : Bool :=
  decide (header.height ≤ s.bestHeight ∧ s.getHeader header.height = some header)

namespace Net

variable (ext : Ext)

def step (net : Net) : Event → Net
  | .sync networkHeight peerId now =>
    let (message, client) := net.client.sync networkHeight peerId now
    { net with client := client, requests := net.requests ++ message.toList }
  | .serve request =>
    if request ∈ net.requests then
      { net with answers := net.answers ++ (net.server.answer request).toList }
    else net
  | .deliver (.Headers headers requestId hasMore) =>
    if .Headers headers requestId hasMore ∈ net.answers then
      { net with client := (net.client.handleHeaders ext headers requestId).2 }
    else net
  | .deliver (.GetHeaders ..) => net
  | .announce height =>
    match net.server.getHeader height with
    | none => net
    | some header =>
      if net.server.shows header then { net with client := (net.client.handleNewHeader ext header).2 } else net
  | .prove proof =>
    if net.server.shows proof.tipHeader then
      { net with client := { net.client with state := (net.client.state.verifyFlyclientProof ext proof).2 } }
    else net
  | .updateBestHeight height => { net with server := net.server.updateBestHeight height }
  | .cleanup now => { net with client := (net.client.cleanupTimedOutRequests now).2 }

/-- The client has the genesis header. -/
def start (mode : LightSyncMode) (genesis : BlockHeader) (server : HeaderServer) : Net :=
  ⟨.new (.withMode (BlockHeader.hash ext genesis) genesis mode), server, [], []⟩

end Net

/-- The next headers are asked for, the request is answered, and the answer arrives; anything may happen
before and in between. -/
structure Round where
  before : List Event
  networkHeight : UInt64
  peerId : String
  now : ℕ
  requested : List Event
  answered : List Event

variable (ext : Ext)

def Net.round (net : Net) (r : Round) : Net :=
  let asking := r.before.foldl (Net.step ext) net
  let asked := asking.step ext (.sync r.networkHeight r.peerId r.now)
  let reached := r.requested.foldl (Net.step ext) asked
  match (asking.client.sync r.networkHeight r.peerId r.now).1 with
  | none => r.answered.foldl (Net.step ext) reached
  | some request =>
    let served := reached.step ext (.serve request)
    let waited := r.answered.foldl (Net.step ext) served
    match reached.server.answer request with
    | none => waited
    | some answer => waited.step ext (.deliver answer)

/-! ### The headers of the full node -/

/-- Headers from height zero on, each the parent of the next one, no two of them with one hash. -/
structure Chained (headers : List BlockHeader) : Prop where
  height : ∀ (i : ℕ) (header : BlockHeader), headers[i]? = some header → header.height.toNat = i
  parent : ∀ (i : ℕ) (header child : BlockHeader), headers[i]? = some header → headers[i + 1]? = some child →
    child.prevHash = BlockHeader.hash ext header
  distinct : (headers.map (BlockHeader.hash ext)).Nodup

/-- The client has the headers up to this one, and this best header. -/
structure Holds (headers : List BlockHeader) (last best : ℕ) (c : LightClientState) : Prop where
  last_lt : last < headers.length
  best_lt : best < headers.length
  byHash : ∀ hash header, c.headersByHash hash = some header ↔
    header ∈ headers.take (last + 1) ∧ BlockHeader.hash ext header = hash
  byHeight : ∀ i, c.headersByHeight i = (headers.take (last + 1))[i]?.map (BlockHeader.hash ext)
  bestHeader : c.bestHeader = headers[best]?
  synced : c.headersSynced = last + 1

variable {ext} {headers : List BlockHeader}

theorem Chained.index_inj (h : Chained ext headers) {i j : ℕ} {header header' : BlockHeader}
    (hi : headers[i]? = some header) (hj : headers[j]? = some header')
    (hsame : BlockHeader.hash ext header = BlockHeader.hash ext header') : i = j := by
  have hi' : (headers.map (BlockHeader.hash ext))[i]? = some (BlockHeader.hash ext header) := by
    rw [List.getElem?_map, hi, Option.map_some]
  have hj' : (headers.map (BlockHeader.hash ext))[j]? = some (BlockHeader.hash ext header) := by
    rw [List.getElem?_map, hj, Option.map_some, hsame]
  obtain ⟨hlt, -⟩ := List.getElem?_eq_some_iff.mp hi'
  exact (List.getElem?_inj hlt h.distinct).mp (hi'.trans hj'.symm)

theorem mem_take_iff {n : ℕ} {header : BlockHeader} :
    header ∈ headers.take n ↔ ∃ i < n, headers[i]? = some header := by
  rw [List.mem_iff_getElem?]
  constructor
  · rintro ⟨i, hi⟩
    rw [List.getElem?_take] at hi
    split_ifs at hi with hlt
    exact ⟨i, hlt, hi⟩
  · rintro ⟨i, hlt, hi⟩
    refine ⟨i, ?_⟩
    rw [List.getElem?_take, if_pos hlt, hi]

namespace Holds

variable {last best : ℕ} {c : LightClientState} (h : Holds ext headers last best c) (hchain : Chained ext headers)

include h hchain

theorem isSome_iff {i : ℕ} {header : BlockHeader} (hi : headers[i]? = some header) :
    (c.headersByHash (BlockHeader.hash ext header)).isSome = true ↔ i ≤ last := by
  rw [Option.isSome_iff_exists]
  constructor
  · rintro ⟨found, hfound⟩
    obtain ⟨hmem, hsame⟩ := (h.byHash _ _).mp hfound
    obtain ⟨j, hj, hget⟩ := mem_take_iff.mp hmem
    have hij : i = j := hchain.index_inj hi hget hsame.symm
    omega
  · intro hle
    have hmem : header ∈ headers.take (last + 1) := mem_take_iff.mpr ⟨i, by omega, hi⟩
    exact ⟨header, (h.byHash _ _).mpr ⟨hmem, rfl⟩⟩

theorem isOrphan_iff {i : ℕ} {header : BlockHeader} (hi : headers[i]? = some header) :
    c.isOrphan header = true ↔ last + 1 < i := by
  have hheight := hchain.height i header hi
  rw [LightClientState.isOrphan, Bool.and_eq_true, decide_eq_true_iff, UInt64.lt_iff_toNat_lt, hheight]
  cases i with
  | zero => simp
  | succ j =>
    obtain ⟨hlt, -⟩ := List.getElem?_eq_some_iff.mp hi
    have hj : headers[j]? = some headers[j] := List.getElem?_eq_getElem (by omega)
    rw [hchain.parent j _ _ hj hi]
    have hknown := h.isSome_iff hchain hj
    rw [← Option.not_isSome, Bool.not_eq_true', ← Bool.not_eq_true, hknown]
    simp

theorem storeHeader_known {i : ℕ} {header : BlockHeader} (hi : headers[i]? = some header) (hle : i ≤ last) :
    c.storeHeader ext header = (.ok false, c) := by
  have horphan : ¬ c.isOrphan header = true := by
    rw [h.isOrphan_iff hchain hi]
    omega
  unfold LightClientState.storeHeader
  rw [if_neg horphan, if_pos ((h.isSome_iff hchain hi).mpr hle)]

theorem storeHeader_orphan {i : ℕ} {header : BlockHeader} (hi : headers[i]? = some header) (hlt : last + 1 < i) :
    c.storeHeader ext header = (.error (.MissingParent header.prevHash), c) := by
  unfold LightClientState.storeHeader
  rw [if_pos ((h.isOrphan_iff hchain hi).mpr hlt)]

theorem insert {header : BlockHeader} (hi : headers[last + 1]? = some header) :
    Holds ext headers (last + 1) (max best (last + 1)) (c.insert ext header) := by
  obtain ⟨hlt, -⟩ := List.getElem?_eq_some_iff.mp hi
  have hheight := hchain.height _ header hi
  have htake : headers.take (last + 1 + 1) = headers.take (last + 1) ++ [header] := by
    rw [List.take_add_one, hi, Option.toList_some]
  have hbest_lt := h.best_lt
  have hbest : headers[best]? = some headers[best] := List.getElem?_eq_getElem hbest_lt
  refine ⟨hlt, by omega, fun hash found => ?_, fun i => ?_, ?_, ?_⟩
  · by_cases heq : hash = BlockHeader.hash ext header
    · subst heq
      have hself : (c.insert ext header).headersByHash (BlockHeader.hash ext header) = some header :=
        Function.update_self ..
      rw [hself, htake, List.mem_append, List.mem_singleton]
      constructor
      · intro hsome
        obtain rfl := Option.some.inj hsome
        exact ⟨.inr rfl, rfl⟩
      · rintro ⟨hmem | rfl, hsame⟩
        · obtain ⟨j, hj, hget⟩ := mem_take_iff.mp hmem
          have hj' : j = last + 1 := hchain.index_inj hget hi hsame
          omega
        · rfl
    · have hother : (c.insert ext header).headersByHash hash = c.headersByHash hash :=
        Function.update_of_ne heq ..
      rw [hother, h.byHash, htake, List.mem_append, List.mem_singleton]
      constructor
      · rintro ⟨hmem, hsame⟩
        exact ⟨.inl hmem, hsame⟩
      · rintro ⟨hmem | rfl, hsame⟩
        · exact ⟨hmem, hsame⟩
        · exact absurd hsame.symm heq
  · by_cases heq : i = last + 1
    · subst heq
      have hself : (c.insert ext header).headersByHeight (last + 1) = some (BlockHeader.hash ext header) := by
        rw [← hheight]
        exact Function.update_self ..
      rw [hself, List.getElem?_take, if_pos (by omega), hi, Option.map_some]
    · have hother : (c.insert ext header).headersByHeight i = c.headersByHeight i :=
        Function.update_of_ne (by omega) ..
      rw [hother, h.byHeight, List.getElem?_take, List.getElem?_take]
      split_ifs
      · rfl
      · omega
      · omega
      · rfl
  · have hhigher : (c.insert ext header).bestHeader =
        if c.bestHeader.all fun b => b.height < header.height then some header else c.bestHeader := rfl
    have hbest' := hchain.height best _ hbest
    rw [hhigher, h.bestHeader, hbest]
    simp only [Option.all_some, decide_eq_true_eq, UInt64.lt_iff_toNat_lt, hbest', hheight]
    split_ifs with hcmp
    · rw [max_eq_right (by omega), hi]
    · rw [max_eq_left (by omega), hbest]
  · have hsynced : (c.insert ext header).headersSynced = c.headersSynced + 1 := rfl
    rw [hsynced, h.synced]

theorem storeHeader_next {header : BlockHeader} (hi : headers[last + 1]? = some header) :
    c.storeHeader ext header = (.ok true, c.insert ext header) := by
  have horphan : ¬ c.isOrphan header = true := by
    rw [h.isOrphan_iff hchain hi]
    omega
  have hknown : ¬ (c.headersByHash (BlockHeader.hash ext header)).isSome = true := by
    rw [h.isSome_iff hchain hi]
    omega
  unfold LightClientState.storeHeader
  rw [if_neg horphan, if_neg hknown]

end Holds

/-! ### What is stored of an answer -/

/-- The header after the last one is among so many from the first one. -/
def Reaching (headers : List BlockHeader) (last first count : ℕ) : Prop :=
  first ≤ last + 1 ∧ last + 1 < min (first + count) headers.length

section Store

variable {last best : ℕ} {c : LightClientState}

theorem storeHeaders_known {header : BlockHeader} {rest : List BlockHeader} {c' : LightClientState} {new : Bool}
    (hstored : c.storeHeader ext header = (.ok new, c')) :
    (c.storeHeaders ext (header :: rest)).2 = (c'.storeHeaders ext rest).2 := by
  rw [LightClientState.storeHeaders, hstored]

theorem storeHeaders_orphan {header : BlockHeader} {rest : List BlockHeader} {e : LightClientError}
    (hstored : c.storeHeader ext header = (.error e, c)) : (c.storeHeaders ext (header :: rest)).2 = c := by
  rw [LightClientState.storeHeaders, hstored]

theorem take_drop_cons {first count : ℕ} {header : BlockHeader} (hfirst : headers[first]? = some header) :
    (headers.drop first).take (count + 1) = header :: (headers.drop (first + 1)).take count := by
  obtain ⟨hlt, hget⟩ := List.getElem?_eq_some_iff.mp hfirst
  rw [List.drop_eq_getElem_cons hlt, List.take_succ_cons, hget]

/-- A run of headers that goes on from the last one is stored to its end. -/
theorem Holds.storeHeaders_reaching (hchain : Chained ext headers) {first count : ℕ}
    (h : Holds ext headers last best c) (hreach : Reaching headers last first count) :
    Holds ext headers (min (first + count) headers.length - 1)
      (max best (min (first + count) headers.length - 1))
      (c.storeHeaders ext ((headers.drop first).take count)).2 := by
  induction count generalizing first last best c with
  | zero =>
    obtain ⟨hfirst, hlt⟩ := hreach
    omega
  | succ n ih =>
    obtain ⟨hfirst, hlt⟩ := hreach
    have hin : headers[first]? = some headers[first] := List.getElem?_eq_getElem (by omega)
    have hend : first + (n + 1) = first + 1 + n := by omega
    rw [take_drop_cons hin]
    rcases Nat.lt_or_ge last first with hnext | hknown
    · obtain rfl : first = last + 1 := by omega
      rw [storeHeaders_known (h.storeHeader_next hchain hin), hend]
      have hstored := h.insert hchain hin
      by_cases hmore : last + 1 + 1 < min (last + 1 + 1 + n) headers.length
      · have hrest := ih hstored ⟨le_rfl, hmore⟩
        have hmax : max (max best (last + 1)) (min (last + 1 + 1 + n) headers.length - 1) =
            max best (min (last + 1 + 1 + n) headers.length - 1) := by omega
        rw [hmax] at hrest
        exact hrest
      · have hnil : (headers.drop (last + 1 + 1)).take n = [] := by
          rcases Nat.eq_zero_or_pos n with rfl | hpos
          · rfl
          · rw [List.drop_of_length_le (by omega), List.take_nil]
        have hlast : min (last + 1 + 1 + n) headers.length - 1 = last + 1 := by omega
        rw [hnil, hlast]
        exact hstored
    · rw [storeHeaders_known (h.storeHeader_known hchain hin hknown), hend]
      exact ih h ⟨by omega, by omega⟩

/-- Of any other run of headers none is stored. -/
theorem Holds.storeHeaders_idle (hchain : Chained ext headers) {first count : ℕ}
    (h : Holds ext headers last best c) (hidle : ¬ Reaching headers last first count) :
    (c.storeHeaders ext ((headers.drop first).take count)).2 = c := by
  induction count generalizing first with
  | zero => rfl
  | succ n ih =>
    by_cases hlt : first < headers.length
    · have hin : headers[first]? = some headers[first] := List.getElem?_eq_getElem hlt
      rw [take_drop_cons hin]
      rcases Nat.lt_or_ge (last + 1) first with hfar | hnear
      · exact storeHeaders_orphan (h.storeHeader_orphan hchain hin hfar)
      · have hend : first + (n + 1) = first + 1 + n := by omega
        have hknown : first ≤ last := by
          by_contra hnew
          exact hidle ⟨hnear, by have := h.last_lt; omega⟩
        rw [storeHeaders_known (h.storeHeader_known hchain hin hknown)]
        refine ih fun hreach => hidle ⟨hnear, ?_⟩
        rw [hend]
        exact hreach.2
    · rw [List.drop_of_length_le (by omega), List.take_nil]
      rfl

end Store

/-! ### What the full node sends -/

/-- The full node reads these headers. -/
def Reads (server : HeaderServer) (headers : List BlockHeader) : Prop :=
  ∀ height, server.getHeader height = headers[height.toNat]?

theorem headersFrom_of_reads {server : HeaderServer} (h : Reads server headers) (hshort : headers.length < 2 ^ 64)
    (n : ℕ) (height : UInt64) : server.headersFrom n height =
      (headers.drop height.toNat).take (min n (server.bestHeight.toNat + 1 - height.toNat)) := by
  induction n generalizing height with
  | zero => rw [HeaderServer.headersFrom, Nat.zero_min, List.take_zero]
  | succ n ih =>
    rw [HeaderServer.headersFrom, h height]
    by_cases habove : server.bestHeight < height
    · have hzero : min (n + 1) (server.bestHeight.toNat + 1 - height.toNat) = 0 := by
        rw [UInt64.lt_iff_toNat_lt] at habove
        omega
      rw [if_pos habove, hzero, List.take_zero]
    · rw [if_neg habove]
      rw [UInt64.lt_iff_toNat_lt] at habove
      cases hget : headers[height.toNat]? with
      | none =>
        rw [List.drop_of_length_le (List.getElem?_eq_none_iff.mp hget), List.take_nil]
      | some header =>
        obtain ⟨hlt, -⟩ := List.getElem?_eq_some_iff.mp hget
        have hnext : (height + 1).toNat = height.toNat + 1 := by
          rw [UInt64.toNat_add, UInt64.toNat_one]
          omega
        have hcount : min (n + 1) (server.bestHeight.toNat + 1 - height.toNat) =
            min n (server.bestHeight.toNat + 1 - (height + 1).toNat) + 1 := by
          rw [hnext]
          omega
        simp only
        rw [ih, hcount, take_drop_cons hget, hnext]

/-- A request that the client plans. -/
def Planned (headers : List BlockHeader) : LightClientMessage → Prop
  | .GetHeaders fromHeight count _ => fromHeight.toNat ≤ headers.length ∧ count.toNat ≤ 2000
  | .Headers .. => False

/-- An answer with a run of the headers. -/
def Served (headers : List BlockHeader) : LightClientMessage → Prop
  | .GetHeaders .. => False
  | .Headers sent _ _ => ∃ first count, sent = (headers.drop first).take count

theorem answer_of_planned {server : HeaderServer} (h : Reads server headers)
    (hshort : headers.length + 2000 < 2 ^ 64) {fromHeight count requestId : UInt64}
    (hplanned : Planned headers (.GetHeaders fromHeight count requestId)) :
    ∃ hasMore, server.answer (.GetHeaders fromHeight count requestId) = some (.Headers
      ((headers.drop fromHeight.toNat).take
        (min count.toNat (server.bestHeight.toNat + 1 - fromHeight.toNat))) requestId hasMore) := by
  obtain ⟨hfrom, hcount⟩ := hplanned
  have hmin : (min count MAX_HEADERS_PER_REQUEST).toNat = count.toNat := by
    rw [toNat_min]
    exact min_eq_left hcount
  have hspan : (fromHeight + min count MAX_HEADERS_PER_REQUEST).toNat - fromHeight.toNat = count.toNat := by
    rw [UInt64.toNat_add, hmin]
    omega
  refine ⟨fromHeight + min count MAX_HEADERS_PER_REQUEST ≤ server.bestHeight, ?_⟩
  rw [HeaderServer.answer, HeaderServer.handleGetHeaders, hspan, headersFrom_of_reads h (by omega)]

/-! ### What a run does -/

/-- The client's headers are among those of the full node, and so is all that is sent. -/
structure Inv (ext : Ext) (headers : List BlockHeader) (last best : ℕ) (net : Net) : Prop where
  holds : Holds ext headers last best net.client.state
  reads : Reads net.server headers
  requests : ∀ m ∈ net.requests, Planned headers m
  answers : ∀ m ∈ net.answers, Served headers m

/-- Nothing changes, or the last header is higher, and the best one is no lower than it. -/
def Moves (last best last' best' : ℕ) : Prop :=
  (last' = last ∧ best' = best) ∨ (last < last' ∧ best' = max best last')

theorem Moves.trans {k b k' b' k'' b'' : ℕ} (h : Moves k b k' b') (h' : Moves k' b' k'' b'') :
    Moves k b k'' b'' := by
  unfold Moves at *
  omega

def Event.proves : Event → Bool
  | .prove _ => true
  | _ => false

section Step

variable {last best : ℕ} {net : Net}

theorem toNat_bestHeight (hchain : Chained ext headers) {c : LightClientState}
    (h : Holds ext headers last best c) : (bestHeight c).toNat = best := by
  have hlt := h.best_lt
  have hbest : headers[best]? = some headers[best] := List.getElem?_eq_getElem hlt
  rw [bestHeight, h.bestHeader, hbest, Option.elim_some]
  exact hchain.height best _ hbest

theorem requests_sync (networkHeight : UInt64) (peerId : String) (now : ℕ) :
    (net.step ext (.sync networkHeight peerId now)).requests =
      net.requests ++ (net.client.sync networkHeight peerId now).1.toList :=
  rfl

/-- The request for the headers above the best one. -/
theorem sync_spec (hchain : Chained ext headers) (hshort : headers.length + 2000 < 2 ^ 64)
    {client : LightClientSync} (h : Holds ext headers last best client.state) (networkHeight : UInt64)
    (peerId : String) (now : ℕ) :
    (client.sync networkHeight peerId now).2.state = client.state ∧
      if networkHeight.toNat ≤ best then (client.sync networkHeight peerId now).1 = none
      else ∃ fromHeight count requestId,
        (client.sync networkHeight peerId now).1 = some (.GetHeaders fromHeight count requestId) ∧
          fromHeight.toNat = best + 1 ∧ count.toNat = min (networkHeight.toNat - best) 2000 := by
  have hbest := toNat_bestHeight hchain h
  have hlt := h.best_lt
  unfold LightClientSync.sync LightClientSync.getSyncRequest
  by_cases hlow : networkHeight ≤ bestHeight client.state
  · rw [UInt64.le_iff_toNat_le, hbest] at hlow
    simp only [UInt64.le_iff_toNat_le, hbest, if_pos hlow]
    exact ⟨trivial, trivial⟩
  · have hhigh : ¬ networkHeight.toNat ≤ best := by
      rw [UInt64.le_iff_toNat_le, hbest] at hlow
      exact hlow
    rw [if_neg hlow, if_neg hhigh]
    refine ⟨rfl, _, _, _, rfl, ?_, ?_⟩
    · rw [UInt64.toNat_add, UInt64.toNat_one, hbest]
      omega
    · have hsub : (networkHeight - bestHeight client.state).toNat = networkHeight.toNat - best := by
        rw [UInt64.toNat_sub_of_le _ _ (by rw [UInt64.le_iff_toNat_le]; omega), hbest]
      rw [toNat_min, toNat_min, hsub]
      have hmax : MAX_HEADERS_PER_REQUEST.toNat = 2000 := rfl
      omega

theorem Holds.congr {c c' : LightClientState} (h : Holds ext headers last best c)
    (hhash : c'.headersByHash = c.headersByHash) (hheight : c'.headersByHeight = c.headersByHeight)
    (hbest : c'.bestHeader = c.bestHeader) (hsynced : c'.headersSynced = c.headersSynced) :
    Holds ext headers last best c' where
  last_lt := h.last_lt
  best_lt := h.best_lt
  byHash hash header := by rw [hhash, h.byHash]
  byHeight i := by rw [hheight, h.byHeight]
  bestHeader := hbest.trans h.bestHeader
  synced := hsynced.trans h.synced

/-- An accepted proof sets the best header, and nothing else that is looked at. -/
theorem Holds.verifyFlyclientProof {c : LightClientState} (h : Holds ext headers last best c)
    {proof : FlyClientProof} {i : ℕ} (hi : headers[i]? = some proof.tipHeader) :
    ∃ best', Holds ext headers last best' (c.verifyFlyclientProof ext proof).2 := by
  obtain ⟨hlt, -⟩ := List.getElem?_eq_some_iff.mp hi
  unfold LightClientState.verifyFlyclientProof
  split
  · exact ⟨best, h⟩
  · split
    · exact ⟨best, h⟩
    · simp only
      split_ifs
      · exact ⟨i, ⟨h.last_lt, hlt, h.byHash, h.byHeight, hi.symm, h.synced⟩⟩
      · exact ⟨best, h.congr rfl rfl rfl rfl⟩

/-- Whatever arrives, it is stored to its end or not at all. -/
theorem Holds.moves (hchain : Chained ext headers) {c : LightClientState} (h : Holds ext headers last best c)
    (first count : ℕ) : ∃ last' best',
      Holds ext headers last' best' (c.storeHeaders ext ((headers.drop first).take count)).2 ∧
        Moves last best last' best' := by
  by_cases hreach : Reaching headers last first count
  · have hlt := hreach.2
    exact ⟨_, _, h.storeHeaders_reaching hchain hreach, .inr ⟨by omega, rfl⟩⟩
  · rw [h.storeHeaders_idle hchain hreach]
    exact ⟨last, best, h, .inl ⟨rfl, rfl⟩⟩

variable (hchain : Chained ext headers) (hshort : headers.length + 2000 < 2 ^ 64)
  (h : Inv ext headers last best net)

include hchain hshort h

theorem Inv.sync (networkHeight : UInt64) (peerId : String) (now : ℕ) :
    Inv ext headers last best (net.step ext (.sync networkHeight peerId now)) := by
  obtain ⟨hstate, hmessage⟩ := sync_spec hchain hshort h.holds networkHeight peerId now
  have hlt := h.holds.best_lt
  refine ⟨?_, h.reads, fun m hm => ?_, h.answers⟩
  · have hsame : (net.step ext (.sync networkHeight peerId now)).client.state = net.client.state := hstate
    rw [hsame]
    exact h.holds
  · rw [requests_sync, List.mem_append] at hm
    rcases hm with hm | hm
    · exact h.requests m hm
    · split_ifs at hmessage with hlow
      · rw [hmessage] at hm
        cases hm
      · obtain ⟨fromHeight, count, requestId, hsome, hfrom, hcount⟩ := hmessage
        rw [hsome, Option.toList_some, List.mem_singleton] at hm
        subst hm
        exact ⟨by omega, by omega⟩

omit hchain in
theorem Inv.serve (request : LightClientMessage) :
    Inv ext headers last best (net.step ext (.serve request)) := by
  rw [Net.step]
  split_ifs with hsent
  · refine ⟨h.holds, h.reads, h.requests, fun m hm => ?_⟩
    rcases List.mem_append.mp hm with hm | hm
    · exact h.answers m hm
    · have hplanned := h.requests request hsent
      cases request with
      | Headers => cases hplanned
      | GetHeaders fromHeight count requestId =>
        obtain ⟨hasMore, hanswer⟩ := answer_of_planned h.reads hshort hplanned
        rw [hanswer, Option.toList_some, List.mem_singleton] at hm
        subst hm
        exact ⟨_, _, rfl⟩
  · exact h

omit hshort in
theorem Inv.deliver (answer : LightClientMessage) : ∃ last' best',
    Inv ext headers last' best' (net.step ext (.deliver answer)) ∧ Moves last best last' best' := by
  cases answer with
  | GetHeaders => exact ⟨last, best, h, .inl ⟨rfl, rfl⟩⟩
  | Headers sent requestId hasMore =>
    rw [Net.step]
    split_ifs with hsent
    · obtain ⟨first, count, rfl⟩ := h.answers _ hsent
      obtain ⟨last', best', hholds, hmoves⟩ := h.holds.moves hchain first count
      exact ⟨last', best', ⟨hholds, h.reads, h.requests, h.answers⟩, hmoves⟩
    · exact ⟨last, best, h, .inl ⟨rfl, rfl⟩⟩

omit hshort in
theorem Inv.announce (height : UInt64) : ∃ last' best',
    Inv ext headers last' best' (net.step ext (.announce height)) ∧ Moves last best last' best' := by
  rw [Net.step]
  cases hget : net.server.getHeader height with
  | none => exact ⟨last, best, h, .inl ⟨rfl, rfl⟩⟩
  | some header =>
    simp only
    split_ifs with hshows
    · rw [h.reads] at hget
      have hsingle := @take_drop_cons _ _ 0 _ hget
      obtain ⟨last', best', hholds, hmoves⟩ := h.holds.moves hchain height.toNat 1
      rw [hsingle, List.take_zero] at hholds
      have hstate : (net.client.state.storeHeaders ext [header]).2 = (net.client.state.storeHeader ext header).2 := by
        cases hstored : net.client.state.storeHeader ext header with
        | mk result c =>
          cases result with
          | error e => simp only [LightClientState.storeHeaders, hstored]
          | ok new => simp only [LightClientState.storeHeaders, hstored]
      rw [hstate] at hholds
      exact ⟨last', best', ⟨hholds, h.reads, h.requests, h.answers⟩, hmoves⟩
    · exact ⟨last, best, h, .inl ⟨rfl, rfl⟩⟩

/-- One step. -/
theorem Inv.step (e : Event) : ∃ last' best', Inv ext headers last' best' (net.step ext e) ∧
    (e.proves = false → Moves last best last' best') := by
  cases e with
  | sync networkHeight peerId now =>
    exact ⟨last, best, h.sync hchain hshort networkHeight peerId now, fun _ => .inl ⟨rfl, rfl⟩⟩
  | serve request => exact ⟨last, best, h.serve hshort request, fun _ => .inl ⟨rfl, rfl⟩⟩
  | deliver answer =>
    obtain ⟨last', best', hinv, hmoves⟩ := h.deliver hchain answer
    exact ⟨last', best', hinv, fun _ => hmoves⟩
  | announce height =>
    obtain ⟨last', best', hinv, hmoves⟩ := h.announce hchain height
    exact ⟨last', best', hinv, fun _ => hmoves⟩
  | prove proof =>
    rw [Net.step]
    split_ifs with hshows
    · obtain ⟨-, hget⟩ := of_decide_eq_true hshows
      rw [h.reads] at hget
      obtain ⟨best', hholds⟩ := h.holds.verifyFlyclientProof hget
      exact ⟨last, best', ⟨hholds, h.reads, h.requests, h.answers⟩, nofun⟩
    · exact ⟨last, best, h, nofun⟩
  | updateBestHeight height =>
    exact ⟨last, best, ⟨h.holds, h.reads, h.requests, h.answers⟩, fun _ => .inl ⟨rfl, rfl⟩⟩
  | cleanup now =>
    exact ⟨last, best, ⟨h.holds, h.reads, h.requests, h.answers⟩, fun _ => .inl ⟨rfl, rfl⟩⟩

end Step

/-! ### What rounds do -/

/-- No proof comes, and the full node does not go back below this height. -/
def Event.Fair (target : ℕ) : Event → Prop
  | .prove _ => False
  | .updateBestHeight height => target ≤ height.toNat
  | _ => True

/-- The client is told of a height that is no lower. -/
structure Round.Fair (target : ℕ) (r : Round) : Prop where
  told : target ≤ r.networkHeight.toNat
  before : ∀ e ∈ r.before, e.Fair target
  requested : ∀ e ∈ r.requested, e.Fair target
  answered : ∀ e ∈ r.answered, e.Fair target

theorem proves_of_fair {target : ℕ} {e : Event} (h : e.Fair target) : e.proves = false := by
  cases e with
  | prove => exact h.elim
  | _ => rfl

section Rounds

variable {last best target : ℕ} {net : Net} (hchain : Chained ext headers)
  (hshort : headers.length + 2000 < 2 ^ 64)

/-- What has been sent can always still be served and delivered. -/
theorem sent_step (e : Event) : net.requests ⊆ (net.step ext e).requests ∧
    net.answers ⊆ (net.step ext e).answers := by
  have hsame : net.requests ⊆ net.requests ∧ net.answers ⊆ net.answers :=
    ⟨List.Subset.refl _, List.Subset.refl _⟩
  cases e with
  | sync => exact ⟨List.subset_append_left _ _, hsame.2⟩
  | updateBestHeight => exact hsame
  | cleanup => exact hsame
  | serve request =>
    rw [Net.step]
    split_ifs
    · exact ⟨hsame.1, List.subset_append_left _ _⟩
    · exact hsame
  | deliver answer =>
    cases answer with
    | GetHeaders => exact hsame
    | Headers =>
      rw [Net.step]
      split_ifs
      · exact hsame
      · exact hsame
  | announce height =>
    rw [Net.step]
    cases net.server.getHeader height with
    | none => exact hsame
    | some header =>
      simp only
      split_ifs
      · exact hsame
      · exact hsame
  | prove proof =>
    rw [Net.step]
    split_ifs
    · exact hsame
    · exact hsame

theorem server_step {e : Event} (he : e.Fair target) (hbest : target ≤ net.server.bestHeight.toNat) :
    target ≤ (net.step ext e).server.bestHeight.toNat := by
  cases e with
  | updateBestHeight => exact he
  | prove => exact he.elim
  | sync => exact hbest
  | cleanup => exact hbest
  | serve request =>
    rw [Net.step]
    split_ifs
    · exact hbest
    · exact hbest
  | deliver answer =>
    cases answer with
    | GetHeaders => exact hbest
    | Headers =>
      rw [Net.step]
      split_ifs
      · exact hbest
      · exact hbest
  | announce height =>
    rw [Net.step]
    cases hget : net.server.getHeader height with
    | none => exact hbest
    | some header =>
      simp only
      split_ifs
      · exact hbest
      · exact hbest

include hchain hshort

theorem Inv.exists_run (h : Inv ext headers last best net) (events : List Event) :
    ∃ last' best', Inv ext headers last' best' (events.foldl (Net.step ext) net) := by
  induction events generalizing net last best with
  | nil => exact ⟨last, best, h⟩
  | cons e es ih =>
    obtain ⟨k, b, hstep, -⟩ := h.step hchain hshort e
    exact ih hstep

theorem Inv.run (h : Inv ext headers last best net) (hbest : target ≤ net.server.bestHeight.toNat)
    {events : List Event} (hfair : ∀ e ∈ events, e.Fair target) :
    ∃ last' best', Inv ext headers last' best' (events.foldl (Net.step ext) net) ∧
      Moves last best last' best' ∧
      target ≤ (events.foldl (Net.step ext) net).server.bestHeight.toNat ∧
      net.requests ⊆ (events.foldl (Net.step ext) net).requests ∧
      net.answers ⊆ (events.foldl (Net.step ext) net).answers := by
  induction events generalizing net last best with
  | nil => exact ⟨last, best, h, .inl ⟨rfl, rfl⟩, hbest, List.Subset.refl _, List.Subset.refl _⟩
  | cons e es ih =>
    have he := hfair e List.mem_cons_self
    obtain ⟨k, b, hstep, hmoves⟩ := h.step hchain hshort e
    obtain ⟨hrequests, hanswers⟩ := @sent_step ext net e
    obtain ⟨last', best', hinv, hmoves', hbest', hrequests', hanswers'⟩ :=
      ih hstep (server_step he hbest) fun e' he' => hfair e' (List.mem_cons_of_mem _ he')
    exact ⟨last', best', hinv, (hmoves (proves_of_fair he)).trans hmoves', hbest',
      List.Subset.trans hrequests hrequests', List.Subset.trans hanswers hanswers'⟩

/-- The best header is stored, and less than 2000 below the last one. -/
def Live (last best : ℕ) : Prop := best ≤ last ∧ last < best + 2000

omit hchain hshort in
theorem Live.of_moves {last' best' : ℕ} (h : Live last best) (hmoves : Moves last best last' best') :
    Live last' best' := by
  unfold Live Moves at *
  omega

/-- A round brings 2000 headers, or all of them. -/
theorem Inv.round (h : Inv ext headers last best net) (hbest : target ≤ net.server.bestHeight.toNat)
    (hlive : Live last best) (htarget : target < headers.length) {r : Round} (hfair : r.Fair target) :
    ∃ last' best', Inv ext headers last' best' (net.round ext r) ∧ Moves last best last' best' ∧
      target ≤ (net.round ext r).server.bestHeight.toNat ∧ (target ≤ last' ∨ best + 2000 ≤ best') := by
  obtain ⟨k₁, b₁, h₁, hmoves₁, hbest₁, -, -⟩ := h.run hchain hshort hbest hfair.before
  have hlive₁ := hlive.of_moves hmoves₁
  have htold := hfair.told
  set asking := r.before.foldl (Net.step ext) net with hasking
  have hasked := h₁.sync hchain hshort r.networkHeight r.peerId r.now
  have hbest₁' : target ≤
      (asking.step ext (.sync r.networkHeight r.peerId r.now)).server.bestHeight.toNat := hbest₁
  obtain ⟨k₂, b₂, h₂, hmoves₂, hbest₂, hrequests, -⟩ := hasked.run hchain hshort hbest₁' hfair.requested
  set reached := r.requested.foldl (Net.step ext) (asking.step ext (.sync r.networkHeight r.peerId r.now))
    with hreached
  obtain ⟨-, hmessage⟩ := sync_spec hchain hshort h₁.holds r.networkHeight r.peerId r.now
  unfold Net.round
  simp only [← hasking, ← hreached]
  by_cases hlow : r.networkHeight.toNat ≤ b₁
  · rw [if_pos hlow] at hmessage
    rw [hmessage]
    obtain ⟨k₃, b₃, h₃, hmoves₃, hbest₃, -, -⟩ := h₂.run hchain hshort hbest₂ hfair.answered
    refine ⟨k₃, b₃, h₃, (hmoves₁.trans hmoves₂).trans hmoves₃, hbest₃, .inl ?_⟩
    unfold Live Moves at *
    omega
  · rw [if_neg hlow] at hmessage
    obtain ⟨fromHeight, count, requestId, hsome, hfrom, hcount⟩ := hmessage
    have hlt := h₁.holds.best_lt
    have hplanned : Planned headers (.GetHeaders fromHeight count requestId) := ⟨by omega, by omega⟩
    obtain ⟨hasMore, hanswer⟩ := answer_of_planned h₂.reads hshort hplanned
    have hrequest : .GetHeaders fromHeight count requestId ∈ reached.requests := by
      refine hrequests ?_
      rw [requests_sync, hsome]
      exact List.mem_append_right _ (List.mem_singleton_self _)
    simp only [hsome, hanswer]
    set sent := (headers.drop fromHeight.toNat).take
      (min count.toNat (reached.server.bestHeight.toNat + 1 - fromHeight.toNat)) with hsent
    have hserved := h₂.serve hshort (.GetHeaders fromHeight count requestId)
    have hkept : target ≤
        (reached.step ext (.serve (.GetHeaders fromHeight count requestId))).server.bestHeight.toNat := by
      rw [Net.step, if_pos hrequest]
      exact hbest₂
    obtain ⟨k₃, b₃, h₃, hmoves₃, hbest₃, -, hanswers⟩ := hserved.run hchain hshort hkept hfair.answered
    set waited := r.answered.foldl (Net.step ext)
      (reached.step ext (.serve (.GetHeaders fromHeight count requestId))) with hwaited
    have hready : .Headers sent requestId hasMore ∈ waited.answers := by
      refine hanswers ?_
      rw [Net.step]
      rw [if_pos hrequest, hanswer]
      exact List.mem_append_right _ (List.mem_singleton_self _)
    have hdelivered : waited.step ext (.deliver (.Headers sent requestId hasMore)) =
        { waited with client := (waited.client.handleHeaders ext sent requestId).2 } := if_pos hready
    rw [hdelivered]
    have hmoves := (hmoves₁.trans hmoves₂).trans hmoves₃
    have hrun := hmoves₂.trans hmoves₃
    by_cases hreach : Reaching headers k₃ fromHeight.toNat
        (min count.toNat (reached.server.bestHeight.toNat + 1 - fromHeight.toNat))
    · have hholds := h₃.holds.storeHeaders_reaching hchain hreach
      obtain ⟨-, hend⟩ := hreach
      refine ⟨_, _, ⟨hholds, h₃.reads, h₃.requests, h₃.answers⟩, hmoves.trans (.inr ⟨by omega, rfl⟩),
        hbest₃, ?_⟩
      unfold Live Moves at *
      omega
    · have hstate := h₃.holds.storeHeaders_idle hchain hreach
      refine ⟨k₃, b₃, ⟨?_, h₃.reads, h₃.requests, h₃.answers⟩, hmoves, hbest₃, ?_⟩
      · have hsame : ((waited.client.handleHeaders ext sent requestId).2).state = waited.client.state := hstate
        rw [hsame]
        exact h₃.holds
      · unfold Live Moves Reaching at *
        omega

theorem Inv.rounds (h : Inv ext headers last best net) (hbest : target ≤ net.server.bestHeight.toNat)
    (hlive : Live last best) (htarget : target < headers.length) {rounds : List Round}
    (hfair : ∀ r ∈ rounds, r.Fair target) :
    ∃ last' best', Inv ext headers last' best' (rounds.foldl (Net.round ext) net) ∧
      Moves last best last' best' ∧ min (best + 2000 * rounds.length) target ≤ last' := by
  induction rounds generalizing net last best with
  | nil =>
    refine ⟨last, best, h, .inl ⟨rfl, rfl⟩, ?_⟩
    rw [List.length_nil]
    unfold Live at hlive
    omega
  | cons r rs ih =>
    obtain ⟨k, b, hinv, hmoves, hbest', hnext⟩ := h.round hchain hshort hbest hlive htarget
      (hfair r List.mem_cons_self)
    obtain ⟨last', best', hinv', hmoves', hreached⟩ := ih hinv hbest' (hlive.of_moves hmoves) fun r' hr' =>
      hfair r' (List.mem_cons_of_mem _ hr')
    refine ⟨last', best', hinv', hmoves.trans hmoves', ?_⟩
    rw [List.length_cons]
    unfold Moves at hmoves'
    omega

end Rounds

/-! ### When nothing comes any more -/

/-- The header at this height is asked for or sent. -/
def LightClientMessage.Covers (height : ℕ) : LightClientMessage → Prop
  | .GetHeaders fromHeight count _ => fromHeight.toNat ≤ height ∧ height < fromHeight.toNat + count.toNat
  | .Headers headers _ _ => ∃ header ∈ headers, header.height.toNat = height

/-- Neither a proof nor the announcement of a header. -/
def Event.asks : Event → Bool
  | .prove _ => false
  | .announce _ => false
  | _ => true

section Idle

variable {last best : ℕ} {net : Net} (hchain : Chained ext headers)
  (hshort : headers.length + 2000 < 2 ^ 64)

include hchain hshort

theorem Inv.idle_step (h : Inv ext headers last best net) (hstuck : ¬ Live last best)
    (hquiet : ∀ m ∈ net.requests ++ net.answers, ¬ m.Covers (last + 1)) {e : Event} (he : e.asks = true) :
    (net.step ext e).client.state = net.client.state ∧ Inv ext headers last best (net.step ext e) ∧
      ∀ m ∈ (net.step ext e).requests ++ (net.step ext e).answers, ¬ m.Covers (last + 1) := by
  have hboth := List.forall_mem_append.mp hquiet
  cases e with
  | prove => cases he
  | announce => cases he
  | updateBestHeight height => exact ⟨rfl, ⟨h.holds, h.reads, h.requests, h.answers⟩, hquiet⟩
  | cleanup now => exact ⟨rfl, ⟨h.holds, h.reads, h.requests, h.answers⟩, hquiet⟩
  | sync networkHeight peerId now =>
    obtain ⟨hstate, hmessage⟩ := sync_spec hchain hshort h.holds networkHeight peerId now
    refine ⟨hstate, h.sync hchain hshort networkHeight peerId now, ?_⟩
    refine List.forall_mem_append.mpr ⟨fun m hm => ?_, hboth.2⟩
    rw [requests_sync, List.mem_append] at hm
    rcases hm with hm | hm
    · exact hboth.1 m hm
    · split_ifs at hmessage with hlow
      · rw [hmessage] at hm
        cases hm
      · obtain ⟨fromHeight, count, requestId, hsome, hfrom, hcount⟩ := hmessage
        rw [hsome, Option.toList_some, List.mem_singleton] at hm
        subst hm
        rintro ⟨hlow', hhigh'⟩
        refine hstuck ⟨?_, ?_⟩
        · omega
        · omega
  | serve request =>
    have hserved := h.serve hshort request
    rw [Net.step] at hserved ⊢
    split_ifs at hserved ⊢ with hsent
    · refine ⟨rfl, hserved, List.forall_mem_append.mpr ⟨hboth.1, fun m hm => ?_⟩⟩
      rcases List.mem_append.mp hm with hm | hm
      · exact hboth.2 m hm
      · have hplanned := h.requests request hsent
        have hnot := hboth.1 request hsent
        cases request with
        | Headers => cases hplanned
        | GetHeaders fromHeight count requestId =>
          obtain ⟨hasMore, hanswer⟩ := answer_of_planned h.reads hshort hplanned
          rw [hanswer, Option.toList_some, List.mem_singleton] at hm
          subst hm
          rintro ⟨header, hmem, hheight⟩
          obtain ⟨i, hi, hget⟩ := mem_take_iff.mp hmem
          rw [List.getElem?_drop] at hget
          have hindex := hchain.height _ header hget
          exact hnot ⟨by omega, by omega⟩
    · exact ⟨rfl, h, hquiet⟩
  | deliver answer =>
    cases answer with
    | GetHeaders => exact ⟨rfl, h, hquiet⟩
    | Headers sent requestId hasMore =>
      rw [Net.step]
      split_ifs with hsent
      · obtain ⟨first, count, rfl⟩ := h.answers _ hsent
        have hidle : ¬ Reaching headers last first count := by
          rintro ⟨hfirst, hlt⟩
          have hin : headers[last + 1]? = some headers[last + 1] := List.getElem?_eq_getElem (by omega)
          refine hboth.2 _ hsent ⟨headers[last + 1], mem_take_iff.mpr ⟨last + 1 - first, by omega, ?_⟩,
            hchain.height _ _ hin⟩
          rw [List.getElem?_drop, Nat.add_sub_cancel' hfirst]
          exact hin
        have hstate : (net.client.handleHeaders ext ((headers.drop first).take count) requestId).2.state =
            net.client.state := h.holds.storeHeaders_idle hchain hidle
        refine ⟨hstate, ⟨?_, h.reads, h.requests, h.answers⟩, hquiet⟩
        change Holds ext headers last best
          (net.client.handleHeaders ext ((headers.drop first).take count) requestId).2.state
        rw [hstate]
        exact h.holds
      · exact ⟨rfl, h, hquiet⟩

theorem Inv.idle (h : Inv ext headers last best net) (hstuck : ¬ Live last best)
    (hquiet : ∀ m ∈ net.requests ++ net.answers, ¬ m.Covers (last + 1)) {events : List Event}
    (hevents : ∀ e ∈ events, e.asks = true) :
    (events.foldl (Net.step ext) net).client.state = net.client.state := by
  induction events generalizing net with
  | nil => rfl
  | cons e es ih =>
    obtain ⟨hstate, hinv, hquiet'⟩ := h.idle_step hchain hshort hstuck hquiet (hevents e List.mem_cons_self)
    exact (ih hinv hquiet' fun e' he' => hevents e' (List.mem_cons_of_mem _ he')).trans hstate

end Idle

theorem inv_start (mode : LightSyncMode) {genesis : BlockHeader}
    (hgenesis : headers[0]? = some genesis) {server : HeaderServer} (hreads : Reads server headers) :
    Inv ext headers 0 0 (.start ext mode genesis server) := by
  obtain ⟨hlt, -⟩ := List.getElem?_eq_some_iff.mp hgenesis
  have htake : headers.take (0 + 1) = [genesis] := @take_drop_cons _ 0 0 _ hgenesis
  refine ⟨⟨hlt, hlt, fun hash header => ?_, fun i => ?_, hgenesis.symm, rfl⟩, hreads, nofun, nofun⟩
  · rw [htake, List.mem_singleton]
    have hbyHash : (Net.start ext mode genesis server).client.state.headersByHash =
        Function.update (fun _ => none) (BlockHeader.hash ext genesis) (some genesis) := rfl
    rw [hbyHash, Function.update_apply]
    split_ifs with hsame
    · subst hsame
      constructor
      · intro hsome
        obtain rfl := Option.some.inj hsome
        exact ⟨rfl, rfl⟩
      · rintro ⟨rfl, -⟩
        rfl
    · constructor
      · nofun
      · rintro ⟨rfl, hhash⟩
        exact absurd hhash.symm hsame
  · rw [htake]
    have hbyHeight : (Net.start ext mode genesis server).client.state.headersByHeight =
        Function.update (fun _ => none) 0 (some (BlockHeader.hash ext genesis)) := rfl
    rw [hbyHeight, Function.update_apply]
    cases i with
    | zero => rfl
    | succ i => rfl

theorem Holds.unique (hchain : Chained ext headers) {c : LightClientState} {last best last' best' : ℕ}
    (h : Holds ext headers last best c) (h' : Holds ext headers last' best' c) : last = last' ∧ best = best' := by
  have hlast := h.synced.symm.trans h'.synced
  have hbest := (toNat_bestHeight hchain h).symm.trans (toNat_bestHeight hchain h')
  exact ⟨by omega, hbest⟩

/-- After any run the client has the headers of the full node up to some height. While its best header is one
of them and less than 2000 below the last, so many rounds bring 2000 headers each or all that there are; if it
is not, and the next header is neither asked for nor sent yet, no request changes anything. -/
theorem header_sync_rounds (ext : Ext) {headers : List BlockHeader} (hchain : Chained ext headers)
    (hshort : headers.length + 2000 < 2 ^ 64) {genesis : BlockHeader} (hgenesis : headers[0]? = some genesis)
    {server : HeaderServer} (hreads : Reads server headers) (mode : LightSyncMode) (events : List Event) :
    let net := events.foldl (Net.step ext) (.start ext mode genesis server)
    (∃ last best, Holds ext headers last best net.client.state) ∧
      ∀ last best, Holds ext headers last best net.client.state →
        (Live last best → ∀ target < headers.length, target ≤ net.server.bestHeight.toNat →
          ∀ rounds : List Round, (∀ r ∈ rounds, r.Fair target) →
            ∃ last' best', Holds ext headers last' best' (rounds.foldl (Net.round ext) net).client.state ∧
              Live last' best' ∧ min (best + 2000 * rounds.length) target ≤ last') ∧
        (¬ Live last best → (∀ m ∈ net.requests ++ net.answers, ¬ m.Covers (last + 1)) →
          ∀ later : List Event, (∀ e ∈ later, e.asks = true) →
            (later.foldl (Net.step ext) net).client.state = net.client.state) := by
  intro net
  obtain ⟨k, b, hinv⟩ := (inv_start mode hgenesis hreads).exists_run hchain hshort events
  refine ⟨⟨k, b, hinv.holds⟩, fun last best hholds => ?_⟩
  obtain ⟨rfl, rfl⟩ := hinv.holds.unique hchain hholds
  refine ⟨fun hlive target htarget hbest rounds hfair => ?_, fun hstuck hquiet later hlater => ?_⟩
  · obtain ⟨last', best', hinv', hmoves, hreached⟩ :=
      hinv.rounds hchain hshort hbest hlive htarget hfair
    exact ⟨last', best', hinv'.holds, hlive.of_moves hmoves, hreached⟩
  · exact hinv.idle hchain hshort hstuck hquiet hlater

/-! ### A round, and a proof too far ahead -/

namespace Sample

def server : HeaderServer := ⟨fun height => [genesis, block][height.toNat]?, 1⟩

theorem chained : Chained forgerExt [genesis, block] where
  height i header hi := by
    match i, hi with
    | 0, hi => cases hi; rfl
    | 1, hi => cases hi; rfl
  parent i header child hi hchild := by
    match i, hi, hchild with
    | 0, hi, hchild => cases hi; cases hchild; decide +kernel
  distinct := by decide +kernel

theorem reads : Reads server [genesis, block] := fun _ => rfl

theorem short : [genesis, block].length + 2000 < 2 ^ 64 := by norm_num

/-- One round, in which nothing else happens. -/
def round : Round := ⟨[], 1, "full node", 0, [], []⟩

theorem fair : ∀ r ∈ [round], r.Fair 1 := by
  intro r hr
  rw [List.mem_singleton.mp hr]
  exact ⟨le_rfl, nofun, nofun, nofun⟩

/-- The client with a proof of the block that it does not have. -/
def proved : Net := (Net.start forgerExt .Hybrid genesis server).step forgerExt (.prove honestProof)

end Sample

open Sample in
theorem header_sync_rounds_block :
    (∃ last' best', Holds forgerExt [genesis, block] last' best'
      (Net.round forgerExt (.start forgerExt .Hybrid genesis server) round).client.state ∧
        Live last' best' ∧ 1 ≤ last') ∧
      ∀ later : List Event, (∀ e ∈ later, e.asks = true) →
        (later.foldl (Net.step forgerExt) proved).client.state = proved.client.state := by
  have hfirst : [genesis, block][0]? = some genesis := rfl
  constructor
  · have hstart : Inv forgerExt [genesis, block] 0 0 (.start forgerExt .Hybrid genesis server) :=
      inv_start .Hybrid hfirst reads
    have hlive : Live 0 0 := ⟨le_rfl, by norm_num⟩
    obtain ⟨-, hrounds⟩ := header_sync_rounds forgerExt chained short hfirst reads .Hybrid []
    obtain ⟨last', best', hholds, hlive', hreached⟩ :=
      (hrounds 0 0 hstart.holds).1 hlive 1 Nat.one_lt_two le_rfl [round] fair
    have hmin : min (0 + 2000 * [round].length) 1 = 1 := by norm_num
    rw [hmin] at hreached
    simp only [List.foldl_cons, List.foldl_nil] at hholds
    exact ⟨last', best', hholds, hlive', hreached⟩
  · obtain ⟨⟨last, best, hholds⟩, hidle⟩ :=
      header_sync_rounds forgerExt chained short hfirst reads .Hybrid [.prove honestProof]
    have hproved : [Event.prove honestProof].foldl (Net.step forgerExt)
        (.start forgerExt .Hybrid genesis server) = proved := rfl
    rw [hproved] at hholds hidle
    have hlast : proved.client.state.headersSynced = 1 := by decide +kernel
    have hbest : bestHeight proved.client.state = 1 := by decide +kernel
    have hsynced : proved.client.state.headersSynced = last + 1 := hholds.synced
    have hheight : (bestHeight proved.client.state).toNat = best := toNat_bestHeight chained hholds
    obtain rfl : last = 0 := by omega
    obtain rfl : best = 1 := by
      rw [hbest] at hheight
      exact hheight.symm
    exact (hidle 0 1 hholds).2 (fun hlive => absurd hlive.1 (by decide)) nofun

end Coinjecture.Node.HeaderSync
