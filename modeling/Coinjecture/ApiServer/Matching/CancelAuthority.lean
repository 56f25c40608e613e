import Coinjecture.ApiServer.Matching.Engine
import Coinjecture.ApiServer.Matching.FillOrKill

/-! # Who takes an order out of the book

Whoever knows the id of an order cancels it, if it rests in one of the two pairs that the handler tries, and
nobody does if it rests in another one. An order also goes where a fill-or-kill order is killed after it was
matched, and all go when the engine panics. Amounts are exact decimals here.

* `authority_iff` : orders leave by being filled or by their owner's cancel exactly if nothing of this happens. -/

namespace Coinjecture.ApiServer.Matching.CancelAuthority

open Lib.Trace
open ApiServer.Matching.Book ApiServer.Matching.Reference
open ApiServer.Matching.Ladders
open ApiServer.Matching.Sweep ApiServer.Matching.PriceTime
open ApiServer.Matching.Representation ApiServer.Matching.FillOrKill
open ApiServer.Matching.Engine

/-! ### The law -/

/-- The same with decimals of any size. -/
def exactly (c : Crates) : Crates := { c with decimal := Overflow.exact c.decimal.parse }

/-- The book of the pair. One that is not there has no orders. -/
def bookOf (e : MatchingEngine) (pairId : String) : OrderBook := (e.books pairId).getD .new

/-- The order rests in the book of the pair. -/
def Rests (e : MatchingEngine) (pairId : String) (o : InternalOrder) : Prop := o ∈ restingOrders (bookOf e pairId)

/-- What is traded of the order is all that was open of it. -/
def Filled (trades : List MatchedTrade) (o : InternalOrder) : Prop :=
  tradedQuantity o.side.opposite (fun id => id = o.id) trades = o.remaining

/-- The request is to cancel the order. -/
def IsCancel (c : Crates) (o : InternalOrder) (user : AuthenticatedUser) : Request → Prop
  | .cancelOrder requester orderId => requester = user ∧ c.parseUuid orderId = some o.id
  | _ => False

/-- The user is who placed the order. -/
def Owner (o : InternalOrder) (user : AuthenticatedUser) : Prop := user.walletAddress = some o.walletAddress

instance (o : InternalOrder) (user : AuthenticatedUser) : Decidable (Owner o user) :=
  inferInstanceAs (Decidable (_ = _))

/-- The request is the user's to place an order of this id in the pair. -/
def IsPlacement (o : InternalOrder) (pairId : String) (user : AuthenticatedUser) : Request → Prop
  | .placeOrder requester req id => requester = user ∧ req.pairId = pairId ∧ id = o.id
  | _ => False

/-- The id of the order that is placed. -/
def Request.placed : Request → Option OrderId
  | .placeOrder _ _ id => some id
  | _ => none

/-- What a request that is served may do to the orders that rest. -/
structure Authorised (c : Crates) (request : Request) (e : MatchingEngine) (response : Response)
    (e' : MatchingEngine) : Prop where
  /-- An order that rests goes on resting, is filled, or its owner cancels it. -/
  stays : ∀ pairId o, Rests e pairId o → (∃ q, Rests e' pairId (o.fill q)) ∨
    (∃ result, response = .placed result ∧ Filled result.trades o) ∨ ∃ user, IsCancel c o user request ∧ Owner o user
  /-- An order that rests has rested before, or its owner has placed it. -/
  comes : ∀ pairId o', Rests e' pairId o' → (∃ o q, Rests e pairId o ∧ o' = o.fill q) ∨
    ∃ user, IsPlacement o' pairId user request ∧ Owner o' user
  /-- A cancel by the owner takes the order out. -/
  removes : ∀ pairId o, Rests e pairId o → ∀ user, IsCancel c o user request → Owner o user →
    ∀ pairId' o', Rests e' pairId' o' → o'.id ≠ o.id

/-- The request is served as it should. If the engine panics nothing rests any more. -/
def StepOk (c : Crates) (p : Request × MatchingEngine) : Prop :=
  match serve c p.1 p.2 with
  | some (response, e') => Authorised c p.1 p.2 response e'
  | none => ∀ pairId o, ¬ Rests p.2 pairId o

/-- No fill-or-kill limit order that can be filled in part is placed, none without a price that is to rest while
others rest, and no cancel is for an order that rests, but by its owner if the handler tries its pair, and by
others if not. -/
def Harmless (c : Crates) (p : Request × MatchingEngine) : Prop :=
  match p with
  | (.placeOrder user req id, e) => ∀ order, placeOrder c user req id = .ok order →
    ¬ (order.orderType = .Limit ∧ order.timeInForce = .FOK ∧ FillableInPart order (bookOf e order.pairId)) ∧
      (order.orderType = .Limit → order.timeInForce = .GTC → order.price = none → ∀ pairId o, ¬ Rests e pairId o)
  | (.cancelOrder user orderId, e) => ∀ pairId o, Rests e pairId o → c.parseUuid orderId = some o.id →
    (Owner o user ↔ pairId ∈ KNOWN_PAIRS)
  | (.getOrders _, _) => True

/-! ### One book -/

/-- The orders that are left of a pass are filled further. -/
theorem exists_fill_of_mem_sweep (order : InternalOrder) (makers : List InternalOrder) :
    ∀ o' ∈ (sweep order makers).rest, ∃ o ∈ makers, ∃ q, o' = o.fill q := by
  refine sweep_cases (P := fun _ makers pass => ∀ o' ∈ pass.rest, ∃ o ∈ makers, ∃ q, o' = o.fill q)
    ?_ ?_ ?_ order makers
  · exact fun order o' ho' => absurd ho' List.not_mem_nil
  · exact fun order maker makers _ o' ho' => ⟨o', ho', 0, (fill_zero o').symm⟩
  · intro order maker makers pass q _ _ _ _ hrest o' ho'
    have hlater : o' ∈ pass.rest → ∃ o ∈ maker :: makers, ∃ q, o' = o.fill q := by
      intro ho'
      obtain ⟨o, ho, hfill⟩ := hrest o' ho'
      exact ⟨o, List.mem_cons_of_mem _ ho, hfill⟩
    simp only at ho'
    split_ifs at ho'
    · exact hlater ho'
    · rcases List.mem_cons.mp ho' with rfl | ho'
      · exact ⟨maker, List.mem_cons_self, q, rfl⟩
      · exact hlater ho'

theorem restingQuantity_of_not_mem {makers : List InternalOrder} {orderId : OrderId}
    (h : ∀ o ∈ makers, o.id ≠ orderId) : restingQuantity (fun id => id = orderId) makers = 0 := by
  refine List.sum_eq_zero fun x hx => ?_
  obtain ⟨o, ho, rfl⟩ := List.mem_map.mp hx
  exact if_neg (by rw [decide_eq_true_eq]; exact h o ho)

theorem restingQuantity_of_mem {makers : List InternalOrder} (hnodup : (makers.map InternalOrder.id).Nodup)
    {o : InternalOrder} (ho : o ∈ makers) : restingQuantity (fun id => id = o.id) makers = o.remaining := by
  induction makers with
  | nil => exact absurd ho List.not_mem_nil
  | cons maker makers ih =>
    obtain ⟨hnot, hnodup⟩ := List.nodup_cons.mp hnodup
    rw [restingQuantity_cons]
    rcases List.mem_cons.mp ho with rfl | ho
    · rw [restingQuantity_of_not_mem fun o' ho' heq => hnot (List.mem_map.mpr ⟨o', ho', heq⟩), add_zero,
        if_pos (decide_eq_true rfl)]
    · have hne : maker.id ≠ o.id := fun heq => hnot (heq ▸ List.mem_map_of_mem ho)
      rw [if_neg (by rw [decide_eq_true_eq]; exact hne), ih hnodup ho, zero_add]

section Book

variable {b b' : OrderBook} {resting : List InternalOrder} {order : InternalOrder}

theorem mem_restingOrders_cancelOrder (h : Represents b resting) {orderId : OrderId} {o : InternalOrder} :
    o ∈ restingOrders (b.cancelOrder orderId).2 ↔ o ∈ restingOrders b ∧ o.id ≠ orderId := by
  have hrest := (cancels_of_represents h orderId).rest
  rw [mem_restingOrders, mem_restingOrders, exists_and_right.symm]
  refine exists_congr fun side => ?_
  rw [hrest, List.mem_filter, decide_eq_true_eq]

/-- The other side after the matching, and the order's own side. -/
theorem ladder_matchAgainstBook (h : Represents b resting) (order : InternalOrder) :
    orders ((b.matchAgainstBook order).2.2.ladder order.side.opposite) =
      (sweep order (orders (b.ladder order.side.opposite))).rest ∧
    (b.matchAgainstBook order).2.2.ladder order.side = b.ladder order.side := by
  obtain ⟨b₁, rest, hbook, -, -, hladder, -⟩ := h.matchAgainstBook order
  refine ⟨by rw [hbook, hladder], ?_⟩
  exact ladder_withLadder_of_ne (opposite_ne order.side).symm _ b

theorem exists_fill_of_mem_matched (h : Represents b resting) (order : InternalOrder) :
    ∀ o' ∈ restingOrders (b.matchAgainstBook order).2.2, ∃ o ∈ restingOrders b, ∃ q, o' = o.fill q := by
  intro o' ho'
  obtain ⟨hopposite, hown⟩ := ladder_matchAgainstBook h order
  obtain ⟨side, hside⟩ := mem_restingOrders.mp ho'
  by_cases hcase : side = order.side.opposite
  · rw [hcase, hopposite] at hside
    obtain ⟨o, ho, hfill⟩ := exists_fill_of_mem_sweep _ _ o' hside
    exact ⟨o, mem_restingOrders.mpr ⟨_, ho⟩, hfill⟩
  · rw [eq_of_ne_opposite hcase, hown] at hside
    exact ⟨o', mem_restingOrders.mpr ⟨_, hside⟩, 0, (fill_zero o').symm⟩

/-- The orders of the book after a submission. -/
theorem comes_submitOrder (h : Represents b resting) {result : MatchResult}
    (hsubmit : b.submitOrder order = some (result, b')) :
    ∀ o' ∈ restingOrders b', (∃ o ∈ restingOrders b, ∃ q, o' = o.fill q) ∨ ∃ q, o' = order.fill q := by
  obtain rfl | ⟨rfl, -⟩ | ⟨price, -, -, rfl, -⟩ := submitOrder_cases hsubmit
  · exact fun o' ho' => .inl ⟨o', ho', 0, (fill_zero o').symm⟩
  · exact fun o' ho' => .inl (exists_fill_of_mem_matched h order o' ho')
  · obtain ⟨q, hq⟩ := exists_matchLevels_order order (b.ladder order.side.opposite)
    have horder : (b.matchAgainstBook order).1 = order.fill q := hq
    intro o' ho'
    obtain ⟨side, hside⟩ := mem_restingOrders.mp ho'
    change o' ∈ orders ((OrderBook.withLadder _ _ _).ladder side) at hside
    by_cases hcase : side = (b.matchAgainstBook order).1.side
    · rw [hcase, ladder_withLadder] at hside
      rcases List.mem_cons.mp ((orders_pushOrder_perm ..).subset hside) with rfl | hside
      · exact .inr ⟨q, horder⟩
      · exact .inl (exists_fill_of_mem_matched h order o' (mem_restingOrders.mpr ⟨_, hside⟩))
    · rw [ladder_withLadder_of_ne hcase] at hside
      exact .inl (exists_fill_of_mem_matched h order o' (mem_restingOrders.mpr ⟨_, hside⟩))

/-- The matching leaves an order of the book there or fills it. -/
theorem stays_matchAgainstBook (h : Represents b resting) (hlacks : 0 ≤ order.remaining) :
    ∀ o ∈ restingOrders b, (∃ q, o.fill q ∈ restingOrders (b.matchAgainstBook order).2.2) ∨
      Filled (b.matchAgainstBook order).2.1 o := by
  intro o ho
  obtain ⟨filled, trades, b₁, rest, hmatched⟩ := h.exists_matched hlacks
  obtain ⟨hopposite, hown⟩ := ladder_matchAgainstBook h order
  obtain ⟨side, hside⟩ := mem_restingOrders.mp ho
  by_cases hcase : side = order.side.opposite
  · subst hcase
    by_cases hrests : ∃ o' ∈ orders ((b.matchAgainstBook order).2.2.ladder order.side.opposite), o'.id = o.id
    · obtain ⟨o', ho', hid⟩ := hrests
      obtain ⟨o₀, ho₀, q, rfl⟩ := exists_fill_of_mem_matched h order o' (mem_restingOrders.mpr ⟨_, ho'⟩)
      obtain rfl := id_injective h ho₀ ho hid
      exact .inl ⟨q, mem_restingOrders.mpr ⟨_, ho'⟩⟩
    · have hmakers := hmatched.makers fun id => id = o.id
      have hgone : restingQuantity (fun id => id = o.id) (orders (b₁.ladder order.side.opposite)) = 0 := by
        rw [hmatched.book] at hrests
        exact restingQuantity_of_not_mem fun o' ho' heq => hrests ⟨o', ho', heq⟩
      rw [restingQuantity_of_mem (h.nodup_ladder _) hside, hgone, zero_add] at hmakers
      have hopp : o.side.opposite = order.side := by
        rw [((h.lists _).mem_iff.mp hside).2]
        cases order.side with
        | Buy => rfl
        | Sell => rfl
      refine .inr ?_
      rw [Filled, hopp, hmatched.book]
      exact hmakers.symm
  · rw [eq_of_ne_opposite hcase, ← hown] at hside
    exact .inl ⟨0, by rw [fill_zero]; exact mem_restingOrders.mpr ⟨_, hside⟩⟩

theorem mem_insertRestingOrder {o : InternalOrder} (ho : o ∈ restingOrders b) (price : Decimal) :
    o ∈ restingOrders (b.insertRestingOrder order price) := by
  obtain ⟨side, hside⟩ := mem_restingOrders.mp ho
  refine mem_restingOrders.mpr ⟨side, ?_⟩
  change o ∈ orders ((OrderBook.withLadder _ _ _).ladder side)
  by_cases hcase : side = order.side
  · subst hcase
    rw [ladder_withLadder]
    exact (orders_pushOrder_perm ..).mem_iff.mpr (List.mem_cons_of_mem _ hside)
  · rw [ladder_withLadder_of_ne hcase]
    exact hside

/-- An order that is killed and could not be filled in part was not filled at all. -/
theorem matchAgainstBook_of_killed (h : Represents b resting) (hlacks : 0 ≤ order.remaining)
    (hpriced : order.price.isSome = true) (hopen : ¬ (b.matchAgainstBook order).1.isFilled = true)
    (hwhole : ¬ FillableInPart order b) : (b.matchAgainstBook order).2.2 = b := by
  obtain ⟨filled, trades, b₁, rest, hmatched⟩ := h.exists_matched hlacks
  have hfillable : fillable order b = available order (orders (b.ladder order.side.opposite)) :=
    if_neg fun hunpriced => by rw [hunpriced.2] at hpriced; cases hpriced
  have hlt : available order (orders (b.ladder order.side.opposite)) < order.remaining := by
    rw [hmatched.book, isFilled_iff, hmatched.remaining, max_le_iff, sub_nonpos] at hopen
    exact not_le.mp fun hle => hopen ⟨le_rfl, hle⟩
  have hzero : available order (orders (b.ladder order.side.opposite)) = 0 := by
    refine le_antisymm (not_lt.mp fun hpos => hwhole ⟨?_, ?_⟩) (available_nonneg (h.allOpen_ladder _))
    · rwa [hfillable]
    · rwa [hfillable]
  rw [matchAgainstBook_of_beyond h (beyond_of_available_eq_zero (h.allOpen_ladder _) hzero)]

/-- A submission leaves an order of the book there or fills it. -/
theorem stays_submitOrder (h : Represents b resting) (hlacks : 0 ≤ order.remaining)
    (hwhole : ¬ (order.orderType = .Limit ∧ order.timeInForce = .FOK ∧ FillableInPart order b))
    {result : MatchResult} (hsubmit : b.submitOrder order = some (result, b')) :
    ∀ o ∈ restingOrders b, (∃ q, o.fill q ∈ restingOrders b') ∨ Filled result.trades o := by
  have hstays := stays_matchAgainstBook h hlacks
  obtain rfl | ⟨rfl, htrades | ⟨htype, hforce, hpriced, -, hopen⟩⟩ | ⟨price, -, -, rfl, htrades⟩ :=
    submitOrder_cases hsubmit
  · exact fun o ho => .inl ⟨0, by rwa [fill_zero]⟩
  · rwa [htrades]
  · have hsame := matchAgainstBook_of_killed h hlacks hpriced hopen fun hpart => hwhole ⟨htype, hforce, hpart⟩
    rw [hsame]
    exact fun o ho => .inl ⟨0, by rwa [fill_zero]⟩
  · rw [htrades]
    intro o ho
    refine (hstays o ho).imp_left fun hrests => ?_
    obtain ⟨q, hq⟩ := hrests
    exact ⟨q, mem_insertRestingOrder hq price⟩

/-- An order that is killed after it could be filled in part has taken another one along. -/
theorem exists_gone_of_killed (h : Represents b resting) (htype : order.orderType = .Limit)
    (hforce : order.timeInForce = .FOK) (hpart : FillableInPart order b) {result : MatchResult}
    (hsubmit : b.submitOrder order = some (result, b')) : result.trades = [] ∧
      ∃ o ∈ restingOrders b, 0 < o.remaining ∧ ∀ q, o.fill q ∉ restingOrders b' := by
  have hpriced := hpart.priced
  obtain ⟨hpos, hlt⟩ := hpart
  have hfillable : fillable order b = available order (orders (b.ladder order.side.opposite)) := if_neg hpriced
  rw [hfillable] at hpos hlt
  obtain ⟨filled, trades, b₁, rest, hmatched⟩ := h.exists_matched (hpos.trans hlt).le
  obtain ⟨result', hsubmit', -, -, -, hkilled⟩ := submitOrder_fillOrKill hforce
    (fun htype => Option.isSome_iff_ne_none.mpr fun hnone => hpriced ⟨htype, hnone⟩) hmatched.book
  rw [hsubmit] at hsubmit'
  obtain ⟨rfl, rfl⟩ := Prod.mk.inj (Option.some.inj hsubmit')
  have hopen : ¬ (order.fill filled).isFilled = true := by
    rw [isFilled_iff, hmatched.remaining, max_le_iff, sub_nonpos]
    exact fun hle => absurd hle.2 (not_le.mpr hlt)
  refine ⟨hkilled htype hopen, ?_⟩
  obtain ⟨o, ho, hcan⟩ : ∃ o ∈ orders (b.ladder order.side.opposite), order.canMatch (limit o) = true := by
    refine not_forall_not.mp fun hnone => hpos.ne' (available_eq_zero fun o ho => ?_)
    exact Bool.eq_false_iff.mpr fun hcan => hnone o ⟨ho, hcan⟩
  refine ⟨o, mem_restingOrders.mpr ⟨_, ho⟩, h.allOpen_ladder _ o ho, fun q hq => ?_⟩
  have hbeyond : order.canMatch (limit o) = false := hmatched.ends.resolve_left hopen (o.fill q)
    ((mem_resting_iff hmatched.represents).mpr hq) ((h.lists _).mem_iff.mp ho).2
  rw [hcan] at hbeyond
  cases hbeyond

end Book

/-! ### The books -/

section Books

variable {e : MatchingEngine} {pairId : String}

@[simp] theorem bookOf_withBook_self (pairId : String) (b : OrderBook) (e : MatchingEngine) :
    bookOf (e.withBook pairId b) pairId = b := by
  rw [bookOf, MatchingEngine.books_withBook_self, Option.getD_some]

theorem bookOf_withBook_of_ne {pairId' : String} (h : pairId' ≠ pairId) (b : OrderBook) (e : MatchingEngine) :
    bookOf (e.withBook pairId b) pairId' = bookOf e pairId' := by
  rw [bookOf, MatchingEngine.books_withBook_of_ne h, bookOf]

theorem bookOf_new (knownPairs : List String) (pairId : String) :
    bookOf (.new knownPairs) pairId = .new := by
  rw [bookOf, MatchingEngine.new]
  simp only
  split_ifs
  · rfl
  · rfl

/-- What every run keeps: each book holds what rests, no order rests in two, and the ids to come are new. -/
structure Running (requests : List Request) (e : MatchingEngine) : Prop where
  represents : ∀ pairId, ∃ resting, Represents (bookOf e pairId) resting
  once : ∀ pairId o, Rests e pairId o → ∀ pairId' o', Rests e pairId' o' → o.id = o'.id → pairId = pairId'
  fresh : ∀ pairId o, Rests e pairId o → o.id ∉ requests.filterMap Request.placed
  ids : (requests.filterMap Request.placed).Nodup

variable {requests : List Request} {o : InternalOrder}

theorem Running.eq_of_id_eq (h : Running requests e) {pairId' : String} {o' : InternalOrder} (ho : Rests e pairId o)
    (ho' : Rests e pairId' o') (hid : o.id = o'.id) : pairId = pairId' ∧ o = o' := by
  obtain rfl := h.once pairId o ho pairId' o' ho' hid
  obtain ⟨resting, hrepresents⟩ := h.represents pairId
  exact ⟨rfl, id_injective hrepresents ho ho' hid⟩

/-! ### A cancel -/

/-- The books without the order of this id. -/
def without (pairId : String) (orderId : OrderId) (e : MatchingEngine) : MatchingEngine :=
  e.withBook pairId ((bookOf e pairId).cancelOrder orderId).2

theorem cancelOrder_of_not_rests (h : Running requests e) {orderId : OrderId}
    (hnone : ∀ o, Rests e pairId o → o.id ≠ orderId) : e.cancelOrder orderId pairId = (none, e) := by
  unfold MatchingEngine.cancelOrder
  cases hget : e.books pairId with
  | none => rfl
  | some b =>
    have hbook : bookOf e pairId = b := by rw [bookOf, hget, Option.getD_some]
    obtain ⟨resting, hrepresents⟩ := h.represents pairId
    rw [hbook] at hrepresents
    have hcancel := cancelOrder_of_not_mem hrepresents fun o ho => hnone o (by rwa [Rests, hbook])
    have hsame : e.withBook pairId b = e := by
      rw [MatchingEngine.withBook, ← hget, Function.update_eq_self]
    simp only [hcancel, hsame]

theorem cancelOrder_of_rests (h : Running requests e) (ho : Rests e pairId o) :
    e.cancelOrder o.id pairId = (some o, without pairId o.id e) := by
  obtain ⟨resting, hrepresents⟩ := h.represents pairId
  have hremoved := (cancels_of_represents hrepresents o.id).removed o ho rfl
  unfold MatchingEngine.cancelOrder without
  cases hget : e.books pairId with
  | none =>
    rw [Rests, bookOf, hget] at ho
    exact absurd ho List.not_mem_nil
  | some b =>
    rw [bookOf, hget, Option.getD_some] at hremoved ⊢
    simp only [hremoved]

theorem cancelAmong_of_not_rests (h : Running requests e) {orderId : OrderId} {pairs : List String}
    (hnone : ∀ pairId ∈ pairs, ∀ o, Rests e pairId o → o.id ≠ orderId) :
    e.cancelAmong orderId pairs = (none, e) := by
  induction pairs with
  | nil => rfl
  | cons pair pairs ih =>
    obtain ⟨hfirst, hnone⟩ := List.forall_mem_cons.mp hnone
    simp only [MatchingEngine.cancelAmong, cancelOrder_of_not_rests h hfirst]
    exact ih hnone

theorem cancelAmong_of_rests (h : Running requests e) (ho : Rests e pairId o) {pairs : List String}
    (hpair : pairId ∈ pairs) : e.cancelAmong o.id pairs = (some o, without pairId o.id e) := by
  induction pairs with
  | nil => exact absurd hpair List.not_mem_nil
  | cons pair pairs ih =>
    by_cases hfirst : pair = pairId
    · subst hfirst
      simp only [MatchingEngine.cancelAmong, cancelOrder_of_rests h ho]
    · have hnone : ∀ o', Rests e pair o' → o'.id ≠ o.id := fun o' ho' hid => hfirst (h.once _ _ ho' _ _ ho hid)
      simp only [MatchingEngine.cancelAmong, cancelOrder_of_not_rests h hnone]
      exact ih ((List.mem_cons.mp hpair).resolve_left (Ne.symm hfirst))

theorem rests_without_iff (h : Running requests e) (ho : Rests e pairId o) {pairId' : String}
    {o' : InternalOrder} : Rests (without pairId o.id e) pairId' o' ↔ Rests e pairId' o' ∧ o'.id ≠ o.id := by
  obtain ⟨resting, hrepresents⟩ := h.represents pairId
  by_cases hpair : pairId' = pairId
  · subst hpair
    rw [Rests, without, bookOf_withBook_self, mem_restingOrders_cancelOrder hrepresents]
    rfl
  · rw [Rests, without, bookOf_withBook_of_ne hpair]
    refine (and_iff_left_of_imp fun ho' hid => hpair ?_).symm
    exact h.once _ _ ho' _ _ ho hid

variable {c : Crates}

/-- A cancel takes out the order of this id if it rests in a pair that is tried. -/
theorem serve_cancel_of_rests (h : Running requests e) (user : AuthenticatedUser) {orderId : String}
    (ho : Rests e pairId o) (hid : c.parseUuid orderId = some o.id) (hpair : pairId ∈ KNOWN_PAIRS) :
    serve c (.cancelOrder user orderId) e = some (.cancelled, without pairId o.id e) := by
  simp only [serve, hid, cancelAmong_of_rests h ho hpair]

theorem serve_cancel_of_not_rests (h : Running requests e) (user : AuthenticatedUser) {orderId : String}
    (hnone : ∀ pairId ∈ KNOWN_PAIRS, ∀ o, Rests e pairId o → c.parseUuid orderId ≠ some o.id) :
    serve c (.cancelOrder user orderId) e = some (.passedOn, e) := by
  rw [serve]
  cases hid : c.parseUuid orderId with
  | none => rfl
  | some id =>
    have hcancel : e.cancelAmong id KNOWN_PAIRS = (none, e) :=
      cancelAmong_of_not_rests h fun pairId hpair o ho heq => hnone pairId hpair o ho (by rw [hid, heq])
    simp only [hcancel]

/-- A request that changes nothing, and is no cancel by the owner of what rests, is as it should be. -/
theorem authorised_self {request : Request} {response : Response}
    (hremoves : ∀ pairId o, Rests e pairId o → ∀ user, IsCancel c o user request → ¬ Owner o user) :
    Authorised c request e response e where
  stays pairId o ho := .inl ⟨0, by rwa [fill_zero]⟩
  comes pairId o' ho' := .inl ⟨o', 0, ho', (fill_zero o').symm⟩
  removes pairId o ho user hcancel howner := absurd howner (hremoves pairId o ho user hcancel)

theorem stepOk_cancel_iff (h : Running requests e) (user : AuthenticatedUser) (orderId : String) :
    StepOk c (.cancelOrder user orderId, e) ↔ Harmless c (.cancelOrder user orderId, e) := by
  by_cases hrests : ∃ pairId ∈ KNOWN_PAIRS, ∃ o, Rests e pairId o ∧ c.parseUuid orderId = some o.id
  · obtain ⟨pairId, hpair, o, ho, hid⟩ := hrests
    rw [StepOk, serve_cancel_of_rests h user ho hid hpair]
    have hsame : ∀ pairId' o', Rests e pairId' o' → c.parseUuid orderId = some o'.id →
        pairId = pairId' ∧ o = o' := fun pairId' o' ho' hid' =>
      h.eq_of_id_eq ho ho' (Option.some.inj (hid.symm.trans hid'))
    constructor
    · intro hok pairId' o' ho' hid'
      obtain ⟨rfl, rfl⟩ := hsame pairId' o' ho' hid'
      refine iff_of_true ?_ hpair
      obtain ⟨q, hq⟩ | ⟨result, hplaced, -⟩ | ⟨user', ⟨rfl, -⟩, howner⟩ := hok.stays pairId o ho
      · exact absurd rfl ((rests_without_iff h ho).mp hq).2
      · cases hplaced
      · exact howner
    · intro hharmless
      have howner := (hharmless pairId o ho hid).mpr hpair
      refine ⟨fun pairId' o' ho' => ?_, fun pairId' o' ho' => ?_, fun pairId' o' ho' user' hcancel _ => ?_⟩
      · by_cases heq : o'.id = o.id
        · obtain ⟨rfl, rfl⟩ := h.eq_of_id_eq ho ho' heq.symm
          exact .inr (.inr ⟨user, ⟨rfl, hid⟩, howner⟩)
        · exact .inl ⟨0, by rw [fill_zero]; exact (rests_without_iff h ho).mpr ⟨ho', heq⟩⟩
      · exact .inl ⟨o', 0, ((rests_without_iff h ho).mp ho').1, (fill_zero o').symm⟩
      · obtain ⟨rfl, rfl⟩ := hsame pairId' o' ho' hcancel.2
        exact fun pairId'' o'' ho'' => ((rests_without_iff h ho).mp ho'').2
  · have hnone : ∀ pairId ∈ KNOWN_PAIRS, ∀ o, Rests e pairId o → c.parseUuid orderId ≠ some o.id :=
      fun pairId hpair o ho hid => hrests ⟨pairId, hpair, o, ho, hid⟩
    rw [StepOk, serve_cancel_of_not_rests h user hnone]
    constructor
    · intro hok pairId o ho hid
      refine iff_of_false (fun howner => ?_) fun hpair => hnone pairId hpair o ho hid
      exact hok.removes pairId o ho user ⟨rfl, hid⟩ howner pairId o ho rfl
    · refine fun hharmless => authorised_self fun pairId o ho user' hcancel howner => ?_
      obtain ⟨rfl, hid⟩ := hcancel
      exact hnone pairId ((hharmless pairId o ho hid).mp howner) o ho hid

/-! ### A placement -/

theorem serve_place {user : AuthenticatedUser} {req : NewOrderRequest} {id : OrderId} {order : InternalOrder}
    (hplace : placeOrder (exactly c) user req id = .ok order) :
    serve (exactly c) (.placeOrder user req id) e =
      ((bookOf e order.pairId).submitOrder order).map fun outcome =>
        (.placed outcome.1, e.withBook order.pairId outcome.2) := by
  rw [serve, hplace]
  simp only [MatchingEngine.submitOrder]
  rw [show (exactly c).decimal = Overflow.exact c.decimal.parse from rfl, Overflow.submitOrder_exact,
    Option.map_map]
  rfl

/-- What rests after a submission. -/
theorem comes_withBook (h : Running requests e) {order : InternalOrder} {result : MatchResult} {b : OrderBook}
    (hsubmit : (bookOf e order.pairId).submitOrder order = some (result, b)) {pairId' : String}
    {o' : InternalOrder} (ho' : Rests (e.withBook order.pairId b) pairId' o') :
    (∃ o q, Rests e pairId' o ∧ o' = o.fill q) ∨ pairId' = order.pairId ∧ ∃ q, o' = order.fill q := by
  by_cases hpair : pairId' = order.pairId
  · obtain ⟨resting, hrepresents⟩ := h.represents order.pairId
    rw [hpair, Rests, bookOf_withBook_self] at ho'
    refine (comes_submitOrder hrepresents hsubmit o' ho').imp (fun hrested => ?_) fun hplaced => ⟨hpair, hplaced⟩
    obtain ⟨o, ho, q, hfill⟩ := hrested
    exact ⟨o, q, hpair ▸ ho, hfill⟩
  · rw [Rests, bookOf_withBook_of_ne hpair] at ho'
    exact .inl ⟨o', 0, ho', (fill_zero o').symm⟩

theorem remaining_of_placed {user : AuthenticatedUser} {req : NewOrderRequest} {id : OrderId}
    {order : InternalOrder} (hplace : placeOrder c user req id = .ok order) : 0 < order.remaining := by
  obtain ⟨-, -, -, -, hpos, hfilled⟩ := placeOrder_ok hplace
  rwa [InternalOrder.remaining, hfilled, sub_zero]

theorem unpriced_of_panic {b : OrderBook} {order : InternalOrder} (h : b.submitOrder order = none) :
    order.orderType = .Limit ∧ order.timeInForce = .GTC ∧ order.price = none := by
  unfold OrderBook.submitOrder at h
  cases htype : order.orderType with
  | Market =>
    rw [htype] at h
    cases h
  | Limit =>
    obtain ⟨q, hq⟩ := exists_matchLevels_order order (b.ladder order.side.opposite)
    have horder : (b.matchAgainstBook order).1 = order.fill q := hq
    cases hprice : order.price with
    | some price =>
      simp only [htype, hprice, Option.isSome_some, if_true, horder, timeInForce_fill, price_fill] at h
      by_cases hfilled : (order.fill q).isFilled = true
      · rw [if_pos hfilled] at h
        cases h
      · rw [if_neg hfilled] at h
        cases hforce : order.timeInForce with
        | GTC =>
          rw [hforce] at h
          cases h
        | IOC =>
          rw [hforce] at h
          cases h
        | FOK =>
          rw [hforce] at h
          cases h
    | none =>
      simp only [htype, hprice, Option.isSome_none, Bool.false_eq_true, if_false] at h
      split_ifs at h
      cases hforce : order.timeInForce with
      | GTC => exact ⟨rfl, rfl, rfl⟩
      | IOC =>
        rw [hforce] at h
        cases h
      | FOK =>
        rw [hforce] at h
        cases h

theorem panic_of_unpriced {b : OrderBook} {order : InternalOrder} (hlacks : 0 < order.remaining)
    (htype : order.orderType = .Limit) (hforce : order.timeInForce = .GTC) (hprice : order.price = none) :
    b.submitOrder order = none := by
  have hopen : ¬ order.isFilled = true := mt (isFilled_iff order).mp (not_le.mpr hlacks)
  simp only [OrderBook.submitOrder, htype, hprice, Option.isSome_none, Bool.false_eq_true, if_false, if_neg hopen,
    hforce]

section Submit

variable {user : AuthenticatedUser} {req : NewOrderRequest} {id : OrderId} {order : InternalOrder}
  (h : Running requests e) (hplace : placeOrder (exactly c) user req id = .ok order) {result : MatchResult}
  {b : OrderBook} (hsubmit : (bookOf e order.pairId).submitOrder order = some (result, b))

include h hsubmit

include hplace in
/-- A placement that is not killed is as it should be. -/
theorem authorised_submit (hwhole : ¬ (order.orderType = .Limit ∧ order.timeInForce = .FOK ∧
      FillableInPart order (bookOf e order.pairId))) :
    Authorised (exactly c) (.placeOrder user req id) e (.placed result) (e.withBook order.pairId b) where
  stays pairId o ho := by
    obtain ⟨resting, hrepresents⟩ := h.represents order.pairId
    by_cases hpair : pairId = order.pairId
    · subst hpair
      refine (stays_submitOrder hrepresents (remaining_of_placed hplace).le hwhole hsubmit o ho).imp
        (fun hstays => ?_) fun hfilled => .inl ⟨result, rfl, hfilled⟩
      obtain ⟨q, hq⟩ := hstays
      exact ⟨q, by rwa [Rests, bookOf_withBook_self]⟩
    · exact .inl ⟨0, by rwa [fill_zero, Rests, bookOf_withBook_of_ne hpair]⟩
  comes pairId o' ho' := by
    obtain ⟨hid, hwallet, hreq, -⟩ := placeOrder_ok hplace
    refine (comes_withBook h hsubmit ho').imp_right fun hplaced => ?_
    obtain ⟨rfl, q, rfl⟩ := hplaced
    exact ⟨user, ⟨rfl, hreq.symm, hid.symm⟩, hwallet⟩
  removes _ _ _ _ hcancel := hcancel.elim

/-- One that is killed has taken an order along that nobody has cancelled or traded with. -/
theorem not_authorised_of_killed (hkilled : order.orderType = .Limit ∧ order.timeInForce = .FOK ∧
      FillableInPart order (bookOf e order.pairId)) :
    ¬ Authorised (exactly c) (.placeOrder user req id) e (.placed result) (e.withBook order.pairId b) := by
  intro hok
  obtain ⟨htype, hforce, hpart⟩ := hkilled
  obtain ⟨resting, hrepresents⟩ := h.represents order.pairId
  obtain ⟨hnone, o, ho, hopen, hgone⟩ := exists_gone_of_killed hrepresents htype hforce hpart hsubmit
  obtain ⟨q, hq⟩ | ⟨result', hresult, hfilled⟩ | ⟨user', hcancel, -⟩ := hok.stays order.pairId o ho
  · rw [Rests, bookOf_withBook_self] at hq
    exact hgone q hq
  · rw [← Response.placed.inj hresult, Filled, hnone] at hfilled
    exact hopen.ne hfilled
  · exact hcancel

end Submit

theorem stepOk_place_iff (h : Running requests e) (user : AuthenticatedUser) (req : NewOrderRequest)
    (id : OrderId) :
    StepOk (exactly c) (.placeOrder user req id, e) ↔ Harmless (exactly c) (.placeOrder user req id, e) := by
  cases hplace : placeOrder (exactly c) user req id with
  | error error =>
    have hserve : serve (exactly c) (.placeOrder user req id) e = some (.rejected error, e) := by
      rw [serve, hplace]
    rw [StepOk, hserve]
    refine iff_of_true (authorised_self fun _ _ _ _ hcancel => hcancel.elim) fun order hok => ?_
    rw [hplace] at hok
    cases hok
  | ok order =>
    have hunique : ∀ order', placeOrder (exactly c) user req id = .ok order' → order = order' :=
      fun order' hplace' => Except.ok.inj (hplace.symm.trans hplace')
    rw [StepOk, serve_place hplace]
    cases hsubmit : (bookOf e order.pairId).submitOrder order with
    | none =>
      obtain ⟨htype, hforce, hprice⟩ := unpriced_of_panic hsubmit
      constructor
      · intro hempty order' hplace'
        obtain rfl := hunique order' hplace'
        refine ⟨fun hkilled => ?_, fun _ _ _ => hempty⟩
        rw [hforce] at hkilled
        cases hkilled.2.1
      · exact fun hharmless => (hharmless order hplace).2 htype hforce hprice
    | some outcome =>
      obtain ⟨result, b⟩ := outcome
      constructor
      · intro hok order' hplace'
        obtain rfl := hunique order' hplace'
        refine ⟨fun hkilled => not_authorised_of_killed h hsubmit hkilled hok, fun htype hforce hprice => ?_⟩
        rw [panic_of_unpriced (remaining_of_placed hplace) htype hforce hprice] at hsubmit
        cases hsubmit
      · exact fun hharmless => authorised_submit h hplace hsubmit (hharmless order hplace).1

/-! ### Runs -/

theorem serve_getOrders (pairId : Option String) :
    ∃ response, serve (exactly c) (.getOrders pairId) e = some (response, e) := by
  cases pairId with
  | none => exact ⟨_, rfl⟩
  | some pairId =>
    cases hget : e.books pairId with
    | none => exact ⟨.passedOn, by simp only [serve, MatchingEngine.getDepth, hget, Option.map_some]⟩
    | some b =>
      have hdepth := Overflow.depth_exact c.decimal.parse 20 b
      refine ⟨.depth (Overflow.exactLevels (b.bids.take 20), Overflow.exactLevels (b.asks.take 20)), ?_⟩
      simp only [serve, MatchingEngine.getDepth, hget, exactly, hdepth, Option.map_some]

theorem stepOk_iff {request : Request} (h : Running (request :: requests) e) :
    StepOk (exactly c) (request, e) ↔ Harmless (exactly c) (request, e) := by
  cases request with
  | placeOrder user req id => exact stepOk_place_iff h user req id
  | cancelOrder user orderId => exact stepOk_cancel_iff h user orderId
  | getOrders pairId =>
    obtain ⟨response, hserve⟩ := @serve_getOrders e c pairId
    rw [StepOk, hserve]
    exact iff_of_true (authorised_self fun _ _ _ _ hcancel => hcancel.elim) trivial

theorem next_of_serve {c : Crates} {request : Request} {e e' : MatchingEngine} {response : Response}
    (h : serve c request e = some (response, e')) : (server c).next request e = e' := by
  simp only [server, h, Option.map_some, Option.getD_some]

theorem Running.tail {request : Request} (h : Running (request :: requests) e) : Running requests e where
  represents := h.represents
  once := h.once
  fresh pairId o ho hmem := by
    refine h.fresh pairId o ho ?_
    rw [List.filterMap_cons]
    split
    · exact hmem
    · exact List.mem_cons_of_mem _ hmem
  ids := by
    have hids := h.ids
    rw [List.filterMap_cons] at hids
    split at hids
    · exact hids
    · exact (List.nodup_cons.mp hids).2

theorem Running.without (h : Running requests e) (ho : Rests e pairId o) :
    Running requests (without pairId o.id e) where
  represents pairId' := by
    by_cases hpair : pairId' = pairId
    · obtain ⟨resting, hrepresents⟩ := h.represents pairId
      rw [hpair, CancelAuthority.without, bookOf_withBook_self]
      exact ⟨_, hrepresents.cancelOrder o.id⟩
    · rw [CancelAuthority.without, bookOf_withBook_of_ne hpair]
      exact h.represents pairId'
  once pairId₁ o₁ ho₁ pairId₂ o₂ ho₂ hid :=
    h.once _ _ ((rests_without_iff h ho).mp ho₁).1 _ _ ((rests_without_iff h ho).mp ho₂).1 hid
  fresh pairId' o' ho' := h.fresh pairId' o' ((rests_without_iff h ho).mp ho').1
  ids := h.ids

/-- An order is submitted that has an id of its own. -/
theorem Running.submit {user : AuthenticatedUser} {req : NewOrderRequest} {order : InternalOrder}
    (h : Running (.placeOrder user req order.id :: requests) e) {result : MatchResult} {b : OrderBook}
    (hsubmit : (bookOf e order.pairId).submitOrder order = some (result, b)) :
    Running requests (e.withBook order.pairId b) := by
  have hids : (order.id :: requests.filterMap Request.placed).Nodup := h.ids
  have hfresh : ∀ pairId o, Rests e pairId o → o.id ≠ order.id := fun pairId o ho hid =>
    h.fresh pairId o ho (hid ▸ List.mem_cons_self)
  refine ⟨fun pairId => ?_, fun pairId₁ o₁ ho₁ pairId₂ o₂ ho₂ hid => ?_, fun pairId o ho => ?_, h.tail.ids⟩
  · by_cases hpair : pairId = order.pairId
    · obtain ⟨resting, hrepresents⟩ := h.represents order.pairId
      obtain ⟨rest, hrest, -⟩ := exists_represents_submit hrepresents
        (fun o ho => hfresh order.pairId o ((mem_resting_iff hrepresents).mp ho)) hsubmit
      rw [hpair, bookOf_withBook_self]
      exact ⟨rest, hrest⟩
    · rw [bookOf_withBook_of_ne hpair]
      exact h.represents pairId
  · obtain ⟨o₁', q₁, hrested₁, rfl⟩ | ⟨rfl, q₁, rfl⟩ := comes_withBook h hsubmit ho₁
    · obtain ⟨o₂', q₂, hrested₂, rfl⟩ | ⟨-, q₂, rfl⟩ := comes_withBook h hsubmit ho₂
      · exact h.once _ _ hrested₁ _ _ hrested₂ hid
      · exact absurd (show o₁'.id = order.id from hid) (hfresh _ _ hrested₁)
    · obtain ⟨o₂', q₂, hrested₂, rfl⟩ | ⟨rfl, -⟩ := comes_withBook h hsubmit ho₂
      · exact absurd (show o₂'.id = order.id from hid.symm) (hfresh _ _ hrested₂)
      · rfl
  · obtain ⟨o', q, hrested, rfl⟩ | ⟨-, q, rfl⟩ := comes_withBook h hsubmit ho
    · exact h.tail.fresh pairId o' hrested
    · exact (List.nodup_cons.mp hids).1

theorem Running.next {request : Request} (h : Running (request :: requests) e) :
    Running requests ((server (exactly c)).next request e) := by
  cases request with
  | placeOrder user req id =>
    cases hplace : placeOrder (exactly c) user req id with
    | error error =>
      have hserve : serve (exactly c) (.placeOrder user req id) e = some (.rejected error, e) := by
        rw [serve, hplace]
      rw [next_of_serve hserve]
      exact h.tail
    | ok order =>
      have hserve := @serve_place e c _ _ _ _ hplace
      obtain ⟨rfl, -⟩ := placeOrder_ok hplace
      cases hsubmit : (bookOf e order.pairId).submitOrder order with
      | none =>
        rw [hsubmit, Option.map_none] at hserve
        have hsame : (server (exactly c)).next (.placeOrder user req order.id) e = e := by
          simp only [server, hserve, Option.map_none, Option.getD_none]
        rw [hsame]
        exact h.tail
      | some outcome =>
        rw [hsubmit, Option.map_some] at hserve
        rw [next_of_serve hserve]
        exact h.submit hsubmit
  | cancelOrder user orderId =>
    by_cases hrests : ∃ pairId ∈ KNOWN_PAIRS, ∃ o, Rests e pairId o ∧ c.parseUuid orderId = some o.id
    · obtain ⟨pairId, hpair, o, ho, hid⟩ := hrests
      rw [next_of_serve (serve_cancel_of_rests (c := exactly c) h user ho hid hpair)]
      exact h.tail.without ho
    · have hnone : ∀ pairId ∈ KNOWN_PAIRS, ∀ o, Rests e pairId o → c.parseUuid orderId ≠ some o.id :=
        fun pairId hpair o ho hid => hrests ⟨pairId, hpair, o, ho, hid⟩
      rw [next_of_serve (serve_cancel_of_not_rests (c := exactly c) h user hnone)]
      exact h.tail
  | getOrders pairId =>
    obtain ⟨response, hserve⟩ := @serve_getOrders e c pairId
    rw [next_of_serve hserve]
    exact h.tail

end Books

theorem running_new {requests : List Request} (hids : (requests.filterMap Request.placed).Nodup) :
    Running requests (.new KNOWN_PAIRS) := by
  have hnone : ∀ pairId o, ¬ Rests (.new KNOWN_PAIRS) pairId o := by
    intro pairId o ho
    rw [Rests, bookOf_new] at ho
    exact absurd ho List.not_mem_nil
  refine ⟨fun pairId => ⟨[], ?_⟩, fun pairId o ho => absurd ho (hnone pairId o),
    fun pairId o ho => absurd ho (hnone pairId o), hids⟩
  rw [bookOf_new]
  exact represents_new

/-- In a run in which each order has an id of its own, an order leaves the book by being filled or by a cancel of
its owner, and such a cancel takes it out, exactly if each request is harmless. -/
theorem authority_iff (c : Crates) (requests : List Request)
    (hids : (requests.filterMap Request.placed).Nodup) :
    (∀ p ∈ (server (exactly c)).trace requests (.new KNOWN_PAIRS), StepOk (exactly c) p) ↔
      ∀ p ∈ (server (exactly c)).trace requests (.new KNOWN_PAIRS), Harmless (exactly c) p :=
  Machine.forall_trace_iff (fun _ _ _ h => stepOk_iff h) (fun _ _ _ h _ => h.next) (running_new hids)

/-! ### Alice's order -/

namespace Sample

open ApiServer.Matching.Engine.Sample

def orderId : OrderId := 0x00000000000040008000000000000001#128

def orderIdText : String := "00000000-0000-4000-8000-000000000001"

def saleIn (pairId : String) : Request := .placeOrder alice { sale with pairId } orderId

def order (pairId : String) : InternalOrder :=
  ⟨orderId, "alice", pairId, .Sell, .Limit, some (3 / 2), 100, 0, .GTC⟩

/-- A pair that the handler tries, and one that it does not. -/
def pairs : List String := ["BEANS/USDC", "BEANS/BTC"]

/-- The engine after Alice has placed her order in the pair. -/
def listed (pairId : String) : MatchingEngine := (server (exactly crates)).next (saleIn pairId) (.new KNOWN_PAIRS)

theorem trace_eq {pairId : String} (hpair : pairId ∈ pairs) (user : AuthenticatedUser) :
    (server (exactly crates)).trace [saleIn pairId, .cancelOrder user orderIdText] (.new KNOWN_PAIRS) =
      [(saleIn pairId, .new KNOWN_PAIRS), (.cancelOrder user orderIdText, listed pairId)] := by
  have hserved : ∀ pairId ∈ pairs,
      (server (exactly crates)).halts (saleIn pairId) (.new KNOWN_PAIRS) = false := by decide +kernel
  rw [Machine.trace_cons (hserved pairId hpair), Machine.trace, Machine.trace_nil, ite_self]
  rfl

theorem rests_listed {pairId : String} (hpair : pairId ∈ pairs) {pairId' : String} {o : InternalOrder} :
    Rests (listed pairId) pairId' o ↔ pairId' = pairId ∧ o = order pairId := by
  have hplace : ∀ pairId ∈ pairs,
      placeOrder (exactly crates) alice { sale with pairId } orderId = .ok (order pairId) := by decide +kernel
  have hrests : ∀ pairId ∈ pairs, ((OrderBook.new).submitOrder (order pairId)).map (fun outcome =>
      restingOrders outcome.2) = some [order pairId] := by decide +kernel
  obtain ⟨outcome, hsubmit, hrests⟩ := Option.map_eq_some_iff.mp (hrests pairId hpair)
  have hserve := @serve_place (.new KNOWN_PAIRS) crates _ _ _ _ (hplace pairId hpair)
  rw [bookOf_new, hsubmit, Option.map_some] at hserve
  rw [listed, saleIn, next_of_serve hserve, show (order pairId).pairId = pairId from rfl]
  by_cases hsame : pairId' = pairId
  · subst hsame
    rw [Rests, bookOf_withBook_self, hrests, List.mem_singleton]
    exact (and_iff_right rfl).symm
  · rw [Rests, bookOf_withBook_of_ne hsame, bookOf_new]
    exact iff_of_false List.not_mem_nil fun h => hsame h.1

theorem running_listed (pairId : String) (user : AuthenticatedUser) :
    Running [.cancelOrder user orderIdText] (listed pairId) :=
  Running.next (running_new (List.nodup_singleton orderId))

end Sample

/-- Alice cancels her own order. -/
theorem authority_iff_owner : (∀ p ∈ (server (exactly Engine.Sample.crates)).trace
      [Sample.saleIn "BEANS/USDC", .cancelOrder Engine.Sample.alice Sample.orderIdText] (.new KNOWN_PAIRS),
      StepOk (exactly Engine.Sample.crates) p) ∧
    restingOrders (bookOf (Sample.listed "BEANS/USDC") "BEANS/USDC") = [Sample.order "BEANS/USDC"] ∧
    restingOrders (bookOf ((server (exactly Engine.Sample.crates)).next
      (.cancelOrder Engine.Sample.alice Sample.orderIdText) (Sample.listed "BEANS/USDC")) "BEANS/USDC") = [] := by
  refine ⟨(authority_iff Engine.Sample.crates _ (by decide)).mpr ?_, by decide +kernel, by decide +kernel⟩
  rw [Sample.trace_eq (by decide), List.forall_mem_cons, List.forall_mem_singleton]
  have hplace : placeOrder (exactly Engine.Sample.crates) Engine.Sample.alice
      { Engine.Sample.sale with pairId := "BEANS/USDC" } Sample.orderId = .ok (Sample.order "BEANS/USDC") := by
    decide +kernel
  refine ⟨fun order hok => ?_, fun pairId o ho _ => ?_⟩
  · obtain rfl := Except.ok.inj (hplace.symm.trans hok)
    exact ⟨fun hkilled => absurd hkilled.2.1 (by decide), fun _ _ hprice => absurd hprice (by decide +kernel)⟩
  · obtain ⟨rfl, rfl⟩ := (Sample.rests_listed (by decide)).mp ho
    decide

/-- Bob cancels Alice's order, and in another pair Alice does not. -/
theorem cancel_without_authority :
    (¬ ∀ p ∈ (server (exactly Engine.Sample.crates)).trace
      [Sample.saleIn "BEANS/USDC", .cancelOrder Engine.Sample.bob Sample.orderIdText] (.new KNOWN_PAIRS),
      StepOk (exactly Engine.Sample.crates) p) ∧
    ¬ ∀ p ∈ (server (exactly Engine.Sample.crates)).trace
      [Sample.saleIn "BEANS/BTC", .cancelOrder Engine.Sample.alice Sample.orderIdText] (.new KNOWN_PAIRS),
      StepOk (exactly Engine.Sample.crates) p := by
  have hrefuted : ∀ pairId ∈ Sample.pairs, ∀ user, (Owner (Sample.order pairId) user ↔ pairId ∈ KNOWN_PAIRS) ∨
      ¬ ∀ p ∈ (server (exactly Engine.Sample.crates)).trace
        [Sample.saleIn pairId, .cancelOrder user Sample.orderIdText] (.new KNOWN_PAIRS),
        StepOk (exactly Engine.Sample.crates) p := by
    intro pairId hpair user
    refine Classical.or_iff_not_imp_right.mpr fun hnot => ?_
    rw [not_not, Sample.trace_eq hpair, List.forall_mem_cons, List.forall_mem_singleton,
      stepOk_cancel_iff (Sample.running_listed pairId user)] at hnot
    exact hnot.2 pairId (Sample.order pairId) ((Sample.rests_listed hpair).mpr ⟨rfl, rfl⟩) rfl
  exact ⟨(hrefuted "BEANS/USDC" (by decide) Engine.Sample.bob).resolve_left (by decide),
    (hrefuted "BEANS/BTC" (by decide) Engine.Sample.alice).resolve_left (by decide)⟩

end Coinjecture.ApiServer.Matching.CancelAuthority
