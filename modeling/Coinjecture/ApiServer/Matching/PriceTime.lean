import Coinjecture.ApiServer.Matching.Sweep
import Coinjecture.Lib.Trace

/-! # Price-time priority

The book and the reference matcher are run side by side. `Represents` says that the ladders hold what
rests, by price and age; a submission keeps it, except that a fill-or-kill order that can be filled only
in part takes from its makers and undoes nothing.

* `book_safe_iff` : in a run the book trades as the reference matcher does and keeps its accounts exactly
  if no fill-or-kill order can be filled only in part. -/

namespace Coinjecture.ApiServer.Matching.PriceTime

open Lib.Trace
open ApiServer.Matching.Book ApiServer.Matching.Reference
open ApiServer.Matching.Ladders ApiServer.Matching.Sweep

inductive Op where
  | submit (order : InternalOrder)
  | cancel (orderId : OrderId)
  deriving DecidableEq

/-- The book, and what rests for the reference matcher. -/
abbrev State := OrderBook × List InternalOrder

/-- The machine of both. A panic ends it. -/
def machine : Machine Op State where
  next
    | .submit order, (b, resting) =>
      (match b.submitOrder order with
        | some (_, b') => b'
        | none => b, (Reference.submit order resting).2)
    | .cancel orderId, (b, resting) => ((b.cancelOrder orderId).2, Reference.cancel orderId resting)
  halts
    | .submit order, (b, _) => (b.submitOrder order).isNone
    | .cancel _, _ => false

/-- No two best prices cross, and no order is filled beyond its quantity. -/
structure BookOk (b : OrderBook) : Prop where
  uncrossed : ∀ bid ask, b.bestBid = some bid → b.bestAsk = some ask → bid < ask
  notOverfilled : ∀ side, ∀ o ∈ orders (b.ladder side), o.filledQuantity ≤ o.quantity

/-- The trades are those of the reference matcher, within both limits, and add up: what the order lacks
less, its makers lack less, whichever makers are counted. -/
structure SubmitOk (order : InternalOrder) (b : OrderBook) (resting : List InternalOrder)
    (result : MatchResult) (b' : OrderBook) : Prop where
  trades : result.trades = (Reference.submit order resting).1
  limits : ∀ t ∈ result.trades, order.canMatch t.price = true ∧
    ∃ maker ∈ orders (b.ladder order.side.opposite),
      maker.id = makerOf order.side t ∧ maker.price = some t.price
  remaining : result.remainingQuantity = order.quantity - (result.trades.map MatchedTrade.quantity).sum
  notOverfilled : (result.trades.map MatchedTrade.quantity).sum ≤ order.quantity
  makers : ∀ ids, restingQuantity ids (orders (b.ladder order.side.opposite)) =
    restingQuantity ids (orders (b'.ladder order.side.opposite)) +
      tradedQuantity order.side ids result.trades
  book : BookOk b'

def StepOk (p : Op × State) : Prop :=
  match p with
  | (.submit order, (b, resting)) =>
    ∃ result b', b.submitOrder order = some (result, b') ∧ SubmitOk order b resting result b'
  | (.cancel orderId, (b, _)) => BookOk (b.cancelOrder orderId).2

/-- The other side has something for the order, but not enough. -/
def PartlyFillable (order : InternalOrder) (b : OrderBook) : Prop :=
  0 < available order (orders (b.ladder order.side.opposite)) ∧
    available order (orders (b.ladder order.side.opposite)) < order.quantity

instance (order : InternalOrder) (b : OrderBook) : Decidable (PartlyFillable order b) :=
  inferInstanceAs (Decidable (_ ∧ _))

/-- The operation is not a fill-or-kill limit order that can be filled in part only. -/
def Harmless (p : Op × State) : Prop :=
  match p with
  | (.submit order, (b, _)) =>
    ¬ (order.orderType = .Limit ∧ order.timeInForce = .FOK ∧ PartlyFillable order b)
  | (.cancel _, _) => True

/-- An order as it is submitted: nothing of it is filled, and a limit order has a price. -/
structure Valid (order : InternalOrder) : Prop where
  quantity_pos : 0 < order.quantity
  filled_eq : order.filledQuantity = 0
  price_pos : ∀ price ∈ order.price, 0 < price
  priced : order.orderType = .Limit → order.price.isSome = true

/-- The id of the order that is submitted. -/
def Op.submitted : Op → Option OrderId
  | .submit order => some order.id
  | .cancel _ => none

/-- The book holds what rests. -/
structure Represents (b : OrderBook) (resting : List InternalOrder) : Prop where
  ordered : ∀ side, Ordered side (b.ladder side)
  lists : ∀ side, Lists side (orders (b.ladder side)) resting
  nodup : (resting.map InternalOrder.id).Nodup
  indexed : ∀ orderId side price, b.orderIndex orderId = some (side, price) ↔
    (orderId, side, some price) ∈ resting.map place
  allOpen : AllOpen resting
  uncrossed : ∀ o ∈ resting, ∀ o' ∈ resting, o.side = .Buy → o'.side = .Sell → limit o < limit o'

/-! ### What the book holds -/

@[simp] theorem ladder_withLadder (side : Side) (ladder : Ladder) (b : OrderBook) :
    (b.withLadder side ladder).ladder side = ladder := by
  cases side with
  | Buy => rfl
  | Sell => rfl

theorem ladder_withLadder_of_ne {side side' : Side} (h : side' ≠ side) (ladder : Ladder)
    (b : OrderBook) : (b.withLadder side ladder).ladder side' = b.ladder side' := by
  cases side with
  | Buy =>
    cases side' with
    | Buy => exact absurd rfl h
    | Sell => rfl
  | Sell =>
    cases side' with
    | Buy => rfl
    | Sell => exact absurd rfl h

theorem eq_of_ne_opposite {side side' : Side} (h : side' ≠ side.opposite) : side' = side := by
  cases side with
  | Buy =>
    cases side' with
    | Buy => rfl
    | Sell => exact absurd rfl h
  | Sell =>
    cases side' with
    | Buy => exact absurd rfl h
    | Sell => rfl

/-- The orders of a ladder are those that rest on its side. -/
theorem perm_of_lists {side : Side} {makers resting : List InternalOrder}
    (h : Lists side makers resting) : makers.Perm (resting.filter fun o => o.side = side) := by
  refine List.perm_iff_count.mpr fun o => ?_
  have hsame := congrArg (List.count o) (h.filter_eq (limit o))
  rw [List.count_filter (by simp)] at hsame
  rw [hsame]
  by_cases hside : o.side = side
  · rw [List.count_filter (by simp [hside]), List.count_filter (by simp [hside])]
  · rw [List.count_eq_zero_of_not_mem (by simp [hside]), List.count_eq_zero_of_not_mem (by simp [hside])]

theorem lists_filter {side : Side} {makers resting : List InternalOrder} (h : Lists side makers resting)
    (f : InternalOrder → Bool) : Lists side (makers.filter f) (resting.filter f) where
  sorted := h.sorted.sublist List.filter_sublist
  filter_eq p := by
    rw [List.filter_comm, h.filter_eq p, List.filter_comm]

namespace Represents

variable {b : OrderBook} {resting : List InternalOrder} (h : Represents b resting)

include h

theorem allOpen_ladder (side : Side) : AllOpen (orders (b.ladder side)) :=
  fun o ho => h.allOpen o ((h.lists side).mem_iff.mp ho).1

theorem nodup_ladder (side : Side) : ((orders (b.ladder side)).map InternalOrder.id).Nodup := by
  refine ((perm_of_lists (h.lists side)).map _).nodup_iff.mpr ?_
  exact h.nodup.sublist (List.filter_sublist.map _)

theorem length_ladder_le (side : Side) : (orders (b.ladder side)).length ≤ resting.length := by
  rw [(perm_of_lists (h.lists side)).length_eq]
  exact List.length_filter_le _ _

theorem price_eq {o : InternalOrder} (ho : o ∈ resting) : o.price = some (limit o) :=
  ((h.ordered o.side).price_eq ((h.lists o.side).mem_iff.mpr ⟨ho, rfl⟩)).2.1

/-- The head of a ladder is the price of an order that rests. -/
theorem exists_of_head {side : Side} {price : Decimal}
    (hbest : (b.ladder side).head?.map Prod.fst = some price) :
    ∃ o ∈ resting, o.side = side ∧ limit o = price := by
  obtain ⟨level, hlevel, rfl⟩ := Option.map_eq_some_iff.mp hbest
  have hmem := List.mem_of_head? hlevel
  obtain ⟨o, rest, heq⟩ := List.exists_cons_of_ne_nil ((h.ordered side).nonempty level hmem)
  have ho : o ∈ orders (b.ladder side) :=
    List.mem_flatMap.mpr ⟨level, hmem, heq ▸ List.mem_cons_self⟩
  obtain ⟨hrests, hside⟩ := (h.lists side).mem_iff.mp ho
  have hprice := ((h.ordered side).priced level hmem o (heq ▸ List.mem_cons_self)).2
  exact ⟨o, hrests, hside, by rw [limit, hprice, Option.getD_some]⟩

theorem bookOk : BookOk b where
  uncrossed bid ask hbid hask := by
    have hbids : (b.ladder .Buy).head?.map Prod.fst = some bid := hbid
    have hasks : (b.ladder .Sell).head?.map Prod.fst = some ask := hask
    obtain ⟨o, ho, hside, rfl⟩ := h.exists_of_head hbids
    obtain ⟨o', ho', hside', rfl⟩ := h.exists_of_head hasks
    exact h.uncrossed o ho o' ho' hside hside'
  notOverfilled side o ho := by
    have hpos := h.allOpen_ladder side o ho
    rw [InternalOrder.remaining] at hpos
    linarith

/-- An order is taken against the other side: the book and the reference matcher end with the same order
and the same trades. -/
theorem matchAgainstBook (order : InternalOrder) :
    let pass := sweep order (orders (b.ladder order.side.opposite))
    ∃ b' rest, b.matchAgainstBook order = (pass.order, pass.trades, b') ∧
      fillBest resting.length order resting = (pass.order, pass.trades, rest) ∧
      Represents b' rest ∧ orders (b'.ladder order.side.opposite) = pass.rest ∧
      rest.map place = (resting.map place).filter (fun k => k.1 ∉ pass.filled) := by
  intro pass
  obtain ⟨rest, hfill, hlists, hown, hplaces⟩ := sweep_simulates resting.length
    (h.length_ladder_le order.side.opposite) (h.lists order.side.opposite) h.nodup
  have hloops := @matchLevels_eq_sweep _ order _ (h.ordered order.side.opposite)
  have hordered := (@ordered_matchLevels _ order _ (h.ordered order.side.opposite)).1
  simp only at hloops
  have hpass : pass = _ := hloops
  have hrest : orders (matchLevels order (b.ladder order.side.opposite)).rest = pass.rest := by rw [hpass]
  have hfrom : ∀ o ∈ rest, ∃ o' ∈ resting, place o' = place o := by
    intro o ho
    have hmem : place o ∈ rest.map place := List.mem_map_of_mem ho
    rw [hplaces] at hmem
    exact List.mem_map.mp (List.mem_of_mem_filter hmem)
  have hprices : ∀ {o o' : InternalOrder}, place o' = place o → o'.side = o.side ∧ limit o' = limit o := by
    intro o o' heq
    have hprice : o'.price = o.price := congrArg (fun k => k.2.2) heq
    exact ⟨congrArg (fun k => k.2.1) heq, by rw [limit, hprice]⟩
  have hladders : ∀ side, Lists side (orders ((b.withLadder order.side.opposite
      (matchLevels order (b.ladder order.side.opposite)).rest).ladder side)) rest := by
    intro side
    by_cases hside : side = order.side.opposite
    · rw [hside, ladder_withLadder, hrest]
      exact hlists
    · rw [ladder_withLadder_of_ne hside]
      obtain rfl := eq_of_ne_opposite hside
      refine ⟨(h.lists order.side).sorted, fun p => ?_⟩
      have hp := congrArg (List.filter fun o => decide (limit o = p)) hown
      simp only [List.filter_filter] at hp
      rw [(h.lists order.side).filter_eq p]
      simpa only [Bool.and_comm] using hp.symm
  refine ⟨(b.matchAgainstBook order).2.2, rest, ?_, hfill,
    ⟨fun side => ?_, hladders, ?_, ?_, fun o ho => ?_, ?_⟩, ?_, hplaces⟩
  · rw [hpass]
    rfl
  · change Ordered side ((b.withLadder _ _).ladder side)
    by_cases hside : side = order.side.opposite
    · rw [hside, ladder_withLadder]
      exact hordered
    · rw [ladder_withLadder_of_ne hside]
      exact h.ordered side
  · have hids : rest.map InternalOrder.id = (rest.map place).map Prod.fst := by
      rw [List.map_map]
      rfl
    have hids' : resting.map InternalOrder.id = (resting.map place).map Prod.fst := by
      rw [List.map_map]
      rfl
    have hnodup := h.nodup
    rw [hids'] at hnodup
    rw [hids, hplaces]
    exact hnodup.sublist (List.filter_sublist.map _)
  · intro orderId side price
    change (if orderId ∈ (matchLevels order _).filled then none else b.orderIndex orderId) = _ ↔ _
    rw [hplaces, List.mem_filter, ← h.indexed, hloops]
    split_ifs with hmem
    · simp [hmem]
    · simp [hmem]
  · rcases Decidable.em (o.side = order.side.opposite) with hside | hside
    · refine (makers_sweep order _ (h.allOpen_ladder order.side.opposite)).1 o ?_
      exact hlists.mem_iff.mpr ⟨ho, hside⟩
    · have hmem : o ∈ rest.filter fun o => o.side = order.side :=
        List.mem_filter.mpr ⟨ho, decide_eq_true (eq_of_ne_opposite hside)⟩
      rw [hown] at hmem
      exact h.allOpen o (List.mem_of_mem_filter hmem)
  · intro o ho o' ho' hbuy hsell
    obtain ⟨x, hx, hplace⟩ := hfrom o ho
    obtain ⟨x', hx', hplace'⟩ := hfrom o' ho'
    obtain ⟨hside, hlimit⟩ := hprices hplace
    obtain ⟨hside', hlimit'⟩ := hprices hplace'
    rw [← hlimit, ← hlimit']
    exact h.uncrossed x hx x' hx' (hside.trans hbuy) (hside'.trans hsell)
  · exact (congrArg orders (ladder_withLadder ..)).trans hrest

/-- An order that nothing on the other side can be filled against comes to rest. -/
theorem insertRestingOrder {order : InternalOrder} {price : Decimal} (hprice : order.price = some price)
    (hfresh : ∀ o ∈ resting, o.id ≠ order.id) (hopen : 0 < order.remaining)
    (hbeyond : ∀ o ∈ resting, o.side = order.side.opposite → order.canMatch (limit o) = false) :
    Represents (b.insertRestingOrder order price) (resting ++ [order]) where
  ordered side := by
    change Ordered side ((b.withLadder order.side _).ladder side)
    by_cases hside : side = order.side
    · rw [hside, ladder_withLadder]
      exact ordered_pushOrder (h.ordered order.side) rfl hprice
    · rw [ladder_withLadder_of_ne hside]
      exact h.ordered side
  lists side := by
    change Lists side (orders ((b.withLadder order.side _).ladder side)) _
    by_cases hside : side = order.side
    · rw [hside, ladder_withLadder]
      refine ⟨(ordered_pushOrder (h.ordered order.side) rfl hprice).sorted_orders, fun p => ?_⟩
      rw [filter_pushOrder (h.ordered order.side) hprice, (h.lists order.side).filter_eq,
        List.filter_append]
      refine congrArg (_ ++ ·) (List.filter_congr fun o ho => ?_)
      rw [List.mem_singleton.mp ho, decide_eq_true rfl, Bool.true_and]
    · rw [ladder_withLadder_of_ne hside]
      refine ⟨(h.lists side).sorted, fun p => ?_⟩
      rw [(h.lists side).filter_eq, List.filter_append, List.filter_cons_of_neg (by simp [Ne.symm hside]),
        List.filter_nil, List.append_nil]
  nodup := by
    rw [List.map_append, List.map_singleton]
    refine List.nodup_append'.mpr ⟨h.nodup, List.nodup_singleton _, fun x hx hmem => ?_⟩
    obtain ⟨o, ho, rfl⟩ := List.mem_map.mp hx
    exact hfresh o ho (List.mem_singleton.mp hmem)
  indexed orderId side p := by
    change Function.update b.orderIndex order.id _ orderId = _ ↔ _
    rw [List.map_append, List.mem_append, ← h.indexed, List.map_singleton, List.mem_singleton]
    by_cases hid : orderId = order.id
    · have hnone : b.orderIndex order.id ≠ some (side, p) := by
        intro hsome
        obtain ⟨o, ho, hplace⟩ := List.mem_map.mp ((h.indexed _ _ _).mp hsome)
        exact hfresh o ho (congrArg Prod.fst hplace)
      rw [hid, Function.update_self]
      simp [hnone, place, hprice, eq_comm]
    · rw [Function.update_of_ne hid]
      simp [place, hid]
  allOpen o ho := by
    rcases List.mem_append.mp ho with ho | ho
    · exact h.allOpen o ho
    · rw [List.mem_singleton.mp ho]
      exact hopen
  uncrossed o ho o' ho' hbuy hsell := by
    have hlimit : limit order = price := by rw [limit, hprice, Option.getD_some]
    rcases List.mem_append.mp ho with hrests | hnew
    · rcases List.mem_append.mp ho' with hrests' | hnew'
      · exact h.uncrossed o hrests o' hrests' hbuy hsell
      · obtain rfl := List.mem_singleton.mp hnew'
        have hcan := hbeyond o hrests (by rw [hbuy, hsell]; rfl)
        simp only [InternalOrder.canMatch, hprice, hsell, decide_eq_false_iff_not, not_le] at hcan
        rw [hlimit]
        exact hcan
    · obtain rfl := List.mem_singleton.mp hnew
      rcases List.mem_append.mp ho' with hrests' | hnew'
      · have hcan := hbeyond o' hrests' (by rw [hbuy, hsell]; rfl)
        simp only [InternalOrder.canMatch, hprice, hbuy, decide_eq_false_iff_not, not_le] at hcan
        rw [hlimit]
        exact hcan
      · rw [List.mem_singleton.mp hnew', hbuy] at hsell
        cases hsell

/-- A cancelled order rests no longer. -/
theorem cancelOrder (orderId : OrderId) :
    Represents (b.cancelOrder orderId).2 (Reference.cancel orderId resting) := by
  rcases hindex : b.orderIndex orderId with _ | ⟨side, price⟩
  · have hnone : ∀ o ∈ resting, o.id ≠ orderId := by
      rintro o ho rfl
      have hsome := (h.indexed o.id o.side (limit o)).mpr
        (List.mem_map.mpr ⟨o, ho, by rw [place, h.price_eq ho]⟩)
      rw [hindex] at hsome
      cases hsome
    rw [OrderBook.cancelOrder, hindex, Reference.cancel, filter_id_ne_eq_self hnone]
    exact h
  · obtain ⟨o, ho, hplace⟩ := List.mem_map.mp ((h.indexed _ _ _).mp hindex)
    obtain rfl : o.id = orderId := congrArg Prod.fst hplace
    obtain rfl : o.side = side := congrArg (fun k => k.2.1) hplace
    have hprice : o.price = some price := congrArg (fun k => k.2.2) hplace
    obtain rfl : limit o = price := by rw [limit, hprice, Option.getD_some]
    obtain ⟨hordered, hrest, -⟩ := takeOrder_spec (h.ordered o.side) (h.nodup_ladder o.side)
      ((h.lists o.side).mem_iff.mpr ⟨ho, rfl⟩)
    have hsame : ∀ o' ∈ resting, o'.id = o.id → o' = o :=
      fun o' ho' hid => List.inj_on_of_nodup_map h.nodup ho' ho hid
    rw [OrderBook.cancelOrder, hindex]
    refine ⟨fun side => ?_, fun side => ?_, ?_, fun orderId side price => ?_,
      fun o' ho' => h.allOpen o' (List.mem_of_mem_filter ho'), fun x hx x' hx' => ?_⟩
    · change Ordered side ((b.withLadder o.side _).ladder side)
      by_cases hside : side = o.side
      · rw [hside, ladder_withLadder]
        exact hordered
      · rw [ladder_withLadder_of_ne hside]
        exact h.ordered side
    · change Lists side (orders ((b.withLadder o.side _).ladder side)) _
      have hlists := lists_filter (h.lists side) fun x => x.id ≠ o.id
      by_cases hside : side = o.side
      · rw [hside, ladder_withLadder, hrest, ← hside]
        exact hlists
      · rw [ladder_withLadder_of_ne hside]
        have hothers : ∀ x ∈ orders (b.ladder side), x.id ≠ o.id := by
          intro x hx hid
          obtain ⟨hxrests, hxside⟩ := (h.lists side).mem_iff.mp hx
          exact hside (by rw [← hxside, hsame x hxrests hid])
        rw [filter_id_ne_eq_self hothers] at hlists
        exact hlists
    · exact h.nodup.sublist (List.filter_sublist.map _)
    · change Function.update b.orderIndex o.id none orderId = _ ↔ _
      have hmem : (orderId, side, some price) ∈ (Reference.cancel o.id resting).map place ↔
          orderId ≠ o.id ∧ (orderId, side, some price) ∈ resting.map place := by
        simp only [Reference.cancel, List.mem_map, List.mem_filter, decide_eq_true_eq]
        constructor
        · rintro ⟨x, ⟨hx, hid⟩, hplace⟩
          exact ⟨fun heq => hid ((congrArg Prod.fst hplace).trans heq), x, hx, hplace⟩
        · rintro ⟨hid, x, hx, hplace⟩
          exact ⟨x, ⟨hx, fun heq => hid ((congrArg Prod.fst hplace).symm.trans heq)⟩, hplace⟩
      rw [hmem, ← h.indexed]
      by_cases hid : orderId = o.id
      · rw [hid, Function.update_self]
        simp
      · rw [Function.update_of_ne hid]
        simp [hid]
    · exact h.uncrossed x (List.mem_of_mem_filter hx) x' (List.mem_of_mem_filter hx')

end Represents

/-! ### A submission -/

@[simp] theorem timeInForce_fill (o : InternalOrder) (q : Decimal) :
    (o.fill q).timeInForce = o.timeInForce := rfl

@[simp] theorem price_fill (o : InternalOrder) (q : Decimal) : (o.fill q).price = o.price := rfl

@[simp] theorem quantity_fill (o : InternalOrder) (q : Decimal) : (o.fill q).quantity = o.quantity := rfl

@[simp] theorem id_fill (o : InternalOrder) (q : Decimal) : (o.fill q).id = o.id := rfl

theorem Valid.remaining_fill {order : InternalOrder} (h : Valid order) (q : Decimal) :
    (order.fill q).remaining = order.quantity - q := by
  rw [Sweep.remaining_fill, InternalOrder.remaining, h.filled_eq, sub_zero]

/-- An order was taken against the other side. `filled` of it was filled. -/
structure Matched (order : InternalOrder) (b : OrderBook) (resting : List InternalOrder) (filled : Decimal)
    (trades : List MatchedTrade) (b' : OrderBook) (rest : List InternalOrder) : Prop where
  book : b.matchAgainstBook order = (order.fill filled, trades, b')
  reference : fillBest resting.length order resting = (order.fill filled, trades, rest)
  represents : Represents b' rest
  sum : filled = (trades.map MatchedTrade.quantity).sum
  remaining : (order.fill filled).remaining =
    max 0 (order.remaining - available order (orders (b.ladder order.side.opposite)))
  limits : ∀ t ∈ trades, order.canMatch t.price = true ∧
    ∃ maker ∈ orders (b.ladder order.side.opposite),
      maker.id = makerOf order.side t ∧ maker.price = some t.price
  makers : ∀ ids, restingQuantity ids (orders (b.ladder order.side.opposite)) =
    restingQuantity ids (orders (b'.ladder order.side.opposite)) + tradedQuantity order.side ids trades
  ends : (order.fill filled).isFilled = true ∨
    ∀ o ∈ rest, o.side = order.side.opposite → order.canMatch (limit o) = false
  rested : ∀ o ∈ rest, ∃ o' ∈ resting, o'.id = o.id

theorem Represents.exists_matched {b : OrderBook} {resting : List InternalOrder} (h : Represents b resting)
    {order : InternalOrder} (hopen : 0 ≤ order.remaining) :
    ∃ filled trades b' rest, Matched order b resting filled trades b' rest := by
  obtain ⟨b', rest, hbook, hreference, hrepresents, hladder, hplaces⟩ := h.matchAgainstBook order
  have hordered := h.ordered order.side.opposite
  have hall := h.allOpen_ladder order.side.opposite
  have hsorted := hordered.sorted_orders
  have horder := order_sweep order (orders (b.ladder order.side.opposite))
  rw [horder] at hbook hreference
  refine ⟨_, _, b', rest, hbook, hreference, hrepresents, rfl, ?_, fun t ht => ?_, fun ids => ?_, ?_,
    fun o ho => ?_⟩
  · rw [← horder]
    exact remaining_sweep order _ hsorted hall hopen
  · obtain ⟨hcan, -, maker, hmaker, hid, hlimit⟩ := trades_sweep order _ hall t ht
    exact ⟨hcan, maker, hmaker, hid, by rw [← hlimit]; exact (hordered.price_eq hmaker).2.1⟩
  · rw [hladder]
    exact (makers_sweep order _ hall).2 ids
  · rw [← horder]
    refine (sweep_ends order _ hsorted hall).imp_right fun hbeyond o ho hside => hbeyond o ?_
    rw [← hladder]
    exact (hrepresents.lists _).mem_iff.mpr ⟨ho, hside⟩
  · have hmem : place o ∈ rest.map place := List.mem_map_of_mem ho
    rw [hplaces] at hmem
    obtain ⟨o', ho', heq⟩ := List.mem_map.mp (List.mem_of_mem_filter hmem)
    exact ⟨o', ho', congrArg Prod.fst heq⟩

namespace Matched

variable {order : InternalOrder} {b b' : OrderBook} {resting rest : List InternalOrder} {filled : Decimal}
  {trades : List MatchedTrade} (h : Matched order b resting filled trades b' rest)

include h

theorem filled_le (hvalid : Valid order) : filled ≤ order.quantity := by
  have hremaining := h.remaining
  have hle := le_max_left 0 (order.remaining - available order (orders (b.ladder order.side.opposite)))
  rw [← hremaining, hvalid.remaining_fill] at hle
  exact sub_nonneg.mp hle

/-- The order is filled exactly if enough is available. -/
theorem isFilled_iff (hvalid : Valid order) : (order.fill filled).isFilled = true ↔
    order.quantity ≤ available order (orders (b.ladder order.side.opposite)) := by
  rw [Sweep.isFilled_iff, h.remaining, InternalOrder.remaining, hvalid.filled_eq, sub_zero]
  rw [max_le_iff, sub_nonpos]
  exact and_iff_right le_rfl

/-- The result of a submission that reports what was traded. -/
theorem submitOk (hvalid : Valid order) {result : MatchResult} {b'' : OrderBook}
    (htrades : result.trades = trades) (hreference : (Reference.submit order resting).1 = trades)
    (hremaining : result.remainingQuantity = order.quantity - filled)
    (hladder : b''.ladder order.side.opposite = b'.ladder order.side.opposite) (hbook : BookOk b'') :
    SubmitOk order b resting result b'' where
  trades := htrades.trans hreference.symm
  limits t ht := h.limits t (htrades ▸ ht)
  remaining := by rw [hremaining, htrades, ← h.sum]
  notOverfilled := by
    rw [htrades, ← h.sum]
    exact h.filled_le hvalid
  makers ids := by
    rw [hladder, htrades]
    exact h.makers ids
  book := hbook

/-- What is left of a limit order, if it may, comes to rest. -/
theorem represents_insert (hfresh : ∀ o ∈ resting, o.id ≠ order.id) {price : Decimal}
    (hprice : order.price = some price) (hopen : ¬ (order.fill filled).isFilled = true) :
    Represents (b'.insertRestingOrder (order.fill filled) price) (rest ++ [order.fill filled]) := by
  refine h.represents.insertRestingOrder hprice (fun o ho => ?_)
    (not_le.mp (mt (Sweep.isFilled_iff _).mpr hopen)) (h.ends.resolve_left hopen)
  obtain ⟨o', ho', hid⟩ := h.rested o ho
  rw [← hid]
  exact hfresh o' ho'

end Matched

theorem ladder_insertRestingOrder_opposite (order : InternalOrder) (price : Decimal) (b : OrderBook) :
    (b.insertRestingOrder order price).ladder order.side.opposite = b.ladder order.side.opposite :=
  ladder_withLadder_of_ne (opposite_ne order.side) _ b

/-- Nothing is available: the order passes by the other side. -/
theorem matchAgainstBook_of_available_eq_zero {b : OrderBook} {resting : List InternalOrder}
    (h : Represents b resting) {order : InternalOrder} (hopen : ¬ order.isFilled = true)
    (hzero : available order (orders (b.ladder order.side.opposite)) = 0) {filled : Decimal}
    {trades : List MatchedTrade} {b' : OrderBook} {rest : List InternalOrder}
    (hmatched : Matched order b resting filled trades b' rest) :
    filled = 0 ∧ trades = [] ∧ rest = resting := by
  have hbeyond := beyond_of_available_eq_zero (h.allOpen_ladder order.side.opposite) hzero
  have hbest := best_eq_none (h.lists order.side.opposite) hbeyond
  have hfill : fillBest resting.length order resting = (order, [], resting) := by
    cases resting.length with
    | zero => rfl
    | succ n => rw [fillBest, if_neg hopen, hbest]
  have hboth := hmatched.reference.symm.trans hfill
  obtain ⟨-, htrades, hrest⟩ : order.fill filled = order ∧ trades = [] ∧ rest = resting := by
    simpa using hboth
  refine ⟨?_, htrades, hrest⟩
  rw [hmatched.sum, htrades]
  rfl

section Submit

variable {b : OrderBook} {resting : List InternalOrder} (h : Represents b resting) {order : InternalOrder}
  (hvalid : Valid order)

include hvalid in
theorem Valid.open : ¬ order.isFilled = true := by
  rw [Sweep.isFilled_iff, InternalOrder.remaining, hvalid.filled_eq, sub_zero]
  exact not_le.mpr hvalid.quantity_pos

include h hvalid

/-- A submission other than of a fill-or-kill order that can be filled in part. -/
theorem submit_spec (hfresh : ∀ o ∈ resting, o.id ≠ order.id)
    (hharmless : Harmless (.submit order, (b, resting))) :
    ∃ result b', b.submitOrder order = some (result, b') ∧ SubmitOk order b resting result b' ∧
      Represents b' (Reference.submit order resting).2 := by
  have hnonneg : 0 ≤ order.remaining := by
    rw [InternalOrder.remaining, hvalid.filled_eq, sub_zero]
    exact hvalid.quantity_pos.le
  obtain ⟨filled, trades, b', rest, hmatched⟩ := h.exists_matched hnonneg
  have hrepresents := hmatched.represents
  have hremaining := hvalid.remaining_fill filled
  have hfilled := hmatched.isFilled_iff hvalid
  rcases htype : order.orderType with _ | _
  · -- a limit order
    have hpriced := hvalid.priced htype
    obtain ⟨price, hprice⟩ := Option.isSome_iff_exists.mp hpriced
    by_cases hdone : (order.fill filled).isFilled = true
    · have hreference : Reference.submit order resting = (trades, rest) := by
        rw [Reference.submit, hmatched.reference, htype]
        cases order.timeInForce with
        | GTC => simp [hdone]
        | IOC => rfl
        | FOK => simp [hdone]
      refine ⟨⟨order.id, .Filled, trades, 0⟩, b', ?_, ?_, by rw [hreference]; exact hrepresents⟩
      · simp [OrderBook.submitOrder, htype, hpriced, hmatched.book, hdone]
      · refine hmatched.submitOk hvalid rfl (by rw [hreference]) ?_ rfl hrepresents.bookOk
        have hle := (Sweep.isFilled_iff _).mp hdone
        rw [hremaining] at hle
        exact le_antisymm (sub_nonneg.mpr (hmatched.filled_le hvalid)) hle
    · rcases hforce : order.timeInForce with _ | _ | _
      · -- what is left comes to rest
        have hinsert := hmatched.represents_insert hfresh hprice hdone
        have hreference : Reference.submit order resting = (trades, rest ++ [order.fill filled]) := by
          simp [Reference.submit, hmatched.reference, htype, hforce, hdone]
        refine ⟨⟨order.id, if trades = [] then .Resting else .PartiallyFilled, trades,
          (order.fill filled).remaining⟩, b'.insertRestingOrder (order.fill filled) price, ?_, ?_,
          by rw [hreference]; exact hinsert⟩
        · simp [OrderBook.submitOrder, htype, hmatched.book, hdone, hforce, hprice]
        · refine hmatched.submitOk hvalid rfl (by rw [hreference]) hremaining ?_ hinsert.bookOk
          exact ladder_insertRestingOrder_opposite (order.fill filled) price b'
      · -- what is left is dropped
        have hreference : Reference.submit order resting = (trades, rest) := by
          simp [Reference.submit, hmatched.reference, htype, hforce]
        refine ⟨⟨order.id, if trades = [] then .Cancelled else .PartiallyFilled, trades,
          (order.fill filled).remaining⟩, b', ?_, ?_, by rw [hreference]; exact hrepresents⟩
        · simp [OrderBook.submitOrder, htype, hpriced, hmatched.book, hdone, hforce]
        · exact hmatched.submitOk hvalid rfl (by rw [hreference]) hremaining rfl hrepresents.bookOk
      · -- nothing is available
        have hnot : ¬ PartlyFillable order b := fun hpartly => hharmless ⟨htype, hforce, hpartly⟩
        have hzero : available order (orders (b.ladder order.side.opposite)) = 0 := by
          refine le_antisymm (not_lt.mp fun hpos => hnot ⟨hpos, ?_⟩)
            (available_nonneg (h.allOpen_ladder order.side.opposite))
          exact not_le.mp (mt hfilled.mpr hdone)
        obtain ⟨rfl, rfl, rfl⟩ :=
          matchAgainstBook_of_available_eq_zero h hvalid.open hzero hmatched
        have hreference : Reference.submit order rest = ([], rest) := by
          simp [Reference.submit, hmatched.reference, htype, hforce, hdone]
        refine ⟨⟨order.id, .Cancelled, [], order.quantity⟩, b', ?_, ?_,
          by rw [hreference]; exact hrepresents⟩
        · simp [OrderBook.submitOrder, htype, hpriced, hmatched.book, hdone, hforce]
        · exact hmatched.submitOk hvalid rfl (by rw [hreference]) (sub_zero _).symm rfl
            hrepresents.bookOk
  · -- a market order
    have hreference : Reference.submit order resting = (trades, rest) := by
      simp [Reference.submit, hmatched.reference, htype]
    refine ⟨⟨order.id, if (order.fill filled).isFilled then .Filled else .Cancelled, trades,
      (order.fill filled).remaining⟩, b', ?_, ?_, by rw [hreference]; exact hrepresents⟩
    · simp [OrderBook.submitOrder, htype, hmatched.book]
    · exact hmatched.submitOk hvalid rfl (by rw [hreference]) hremaining rfl hrepresents.bookOk

/-- A fill-or-kill order that can be filled in part takes from the makers and reports no trade. -/
theorem not_stepOk_of_partlyFillable (htype : order.orderType = .Limit) (hforce : order.timeInForce = .FOK)
    (hpartly : PartlyFillable order b) : ¬ StepOk (.submit order, (b, resting)) := by
  rintro ⟨result, b'', hsubmit, hok⟩
  have hnonneg : 0 ≤ order.remaining := by
    rw [InternalOrder.remaining, hvalid.filled_eq, sub_zero]
    exact hvalid.quantity_pos.le
  obtain ⟨filled, trades, b', rest, hmatched⟩ := h.exists_matched hnonneg
  have hopen : ¬ (order.fill filled).isFilled = true :=
    mt (hmatched.isFilled_iff hvalid).mp (not_le.mpr hpartly.2)
  have hresult : b.submitOrder order = some (⟨order.id, .Cancelled, [], order.quantity⟩, b') := by
    simp [OrderBook.submitOrder, htype, hvalid.priced htype, hmatched.book, hopen, hforce]
  rw [hresult] at hsubmit
  obtain ⟨rfl, rfl⟩ : _ = result ∧ b' = b'' := by simpa using hsubmit
  -- the makers lose what is available, and no trade says so
  have hmakers := (hok.makers fun _ => true).symm.trans (hmatched.makers fun _ => true)
  have hsum : tradedQuantity order.side (fun _ => true) trades = filled := hmatched.sum.symm
  rw [hsum] at hmakers
  have hnone : tradedQuantity order.side (fun _ => true) [] = 0 := rfl
  rw [hnone] at hmakers
  have hremaining := hmatched.remaining
  rw [hvalid.remaining_fill, InternalOrder.remaining, hvalid.filled_eq, sub_zero,
    max_eq_right (sub_nonneg.mpr hpartly.2.le)] at hremaining
  have hpos := hpartly.1
  linarith

end Submit

/-! ### Runs -/

/-- The ids that rest after a submission rested before it, or are the order's. -/
theorem id_of_mem_submit {b : OrderBook} {resting : List InternalOrder} (h : Represents b resting)
    {order : InternalOrder} (hopen : 0 ≤ order.remaining) :
    ∀ o ∈ (Reference.submit order resting).2, o.id = order.id ∨ ∃ o' ∈ resting, o'.id = o.id := by
  obtain ⟨filled, trades, b', rest, hmatched⟩ := h.exists_matched hopen
  have hrest : ∀ o ∈ rest, o.id = order.id ∨ ∃ o' ∈ resting, o'.id = o.id :=
    fun o ho => .inr (hmatched.rested o ho)
  intro o ho
  simp only [Reference.submit, hmatched.reference] at ho
  split at ho
  · exact hrest o ho
  · exact hrest o ho
  · split_ifs at ho
    · exact hrest o ho
    · exact .inr ⟨o, ho, rfl⟩
  · split_ifs at ho
    · exact hrest o ho
    · rcases List.mem_append.mp ho with ho | ho
      · exact hrest o ho
      · rw [List.mem_singleton.mp ho]
        exact .inl rfl

theorem represents_new : Represents .new [] where
  ordered side := by
    cases side with
    | Buy => exact ⟨List.Pairwise.nil, nofun, nofun⟩
    | Sell => exact ⟨List.Pairwise.nil, nofun, nofun⟩
  lists side := by
    cases side with
    | Buy => exact ⟨List.Pairwise.nil, fun _ => rfl⟩
    | Sell => exact ⟨List.Pairwise.nil, fun _ => rfl⟩
  nodup := List.nodup_nil
  indexed _ _ _ := ⟨nofun, nofun⟩
  allOpen := nofun
  uncrossed := nofun

/-- The book holds what rests, and the orders to come are valid and have new ids. -/
structure Running (ops : List Op) (s : State) : Prop where
  represents : Represents s.1 s.2
  valid : ∀ order, .submit order ∈ ops → Valid order
  nodup : (ops.filterMap Op.submitted).Nodup
  fresh : ∀ order, .submit order ∈ ops → ∀ o ∈ s.2, o.id ≠ order.id

theorem Running.stepOk_iff {op : Op} {ops : List Op} {s : State} (h : Running (op :: ops) s) :
    StepOk (op, s) ↔ Harmless (op, s) := by
  obtain ⟨b, resting⟩ := s
  cases op with
  | cancel orderId =>
    refine iff_of_true ?_ trivial
    exact (h.represents.cancelOrder orderId).bookOk
  | submit order =>
    have hvalid := h.valid order List.mem_cons_self
    constructor
    · rintro hok ⟨htype, hforce, hpartly⟩
      exact not_stepOk_of_partlyFillable h.represents hvalid htype hforce hpartly hok
    · intro hharmless
      obtain ⟨result, b', hsubmit, hok, -⟩ :=
        submit_spec h.represents hvalid (h.fresh order List.mem_cons_self) hharmless
      exact ⟨result, b', hsubmit, hok⟩

theorem Running.next {op : Op} {ops : List Op} {s : State} (h : Running (op :: ops) s)
    (hharmless : Harmless (op, s)) : Running ops (machine.next op s) := by
  obtain ⟨b, resting⟩ := s
  have hvalid := fun order hmem => h.valid order (List.mem_cons_of_mem _ hmem)
  have hlater := fun order hmem => h.fresh order (List.mem_cons_of_mem _ hmem)
  cases op with
  | cancel orderId =>
    refine ⟨h.represents.cancelOrder orderId, hvalid, h.nodup, fun order hmem o ho => ?_⟩
    exact hlater order hmem o (List.mem_of_mem_filter ho)
  | submit order =>
    have hfirst := h.valid order List.mem_cons_self
    obtain ⟨result, b', hsubmit, -, hrepresents⟩ :=
      submit_spec h.represents hfirst (h.fresh order List.mem_cons_self) hharmless
    have hnext : machine.next (.submit order) (b, resting) =
        (b', (Reference.submit order resting).2) := by
      simp only [machine, hsubmit]
    have hnodup : (order.id :: ops.filterMap Op.submitted).Nodup := h.nodup
    obtain ⟨hnot, hnodup⟩ := List.nodup_cons.mp hnodup
    rw [hnext]
    refine ⟨hrepresents, hvalid, hnodup, fun order' hmem o ho => ?_⟩
    have hopen : 0 ≤ order.remaining := by
      rw [InternalOrder.remaining, hfirst.filled_eq, sub_zero]
      exact hfirst.quantity_pos.le
    rcases id_of_mem_submit h.represents hopen o ho with hid | ⟨o', ho', hid⟩
    · intro heq
      refine hnot (List.mem_filterMap.mpr ⟨.submit order', hmem, ?_⟩)
      rw [Op.submitted, ← heq, hid]
    · rw [← hid]
      exact hlater order' hmem o' ho'

/-- A run of valid orders with ids of their own is as the reference matcher has it in every step exactly if
it has no fill-or-kill limit order that can be filled only in part. -/
theorem book_safe_iff (ops : List Op) (hvalid : ∀ order, .submit order ∈ ops → Valid order)
    (hids : (ops.filterMap Op.submitted).Nodup) :
    (∀ p ∈ machine.trace ops (.new, []), StepOk p) ↔ ∀ p ∈ machine.trace ops (.new, []), Harmless p :=
  Machine.forall_trace_iff (Q := Running) (fun _ _ _ h => h.stepOk_iff) (fun _ _ _ h => h.next)
    ⟨represents_new, hvalid, hids, fun _ _ => nofun⟩

namespace Sample

/-- Fifty are offered at one and a half. -/
def offer : InternalOrder := ⟨1, "seller", "BEANS-USDC", .Sell, .Limit, some (3 / 2), 50, 0, .GTC⟩

/-- A hundred are wanted at that price. -/
def wanted (timeInForce : TimeInForce) : InternalOrder :=
  ⟨2, "buyer", "BEANS-USDC", .Buy, .Limit, some (3 / 2), 100, 0, timeInForce⟩

theorem valid_offer : Valid offer where
  quantity_pos := by decide +kernel
  filled_eq := rfl
  price_pos price h := by
    rw [← Option.some.inj h]
    decide +kernel
  priced _ := rfl

theorem valid_wanted (timeInForce : TimeInForce) : Valid (wanted timeInForce) where
  quantity_pos := by
    change (0 : ℚ) < 100
    decide +kernel
  filled_eq := rfl
  price_pos price h := by
    rw [← Option.some.inj h]
    decide +kernel
  priced _ := rfl

/-- The offer, then what is wanted, then the rest is cancelled. -/
def ops (timeInForce : TimeInForce) : List Op := [.submit offer, .submit (wanted timeInForce), .cancel 2]

theorem valid_ops (timeInForce : TimeInForce) :
    ∀ order, .submit order ∈ ops timeInForce → Valid order := by
  intro order hmem
  simp only [ops, List.mem_cons, Op.submit.injEq, List.not_mem_nil, or_false, reduceCtorEq] at hmem
  rcases hmem with rfl | rfl
  · exact valid_offer
  · exact valid_wanted timeInForce

end Sample

/-- With good till cancelled the fifty are traded, and nothing rests at the end. -/
theorem book_safe_iff_good_till_cancelled :
    (∀ p ∈ machine.trace (Sample.ops .GTC) (.new, []), StepOk p) ∧
      (machine.final (Sample.ops .GTC) (.new, [])).2 = [] := by
  refine ⟨(book_safe_iff (Sample.ops .GTC) (Sample.valid_ops .GTC) (by decide)).mpr fun p hp => ?_,
    by decide +kernel⟩
  have hmem := Machine.mem_of_mem_trace hp
  obtain ⟨op, b, resting⟩ := p
  simp only [Sample.ops, List.mem_cons, List.not_mem_nil, or_false] at hmem
  rcases hmem with rfl | rfl | rfl
  · rintro ⟨-, hforce, -⟩
    cases hforce
  · rintro ⟨-, hforce, -⟩
    cases hforce
  · trivial

/-- With fill or kill no trade is reported, and the offer is gone. -/
theorem killed_order_takes_offer :
    (∀ order, .submit order ∈ Sample.ops .FOK → Valid order) ∧
      ((Sample.ops .FOK).filterMap Op.submitted).Nodup ∧
      ((OrderBook.new.submitOrder Sample.offer).bind fun first =>
        (first.2.submitOrder (Sample.wanted .FOK)).map fun second =>
          (first.2.asks, second.1.trades, second.2.asks)) =
        some ([(3 / 2, [Sample.offer])], [], []) ∧
      ¬ ∀ p ∈ machine.trace (Sample.ops .FOK) (.new, []), StepOk p := by
  refine ⟨Sample.valid_ops .FOK, by decide, by decide +kernel, fun hall => ?_⟩
  have hrunning : Running (Sample.ops .FOK) (.new, []) :=
    ⟨represents_new, Sample.valid_ops .FOK, by decide, fun _ _ => nofun⟩
  have hoffered := hrunning.next (by rintro ⟨-, hforce, -⟩; cases hforce)
  refine not_stepOk_of_partlyFillable hoffered.represents (Sample.valid_wanted .FOK) rfl rfl
    (by decide +kernel) (hall _ ?_)
  exact List.mem_cons_of_mem _ List.mem_cons_self

end Coinjecture.ApiServer.Matching.PriceTime
