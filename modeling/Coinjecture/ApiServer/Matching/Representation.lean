import Coinjecture.ApiServer.Matching.PriceTime

/-! # What a book is made of

Runs of a book alone, with whatever orders are submitted, as long as each has an id of its own and is filled
with nothing negative. A submission matches, or matches and adds the order, or leaves the book alone
(`submitOrder_cases`), and each of these keeps the orders, their levels and the index together.

* `represented_run` : the index has just the orders that rest, at their level; a cancel takes one out. -/

namespace Coinjecture.ApiServer.Matching.Representation

open Lib.Trace
open ApiServer.Matching.Book ApiServer.Matching.Reference
open ApiServer.Matching.Ladders ApiServer.Matching.Sweep
open ApiServer.Matching.PriceTime

/-- The book alone. A panic ends it. -/
def book : Machine Op OrderBook where
  next
    | .submit order, b =>
      match b.submitOrder order with
      | some (_, b') => b'
      | none => b
    | .cancel orderId, b => (b.cancelOrder orderId).2
  halts
    | .submit order, b => (b.submitOrder order).isNone
    | .cancel _, _ => false

/-- The orders that rest. -/
def restingOrders (b : OrderBook) : List InternalOrder := orders b.bids ++ orders b.asks

theorem mem_restingOrders {b : OrderBook} {o : InternalOrder} :
    o ∈ restingOrders b ↔ ∃ side, o ∈ orders (b.ladder side) := by
  rw [restingOrders, List.mem_append]
  constructor
  · rintro (hbid | hask)
    · exact ⟨.Buy, hbid⟩
    · exact ⟨.Sell, hask⟩
  · rintro ⟨side, ho⟩
    cases side with
    | Buy => exact .inl ho
    | Sell => exact .inr ho

/-- A cancel gives out the order of this id, if one rests, and takes out that one. -/
structure Cancels (b : OrderBook) (orderId : OrderId) : Prop where
  some_iff : (b.cancelOrder orderId).1.isSome = true ↔ ∃ o ∈ restingOrders b, o.id = orderId
  removed : ∀ o ∈ restingOrders b, o.id = orderId → (b.cancelOrder orderId).1 = some o
  rest : ∀ side, orders ((b.cancelOrder orderId).2.ladder side) =
    (orders (b.ladder side)).filter fun o => o.id ≠ orderId
  index : (b.cancelOrder orderId).2.orderIndex = Function.update b.orderIndex orderId none

/-- The index has the orders that rest, with side and price of their level. The levels of a side come in its
order, none twice and none empty, no order rests twice, and each has been filled in part at most. -/
structure Represented (b : OrderBook) : Prop where
  indexed : ∀ orderId side price, b.orderIndex orderId = some (side, price) ↔
    ∃ level ∈ b.ladder side, level.1 = price ∧ ∃ o ∈ level.2, o.id = orderId
  placed : ∀ side, ∀ level ∈ b.ladder side, ∀ o ∈ level.2, o.side = side ∧ o.price = some level.1
  sorted : ∀ side, (b.ladder side).Pairwise fun l l' => side.before l.1 l'.1 = true
  nonempty : ∀ side, ∀ level ∈ b.ladder side, level.2 ≠ []
  once : ((restingOrders b).map InternalOrder.id).Nodup
  partlyFilled : ∀ o ∈ restingOrders b, 0 ≤ o.filledQuantity ∧ o.filledQuantity < o.quantity
  cancels : ∀ orderId, Cancels b orderId

/-! ### From the list of what rests -/

theorem restingOrders_perm {b : OrderBook} {resting : List InternalOrder} (h : Represents b resting) :
    (restingOrders b).Perm resting := by
  have hbids := perm_of_lists (h.lists .Buy)
  have hasks := perm_of_lists (h.lists .Sell)
  refine (hbids.append hasks).trans ?_
  have hsides : resting.filter (fun o => o.side = .Sell) = resting.filter fun o => !decide (o.side = .Buy) := by
    refine List.filter_congr fun o _ => ?_
    cases o.side with
    | Buy => rfl
    | Sell => rfl
  rw [hsides]
  exact List.filter_append_perm _ resting

theorem mem_resting_iff {b : OrderBook} {resting : List InternalOrder} (h : Represents b resting)
    {o : InternalOrder} : o ∈ resting ↔ o ∈ restingOrders b := (restingOrders_perm h).mem_iff.symm

theorem takeOrder_fst {side : Side} {ladder : Ladder} {o : InternalOrder} (h : Ordered side ladder)
    (hnodup : ((orders ladder).map InternalOrder.id).Nodup) (ho : o ∈ orders ladder) :
    (takeOrder (limit o) o.id ladder).1 = some o := by
  induction ladder with
  | nil => exact absurd ho List.not_mem_nil
  | cons level levels ih =>
    obtain ⟨p, makers⟩ := level
    have hflat : orders ((p, makers) :: levels) = makers ++ orders levels := rfl
    have hsame : ∀ x ∈ makers ++ orders levels, x.id = o.id → x = o :=
      fun x hx hid => List.inj_on_of_nodup_map hnodup hx ho hid
    rw [hflat] at hnodup ho
    simp only [takeOrder]
    by_cases hp : limit o = p
    · have hmem : o ∈ makers := by
        rcases List.mem_append.mp ho with ho | ho
        · exact ho
        · obtain ⟨-, -, l, hl, -, heq⟩ := h.tail.price_eq ho
          have hfirst := (List.pairwise_cons.mp h.sorted).1 l hl
          exact absurd (heq.trans hp) (ne_of_before hfirst).symm
      rw [if_pos hp]
      cases hfind : makers.find? fun x => x.id = o.id with
      | none =>
        have hnone := List.find?_eq_none.mp hfind o hmem
        rw [decide_eq_true rfl] at hnone
        exact absurd rfl hnone
      | some removed =>
        have hid : removed.id = o.id := by simpa using List.find?_some hfind
        rw [hsame removed (List.mem_append_left _ (List.mem_of_find?_eq_some hfind)) hid]
    · have hmem : o ∈ orders levels := by
        refine (List.mem_append.mp ho).resolve_left fun ho => hp ?_
        rw [limit, (h.priced _ List.mem_cons_self o ho).2, Option.getD_some]
      rw [List.map_append] at hnodup
      rw [if_neg hp]
      exact ih h.tail (List.nodup_append'.mp hnodup).2.1 hmem

theorem indexed_iff {b : OrderBook} {resting : List InternalOrder} (h : Represents b resting) (orderId : OrderId)
    (side : Side) (price : Decimal) : b.orderIndex orderId = some (side, price) ↔
      ∃ level ∈ b.ladder side, level.1 = price ∧ ∃ o ∈ level.2, o.id = orderId := by
  rw [h.indexed]
  constructor
  · intro hmem
    obtain ⟨o, ho, hplace⟩ := List.mem_map.mp hmem
    obtain ⟨rfl, rfl, hprice⟩ : o.id = orderId ∧ o.side = side ∧ o.price = some price := by
      simpa only [place, Prod.mk.injEq] using hplace
    obtain ⟨-, -, level, hlevel, hin, hlimit⟩ :=
      (h.ordered o.side).price_eq ((h.lists o.side).mem_iff.mpr ⟨ho, rfl⟩)
    refine ⟨level, hlevel, ?_, o, hin, rfl⟩
    rw [hlimit, limit, hprice, Option.getD_some]
  · rintro ⟨level, hlevel, rfl, o, hin, rfl⟩
    obtain ⟨rfl, hprice⟩ := (h.ordered side).priced level hlevel o hin
    have ho : o ∈ resting :=
      ((h.lists o.side).mem_iff.mp (List.mem_flatMap.mpr ⟨level, hlevel, hin⟩)).1
    refine List.mem_map.mpr ⟨o, ho, ?_⟩
    rw [place, hprice]

theorem id_injective {b : OrderBook} {resting : List InternalOrder} (h : Represents b resting)
    {o o' : InternalOrder} (ho : o ∈ restingOrders b) (ho' : o' ∈ restingOrders b) (hid : o.id = o'.id) : o = o' :=
  List.inj_on_of_nodup_map h.nodup ((mem_resting_iff h).mpr ho) ((mem_resting_iff h).mpr ho') hid

theorem orderIndex_of_not_mem {b : OrderBook} {resting : List InternalOrder} (h : Represents b resting)
    {orderId : OrderId} (hnone : ∀ o ∈ restingOrders b, o.id ≠ orderId) : b.orderIndex orderId = none := by
  refine Option.eq_none_iff_forall_ne_some.mpr fun found hfound => ?_
  obtain ⟨o, ho, hplace⟩ := List.mem_map.mp ((h.indexed orderId found.1 found.2).mp hfound)
  exact hnone o ((mem_resting_iff h).mp ho) (congrArg Prod.fst hplace)

theorem cancelOrder_of_not_mem {b : OrderBook} {resting : List InternalOrder} (h : Represents b resting)
    {orderId : OrderId} (hnone : ∀ o ∈ restingOrders b, o.id ≠ orderId) : b.cancelOrder orderId = (none, b) := by
  rw [OrderBook.cancelOrder, orderIndex_of_not_mem h hnone]

/-- An order that rests is taken out of its level and out of the index. -/
theorem cancelOrder_of_mem {b : OrderBook} {resting : List InternalOrder} (h : Represents b resting)
    {o : InternalOrder} (ho : o ∈ restingOrders b) : b.cancelOrder o.id =
      (some o, { b.withLadder o.side (takeOrder (limit o) o.id (b.ladder o.side)).2 with
        orderIndex := Function.update b.orderIndex o.id none }) := by
  have hrests := (mem_resting_iff h).mpr ho
  have hindex : b.orderIndex o.id = some (o.side, limit o) :=
    (h.indexed ..).mpr (List.mem_map.mpr ⟨o, hrests, by rw [place, h.price_eq hrests]⟩)
  have hladder := (h.lists o.side).mem_iff.mpr ⟨hrests, rfl⟩
  have hremoved := takeOrder_fst (h.ordered o.side) (h.nodup_ladder o.side) hladder
  simp only [OrderBook.cancelOrder, hindex, hremoved]

theorem cancels_of_represents {b : OrderBook} {resting : List InternalOrder} (h : Represents b resting)
    (orderId : OrderId) : Cancels b orderId := by
  by_cases hrests : ∃ o ∈ restingOrders b, o.id = orderId
  · obtain ⟨o, ho, rfl⟩ := hrests
    have hcancel := cancelOrder_of_mem h ho
    refine ⟨?_, fun o' ho' hid => ?_, fun side => ?_, ?_⟩
    · rw [hcancel]
      exact iff_of_true rfl ⟨o, ho, rfl⟩
    · rw [hcancel, id_injective h ho' ho hid]
    · rw [hcancel]
      change orders ((b.withLadder o.side _).ladder side) = _
      by_cases hside : side = o.side
      · have hladder := (h.lists o.side).mem_iff.mpr ⟨(mem_resting_iff h).mpr ho, rfl⟩
        rw [hside, ladder_withLadder, (takeOrder_spec (h.ordered o.side) (h.nodup_ladder o.side) hladder).2.1]
      · rw [ladder_withLadder_of_ne hside, filter_id_ne_eq_self]
        intro x hx hid
        have hx' := id_injective h (mem_restingOrders.mpr ⟨side, hx⟩) ho hid
        exact hside (by rw [← ((h.lists side).mem_iff.mp hx).2, hx'])
    · rw [hcancel]
  · have hnone : ∀ o ∈ restingOrders b, o.id ≠ orderId := fun o ho hid => hrests ⟨o, ho, hid⟩
    have hcancel := cancelOrder_of_not_mem h hnone
    refine ⟨?_, fun o ho hid => absurd hid (hnone o ho), fun side => ?_, ?_⟩
    · rw [hcancel]
      exact iff_of_false Bool.false_ne_true hrests
    · rw [hcancel, filter_id_ne_eq_self]
      exact fun o ho => hnone o (mem_restingOrders.mpr ⟨side, ho⟩)
    · rw [hcancel, ← orderIndex_of_not_mem h hnone, Function.update_eq_self]

/-- No order of the book has been filled with something negative. -/
def Nonneg (b : OrderBook) : Prop := ∀ side, ∀ o ∈ orders (b.ladder side), 0 ≤ o.filledQuantity

theorem represented_of_represents {b : OrderBook} {resting : List InternalOrder} (h : Represents b resting)
    (hnonneg : Nonneg b) : Represented b where
  indexed := indexed_iff h
  placed side := (h.ordered side).priced
  sorted side := (h.ordered side).sorted
  nonempty side := (h.ordered side).nonempty
  once := ((restingOrders_perm h).map _).nodup_iff.mpr h.nodup
  partlyFilled o ho := by
    obtain ⟨side, hside⟩ := mem_restingOrders.mp ho
    have hopen := h.allOpen_ladder side o hside
    rw [InternalOrder.remaining, sub_pos] at hopen
    exact ⟨hnonneg side o hside, hopen⟩
  cancels := cancels_of_represents h

/-! ### A submission -/

theorem fill_fill (o : InternalOrder) (p q : Decimal) : (o.fill p).fill q = o.fill (p + q) := by
  simp only [InternalOrder.fill, add_assoc]

theorem fill_zero (o : InternalOrder) : o.fill 0 = o := by
  simp only [InternalOrder.fill, add_zero]

/-- The order is filled in the loops, and otherwise as it was. -/
theorem exists_fillOrders_order (price : Decimal) (order : InternalOrder) (makers : List InternalOrder) :
    ∃ q, (fillOrders price order makers).order = order.fill q := by
  induction makers generalizing order with
  | nil => exact ⟨0, (fill_zero order).symm⟩
  | cons maker makers ih =>
    rw [fillOrders]
    split_ifs
    · exact ⟨0, (fill_zero order).symm⟩
    · obtain ⟨q, hq⟩ := ih (order.fill (min order.remaining maker.remaining))
      exact ⟨_, hq.trans (fill_fill ..)⟩

theorem exists_matchLevels_order (order : InternalOrder) (ladder : Ladder) :
    ∃ q, (matchLevels order ladder).order = order.fill q := by
  induction ladder generalizing order with
  | nil => exact ⟨0, (fill_zero order).symm⟩
  | cons level levels ih =>
    obtain ⟨price, makers⟩ := level
    rw [matchLevels]
    split_ifs
    · exact ⟨0, (fill_zero order).symm⟩
    · obtain ⟨p, hp⟩ := exists_fillOrders_order price order makers
      obtain ⟨q, hq⟩ := ih (fillOrders price order makers).order
      refine ⟨p + q, ?_⟩
      rw [hq, hp, fill_fill]
    · exact ⟨0, (fill_zero order).symm⟩

/-- What a submission makes of the book: nothing, or the makers are matched, and perhaps the order is added. The
trades are those of the matching, but for an order that is killed. -/
theorem submitOrder_cases {b b' : OrderBook} {order : InternalOrder} {result : MatchResult}
    (h : b.submitOrder order = some (result, b')) :
    b' = b ∨ b' = (b.matchAgainstBook order).2.2 ∧ (result.trades = (b.matchAgainstBook order).2.1 ∨
        order.orderType = .Limit ∧ order.timeInForce = .FOK ∧ order.price.isSome = true ∧ result.trades = [] ∧
          ¬ (b.matchAgainstBook order).1.isFilled = true) ∨
      ∃ price, order.price = some price ∧ ¬ (b.matchAgainstBook order).1.isFilled = true ∧
        b' = (b.matchAgainstBook order).2.2.insertRestingOrder (b.matchAgainstBook order).1 price ∧
        result.trades = (b.matchAgainstBook order).2.1 := by
  unfold OrderBook.submitOrder at h
  cases htype : order.orderType with
  | Market =>
    simp only [htype, Option.some.injEq, Prod.mk.injEq] at h
    obtain ⟨rfl, rfl⟩ := h
    exact .inr (.inl ⟨rfl, .inl rfl⟩)
  | Limit =>
    cases hprice : order.price with
    | none =>
      simp only [htype, hprice, Option.isSome_none, Bool.false_eq_true, if_false] at h
      refine .inl ?_
      by_cases hfilled : order.isFilled = true
      · rw [if_pos hfilled] at h
        exact (Prod.mk.inj (Option.some.inj h)).2.symm
      · rw [if_neg hfilled] at h
        cases hforce : order.timeInForce with
        | GTC =>
          rw [hforce] at h
          cases h
        | IOC =>
          rw [hforce] at h
          exact (Prod.mk.inj (Option.some.inj h)).2.symm
        | FOK =>
          rw [hforce] at h
          exact (Prod.mk.inj (Option.some.inj h)).2.symm
    | some price =>
      obtain ⟨q, hq⟩ := exists_matchLevels_order order (b.ladder order.side.opposite)
      have horder : (b.matchAgainstBook order).1 = order.fill q := hq
      simp only [htype, hprice, Option.isSome_some, if_true] at h
      refine .inr ?_
      by_cases hfilled : (b.matchAgainstBook order).1.isFilled = true
      · rw [if_pos hfilled] at h
        obtain ⟨rfl, rfl⟩ := Prod.mk.inj (Option.some.inj h)
        exact .inl ⟨rfl, .inl rfl⟩
      · rw [if_neg hfilled, horder, timeInForce_fill, price_fill, hprice] at h
        cases hforce : order.timeInForce with
        | GTC =>
          rw [hforce] at h
          obtain ⟨rfl, rfl⟩ := Prod.mk.inj (Option.some.inj h)
          refine .inr ⟨price, rfl, hfilled, ?_, rfl⟩
          rw [horder]
        | IOC =>
          rw [hforce] at h
          obtain ⟨rfl, rfl⟩ := Prod.mk.inj (Option.some.inj h)
          exact .inl ⟨rfl, .inl rfl⟩
        | FOK =>
          rw [hforce] at h
          obtain ⟨rfl, rfl⟩ := Prod.mk.inj (Option.some.inj h)
          exact .inl ⟨rfl, .inr ⟨rfl, rfl, rfl, rfl, hfilled⟩⟩

/-- Fills of open orders are of something. -/
theorem nonneg_sweep (order : InternalOrder) (makers : List InternalOrder) (horder : 0 ≤ order.filledQuantity)
    (hopen : AllOpen makers) (hmakers : ∀ o ∈ makers, 0 ≤ o.filledQuantity) :
    0 ≤ (sweep order makers).order.filledQuantity ∧
      ∀ o ∈ (sweep order makers).rest, 0 ≤ o.filledQuantity := by
  refine sweep_cases (P := fun order makers pass => 0 ≤ order.filledQuantity → AllOpen makers →
    (∀ o ∈ makers, 0 ≤ o.filledQuantity) → 0 ≤ pass.order.filledQuantity ∧
      ∀ o ∈ pass.rest, 0 ≤ o.filledQuantity) ?_ ?_ ?_ order makers horder hopen hmakers
  · exact fun order horder _ hmakers => ⟨horder, hmakers⟩
  · exact fun order maker makers _ horder _ hmakers => ⟨horder, hmakers⟩
  · intro order maker makers pass q hnot _ hq _ hrest horder hopen hmakers
    obtain ⟨hmakerOpen, hopen⟩ := List.forall_mem_cons.mp hopen
    obtain ⟨hmaker, hmakers⟩ := List.forall_mem_cons.mp hmakers
    have hpos : 0 < order.remaining := not_le.mp (mt (isFilled_iff order).mpr (Bool.eq_false_iff.mp hnot))
    have hfill : 0 ≤ q := hq ▸ (lt_min hpos hmakerOpen).le
    obtain ⟨hlast, hrest⟩ := hrest (add_nonneg horder hfill) hopen hmakers
    refine ⟨hlast, ?_⟩
    simp only
    split_ifs
    · exact hrest
    · exact List.forall_mem_cons.mpr ⟨add_nonneg hmaker hfill, hrest⟩

/-- The order is added to the others. -/
theorem orders_pushOrder_perm (side : Side) (price : Decimal) (order : InternalOrder) (ladder : Ladder) :
    (orders (pushOrder side price order ladder)).Perm (order :: orders ladder) := by
  induction ladder with
  | nil => exact List.Perm.refl _
  | cons level levels ih =>
    obtain ⟨p, makers⟩ := level
    rw [pushOrder]
    split_ifs with heq hbefore
    · change ((makers ++ [order]) ++ orders levels).Perm (order :: (makers ++ orders levels))
      rw [List.append_assoc]
      exact List.perm_middle
    · exact List.Perm.refl _
    · exact (ih.append_left makers).trans List.perm_middle

section Submit

variable {b b' : OrderBook} {resting : List InternalOrder} (h : Represents b resting) {order : InternalOrder}
  {result : MatchResult}

include h

theorem nonneg_matchAgainstBook (hnonneg : Nonneg b) (horder : 0 ≤ order.filledQuantity) :
    0 ≤ (b.matchAgainstBook order).1.filledQuantity ∧ Nonneg (b.matchAgainstBook order).2.2 := by
  have hordered := h.ordered order.side.opposite
  have hsweep := nonneg_sweep order (orders (b.ladder order.side.opposite)) horder
    (h.allOpen_ladder order.side.opposite) (hnonneg order.side.opposite)
  have hloops := @matchLevels_eq_sweep _ order _ hordered
  simp only at hloops
  rw [hloops] at hsweep
  refine ⟨hsweep.1, fun side o ho => ?_⟩
  change o ∈ orders ((b.withLadder order.side.opposite _).ladder side) at ho
  by_cases hside : side = order.side.opposite
  · rw [hside, ladder_withLadder] at ho
    exact hsweep.2 o ho
  · rw [ladder_withLadder_of_ne hside] at ho
    exact hnonneg side o ho

/-- The book after a submission still holds what rests: orders that rested, and perhaps this one. -/
theorem exists_represents_submit (hfresh : ∀ o ∈ resting, o.id ≠ order.id)
    (hsubmit : b.submitOrder order = some (result, b')) :
    ∃ rest, Represents b' rest ∧ ∀ o ∈ rest, o.id = order.id ∨ ∃ o' ∈ resting, o'.id = o.id := by
  obtain ⟨b₁, rest, hbook, -, hrepresents, hladder, hplaces⟩ := h.matchAgainstBook order
  have hrested : ∀ o ∈ rest, ∃ o' ∈ resting, o'.id = o.id := by
    intro o ho
    have hmem : place o ∈ rest.map place := List.mem_map_of_mem ho
    rw [hplaces] at hmem
    obtain ⟨o', ho', heq⟩ := List.mem_map.mp (List.mem_of_mem_filter hmem)
    exact ⟨o', ho', congrArg Prod.fst heq⟩
  obtain rfl | ⟨hmatched, -⟩ | ⟨price, hprice, hopen, hinsert, -⟩ := submitOrder_cases hsubmit
  · exact ⟨resting, h, fun o ho => .inr ⟨o, ho, rfl⟩⟩
  · rw [hbook] at hmatched
    exact ⟨rest, hmatched ▸ hrepresents, fun o ho => .inr (hrested o ho)⟩
  · rw [hbook] at hinsert hopen
    obtain ⟨q, hq⟩ : ∃ q, (sweep order (orders (b.ladder order.side.opposite))).order = order.fill q :=
      ⟨_, order_sweep ..⟩
    have hends := (sweep_ends order _ (h.ordered order.side.opposite).sorted_orders
      (h.allOpen_ladder order.side.opposite)).resolve_left hopen
    simp only [hq] at hinsert hopen
    refine ⟨rest ++ [order.fill q], hinsert ▸ hrepresents.insertRestingOrder hprice (fun o ho => ?_)
      (not_le.mp (mt (isFilled_iff _).mpr hopen)) fun o ho hside => ?_, fun o ho => ?_⟩
    · obtain ⟨o', ho', hid⟩ := hrested o ho
      rw [← hid]
      exact hfresh o' ho'
    · refine hends o ?_
      rw [← hladder]
      exact (hrepresents.lists _).mem_iff.mpr ⟨ho, hside⟩
    · rcases List.mem_append.mp ho with ho | ho
      · exact .inr (hrested o ho)
      · rw [List.mem_singleton.mp ho]
        exact .inl rfl

theorem nonneg_submit (hnonneg : Nonneg b) (horder : 0 ≤ order.filledQuantity)
    (hsubmit : b.submitOrder order = some (result, b')) : Nonneg b' := by
  obtain ⟨hfilled, hmatched⟩ := nonneg_matchAgainstBook h hnonneg horder
  obtain rfl | ⟨rfl, -⟩ | ⟨price, -, -, rfl, -⟩ := submitOrder_cases hsubmit
  · exact hnonneg
  · exact hmatched
  · intro side o ho
    change o ∈ orders ((OrderBook.withLadder _ _ _).ladder side) at ho
    by_cases hside : side = (b.matchAgainstBook order).1.side
    · rw [hside, ladder_withLadder] at ho
      rcases List.mem_cons.mp ((orders_pushOrder_perm ..).subset ho) with rfl | ho
      · exact hfilled
      · exact hmatched _ o ho
    · rw [ladder_withLadder_of_ne hside] at ho
      exact hmatched side o ho

end Submit

/-! ### Runs -/

/-- The book holds what rests, and the orders to come have ids of their own and are filled with nothing negative. -/
structure BookRun (ops : List Op) (b : OrderBook) : Prop where
  represents : ∃ resting, Represents b resting ∧
    ∀ order, .submit order ∈ ops → ∀ o ∈ resting, o.id ≠ order.id
  nonneg : Nonneg b
  ids : (ops.filterMap Op.submitted).Nodup
  filled : ∀ order, .submit order ∈ ops → 0 ≤ order.filledQuantity

theorem BookRun.represented {ops : List Op} {b : OrderBook} (h : BookRun ops b) : Represented b := by
  obtain ⟨resting, hrepresents, -⟩ := h.represents
  exact represented_of_represents hrepresents h.nonneg

theorem BookRun.next {op : Op} {ops : List Op} {b : OrderBook} (h : BookRun (op :: ops) b) :
    BookRun ops (book.next op b) := by
  obtain ⟨resting, hrepresents, hfresh⟩ := h.represents
  have hlater := fun order hmem => hfresh order (List.mem_cons_of_mem _ hmem)
  have hfilled := fun order hmem => h.filled order (List.mem_cons_of_mem _ hmem)
  cases op with
  | cancel orderId =>
    refine ⟨⟨_, hrepresents.cancelOrder orderId, fun order hmem o ho => ?_⟩, fun side o ho => ?_, h.ids, hfilled⟩
    · exact hlater order hmem o (List.mem_of_mem_filter ho)
    · change o ∈ orders ((b.cancelOrder orderId).2.ladder side) at ho
      rw [(cancels_of_represents hrepresents orderId).rest side] at ho
      exact h.nonneg side o (List.mem_of_mem_filter ho)
  | submit order =>
    have hids : (order.id :: ops.filterMap Op.submitted).Nodup := h.ids
    obtain ⟨hnew, hids⟩ := List.nodup_cons.mp hids
    cases hsubmit : b.submitOrder order with
    | none =>
      have hnext : book.next (.submit order) b = b := by simp only [book, hsubmit]
      rw [hnext]
      exact ⟨⟨resting, hrepresents, hlater⟩, h.nonneg, hids, hfilled⟩
    | some outcome =>
      obtain ⟨result, b'⟩ := outcome
      have hnext : book.next (.submit order) b = b' := by simp only [book, hsubmit]
      rw [hnext]
      have horder := h.filled order List.mem_cons_self
      obtain ⟨rest, hrest, hids'⟩ :=
        exists_represents_submit hrepresents (hfresh order List.mem_cons_self) hsubmit
      refine ⟨⟨rest, hrest, fun order' hmem o ho => ?_⟩, nonneg_submit hrepresents h.nonneg horder hsubmit,
        hids, hfilled⟩
      obtain hid | ⟨o', ho', hid⟩ := hids' o ho
      · intro heq
        refine hnew (List.mem_filterMap.mpr ⟨.submit order', hmem, ?_⟩)
        rw [Op.submitted, ← heq, hid]
      · rw [← hid]
        exact hlater order' hmem o' ho'

theorem bookRun_new {ops : List Op} (hfilled : ∀ order, .submit order ∈ ops → 0 ≤ order.filledQuantity)
    (hids : (ops.filterMap Op.submitted).Nodup) : BookRun ops .new where
  represents := ⟨[], represents_new, fun _ _ _ ho => absurd ho List.not_mem_nil⟩
  nonneg side o ho := by
    cases side with
    | Buy => exact absurd ho List.not_mem_nil
    | Sell => exact absurd ho List.not_mem_nil
  ids := hids
  filled := hfilled

/-- In a run from the empty book, of submissions with ids of their own and of cancels, the book is well made in
every state. -/
theorem represented_run (ops : List Op) (hfilled : ∀ order, .submit order ∈ ops → 0 ≤ order.filledQuantity)
    (hids : (ops.filterMap Op.submitted).Nodup) :
    (∀ p ∈ book.trace ops .new, Represented p.2) ∧ Represented (book.final ops .new) :=
  Machine.invariant_inputs (Q := BookRun) (fun _ _ h => h.represented) (fun _ _ _ h => h.next)
    (bookRun_new hfilled hids)

/-- A hundred are wanted and fifty were offered, so the other fifty rest, until they are cancelled. -/
theorem represented_run_rest_cancelled :
    Represented (book.final (Sample.ops .GTC) .new) ∧
      restingOrders (book.final ((Sample.ops .GTC).take 2) .new) = [(Sample.wanted .GTC).fill 50] ∧
      restingOrders (book.final (Sample.ops .GTC) .new) = [] := by
  refine ⟨(represented_run (Sample.ops .GTC) (fun order hmem => ?_) (by decide)).2, by decide +kernel,
    by decide +kernel⟩
  exact (Sample.valid_ops .GTC order hmem).filled_eq.ge

end Coinjecture.ApiServer.Matching.Representation
