import Coinjecture.ApiServer.Matching.Ladders
import Mathlib.Algebra.Order.BigOperators.Group.List
import Mathlib.Tactic.Ring

/-! # One pass over a ladder

The two loops of the matching are one pass, `sweep`, over the orders of all levels. What the order gains in
the pass, its makers lose, and at the end it is filled or the orders that are left are beyond its limit.

* `matchLevels_eq_sweep` : the loops and the pass.
* `sweep_simulates` : the pass does what the reference matcher does. -/

namespace Coinjecture.ApiServer.Matching.Sweep

open Lib.Selection
open ApiServer.Matching.Book ApiServer.Matching.Reference
open ApiServer.Matching.Ladders

/-- The loops over the levels and over the orders of a level, as one. -/
def sweep : InternalOrder → List InternalOrder → Pass InternalOrder
  | order, [] => ⟨order, [], [], []⟩
  | order, maker :: makers =>
    if order.isFilled = true ∨ order.canMatch (limit maker) = false then
      ⟨order, maker :: makers, [], []⟩
    else
      let quantity := min order.remaining maker.remaining
      let after := maker.fill quantity
      let pass := sweep (order.fill quantity) makers
      { order := pass.order
        rest := if after.isFilled then pass.rest else after :: pass.rest
        trades := tradeOf order maker (limit maker) quantity :: pass.trades
        filled := if after.isFilled then maker.id :: pass.filled else pass.filled }

/-! ### The loops are a pass -/

theorem sweep_of_filled {order : InternalOrder} (h : order.isFilled = true)
    (makers : List InternalOrder) : sweep order makers = ⟨order, makers, [], []⟩ := by
  cases makers with
  | nil => rfl
  | cons maker makers => rw [sweep, if_pos (.inl h)]

/-- The pass over a level and what comes after it. -/
theorem sweep_append {price : Decimal} {order : InternalOrder} (hcan : order.canMatch price = true)
    {makers : List InternalOrder} (hprice : ∀ o ∈ makers, o.price = some price)
    (rest : List InternalOrder) :
    let level := fillOrders price order makers
    let pass := sweep level.order rest
    sweep order (makers ++ rest) =
      ⟨pass.order, level.rest ++ pass.rest, level.trades ++ pass.trades, level.filled ++ pass.filled⟩ := by
  induction makers generalizing order with
  | nil => rfl
  | cons maker makers ih =>
    have hlimit : limit maker = price := by rw [limit, hprice maker List.mem_cons_self, Option.getD_some]
    by_cases hfilled : order.isFilled = true
    · simp only [fillOrders, hfilled, if_true, List.nil_append]
      rw [sweep_of_filled hfilled, sweep_of_filled hfilled]
    · have hopen : ¬ (order.isFilled = true ∨ order.canMatch price = false) := by
        rw [hcan]
        simp [hfilled]
      have hrest := @ih (order.fill (min order.remaining maker.remaining)) hcan
        fun o ho => hprice o (List.mem_cons_of_mem _ ho)
      simp only [fillOrders, List.cons_append, sweep, hlimit, if_neg hopen, if_neg hfilled, hrest]
      split_ifs
      · rfl
      · rfl

theorem fillOrders_priced {P : InternalOrder → Prop} (hfill : ∀ o q, P o → P (o.fill q))
    {price : Decimal} {order : InternalOrder} {makers : List InternalOrder} (h : ∀ o ∈ makers, P o) :
    ∀ o ∈ (fillOrders price order makers).rest, P o := by
  induction makers generalizing order with
  | nil => exact fun o ho => absurd ho List.not_mem_nil
  | cons maker makers ih =>
    obtain ⟨hmaker, hmakers⟩ := List.forall_mem_cons.mp h
    rw [fillOrders]
    split_ifs with hfilled
    · exact h
    · simp only
      split_ifs
      · exact ih hmakers
      · exact List.forall_mem_cons.mpr ⟨hfill _ _ hmaker, ih hmakers⟩

/-- The pass over the levels leaves a ladder. -/
theorem ordered_matchLevels {side : Side} {order : InternalOrder} {ladder : Ladder}
    (h : Ordered side ladder) : Ordered side (matchLevels order ladder).rest ∧
      ((matchLevels order ladder).rest.map Prod.fst).Sublist (ladder.map Prod.fst) := by
  induction ladder generalizing order with
  | nil => exact ⟨h, List.Sublist.refl _⟩
  | cons level levels ih =>
    obtain ⟨price, makers⟩ := level
    obtain ⟨hfirst, hlevels⟩ := List.pairwise_cons.mp h.sorted
    have htail : Ordered side levels := ⟨hlevels, fun l hl => h.nonempty l (List.mem_cons_of_mem _ hl),
      fun l hl => h.priced l (List.mem_cons_of_mem _ hl)⟩
    rw [matchLevels]
    split_ifs with hfilled hcan
    · exact ⟨h, List.Sublist.refl _⟩
    · obtain ⟨hordered, hsub⟩ := @ih (fillOrders price order makers).order htail
      simp only
      split_ifs with hempty
      · exact ⟨hordered, hsub.trans (List.sublist_cons_self _ _)⟩
      · refine ⟨⟨List.pairwise_cons.mpr ⟨fun l hl => ?_, hordered.sorted⟩, fun l hl => ?_,
          fun l hl => ?_⟩, hsub.cons_cons price⟩
        · obtain ⟨l', hl', heq⟩ := List.mem_map.mp (hsub.subset (List.mem_map_of_mem hl))
          rw [← heq]
          exact hfirst l' hl'
        · rcases List.mem_cons.mp hl with rfl | hl
          · exact hempty
          · exact hordered.nonempty l hl
        · rcases List.mem_cons.mp hl with rfl | hl
          · exact fillOrders_priced (P := fun o => o.side = side ∧ o.price = some price)
              (fun o q ho => ho) (h.priced _ List.mem_cons_self)
          · exact hordered.priced l hl
    · exact ⟨h, List.Sublist.refl _⟩

/-- The loops over a ladder are the pass over its orders. -/
theorem matchLevels_eq_sweep {side : Side} {order : InternalOrder} {ladder : Ladder}
    (h : Ordered side ladder) :
    let pass := matchLevels order ladder
    sweep order (orders ladder) = ⟨pass.order, orders pass.rest, pass.trades, pass.filled⟩ := by
  induction ladder generalizing order with
  | nil => rfl
  | cons level levels ih =>
    obtain ⟨price, makers⟩ := level
    have htail : Ordered side levels := ⟨(List.pairwise_cons.mp h.sorted).2,
      fun l hl => h.nonempty l (List.mem_cons_of_mem _ hl),
      fun l hl => h.priced l (List.mem_cons_of_mem _ hl)⟩
    have hprice : ∀ o ∈ makers, o.price = some price :=
      fun o ho => (h.priced _ List.mem_cons_self o ho).2
    have hflat : orders ((price, makers) :: levels) = makers ++ orders levels := rfl
    rw [hflat, matchLevels]
    split_ifs with hfilled hcan
    · exact sweep_of_filled hfilled _
    · have hlevel := sweep_append hcan hprice (orders levels)
      simp only at hlevel ⊢
      rw [hlevel, ih htail]
      split_ifs with hempty
      · rw [hempty]
        rfl
      · rfl
    · obtain ⟨maker, rest, rfl⟩ := List.exists_cons_of_ne_nil (h.nonempty _ List.mem_cons_self)
      have hlimit : limit maker = price := by
        rw [limit, hprice maker List.mem_cons_self, Option.getD_some]
      rw [List.cons_append, sweep, if_pos (.inr (by rw [hlimit]; exact Bool.eq_false_iff.mpr hcan))]
      rfl

/-! ### What is exchanged -/

/-- The order that rested, of a trade of an order of this side. -/
def makerOf (side : Side) (t : MatchedTrade) : OrderId :=
  match side with
  | .Buy => t.sellOrderId
  | .Sell => t.buyOrderId

/-- What is open of the orders with these ids. -/
def restingQuantity (ids : OrderId → Bool) (makers : List InternalOrder) : Decimal :=
  (makers.map fun o => if ids o.id then o.remaining else 0).sum

/-- What orders of a side traded with these makers. -/
def tradedQuantity (side : Side) (ids : OrderId → Bool) (trades : List MatchedTrade) : Decimal :=
  (trades.map fun t => if ids (makerOf side t) then t.quantity else 0).sum

/-- What an order can be filled against. -/
def available (order : InternalOrder) (makers : List InternalOrder) : Decimal :=
  (makers.map fun o => if order.canMatch (limit o) then o.remaining else 0).sum

/-- Something is open of each. -/
def AllOpen (makers : List InternalOrder) : Prop := ∀ o ∈ makers, 0 < o.remaining

theorem isFilled_iff (o : InternalOrder) : o.isFilled = true ↔ o.remaining ≤ 0 := by
  rw [InternalOrder.isFilled, decide_eq_true_iff, InternalOrder.remaining, sub_nonpos]

@[simp] theorem remaining_fill (o : InternalOrder) (q : Decimal) :
    (o.fill q).remaining = o.remaining - q := by
  simp only [InternalOrder.remaining, InternalOrder.fill]
  ring

@[simp] theorem canMatch_fill (o : InternalOrder) (q price : Decimal) :
    (o.fill q).canMatch price = o.canMatch price := rfl

theorem makerOf_tradeOf (order maker : InternalOrder) (price q : Decimal) :
    makerOf order.side (tradeOf order maker price q) = maker.id := by
  unfold makerOf tradeOf
  cases order.side with
  | Buy => rfl
  | Sell => rfl

@[simp] theorem quantity_tradeOf (order maker : InternalOrder) (price q : Decimal) :
    (tradeOf order maker price q).quantity = q := by
  unfold tradeOf
  cases order.side with
  | Buy => rfl
  | Sell => rfl

@[simp] theorem price_tradeOf (order maker : InternalOrder) (price q : Decimal) :
    (tradeOf order maker price q).price = price := by
  unfold tradeOf
  cases order.side with
  | Buy => rfl
  | Sell => rfl

/-- A price is beyond the limit if one before it is. -/
theorem canMatch_eq_false {order : InternalOrder} {p q : Decimal} (hp : order.canMatch p = false)
    (hpq : order.side.opposite.before q p = false) : order.canMatch q = false := by
  unfold InternalOrder.canMatch at hp ⊢
  rcases hlimit : order.price with _ | limitPrice
  · rw [hlimit] at hp
    cases hp
  · rw [hlimit] at hp
    cases hside : order.side with
    | Buy =>
      simp only [hside, Side.opposite, Side.before, decide_eq_false_iff_not] at hp hpq ⊢
      linarith
    | Sell =>
      simp only [hside, Side.opposite, Side.before, decide_eq_false_iff_not] at hp hpq ⊢
      linarith

/-- The cases of a pass: it is over, or the first maker is filled against. -/
theorem sweep_cases {P : InternalOrder → List InternalOrder → Pass InternalOrder → Prop}
    (hnil : ∀ order, P order [] ⟨order, [], [], []⟩)
    (hstop : ∀ order maker makers, order.isFilled = true ∨ order.canMatch (limit maker) = false →
      P order (maker :: makers) ⟨order, maker :: makers, [], []⟩)
    (hfill : ∀ order maker makers pass q, order.isFilled = false → order.canMatch (limit maker) = true →
      q = min order.remaining maker.remaining → pass = sweep (order.fill q) makers →
      P (order.fill q) makers pass → P order (maker :: makers)
        { order := pass.order
          rest := if (maker.fill q).isFilled then pass.rest else maker.fill q :: pass.rest
          trades := tradeOf order maker (limit maker) q :: pass.trades
          filled := if (maker.fill q).isFilled then maker.id :: pass.filled else pass.filled })
    (order : InternalOrder) (makers : List InternalOrder) : P order makers (sweep order makers) := by
  induction makers generalizing order with
  | nil => exact hnil order
  | cons maker makers ih =>
    rw [sweep]
    split_ifs with hcase
    · exact hstop order maker makers hcase
    · rw [not_or, Bool.not_eq_true, Bool.not_eq_false] at hcase
      exact hfill order maker makers _ _ hcase.1 hcase.2 rfl rfl (ih _)

theorem restingQuantity_cons (ids : OrderId → Bool) (o : InternalOrder) (makers : List InternalOrder) :
    restingQuantity ids (o :: makers) =
      (if ids o.id then o.remaining else 0) + restingQuantity ids makers := by
  rw [restingQuantity, List.map_cons, List.sum_cons]
  rfl

theorem tradedQuantity_cons (side : Side) (ids : OrderId → Bool) (t : MatchedTrade)
    (trades : List MatchedTrade) : tradedQuantity side ids (t :: trades) =
      (if ids (makerOf side t) then t.quantity else 0) + tradedQuantity side ids trades := by
  rw [tradedQuantity, List.map_cons, List.sum_cons]
  rfl

/-- The order gains what is traded. -/
theorem order_sweep (order : InternalOrder) (makers : List InternalOrder) :
    (sweep order makers).order = order.fill ((sweep order makers).trades.map MatchedTrade.quantity).sum := by
  refine sweep_cases (P := fun order _ pass =>
    pass.order = order.fill (pass.trades.map MatchedTrade.quantity).sum) ?_ ?_ ?_ order makers
  · intro order
    simp [InternalOrder.fill]
  · intro order maker makers _
    simp [InternalOrder.fill]
  · intro order maker makers pass q _ _ _ _ hrest
    simp only [List.map_cons, List.sum_cons, quantity_tradeOf]
    rw [hrest]
    simp only [InternalOrder.fill, add_assoc]

/-- The makers lose what is traded with them, and all that is left is open. -/
theorem makers_sweep (order : InternalOrder) (makers : List InternalOrder) (h : AllOpen makers) :
    AllOpen (sweep order makers).rest ∧ ∀ ids, restingQuantity ids makers =
      restingQuantity ids (sweep order makers).rest +
        tradedQuantity order.side ids (sweep order makers).trades := by
  refine sweep_cases (P := fun order makers pass => AllOpen makers → AllOpen pass.rest ∧
    ∀ ids, restingQuantity ids makers = restingQuantity ids pass.rest +
      tradedQuantity order.side ids pass.trades) ?_ ?_ ?_ order makers h
  · intro order _
    exact ⟨fun o ho => absurd ho List.not_mem_nil, fun ids => (add_zero _).symm⟩
  · intro order maker makers _ hopen
    exact ⟨hopen, fun ids => (add_zero _).symm⟩
  · intro order maker makers pass q hopen _ hq _ hrest hall
    obtain ⟨hmaker, hmakers⟩ := List.forall_mem_cons.mp hall
    obtain ⟨hallRest, hquantity⟩ := hrest hmakers
    have hle : q ≤ maker.remaining := hq.trans_le (min_le_right _ _)
    refine ⟨?_, fun ids => ?_⟩
    · split_ifs with hfilled
      · exact hallRest
      · refine List.forall_mem_cons.mpr ⟨?_, hallRest⟩
        exact not_le.mp (mt (isFilled_iff _).mpr hfilled)
    · have hsum : ∀ b : Bool, b = (maker.fill q).isFilled →
          restingQuantity ids (if b then pass.rest else maker.fill q :: pass.rest) =
            restingQuantity ids pass.rest + if ids maker.id then maker.remaining - q else 0 := by
        intro b hb
        cases b with
        | false =>
          simp only [Bool.false_eq_true, if_false, restingQuantity_cons, remaining_fill]
          exact add_comm _ _
        | true =>
          have hzero := (isFilled_iff _).mp hb.symm
          rw [remaining_fill] at hzero
          have hexact : maker.remaining - q = 0 := le_antisymm hzero (sub_nonneg.mpr hle)
          simp [hexact]
      have hquantity : restingQuantity ids makers = restingQuantity ids pass.rest +
          tradedQuantity order.side ids pass.trades := hquantity ids
      rw [hsum _ rfl, restingQuantity_cons, tradedQuantity_cons, makerOf_tradeOf, quantity_tradeOf,
        hquantity]
      split_ifs
      · ring
      · ring

/-- Every trade is at the price of its maker, within the order's limit, and of something. -/
theorem trades_sweep (order : InternalOrder) (makers : List InternalOrder) (h : AllOpen makers) :
    ∀ t ∈ (sweep order makers).trades, order.canMatch t.price = true ∧ 0 < t.quantity ∧
      ∃ maker ∈ makers, maker.id = makerOf order.side t ∧ limit maker = t.price := by
  refine sweep_cases (P := fun order makers pass => AllOpen makers → ∀ t ∈ pass.trades,
    order.canMatch t.price = true ∧ 0 < t.quantity ∧
      ∃ maker ∈ makers, maker.id = makerOf order.side t ∧ limit maker = t.price) ?_ ?_ ?_ order makers h
  · exact fun order _ t ht => absurd ht List.not_mem_nil
  · exact fun order maker makers _ _ t ht => absurd ht List.not_mem_nil
  · intro order maker makers pass q hopen hcan hq _ hrest hall t ht
    obtain ⟨hmaker, hmakers⟩ := List.forall_mem_cons.mp hall
    rcases List.mem_cons.mp ht with rfl | ht
    · have horder : 0 < order.remaining :=
        not_le.mp (mt (isFilled_iff order).mpr (Bool.eq_false_iff.mp hopen))
      rw [price_tradeOf, quantity_tradeOf, makerOf_tradeOf, hq]
      exact ⟨hcan, lt_min horder hmaker, maker, List.mem_cons_self, rfl, rfl⟩
    · obtain ⟨hprice, hpos, maker', hmem, hid, hlimit⟩ := hrest hmakers t ht
      exact ⟨hprice, hpos, maker', List.mem_cons_of_mem _ hmem, hid, hlimit⟩

theorem available_eq_zero {order : InternalOrder} {makers : List InternalOrder}
    (h : ∀ o ∈ makers, order.canMatch (limit o) = false) : available order makers = 0 := by
  refine List.sum_eq_zero fun x hx => ?_
  obtain ⟨o, ho, rfl⟩ := List.mem_map.mp hx
  rw [h o ho]
  rfl

theorem available_nonneg {order : InternalOrder} {makers : List InternalOrder} (h : AllOpen makers) :
    0 ≤ available order makers := by
  refine List.sum_nonneg fun x hx => ?_
  obtain ⟨o, ho, rfl⟩ := List.mem_map.mp hx
  split_ifs
  · exact (h o ho).le
  · exact le_rfl

/-- Nothing is available where all open makers are beyond the limit. -/
theorem beyond_of_available_eq_zero {order : InternalOrder} {makers : List InternalOrder} (hopen : AllOpen makers)
    (hzero : available order makers = 0) : ∀ o ∈ makers, order.canMatch (limit o) = false := by
  have hnonneg : ∀ x ∈ makers.map fun o => if order.canMatch (limit o) then o.remaining else 0, 0 ≤ x := by
    intro x hx
    obtain ⟨o, ho, rfl⟩ := List.mem_map.mp hx
    split_ifs
    · exact (hopen o ho).le
    · exact le_rfl
  intro o ho
  by_contra hcan
  have hle := List.single_le_sum hnonneg _ (List.mem_map_of_mem ho)
  rw [if_pos ((Bool.not_eq_false _).mp hcan)] at hle
  exact absurd (hle.trans_eq hzero) (not_le.mpr (hopen o ho))

/-- Of sorted makers all are beyond the limit if the first is. -/
theorem forall_canMatch_eq_false {order maker : InternalOrder} {makers : List InternalOrder}
    (h : Sorted order.side.opposite (maker :: makers)) (hfirst : order.canMatch (limit maker) = false) :
    ∀ o ∈ maker :: makers, order.canMatch (limit o) = false := by
  refine List.forall_mem_cons.mpr ⟨hfirst, fun o ho => ?_⟩
  exact canMatch_eq_false hfirst ((List.pairwise_cons.mp h).1 o ho)

/-- At the end the order is filled, or what is left is beyond its limit. -/
theorem sweep_ends (order : InternalOrder) (makers : List InternalOrder)
    (h : Sorted order.side.opposite makers) (hopen : AllOpen makers) :
    (sweep order makers).order.isFilled = true ∨
      ∀ o ∈ (sweep order makers).rest, order.canMatch (limit o) = false := by
  refine sweep_cases (P := fun order makers pass => Sorted order.side.opposite makers →
    AllOpen makers → pass.order.isFilled = true ∨ ∀ o ∈ pass.rest, order.canMatch (limit o) = false)
    ?_ ?_ ?_ order makers h hopen
  · exact fun order _ _ => .inr fun o ho => absurd ho List.not_mem_nil
  · rintro order maker makers (hfilled | hbeyond) hsorted _
    · exact .inl hfilled
    · exact .inr (forall_canMatch_eq_false hsorted hbeyond)
  · intro order maker makers pass q hnot hcan hq hpass hrest hsorted hall
    obtain ⟨hmaker, hmakers⟩ := List.forall_mem_cons.mp hall
    rcases hrest (List.pairwise_cons.mp hsorted).2 hmakers with hfilled | hbeyond
    · exact .inl hfilled
    · by_cases hmakerFilled : (maker.fill q).isFilled = true
      · refine .inr ?_
        rw [if_pos hmakerFilled]
        exact hbeyond
      · -- the maker has something left, so the order has not
        have hlt : q < maker.remaining := by
          have hpos := not_le.mp (mt (isFilled_iff _).mpr hmakerFilled)
          rw [remaining_fill] at hpos
          linarith
        have hall : q = order.remaining := by
          rcases min_choice order.remaining maker.remaining with hmin | hmin
          · exact hq.trans hmin
          · exact absurd hlt (by rw [hq, hmin]; exact lt_irrefl _)
        have hdone : (order.fill q).isFilled = true :=
          (isFilled_iff _).mpr (by rw [remaining_fill, hall, sub_self])
        rw [hpass, sweep_of_filled hdone]
        exact .inl hdone

/-- What the order lacks at the end is what it lacks beyond what is available. -/
theorem remaining_sweep (order : InternalOrder) (makers : List InternalOrder)
    (h : Sorted order.side.opposite makers) (hopen : AllOpen makers) (hpos : 0 ≤ order.remaining) :
    (sweep order makers).order.remaining = max 0 (order.remaining - available order makers) := by
  refine sweep_cases (P := fun order makers pass => Sorted order.side.opposite makers →
    AllOpen makers → 0 ≤ order.remaining →
    pass.order.remaining = max 0 (order.remaining - available order makers))
    ?_ ?_ ?_ order makers h hopen hpos
  · intro order _ _ hpos
    rw [available, List.map_nil, List.sum_nil, sub_zero, max_eq_right hpos]
  · rintro order maker makers (hfilled | hbeyond) hsorted hall hpos
    · have hzero := le_antisymm ((isFilled_iff order).mp hfilled) hpos
      have hnonneg := @available_nonneg order _ hall
      rw [hzero, max_eq_left (by linarith)]
    · rw [available_eq_zero (forall_canMatch_eq_false hsorted hbeyond), sub_zero, max_eq_right hpos]
  · intro order maker makers pass q hnot hcan hq hpass hrest hsorted hall hpos
    obtain ⟨hmaker, hmakers⟩ := List.forall_mem_cons.mp hall
    have hleft : 0 ≤ (order.fill q).remaining := by
      rw [remaining_fill, hq]
      exact sub_nonneg.mpr (min_le_left _ _)
    have hrest := hrest (List.pairwise_cons.mp hsorted).2 hmakers hleft
    have hnonneg := @available_nonneg order _ hmakers
    have hsame : available (order.fill q) makers = available order makers := rfl
    have hcons : available order (maker :: makers) = maker.remaining + available order makers := by
      simp only [available, List.map_cons, List.sum_cons, hcan, if_true]
    simp only
    rw [hrest, hsame, hcons, remaining_fill]
    rcases le_total order.remaining maker.remaining with hle | hle
    · rw [hq, min_eq_left hle, max_eq_left (by linarith), max_eq_left (by linarith)]
    · rw [hq, min_eq_right hle, sub_sub]

/-! ### The pass and the reference matcher -/

/-- `makers` are the orders of this side that rest, sorted by price and then by age. -/
structure Lists (side : Side) (makers resting : List InternalOrder) : Prop where
  sorted : Sorted side makers
  filter_eq : ∀ p, makers.filter (fun o => limit o = p) =
    resting.filter fun o => o.side = side && limit o = p

/-- What tells where an order rests. -/
def place (o : InternalOrder) : OrderId × Side × Option Decimal := (o.id, o.side, o.price)

theorem Lists.mem_iff {side : Side} {makers resting : List InternalOrder} (h : Lists side makers resting)
    {o : InternalOrder} : o ∈ makers ↔ o ∈ resting ∧ o.side = side := by
  have hmem : o ∈ makers.filter (fun x => limit x = limit o) ↔
      o ∈ resting.filter (fun x => x.side = side && limit x = limit o) := by rw [h.filter_eq]
  simpa using hmem

theorem id_ne_of_nodup {l k : List InternalOrder} {maker : InternalOrder}
    (hnodup : ((l ++ maker :: k).map InternalOrder.id).Nodup) : ∀ o ∈ l ++ k, o.id ≠ maker.id := by
  rw [List.map_append, List.map_cons, List.nodup_middle] at hnodup
  obtain ⟨hnot, -⟩ := List.nodup_cons.mp hnodup
  intro o ho heq
  exact hnot (by rw [← List.map_append, ← heq]; exact List.mem_map_of_mem ho)

/-- What becomes of the list when one of its orders is settled. -/
theorem settle_append_cons {l k : List InternalOrder} {maker : InternalOrder} (q : Decimal)
    (hnodup : ((l ++ maker :: k).map InternalOrder.id).Nodup) :
    settle (maker.fill q) (l ++ maker :: k) =
      l ++ (if (maker.fill q).isFilled then [] else [maker.fill q]) ++ k := by
  have hne := id_ne_of_nodup hnodup
  have hl : ∀ o ∈ l, o.id ≠ maker.id := fun o ho => hne o (List.mem_append_left _ ho)
  have hk : ∀ o ∈ k, o.id ≠ maker.id := fun o ho => hne o (List.mem_append_right _ ho)
  have hid : (maker.fill q).id = maker.id := rfl
  rw [settle, hid]
  split_ifs with hfilled
  · rw [List.filter_append, List.filter_cons_of_neg (by simp), List.append_nil,
      List.filter_eq_self.mpr fun o ho => decide_eq_true (hl o ho),
      List.filter_eq_self.mpr fun o ho => decide_eq_true (hk o ho)]
  · have hsame : ∀ m : List InternalOrder, (∀ o ∈ m, o.id ≠ maker.id) →
        m.map (fun o => if o.id = maker.id then maker.fill q else o) = m := by
      intro m hm
      refine (List.map_congr_left fun o ho => if_neg (hm o ho)).trans (List.map_id _)
    rw [List.map_append, List.map_cons, hsame l hl, hsame k hk, if_pos rfl, List.append_assoc]
    rfl

/-- The maker that the pass comes to is the best for the reference matcher. -/
theorem best_eq_some {order maker : InternalOrder} {makers l k : List InternalOrder}
    (h : Lists order.side.opposite (maker :: makers) (l ++ maker :: k))
    (hl : ∀ o ∈ l, ¬ (o.side = order.side.opposite ∧ limit o = limit maker))
    (hcan : order.canMatch (limit maker) = true) : best order (l ++ maker :: k) = some maker := by
  obtain ⟨hfirst, -⟩ := List.pairwise_cons.mp h.sorted
  obtain ⟨-, hside⟩ := h.mem_iff.mp List.mem_cons_self
  have hlater : ∀ o ∈ l ++ maker :: k, o.side = order.side.opposite →
      order.side.opposite.before (limit o) (limit maker) = false := by
    intro o ho hsideO
    rcases List.mem_cons.mp (h.mem_iff.mpr ⟨ho, hsideO⟩) with rfl | hmem
    · exact before_self _ _
    · exact hfirst o hmem
  refine firstBest_append_cons ?_ (fun o ho hok => ?_) fun o ho hok => ?_
  · simp [compatible, hside, hcan]
  · simp only [compatible, Bool.and_eq_true, decide_eq_true_eq] at hok
    rw [hside]
    exact before_of_ne (hlater o (List.mem_append_left _ ho) hok.1) fun heq => hl o ho ⟨hok.1, heq⟩
  · simp only [compatible, Bool.and_eq_true, decide_eq_true_eq] at hok
    rw [hok.1]
    exact hlater o (List.mem_append_right _ (List.mem_cons_of_mem _ ho)) hok.1

theorem best_eq_none {order : InternalOrder} {makers resting : List InternalOrder}
    (h : Lists order.side.opposite makers resting)
    (hbeyond : ∀ o ∈ makers, order.canMatch (limit o) = false) : best order resting = none := by
  refine firstBest_eq_none.mpr fun o ho => ?_
  by_cases hside : o.side = order.side.opposite
  · simp [compatible, hbeyond o (h.mem_iff.mpr ⟨ho, hside⟩)]
  · simp [compatible, hside]

/-- What the pass leaves, against what the reference matcher leaves. -/
structure Simulates (order : InternalOrder) (resting : List InternalOrder) (pass : Pass InternalOrder)
    (rest : List InternalOrder) : Prop where
  lists : Lists order.side.opposite pass.rest rest
  ownSide : rest.filter (fun o => o.side = order.side) = resting.filter fun o => o.side = order.side
  places : rest.map place = (resting.map place).filter fun k => k.1 ∉ pass.filled

theorem opposite_ne (side : Side) : side.opposite ≠ side := by
  cases side with
  | Buy => nofun
  | Sell => nofun

/-- The pass is over. -/
theorem simulates_over {order : InternalOrder} {makers resting : List InternalOrder}
    (h : Lists order.side.opposite makers resting) :
    Simulates order resting ⟨order, makers, [], []⟩ resting where
  lists := h
  ownSide := rfl
  places := (List.filter_eq_self.mpr fun _ _ => decide_eq_true List.not_mem_nil).symm

theorem fillBest_of_filled {order : InternalOrder} (h : order.isFilled = true) (n : ℕ)
    (resting : List InternalOrder) : fillBest n order resting = (order, [], resting) := by
  cases n with
  | zero => rfl
  | succ n => rw [fillBest, if_pos h]

section Fill

variable {order maker : InternalOrder} {makers l k : List InternalOrder}
  (h : Lists order.side.opposite (maker :: makers) (l ++ maker :: k))
  (hl : ∀ o ∈ l, ¬ (o.side = order.side.opposite ∧ limit o = limit maker))
  (hnodup : ((l ++ maker :: k).map InternalOrder.id).Nodup)

include h hl in
/-- The makers that come later, by price. -/
theorem filter_tail (p : Decimal) : makers.filter (fun o => limit o = p) =
    (l ++ k).filter fun o => o.side = order.side.opposite && limit o = p := by
  have hp := h.filter_eq p
  have hside : maker.side = order.side.opposite := (h.mem_iff.mp List.mem_cons_self).2
  rw [List.filter_append] at hp ⊢
  by_cases hlimit : limit maker = p
  · subst hlimit
    have hnone : l.filter (fun o => o.side = order.side.opposite && limit o = limit maker) = [] :=
      List.filter_eq_nil_iff.mpr fun o ho => by simpa using hl o ho
    rw [List.filter_cons_of_pos (by simp), hnone, List.nil_append,
      List.filter_cons_of_pos (by simp [hside])] at hp
    rw [hnone, List.nil_append]
    exact (List.cons.inj hp).2
  · rw [List.filter_cons_of_neg (by simp [hlimit]), List.filter_cons_of_neg (by simp [hlimit])] at hp
    exact hp

include h in
theorem ownSide_tail (m : List InternalOrder) (hm : ∀ o ∈ m, o.side = maker.side) :
    (l ++ m ++ k).filter (fun o => o.side = order.side) =
      (l ++ maker :: k).filter fun o => o.side = order.side := by
  have hside : maker.side ≠ order.side := by
    rw [(h.mem_iff.mp List.mem_cons_self).2]
    exact opposite_ne order.side
  have hnone : m.filter (fun o => o.side = order.side) = [] :=
    List.filter_eq_nil_iff.mpr fun o ho => by simp [hm o ho, hside]
  rw [List.filter_append, List.filter_append, List.filter_append, hnone, List.append_nil,
    List.filter_cons_of_neg (by simp [hside])]

include hnodup in
/-- The maker is filled, and the pass goes on. -/
theorem places_tail (filled : List OrderId) :
    ((l ++ k).map place).filter (fun x => x.1 ∉ filled) =
      ((l ++ maker :: k).map place).filter fun x => x.1 ∉ maker.id :: filled := by
  have hne := id_ne_of_nodup hnodup
  have hsame : ∀ m : List InternalOrder, (∀ o ∈ m, o ∈ l ++ k) →
      (m.map place).filter (fun x => x.1 ∉ filled) =
        (m.map place).filter fun x => x.1 ∉ maker.id :: filled := by
    intro m hm
    refine List.filter_congr fun x hx => ?_
    obtain ⟨o, ho, rfl⟩ := List.mem_map.mp hx
    have hother : o.id ≠ maker.id := hne o (hm o ho)
    exact decide_eq_decide.mpr (by simp [place, hother])
  rw [List.map_append, List.filter_append, List.map_append, List.filter_append, List.map_cons,
    List.filter_cons_of_neg (by simp [place]), hsame l fun o ho => List.mem_append_left _ ho,
    hsame k fun o ho => List.mem_append_right _ ho]

include h hl in
/-- The order is filled first, and the maker rests with what is left of it. -/
theorem simulates_partly (q : Decimal) (trades : List MatchedTrade) :
    Simulates order (l ++ maker :: k) ⟨order.fill q, maker.fill q :: makers, trades, []⟩
      (l ++ [maker.fill q] ++ k) where
  lists := by
    have hside : (maker.fill q).side = order.side.opposite := (h.mem_iff.mp List.mem_cons_self).2
    obtain ⟨hfirst, htail⟩ := List.pairwise_cons.mp h.sorted
    refine ⟨List.pairwise_cons.mpr ⟨hfirst, htail⟩, fun p => ?_⟩
    have htail := filter_tail h hl p
    rw [List.filter_append] at htail
    rw [List.filter_append, List.filter_append]
    by_cases hlimit : limit (maker.fill q) = p
    · have hnone : l.filter (fun o => o.side = order.side.opposite && limit o = p) = [] :=
        List.filter_eq_nil_iff.mpr fun o ho => by
          have hnot := hl o ho
          change limit maker = p at hlimit
          rw [hlimit] at hnot
          simpa using hnot
      rw [List.filter_cons_of_pos (by simp [hlimit]), htail, hnone,
        List.filter_cons_of_pos (by simp [hside, hlimit])]
      rfl
    · rw [List.filter_cons_of_neg (by simp [hlimit]), htail,
        List.filter_cons_of_neg (by simp [hlimit]), List.filter_nil, List.append_nil]
  ownSide := ownSide_tail h _ fun o ho => by
    rw [List.mem_singleton.mp ho]
    rfl
  places := by
    have hall : ((l ++ maker :: k).map place).filter (fun x => x.1 ∉ ([] : List OrderId)) =
        (l ++ maker :: k).map place :=
      List.filter_eq_self.mpr fun _ _ => decide_eq_true List.not_mem_nil
    rw [hall, List.map_append, List.map_append, List.map_append, List.append_assoc]
    rfl

end Fill

/-- The reference matcher does what the pass does. -/
theorem sweep_simulates {order : InternalOrder} {makers resting : List InternalOrder} (n : ℕ)
    (hn : makers.length ≤ n) (h : Lists order.side.opposite makers resting)
    (hnodup : (resting.map InternalOrder.id).Nodup) :
    let pass := sweep order makers
    ∃ rest, fillBest n order resting = (pass.order, pass.trades, rest) ∧
      Simulates order resting pass rest := by
  induction makers generalizing order resting n with
  | nil =>
    refine ⟨resting, ?_, simulates_over h⟩
    cases n with
    | zero => rfl
    | succ n =>
      rw [fillBest, best_eq_none h fun o ho => absurd ho List.not_mem_nil]
      split_ifs
      · rfl
      · rfl
  | cons maker makers ih =>
    obtain ⟨n, rfl⟩ : ∃ m, n = m + 1 := Nat.exists_eq_add_one_of_ne_zero (Nat.ne_zero_of_lt hn)
    have hn := Nat.le_of_succ_le_succ hn
    rw [sweep]
    split_ifs with hcase
    · refine ⟨resting, ?_, simulates_over h⟩
      rw [fillBest]
      split_ifs with hfilled
      · rfl
      · rw [best_eq_none h (forall_canMatch_eq_false h.sorted (hcase.resolve_left hfilled))]
    · rw [not_or, Bool.not_eq_false] at hcase
      obtain ⟨hopen, hcan⟩ := hcase
      -- the maker splits the list of all that rests
      have hsplit := (h.filter_eq (limit maker)).symm
      rw [List.filter_cons_of_pos (by simp)] at hsplit
      obtain ⟨l, k, rfl, hl, -, -⟩ := List.filter_eq_cons_iff.mp hsplit
      have hl : ∀ o ∈ l, ¬ (o.side = order.side.opposite ∧ limit o = limit maker) := by
        intro o ho
        simpa using hl o ho
      rw [fillBest, if_neg hopen, best_eq_some h hl hcan]
      simp only [settle_append_cons _ hnodup]
      set q := min order.remaining maker.remaining with hq
      by_cases hmakerFilled : (maker.fill q).isFilled = true
      · simp only [hmakerFilled, if_true, List.append_nil]
        have hlists : Lists (order.fill q).side.opposite makers (l ++ k) :=
          ⟨(List.pairwise_cons.mp h.sorted).2, filter_tail h hl⟩
        have hnodup' : ((l ++ k).map InternalOrder.id).Nodup := by
          refine hnodup.sublist (List.Sublist.map _ ?_)
          exact List.Sublist.append (List.Sublist.refl _) (List.sublist_cons_self _ _)
        obtain ⟨rest, hfill, hrest⟩ := ih n hn hlists hnodup'
        refine ⟨rest, by rw [hfill], hrest.lists, ?_, hrest.places.trans (places_tail hnodup _)⟩
        have hown := ownSide_tail h [] fun o ho => absurd ho List.not_mem_nil
        rw [List.append_nil] at hown
        exact hrest.ownSide.trans hown
      · -- then the order has nothing left
        have hpos := not_le.mp (mt (isFilled_iff _).mpr hmakerFilled)
        rw [remaining_fill] at hpos
        have hall : q = order.remaining := by
          rcases min_choice order.remaining maker.remaining with hmin | hmin
          · exact hmin
          · rw [hq, hmin, sub_self] at hpos
            exact absurd hpos (lt_irrefl 0)
        have hdone : (order.fill q).isFilled = true :=
          (isFilled_iff _).mpr (by rw [remaining_fill, hall, sub_self])
        rw [sweep_of_filled hdone, fillBest_of_filled hdone]
        simp only [hmakerFilled, Bool.false_eq_true, if_false]
        exact ⟨_, rfl, simulates_partly h hl q _⟩

end Coinjecture.ApiServer.Matching.Sweep
