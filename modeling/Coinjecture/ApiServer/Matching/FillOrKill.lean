import Coinjecture.ApiServer.Matching.Representation

/-! # Fill or kill

Before a fill-or-kill order is killed it has been matched. What it was filled with is taken off the makers, and
nothing gives it back; a market order of this kind even trades what there is.

* `fillOrKill_iff` : such an order is done whole or not at all, except where it can be filled in part. -/

namespace Coinjecture.ApiServer.Matching.FillOrKill

open Lib.Trace
open ApiServer.Matching.Book ApiServer.Matching.Reference
open ApiServer.Matching.Ladders ApiServer.Matching.Sweep
open ApiServer.Matching.PriceTime ApiServer.Matching.Representation

/-- A run of submissions with ids of their own, filled with nothing negative, and of cancels leads to the book. -/
def Reachable (b : OrderBook) : Prop :=
  ∃ ops, (∀ order, .submit order ∈ ops → 0 ≤ order.filledQuantity) ∧ (ops.filterMap Op.submitted).Nodup ∧
    book.final ops .new = b

theorem Reachable.exists_represents {b : OrderBook} (h : Reachable b) : ∃ resting, Represents b resting := by
  obtain ⟨ops, hfilled, hids, rfl⟩ := h
  refine (Machine.invariant_inputs (Q := BookRun) (P := fun b => ∃ resting, Represents b resting)
    (fun ops b h => ?_) (fun _ _ _ h => h.next) (bookRun_new hfilled hids)).2
  obtain ⟨resting, hrepresents, -⟩ := h.represents
  exact ⟨resting, hrepresents⟩

/-- What the order can be filled with at its limit. A limit order without a price has no limit to be filled at. -/
def fillable (order : InternalOrder) (b : OrderBook) : Decimal :=
  if order.orderType = .Limit ∧ order.price = none then 0
  else available order (orders (b.ladder order.side.opposite))

/-- If what the order lacks is there, it is filled with it. If not, there is no trade and the book is as before. -/
def Atomic (order : InternalOrder) (b : OrderBook) : Prop :=
  ∃ result b', b.submitOrder order = some (result, b') ∧
    if order.remaining ≤ fillable order b then
      result.status = .Filled ∧ (result.trades.map MatchedTrade.quantity).sum = max 0 order.remaining
    else result.trades = [] ∧ b' = b

/-- There is something for the order, but not enough. -/
def FillableInPart (order : InternalOrder) (b : OrderBook) : Prop :=
  0 < fillable order b ∧ fillable order b < order.remaining

instance (order : InternalOrder) (b : OrderBook) : Decidable (FillableInPart order b) :=
  inferInstanceAs (Decidable (_ ∧ _))

theorem FillableInPart.priced {order : InternalOrder} {b : OrderBook} (h : FillableInPart order b) :
    ¬ (order.orderType = .Limit ∧ order.price = none) := by
  intro hunpriced
  have hpos := h.1
  rw [fillable, if_pos hunpriced] at hpos
  exact lt_irrefl 0 hpos

/-! ### An order that nothing can be filled against -/

theorem matchLevels_of_beyond {side : Side} {order : InternalOrder} {ladder : Ladder} (h : Ordered side ladder)
    (hbeyond : ∀ o ∈ orders ladder, order.canMatch (limit o) = false) :
    matchLevels order ladder = ⟨order, ladder, [], []⟩ := by
  cases ladder with
  | nil => rfl
  | cons level levels =>
    obtain ⟨price, makers⟩ := level
    obtain ⟨o, rest, heq⟩ := List.exists_cons_of_ne_nil (h.nonempty _ List.mem_cons_self)
    have ho : o ∈ makers := by
      rw [show makers = o :: rest from heq]
      exact List.mem_cons_self
    have hlimit : limit o = price := by rw [limit, (h.priced _ List.mem_cons_self o ho).2, Option.getD_some]
    have hcannot := hbeyond o (List.mem_append_left _ ho)
    rw [hlimit] at hcannot
    rw [matchLevels, hcannot, if_neg Bool.false_ne_true, ite_self]

theorem withLadder_ladder (side : Side) (b : OrderBook) : b.withLadder side (b.ladder side) = b := by
  cases side with
  | Buy => rfl
  | Sell => rfl

/-- Loops that leave all levels as they are leave the book as it is. -/
theorem matchAgainstBook_of_unchanged {order : InternalOrder} {b : OrderBook}
    (h : matchLevels order (b.ladder order.side.opposite) = ⟨order, b.ladder order.side.opposite, [], []⟩) :
    b.matchAgainstBook order = (order, [], b) := by
  simp only [OrderBook.matchAgainstBook, h, withLadder_ladder, List.not_mem_nil, if_false]

theorem matchAgainstBook_of_beyond {order : InternalOrder} {b : OrderBook} {resting : List InternalOrder}
    (h : Represents b resting)
    (hbeyond : ∀ o ∈ orders (b.ladder order.side.opposite), order.canMatch (limit o) = false) :
    b.matchAgainstBook order = (order, [], b) :=
  matchAgainstBook_of_unchanged (matchLevels_of_beyond (h.ordered order.side.opposite) hbeyond)

theorem matchLevels_of_filled {order : InternalOrder} (h : order.isFilled = true) (ladder : Ladder) :
    matchLevels order ladder = ⟨order, ladder, [], []⟩ := by
  cases ladder with
  | nil => rfl
  | cons level levels => rw [matchLevels, if_pos h]

/-! ### A fill-or-kill order -/

section

variable {order : InternalOrder} (hforce : order.timeInForce = .FOK) {b b' : OrderBook}

include hforce

/-- The outcome, from what the order was filled with. -/
theorem submitOrder_fillOrKill (hpriced : order.orderType = .Limit → order.price.isSome = true) {filled : Decimal}
    {trades : List MatchedTrade} (hbook : b.matchAgainstBook order = (order.fill filled, trades, b')) :
    ∃ result, b.submitOrder order = some (result, b') ∧
      (result.status = .Filled ↔ (order.fill filled).isFilled = true) ∧
      ((order.fill filled).isFilled = true → result.trades = trades) ∧
      (order.orderType = .Market → result.trades = trades) ∧
      (order.orderType = .Limit → ¬ (order.fill filled).isFilled = true → result.trades = []) := by
  cases htype : order.orderType with
  | Market =>
    refine ⟨⟨order.id, if (order.fill filled).isFilled then .Filled else .Cancelled, trades,
      (order.fill filled).remaining⟩, ?_, ?_, fun _ => rfl, fun _ => rfl,
      fun hlimit => by cases hlimit⟩
    · simp only [OrderBook.submitOrder, htype, hbook, id_fill]
    · split_ifs with hfilled
      · exact iff_of_true rfl hfilled
      · exact iff_of_false (fun hstatus => by cases hstatus) hfilled
  | Limit =>
    by_cases hfilled : (order.fill filled).isFilled = true
    · refine ⟨⟨order.id, .Filled, trades, 0⟩, ?_, iff_of_true rfl hfilled, fun _ => rfl,
        (fun hmarket => by cases hmarket), fun _ hnot => absurd hfilled hnot⟩
      simp only [OrderBook.submitOrder, htype, hpriced htype, if_true, hbook, hfilled, id_fill]
    · refine ⟨⟨order.id, .Cancelled, [], order.quantity⟩, ?_, iff_of_false (fun hstatus => by cases hstatus) hfilled,
        fun hdone => absurd hdone hfilled, (fun hmarket => by cases hmarket), fun _ _ => rfl⟩
      simp only [OrderBook.submitOrder, htype, hpriced htype, if_true, hbook, if_neg hfilled, id_fill,
        timeInForce_fill, hforce, quantity_fill]

/-- A limit order without a price is left alone. -/
theorem atomic_of_unpriced (hunpriced : order.orderType = .Limit ∧ order.price = none) : Atomic order b := by
  have hfillable : fillable order b = 0 := if_pos hunpriced
  by_cases hfilled : order.isFilled = true
  · have hle := (isFilled_iff order).mp hfilled
    refine ⟨⟨order.id, .Filled, [], 0⟩, b, ?_, ?_⟩
    · simp only [OrderBook.submitOrder, hunpriced.1, hunpriced.2, Option.isSome_none, Bool.false_eq_true,
        if_false, if_pos hfilled]
    · rw [hfillable, if_pos hle]
      exact ⟨rfl, (max_eq_left hle).symm⟩
  · refine ⟨⟨order.id, .Cancelled, [], order.quantity⟩, b, ?_, ?_⟩
    · simp only [OrderBook.submitOrder, hunpriced.1, hunpriced.2, Option.isSome_none, Bool.false_eq_true,
        if_false, if_neg hfilled, hforce]
    · rw [hfillable, if_neg (mt (isFilled_iff order).mpr hfilled)]
      exact ⟨rfl, rfl⟩

/-- An order that lacks nothing is filled with nothing. -/
theorem atomic_of_filled (hpriced : order.orderType = .Limit → order.price.isSome = true)
    (hnonneg : 0 ≤ fillable order b) (hdone : order.isFilled = true) : Atomic order b := by
  have hle := (isFilled_iff order).mp hdone
  have hbook := matchAgainstBook_of_unchanged (matchLevels_of_filled hdone (b.ladder order.side.opposite))
  rw [← fill_zero order] at hdone
  obtain ⟨result, hsubmit, hstatus, htrades, -⟩ := submitOrder_fillOrKill hforce hpriced
    (by rw [fill_zero]; exact hbook)
  refine ⟨result, b, hsubmit, ?_⟩
  rw [if_pos (hle.trans hnonneg), htrades hdone]
  exact ⟨hstatus.mpr hdone, (max_eq_left hle).symm⟩

/-- An order that can be filled in part takes what there is from the makers, and is then killed or reports it. -/
theorem not_atomic_of_fillableInPart {resting : List InternalOrder} (h : Represents b resting)
    (hpart : FillableInPart order b) : ¬ Atomic order b := by
  rintro ⟨result, b', hsubmit, hcase⟩
  have hpriced := hpart.priced
  obtain ⟨hpos, hlt⟩ := hpart
  have hfillable : fillable order b = available order (orders (b.ladder order.side.opposite)) := if_neg hpriced
  obtain ⟨filled, trades, b₁, rest, hmatched⟩ := h.exists_matched (hpos.trans hlt).le
  obtain ⟨result', hsubmit', -, -, hmarket, -⟩ := submitOrder_fillOrKill hforce
    (fun htype => Option.isSome_iff_ne_none.mpr fun hnone => hpriced ⟨htype, hnone⟩) hmatched.book
  rw [hsubmit] at hsubmit'
  obtain ⟨rfl, rfl⟩ := Prod.mk.inj (Option.some.inj hsubmit')
  rw [if_neg (not_le.mpr hlt)] at hcase
  obtain ⟨hnone, rfl⟩ := hcase
  have hleft := hmatched.remaining
  rw [remaining_fill, ← hfillable, max_eq_right (sub_nonneg.mpr hlt.le), sub_right_inj] at hleft
  have htraded : (trades.map MatchedTrade.quantity).sum = 0 := by
    cases htype : order.orderType with
    | Market => rw [← hmarket htype, hnone, List.map_nil, List.sum_nil]
    | Limit =>
      -- the makers are as before, so nothing was taken off them
      have hmakers := hmatched.makers fun _ => true
      exact left_eq_add.mp hmakers
  rw [← hmatched.sum, hleft] at htraded
  exact hpos.ne' htraded

/-- An order that cannot be filled in part only is done whole or not at all. -/
theorem atomic_of_not_fillableInPart {resting : List InternalOrder} (h : Represents b resting)
    (hwhole : ¬ FillableInPart order b) : Atomic order b := by
  by_cases hunpriced : order.orderType = .Limit ∧ order.price = none
  · exact atomic_of_unpriced hforce hunpriced
  have hfillable : fillable order b = available order (orders (b.ladder order.side.opposite)) := if_neg hunpriced
  have hpriced : order.orderType = .Limit → order.price.isSome = true := fun htype =>
    Option.isSome_iff_ne_none.mpr fun hnone => hunpriced ⟨htype, hnone⟩
  have hnonneg := @available_nonneg order _ (h.allOpen_ladder order.side.opposite)
  by_cases hdone : order.isFilled = true
  · exact atomic_of_filled hforce hpriced (hfillable ▸ hnonneg) hdone
  have hlacks : 0 < order.remaining := not_le.mp (mt (isFilled_iff order).mpr hdone)
  obtain ⟨filled, trades, b₁, rest, hmatched⟩ := h.exists_matched hlacks.le
  obtain ⟨result, hsubmit, hstatus, hfull, hmarket, hlimit⟩ :=
    submitOrder_fillOrKill hforce hpriced hmatched.book
  have hleft := hmatched.remaining
  rw [remaining_fill, ← hfillable] at hleft
  have hiff : (order.fill filled).isFilled = true ↔ order.remaining ≤ fillable order b := by
    rw [isFilled_iff, remaining_fill, hleft, max_le_iff, sub_nonpos]
    exact and_iff_right le_rfl
  refine ⟨result, b₁, hsubmit, ?_⟩
  by_cases hle : order.remaining ≤ fillable order b
  · have hfilled := hiff.mpr hle
    rw [max_eq_left (sub_nonpos.mpr hle), sub_eq_zero] at hleft
    rw [if_pos hle, hfull hfilled, ← hmatched.sum, max_eq_right hlacks.le]
    exact ⟨hstatus.mpr hfilled, hleft.symm⟩
  · have hzero : available order (orders (b.ladder order.side.opposite)) = 0 := by
      refine le_antisymm (not_lt.mp fun hpos => hwhole ⟨?_, not_le.mp hle⟩) hnonneg
      rw [hfillable]
      exact hpos
    have hbook := matchAgainstBook_of_beyond h
      (beyond_of_available_eq_zero (h.allOpen_ladder order.side.opposite) hzero)
    rw [hmatched.book] at hbook
    obtain ⟨-, htrades, hsame⟩ : order.fill filled = order ∧ trades = [] ∧ b₁ = b := by
      simpa only [Prod.mk.injEq] using hbook
    rw [if_neg hle]
    refine ⟨?_, hsame⟩
    cases htype : order.orderType with
    | Market => rw [hmarket htype, htrades]
    | Limit => exact hlimit htype (mt hiff.mp hle)

/-- A fill-or-kill order is done whole or not at all exactly if it cannot be filled in part only. -/
theorem fillOrKill_iff (h : Reachable b) : Atomic order b ↔ ¬ FillableInPart order b := by
  obtain ⟨resting, hrepresents⟩ := h.exists_represents
  exact ⟨fun hatomic hpart => not_atomic_of_fillableInPart hforce hrepresents hpart hatomic,
    atomic_of_not_fillableInPart hforce hrepresents⟩

end

/-- Fifty are offered. -/
def offered : OrderBook := book.final [.submit Sample.offer] .new

theorem reachable_offered : Reachable offered := by
  refine ⟨_, fun order hmem => ?_, by decide, rfl⟩
  rw [Op.submit.inj (List.mem_singleton.mp hmem)]
  exact Sample.valid_offer.filled_eq.ge

/-- Who wants fifty or nothing gets fifty. -/
theorem fillOrKill_iff_fifty : Atomic { Sample.wanted .FOK with quantity := 50 } offered :=
  (fillOrKill_iff rfl reachable_offered).mpr (by decide +kernel)

/-- Who wants a hundred or nothing gets nothing, and the fifty are gone. -/
theorem killed_order_not_atomic : Reachable offered ∧ (Sample.wanted .FOK).timeInForce = .FOK ∧
    ((offered.submitOrder (Sample.wanted .FOK)).map fun outcome =>
      (offered.asks, outcome.1.trades, outcome.2.asks)) = some ([(3 / 2, [Sample.offer])], [], []) ∧
    ¬ Atomic (Sample.wanted .FOK) offered := by
  obtain ⟨resting, hrepresents⟩ := reachable_offered.exists_represents
  exact ⟨reachable_offered, rfl, by decide +kernel,
    not_atomic_of_fillableInPart rfl hrepresents (by decide +kernel)⟩

end Coinjecture.ApiServer.Matching.FillOrKill
