import Coinjecture.ApiServer.Matching.Representation

/-! # The book in decimals of 96 bits

The decimals of the book are those of a crate: their sums and differences are rounded, and panic where they are
too large. Here the loops of the book are written again with these, `none` where a panic ends the engine.

* `submitOrder_exact` : with sums that are exact and never too large this is the book as it was.
* `submitOrder_returns`, `depth_returns` : what it takes that there is no panic. -/

namespace Coinjecture.ApiServer.Matching.Overflow

open ApiServer.Matching.Book ApiServer.Matching.Ladders
open ApiServer.Matching.Representation

/-- `Decimal::MAX`. -/
def MAX : Decimal := 79228162514264337593543950335

/-- What the book takes from `rust_decimal`. `none` is a panic. -/
structure DecimalCrate where
  /-- `str::parse`. -/
  parse : String → Option Decimal
  add : Decimal → Decimal → Option Decimal
  sub : Decimal → Decimal → Option Decimal

/-- A sum or a difference that is not too large is there, rounded by at most one half: a decimal has at least its
whole part. -/
structure DecimalCrate.Lawful (d : DecimalCrate) : Prop where
  parse_le : ∀ text x, d.parse text = some x → x ≤ MAX
  add_ok : ∀ x y, 0 ≤ x → 0 ≤ y → x + y ≤ MAX →
    ∃ z, d.add x y = some z ∧ 0 ≤ z ∧ z ≤ MAX ∧ z ≤ x + y + 1 / 2
  sub_ok : ∀ x y, 0 ≤ x → x ≤ MAX → 0 ≤ y → y ≤ MAX →
    ∃ z, d.sub x y = some z ∧ (y ≤ x → 0 ≤ z) ∧ z ≤ x - y + 1 / 2

/-- Decimals of any size. -/
def exact (parse : String → Option Decimal) : DecimalCrate :=
  ⟨parse, fun x y => some (x + y), fun x y => some (x - y)⟩

/-! ### The loops -/

variable (d : DecimalCrate)

def remaining (o : InternalOrder) : Option Decimal := d.sub o.quantity o.filledQuantity

def withFilled (filledQuantity : Decimal) (o : InternalOrder) : InternalOrder := { o with filledQuantity }

def fill (quantity : Decimal) (o : InternalOrder) : Option InternalOrder :=
  (d.add o.filledQuantity quantity).map fun filledQuantity => withFilled filledQuantity o

/-- The loop over the orders of a level. -/
def fillOrders (price : Decimal) : InternalOrder → List InternalOrder → Option (Pass InternalOrder)
  | order, [] => some ⟨order, [], [], []⟩
  | order, resting :: orders =>
    if order.isFilled then some ⟨order, resting :: orders, [], []⟩
    else do
      let quantity := min (← remaining d order) (← remaining d resting)
      let filledOrder ← fill d quantity order
      let after ← fill d quantity resting
      let pass ← fillOrders price filledOrder orders
      return { order := pass.order
               rest := if after.isFilled then pass.rest else after :: pass.rest
               trades := tradeOf order resting price quantity :: pass.trades
               filled := if after.isFilled then resting.id :: pass.filled else pass.filled }

/-- The loop over the levels. -/
def matchLevels : InternalOrder → Ladder → Option (Pass Level)
  | order, [] => some ⟨order, [], [], []⟩
  | order, (price, orders) :: levels =>
    if order.isFilled then some ⟨order, (price, orders) :: levels, [], []⟩
    else if order.canMatch price then do
      let level ← fillOrders d price order orders
      let pass ← matchLevels level.order levels
      return { order := pass.order
               rest := if level.rest = [] then pass.rest else (price, level.rest) :: pass.rest
               trades := level.trades ++ pass.trades
               filled := level.filled ++ pass.filled }
    else some ⟨order, (price, orders) :: levels, [], []⟩

def matchAgainstBook (order : InternalOrder) (b : OrderBook) :
    Option (InternalOrder × List MatchedTrade × OrderBook) := do
  let pass ← matchLevels d order (b.ladder order.side.opposite)
  return (pass.order, pass.trades, { b.withLadder order.side.opposite pass.rest with
    orderIndex := fun id => if pass.filled.contains id then none else b.orderIndex id })

/-- What becomes of a limit order after the matching. -/
def concludeLimit (order : InternalOrder) (trades : List MatchedTrade) (b : OrderBook) :
    Option (MatchResult × OrderBook) :=
  if order.isFilled then some (⟨order.id, .Filled, trades, 0⟩, b)
  else match order.timeInForce with
    | .FOK => some (⟨order.id, .Cancelled, [], order.quantity⟩, b)
    | .IOC => (remaining d order).map fun remaining =>
      (⟨order.id, if trades = [] then .Cancelled else .PartiallyFilled, trades, remaining⟩, b)
    | .GTC => (remaining d order).bind fun remaining => order.price.map fun price =>
      (⟨order.id, if trades = [] then .Resting else .PartiallyFilled, trades, remaining⟩,
        b.insertRestingOrder order price)

/-- `submit_order`. -/
def submitOrder (order : InternalOrder) (b : OrderBook) : Option (MatchResult × OrderBook) :=
  match order.orderType with
  | .Market => (matchAgainstBook d order b).bind fun (order, trades, b) =>
    (remaining d order).map fun remaining =>
      (⟨order.id, if order.isFilled then .Filled else .Cancelled, trades, remaining⟩, b)
  | .Limit =>
    (if order.price.isSome then matchAgainstBook d order b else some (order, [], b)).bind
      fun (order, trades, b) => concludeLimit d order trades b

structure DepthLevel where
  price : Decimal
  quantity : Decimal
  orderCount : ℕ
  deriving DecidableEq

/-- The sum of what is open, from this on. -/
def sumRemaining : Decimal → List InternalOrder → Option Decimal
  | sum, [] => some sum
  | sum, o :: orders => do
    let sum ← d.add sum (← remaining d o)
    sumRemaining sum orders

def depthLevel (level : Level) : Option DepthLevel :=
  (sumRemaining d 0 level.2).map fun quantity => ⟨level.1, quantity, level.2.length⟩

/-- `depth`: the bids and the asks. -/
def depth (maxLevels : ℕ) (b : OrderBook) : Option (List DepthLevel × List DepthLevel) := do
  let bids ← (b.bids.take maxLevels).mapM (depthLevel d)
  let asks ← (b.asks.take maxLevels).mapM (depthLevel d)
  return (bids, asks)

/-! ### Exact sums -/

section Exact

variable (parse : String → Option Decimal)

@[simp] theorem remaining_exact (o : InternalOrder) : remaining (exact parse) o = some o.remaining := rfl

@[simp] theorem fill_exact (q : Decimal) (o : InternalOrder) : fill (exact parse) q o = some (o.fill q) := rfl

@[simp] theorem fillOrders_exact (price : Decimal) (order : InternalOrder) (makers : List InternalOrder) :
    fillOrders (exact parse) price order makers = some (Book.fillOrders price order makers) := by
  induction makers generalizing order with
  | nil => rfl
  | cons maker makers ih =>
    rw [fillOrders, Book.fillOrders]
    split_ifs
    · rfl
    · simp only [remaining_exact, fill_exact, ih, Option.bind_eq_bind, Option.bind_some, Option.pure_def]

@[simp] theorem matchLevels_exact (order : InternalOrder) (ladder : Ladder) :
    matchLevels (exact parse) order ladder = some (Book.matchLevels order ladder) := by
  induction ladder generalizing order with
  | nil => rfl
  | cons level levels ih =>
    obtain ⟨price, makers⟩ := level
    rw [matchLevels, Book.matchLevels]
    split_ifs
    · rfl
    · simp only [fillOrders_exact, ih, Option.bind_eq_bind, Option.bind_some, Option.pure_def]
    · rfl

@[simp] theorem matchAgainstBook_exact (order : InternalOrder) (b : OrderBook) :
    matchAgainstBook (exact parse) order b = some (b.matchAgainstBook order) := by
  rw [matchAgainstBook, matchLevels_exact]
  simp only [List.contains_iff_mem, Option.bind_eq_bind, Option.bind_some]
  rfl

/-- With exact sums the book is the one of exact decimals. -/
theorem submitOrder_exact (order : InternalOrder) (b : OrderBook) :
    submitOrder (exact parse) order b = b.submitOrder order := by
  unfold submitOrder OrderBook.submitOrder
  cases order.orderType with
  | Market => simp only [matchAgainstBook_exact, remaining_exact, Option.bind_some, Option.map_some]
  | Limit =>
    have hmatched : (if order.price.isSome then matchAgainstBook (exact parse) order b else some (order, [], b)) =
        some (if order.price.isSome then b.matchAgainstBook order else (order, [], b)) := by
      split_ifs
      · exact matchAgainstBook_exact ..
      · rfl
    simp only [hmatched, Option.bind_some]
    generalize (if order.price.isSome then b.matchAgainstBook order else (order, [], b)) = matched
    obtain ⟨after, trades, b'⟩ := matched
    simp only [concludeLimit]
    by_cases hfilled : after.isFilled = true
    · rw [if_pos hfilled, if_pos hfilled]
    · rw [if_neg hfilled, if_neg hfilled]
      cases after.timeInForce with
      | FOK => rfl
      | IOC => rfl
      | GTC =>
        cases after.price with
        | none => rfl
        | some price => rfl

theorem sumRemaining_exact (sum : Decimal) (makers : List InternalOrder) :
    sumRemaining (exact parse) sum makers = some (sum + (makers.map InternalOrder.remaining).sum) := by
  induction makers generalizing sum with
  | nil => rw [sumRemaining, List.map_nil, List.sum_nil, add_zero]
  | cons maker makers ih =>
    rw [List.map_cons, List.sum_cons, ← add_assoc, ← ih]
    rfl

/-- Each level with the sum of what is open at it. -/
def exactLevels (ladder : Ladder) : List DepthLevel :=
  ladder.map fun level => ⟨level.1, (level.2.map InternalOrder.remaining).sum, level.2.length⟩

theorem depth_exact (maxLevels : ℕ) (b : OrderBook) : depth (exact parse) maxLevels b =
    some (exactLevels (b.bids.take maxLevels), exactLevels (b.asks.take maxLevels)) := by
  have hlevel : depthLevel (exact parse) = fun level : Level =>
      pure ⟨level.1, (level.2.map InternalOrder.remaining).sum, level.2.length⟩ := by
    funext level
    rw [depthLevel, sumRemaining_exact, zero_add]
    rfl
  rw [depth, hlevel, List.mapM_pure, List.mapM_pure]
  rfl

end Exact

/-! ### No panic -/

/-- The order wants less than the largest decimal, and was filled with no more than that. -/
structure Bounded (o : InternalOrder) : Prop where
  filled_nonneg : 0 ≤ o.filledQuantity
  filled_le : o.filledQuantity ≤ MAX
  quantity_nonneg : 0 ≤ o.quantity
  quantity_le : o.quantity + 1 / 2 ≤ MAX

/-- … and it is not filled. -/
structure Open (o : InternalOrder) : Prop extends Bounded o where
  unfilled : ¬ o.isFilled = true

/-- All orders of the book are so. -/
def AllSidesOpen (b : OrderBook) : Prop := ∀ side, ∀ o ∈ orders (b.ladder side), Open o

section Returns

variable {d} (hd : d.Lawful)

include hd

theorem remaining_returns {o : InternalOrder} (h : Bounded o) : ∃ r, remaining d o = some r ∧
    (¬ o.isFilled = true → 0 ≤ r) ∧ r ≤ o.quantity - o.filledQuantity + 1 / 2 := by
  have hle : o.quantity ≤ MAX := by linarith [h.quantity_le]
  obtain ⟨r, hsub, hnonneg, hr⟩ := hd.sub_ok _ _ h.quantity_nonneg hle h.filled_nonneg h.filled_le
  refine ⟨r, hsub, fun hopen => hnonneg ?_, hr⟩
  exact (not_le.mp (mt decide_eq_true hopen)).le

/-- Filled with no more than it lacks. -/
theorem fill_returns {o : InternalOrder} (h : Bounded o) {q r : Decimal} (hq : 0 ≤ q) (hqr : q ≤ r)
    (hr : r ≤ o.quantity - o.filledQuantity + 1 / 2) :
    ∃ z, fill d q o = some (withFilled z o) ∧ Bounded (withFilled z o) := by
  have hsum : o.filledQuantity + q ≤ MAX := by linarith [h.quantity_le]
  obtain ⟨z, hadd, hnonneg, hle, -⟩ := hd.add_ok _ _ h.filled_nonneg hq hsum
  exact ⟨z, by rw [fill, hadd, Option.map_some], hnonneg, hle, h.quantity_nonneg, h.quantity_le⟩

theorem fillOrders_returns (price : Decimal) {order : InternalOrder} (horder : Bounded order)
    {makers : List InternalOrder} (hmakers : ∀ o ∈ makers, Open o) :
    ∃ pass z, fillOrders d price order makers = some pass ∧ pass.order = withFilled z order ∧
      Bounded pass.order ∧ ∀ o ∈ pass.rest, Open o := by
  induction makers generalizing order with
  | nil => exact ⟨_, order.filledQuantity, rfl, rfl, horder, hmakers⟩
  | cons maker makers ih =>
    obtain ⟨hmaker, hrest⟩ := List.forall_mem_cons.mp hmakers
    by_cases hfilled : order.isFilled = true
    · exact ⟨_, order.filledQuantity, by rw [fillOrders, if_pos hfilled], rfl, horder, hmakers⟩
    · obtain ⟨r, hr, hnonneg, hle⟩ := remaining_returns hd horder
      obtain ⟨r', hr', hnonneg', hle'⟩ := remaining_returns hd hmaker.toBounded
      have hq : 0 ≤ min r r' := le_min (hnonneg hfilled) (hnonneg' hmaker.unfilled)
      obtain ⟨z, hfill, hbounded⟩ := fill_returns hd horder hq (min_le_left _ _) hle
      obtain ⟨z', hfill', hbounded'⟩ := fill_returns hd hmaker.toBounded hq (min_le_right _ _) hle'
      obtain ⟨pass, w, hpass, hsame, hlast, hopen⟩ := ih hbounded hrest
      have hrun : fillOrders d price order (maker :: makers) = some
          { order := pass.order
            rest := if (withFilled z' maker).isFilled then pass.rest else withFilled z' maker :: pass.rest
            trades := tradeOf order maker price (min r r') :: pass.trades
            filled := if (withFilled z' maker).isFilled then maker.id :: pass.filled else pass.filled } := by
        rw [fillOrders, if_neg hfilled]
        simp only [hr, hr', hfill, hfill', hpass, Option.bind_eq_bind, Option.bind_some, Option.pure_def]
      refine ⟨_, w, hrun, hsame, hlast, ?_⟩
      · simp only
        split_ifs with hdone
        · exact hopen
        · exact List.forall_mem_cons.mpr ⟨⟨hbounded', hdone⟩, hopen⟩

theorem matchLevels_returns {order : InternalOrder} (horder : Bounded order) {ladder : Ladder}
    (hladder : ∀ o ∈ orders ladder, Open o) :
    ∃ pass z, matchLevels d order ladder = some pass ∧ pass.order = withFilled z order ∧
      Bounded pass.order ∧ ∀ o ∈ orders pass.rest, Open o := by
  induction ladder generalizing order with
  | nil => exact ⟨_, order.filledQuantity, rfl, rfl, horder, hladder⟩
  | cons level levels ih =>
    obtain ⟨price, makers⟩ := level
    obtain ⟨hmakers, hlevels⟩ := List.forall_mem_append.mp hladder
    by_cases hfilled : order.isFilled = true
    · exact ⟨_, order.filledQuantity, by rw [matchLevels, if_pos hfilled], rfl, horder, hladder⟩
    · by_cases hcan : order.canMatch price = true
      · obtain ⟨level, z, hlevel, hsame, hbounded, hopen⟩ := fillOrders_returns hd price horder hmakers
        obtain ⟨pass, w, hpass, hlast, hbounded', hopen'⟩ := ih hbounded hlevels
        have hrun : matchLevels d order ((price, makers) :: levels) = some
            { order := pass.order
              rest := if level.rest = [] then pass.rest else (price, level.rest) :: pass.rest
              trades := level.trades ++ pass.trades
              filled := level.filled ++ pass.filled } := by
          rw [matchLevels, if_neg hfilled, if_pos hcan]
          simp only [hlevel, hpass, Option.bind_eq_bind, Option.bind_some, Option.pure_def]
        refine ⟨_, w, hrun, hlast.trans (by rw [hsame]; rfl), hbounded', ?_⟩
        · simp only
          split_ifs
          · exact hopen'
          · exact List.forall_mem_append.mpr ⟨hopen, hopen'⟩
      · have hrun : matchLevels d order ((price, makers) :: levels) =
            some ⟨order, (price, makers) :: levels, [], []⟩ := by
          rw [matchLevels, if_neg hfilled, if_neg hcan]
        exact ⟨_, order.filledQuantity, hrun, rfl, horder, hladder⟩

theorem matchAgainstBook_returns {order : InternalOrder} (horder : Bounded order) {b : OrderBook}
    (hb : AllSidesOpen b) : ∃ z trades b', matchAgainstBook d order b =
      some (withFilled z order, trades, b') ∧
        Bounded (withFilled z order) ∧ AllSidesOpen b' := by
  obtain ⟨pass, z, hpass, hsame, hbounded, hopen⟩ := matchLevels_returns hd horder (hb order.side.opposite)
  have hrun : matchAgainstBook d order b = some (pass.order, pass.trades,
      { b.withLadder order.side.opposite pass.rest with
        orderIndex := fun id => if pass.filled.contains id then none else b.orderIndex id }) := by
    rw [matchAgainstBook, hpass]
    rfl
  rw [hsame] at hrun hbounded
  refine ⟨z, pass.trades, _, hrun, hbounded, fun side o ho => ?_⟩
  · change o ∈ orders ((b.withLadder order.side.opposite _).ladder side) at ho
    by_cases hside : side = order.side.opposite
    · rw [hside, PriceTime.ladder_withLadder] at ho
      exact hopen o ho
    · rw [PriceTime.ladder_withLadder_of_ne hside] at ho
      exact hb side o ho

theorem concludeLimit_returns {order : InternalOrder} (horder : Bounded order) {b : OrderBook}
    (hb : AllSidesOpen b) (hpriced : order.timeInForce = .GTC → order.price.isSome = true)
    (trades : List MatchedTrade) :
    ∃ result b', concludeLimit d order trades b = some (result, b') ∧ AllSidesOpen b' := by
  obtain ⟨r, hr, -, -⟩ := remaining_returns hd horder
  by_cases hfilled : order.isFilled = true
  · exact ⟨_, b, by rw [concludeLimit, if_pos hfilled], hb⟩
  · rw [concludeLimit, if_neg hfilled]
    cases hforce : order.timeInForce with
    | FOK => exact ⟨_, b, rfl, hb⟩
    | IOC =>
      simp only [hr, Option.map_some]
      exact ⟨_, b, rfl, hb⟩
    | GTC =>
      obtain ⟨price, hprice⟩ := Option.isSome_iff_exists.mp (hpriced hforce)
      simp only [hr, hprice, Option.map_some, Option.bind_some]
      refine ⟨_, _, rfl, fun side o ho => ?_⟩
      change o ∈ orders ((b.withLadder order.side _).ladder side) at ho
      by_cases hside : side = order.side
      · rw [hside, PriceTime.ladder_withLadder] at ho
        rcases List.mem_cons.mp ((orders_pushOrder_perm ..).subset ho) with rfl | ho
        · exact ⟨horder, hfilled⟩
        · exact hb _ o ho
      · rw [PriceTime.ladder_withLadder_of_ne hside] at ho
        exact hb side o ho

/-- A submission returns, unless a limit order without a price is to rest. -/
theorem submitOrder_returns {order : InternalOrder} (horder : Bounded order) {b : OrderBook}
    (hb : AllSidesOpen b)
    (hpriced : order.orderType = .Limit → order.timeInForce = .GTC → order.price.isSome = true) :
    ∃ result b', submitOrder d order b = some (result, b') ∧ AllSidesOpen b' := by
  obtain ⟨z, trades, b', hmatched, hbounded, hopen⟩ := matchAgainstBook_returns hd horder hb
  unfold submitOrder
  cases htype : order.orderType with
  | Market =>
    obtain ⟨r, hr, -, -⟩ := remaining_returns hd hbounded
    simp only [hmatched, Option.bind_some, hr, Option.map_some]
    exact ⟨_, b', rfl, hopen⟩
  | Limit =>
    simp only
    by_cases hprice : order.price.isSome = true
    · rw [if_pos hprice, hmatched, Option.bind_some]
      exact concludeLimit_returns hd hbounded hopen (fun _ => hprice) trades
    · rw [if_neg hprice, Option.bind_some]
      exact concludeLimit_returns hd horder hb (hpriced htype) []

/-- What is open of a level adds up, with one half for the rounding of each difference and of each sum. -/
theorem sumRemaining_returns {makers : List InternalOrder} (hmakers : ∀ o ∈ makers, Open o) {sum : Decimal}
    (hsum : 0 ≤ sum) (hfits : sum + (makers.map InternalOrder.remaining).sum + makers.length ≤ MAX) :
    ∃ total, sumRemaining d sum makers = some total := by
  induction makers generalizing sum with
  | nil => exact ⟨sum, rfl⟩
  | cons maker makers ih =>
    obtain ⟨hmaker, hrest⟩ := List.forall_mem_cons.mp hmakers
    obtain ⟨r, hr, hnonneg, hle⟩ := remaining_returns hd hmaker.toBounded
    have hpos := hnonneg hmaker.unfilled
    have hothers : 0 ≤ (makers.map InternalOrder.remaining).sum := by
      refine List.sum_nonneg fun x hx => ?_
      obtain ⟨o, ho, rfl⟩ := List.mem_map.mp hx
      have hopen := not_le.mp (mt decide_eq_true (hrest o ho).unfilled)
      rw [InternalOrder.remaining]
      linarith
    rw [List.map_cons, List.sum_cons, List.length_cons, Nat.cast_add, Nat.cast_one, InternalOrder.remaining] at hfits
    have hlength : (0 : ℚ) ≤ makers.length := Nat.cast_nonneg _
    obtain ⟨z, hadd, hz, -, hzle⟩ := hd.add_ok sum r hsum hpos (by linarith)
    obtain ⟨total, htotal⟩ := ih hrest hz (by linarith)
    refine ⟨total, ?_⟩
    simp only [sumRemaining, hr, hadd, Option.bind_eq_bind, Option.bind_some]
    exact htotal

/-- What is open at each of the levels shown, and one for each order, is not too much. -/
def DepthFits (maxLevels : ℕ) (b : OrderBook) : Prop := ∀ side, ∀ level ∈ (b.ladder side).take maxLevels,
  (level.2.map InternalOrder.remaining).sum + level.2.length ≤ MAX

instance (maxLevels : ℕ) (b : OrderBook) : Decidable (DepthFits maxLevels b) :=
  decidable_of_iff ((∀ level ∈ b.bids.take maxLevels, (level.2.map InternalOrder.remaining).sum + level.2.length ≤ MAX) ∧
      ∀ level ∈ b.asks.take maxLevels, (level.2.map InternalOrder.remaining).sum + level.2.length ≤ MAX)
    ⟨fun h side => match side with
      | .Buy => h.1
      | .Sell => h.2, fun h => ⟨h .Buy, h .Sell⟩⟩

theorem depthLevels_return {ladder : Ladder} (hopen : ∀ o ∈ orders ladder, Open o)
    (hfits : ∀ level ∈ ladder, (level.2.map InternalOrder.remaining).sum + level.2.length ≤ MAX) :
    ∃ levels, ladder.mapM (depthLevel d) = some levels := by
  induction ladder with
  | nil => exact ⟨[], rfl⟩
  | cons level ladder ih =>
    obtain ⟨hlevel, hrest⟩ := List.forall_mem_append.mp hopen
    obtain ⟨hfit, hfits⟩ := List.forall_mem_cons.mp hfits
    obtain ⟨total, htotal⟩ := sumRemaining_returns hd hlevel le_rfl (by rw [zero_add]; exact hfit)
    obtain ⟨levels, hlevels⟩ := ih hrest hfits
    refine ⟨⟨level.1, total, level.2.length⟩ :: levels, ?_⟩
    rw [List.mapM_cons, depthLevel, htotal, hlevels]
    rfl

theorem depth_returns {b : OrderBook} (hb : AllSidesOpen b) {maxLevels : ℕ} (hfits : DepthFits maxLevels b) :
    ∃ levels, depth d maxLevels b = some levels := by
  have hshown : ∀ side, ∀ o ∈ orders ((b.ladder side).take maxLevels), Open o := by
    intro side o ho
    obtain ⟨level, hlevel, hin⟩ := List.mem_flatMap.mp ho
    exact hb side o (List.mem_flatMap.mpr ⟨level, List.mem_of_mem_take hlevel, hin⟩)
  obtain ⟨bids, hbids⟩ := depthLevels_return hd (hshown .Buy) (hfits .Buy)
  obtain ⟨asks, hasks⟩ := depthLevels_return hd (hshown .Sell) (hfits .Sell)
  have hbids : (b.bids.take maxLevels).mapM (depthLevel d) = some bids := hbids
  have hasks : (b.asks.take maxLevels).mapM (depthLevel d) = some asks := hasks
  exact ⟨(bids, asks), by rw [depth, hbids, hasks]; rfl⟩

end Returns

/-- A cancel leaves nothing that was not there. -/
theorem mem_of_mem_takeOrder {price : Decimal} {orderId : OrderId} {ladder : Ladder} {o : InternalOrder}
    (h : o ∈ orders (takeOrder price orderId ladder).2) : o ∈ orders ladder := by
  induction ladder with
  | nil => exact h
  | cons level levels ih =>
    obtain ⟨p, makers⟩ := level
    simp only [takeOrder] at h
    by_cases hp : price = p
    · rw [if_pos hp] at h
      cases hfind : makers.find? fun o => o.id = orderId with
      | none =>
        rw [hfind] at h
        exact h
      | some removed =>
        rw [hfind] at h
        by_cases hempty : makers.eraseP (fun o => o.id = orderId) = []
        · simp only [if_pos hempty] at h
          exact List.mem_append_right _ h
        · simp only [if_neg hempty] at h
          rcases List.mem_append.mp h with h | h
          · exact List.mem_append_left _ (List.mem_of_mem_eraseP h)
          · exact List.mem_append_right _ h
    · rw [if_neg hp] at h
      rcases List.mem_append.mp h with h | h
      · exact List.mem_append_left _ h
      · exact List.mem_append_right _ (ih h)

theorem allSidesOpen_cancelOrder {b : OrderBook} (hb : AllSidesOpen b) (orderId : OrderId) :
    AllSidesOpen (b.cancelOrder orderId).2 := by
  unfold OrderBook.cancelOrder
  cases b.orderIndex orderId with
  | none => exact hb
  | some found =>
    obtain ⟨side, price⟩ := found
    intro side' o ho
    change o ∈ orders ((b.withLadder side _).ladder side') at ho
    by_cases hside : side' = side
    · rw [hside, PriceTime.ladder_withLadder] at ho
      exact hb side o (mem_of_mem_takeOrder ho)
    · rw [PriceTime.ladder_withLadder_of_ne hside] at ho
      exact hb side' o ho

theorem allSidesOpen_new : AllSidesOpen .new := by
  intro side o ho
  cases side with
  | Buy => exact absurd ho List.not_mem_nil
  | Sell => exact absurd ho List.not_mem_nil

end Coinjecture.ApiServer.Matching.Overflow
