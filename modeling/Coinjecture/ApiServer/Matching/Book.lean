import Mathlib.Algebra.Order.Ring.Rat
import Mathlib.Logic.Function.Basic
import Mathlib.Tactic.Linarith

/-! # The order book of a pair

One ladder of price levels for each side, the best price first, and in a level the orders in the order
they came to rest. An order that is submitted goes through the levels of the other side; what is left of
a limit order comes to rest, is dropped or undoes its trades, as its time in force says. Amounts and
prices are exact decimals. -/

namespace Coinjecture.ApiServer.Matching.Book

/-- A `Uuid`. -/
abbrev OrderId := BitVec 128

abbrev Decimal := ℚ

inductive Side where
  | Buy | Sell
  deriving DecidableEq

inductive OrderType where
  | Limit | Market
  deriving DecidableEq

inductive TimeInForce where
  | GTC | IOC | FOK
  deriving DecidableEq

structure InternalOrder where
  id : OrderId
  walletAddress : String
  pairId : String
  side : Side
  orderType : OrderType
  price : Option Decimal
  quantity : Decimal
  filledQuantity : Decimal
  timeInForce : TimeInForce
  deriving DecidableEq

namespace InternalOrder

def remaining (o : InternalOrder) : Decimal := o.quantity - o.filledQuantity

def isFilled (o : InternalOrder) : Bool := o.quantity ≤ o.filledQuantity

def fill (quantity : Decimal) (o : InternalOrder) : InternalOrder :=
  { o with filledQuantity := o.filledQuantity + quantity }

/-- The price check: the level is within the limit, if the order has one. -/
def canMatch (price : Decimal) (o : InternalOrder) : Bool :=
  match o.price, o.side with
  | none, _ => true
  | some limitPrice, .Buy => price ≤ limitPrice
  | some limitPrice, .Sell => limitPrice ≤ price

end InternalOrder

structure MatchedTrade where
  pairId : String
  buyOrderId : OrderId
  sellOrderId : OrderId
  buyerWallet : String
  sellerWallet : String
  price : Decimal
  quantity : Decimal
  deriving DecidableEq

inductive MatchStatus where
  | Resting | PartiallyFilled | Filled | Cancelled
  deriving DecidableEq

structure MatchResult where
  orderId : OrderId
  status : MatchStatus
  trades : List MatchedTrade
  remainingQuantity : Decimal
  deriving DecidableEq

namespace Side

def opposite : Side → Side
  | .Buy => .Sell
  | .Sell => .Buy

/-- The order of the levels of a side: the first price comes before the second. -/
def before : Side → Decimal → Decimal → Bool
  | .Buy, p, q => q < p
  | .Sell, p, q => p < q

end Side

/-- A price and the orders that rest at it. -/
abbrev Level := Decimal × List InternalOrder

/-- The entries of a `BTreeMap` of levels. -/
abbrev Ladder := List Level

/-! ### Matching -/

/-- What a pass of an order over resting orders, or over levels, leaves: the order, what is left of them,
the trades, and the ids of the orders that were filled. -/
structure Pass (α : Type) where
  order : InternalOrder
  rest : List α
  trades : List MatchedTrade
  filled : List OrderId

def tradeOf (order resting : InternalOrder) (price quantity : Decimal) : MatchedTrade :=
  match order.side with
  | .Buy => ⟨order.pairId, order.id, resting.id, order.walletAddress, resting.walletAddress, price,
      quantity⟩
  | .Sell => ⟨order.pairId, resting.id, order.id, resting.walletAddress, order.walletAddress, price,
      quantity⟩

/-- The loop over the orders of a level. -/
def fillOrders (price : Decimal) : InternalOrder → List InternalOrder → Pass InternalOrder
  | order, [] => ⟨order, [], [], []⟩
  | order, resting :: orders =>
    if order.isFilled then ⟨order, resting :: orders, [], []⟩
    else
      let quantity := min order.remaining resting.remaining
      let after := resting.fill quantity
      let pass := fillOrders price (order.fill quantity) orders
      { order := pass.order
        rest := if after.isFilled then pass.rest else after :: pass.rest
        trades := tradeOf order resting price quantity :: pass.trades
        filled := if after.isFilled then resting.id :: pass.filled else pass.filled }

/-- The loop over the levels. Levels that are empty after it go. -/
def matchLevels : InternalOrder → Ladder → Pass Level
  | order, [] => ⟨order, [], [], []⟩
  | order, (price, orders) :: levels =>
    if order.isFilled then ⟨order, (price, orders) :: levels, [], []⟩
    else if order.canMatch price then
      let level := fillOrders price order orders
      let pass := matchLevels level.order levels
      { order := pass.order
        rest := if level.rest = [] then pass.rest else (price, level.rest) :: pass.rest
        trades := level.trades ++ pass.trades
        filled := level.filled ++ pass.filled }
    else ⟨order, (price, orders) :: levels, [], []⟩

/-! ### The book -/

structure OrderBook where
  bids : Ladder
  asks : Ladder
  orderIndex : OrderId → Option (Side × Decimal)

/-- The order is added at the end of its level. -/
def pushOrder (side : Side) (price : Decimal) (order : InternalOrder) : Ladder → Ladder
  | [] => [(price, [order])]
  | (p, orders) :: levels =>
    if price = p then (p, orders ++ [order]) :: levels
    else if side.before price p then (price, [order]) :: (p, orders) :: levels
    else (p, orders) :: pushOrder side price order levels

/-- The order is taken out of its level. -/
def takeOrder (price : Decimal) (orderId : OrderId) : Ladder → Option InternalOrder × Ladder
  | [] => (none, [])
  | (p, orders) :: levels =>
    if price = p then
      match orders.find? fun o => o.id = orderId with
      | none => (none, (p, orders) :: levels)
      | some removed =>
        let rest := orders.eraseP fun o => o.id = orderId
        (some removed, if rest = [] then levels else (p, rest) :: levels)
    else
      let (removed, rest) := takeOrder price orderId levels
      (removed, (p, orders) :: rest)

namespace OrderBook

def new : OrderBook := ⟨[], [], fun _ => none⟩

def ladder (b : OrderBook) : Side → Ladder
  | .Buy => b.bids
  | .Sell => b.asks

def withLadder (side : Side) (ladder : Ladder) (b : OrderBook) : OrderBook :=
  match side with
  | .Buy => { b with bids := ladder }
  | .Sell => { b with asks := ladder }

def matchAgainstBook (order : InternalOrder) (b : OrderBook) :
    InternalOrder × List MatchedTrade × OrderBook :=
  let pass := matchLevels order (b.ladder order.side.opposite)
  (pass.order, pass.trades, { b.withLadder order.side.opposite pass.rest with
    orderIndex := fun id => if id ∈ pass.filled then none else b.orderIndex id })

/-- `insert_resting_order`, at this price. -/
def insertRestingOrder (order : InternalOrder) (price : Decimal) (b : OrderBook) : OrderBook :=
  { b.withLadder order.side (pushOrder order.side price order (b.ladder order.side)) with
    orderIndex := Function.update b.orderIndex order.id (some (order.side, price)) }

/-- `submit_order`. A limit order without a price that comes to rest panics. -/
def submitOrder (order : InternalOrder) (b : OrderBook) : Option (MatchResult × OrderBook) :=
  match order.orderType with
  | .Market =>
    let (order, trades, b) := b.matchAgainstBook order
    some (⟨order.id, if order.isFilled then .Filled else .Cancelled, trades, order.remaining⟩, b)
  | .Limit =>
    let (order, trades, b) :=
      if order.price.isSome then b.matchAgainstBook order else (order, [], b)
    if order.isFilled then some (⟨order.id, .Filled, trades, 0⟩, b)
    else match order.timeInForce with
      | .FOK => some (⟨order.id, .Cancelled, [], order.quantity⟩, b)
      | .IOC =>
        some (⟨order.id, if trades = [] then .Cancelled else .PartiallyFilled, trades,
          order.remaining⟩, b)
      | .GTC =>
        match order.price with
        | some price =>
          some (⟨order.id, if trades = [] then .Resting else .PartiallyFilled, trades,
            order.remaining⟩, b.insertRestingOrder order price)
        | none => none

/-- `cancel_order`. -/
def cancelOrder (orderId : OrderId) (b : OrderBook) : Option InternalOrder × OrderBook :=
  match b.orderIndex orderId with
  | none => (none, b)
  | some (side, price) =>
    let (removed, rest) := takeOrder price orderId (b.ladder side)
    (removed, { b.withLadder side rest with
      orderIndex := Function.update b.orderIndex orderId none })

def bestBid (b : OrderBook) : Option Decimal := b.bids.head?.map Prod.fst

def bestAsk (b : OrderBook) : Option Decimal := b.asks.head?.map Prod.fst

end OrderBook

end Coinjecture.ApiServer.Matching.Book
