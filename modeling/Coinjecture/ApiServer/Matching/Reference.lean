import Coinjecture.ApiServer.Matching.Book
import Coinjecture.Lib.Selection

/-! # The reference matcher

The orders that rest are one list, in the order they came to rest. An order is filled against the best of
those on the other side that its limit admits, the oldest among equals, at that order's price, until it
is filled or none is left. -/

namespace Coinjecture.ApiServer.Matching.Reference

open Lib.Selection
open ApiServer.Matching.Book

/-- The price of an order that rests. -/
abbrev limit (o : InternalOrder) : Decimal := o.price.getD 0

/-- The order can be filled against this one. -/
def compatible (order maker : InternalOrder) : Bool :=
  decide (maker.side = order.side.opposite) && order.canMatch (limit maker)

/-- The best-priced, then oldest, order. -/
def best (order : InternalOrder) (resting : List InternalOrder) : Option InternalOrder :=
  firstBest (compatible order) (fun a b => a.side.before (limit a) (limit b)) resting

/-- The order of this id is now as given, and rests no longer if it is filled. -/
def settle (maker : InternalOrder) (resting : List InternalOrder) : List InternalOrder :=
  if maker.isFilled then resting.filter fun o => o.id ≠ maker.id
  else resting.map fun o => if o.id = maker.id then maker else o

/-- At most `n` fills: the order, the trades and what rests after them. -/
def fillBest : ℕ → InternalOrder → List InternalOrder →
    InternalOrder × List MatchedTrade × List InternalOrder
  | 0, order, resting => (order, [], resting)
  | n + 1, order, resting =>
    if order.isFilled then (order, [], resting)
    else match best order resting with
      | none => (order, [], resting)
      | some maker =>
        let quantity := min order.remaining maker.remaining
        let (after, trades, rest) :=
          fillBest n (order.fill quantity) (settle (maker.fill quantity) resting)
        (after, tradeOf order maker (limit maker) quantity :: trades, rest)

/-- An order is submitted: its trades, and what rests afterwards. A fill leaves the order or the maker
filled, so there are at most as many as orders that rest. -/
def submit (order : InternalOrder) (resting : List InternalOrder) :
    List MatchedTrade × List InternalOrder :=
  let (after, trades, rest) := fillBest resting.length order resting
  match order.orderType, order.timeInForce with
  | .Market, _ | .Limit, .IOC => (trades, rest)
  | .Limit, .FOK => if after.isFilled then (trades, rest) else ([], resting)
  | .Limit, .GTC => (trades, if after.isFilled then rest else rest ++ [after])

def cancel (orderId : OrderId) (resting : List InternalOrder) : List InternalOrder :=
  resting.filter fun o => o.id ≠ orderId

end Coinjecture.ApiServer.Matching.Reference
