import Coinjecture.ApiServer.Matching.Overflow
import Coinjecture.Lib.Table

/-! # The matching engine

The engine holds a book for each pair and takes one command after the other. The handlers check a request and
hand it on. What they let through still may make the engine panic, and then it takes no more commands.

* `placeOrder_ok` : what an order is that was let through.
* `engine_survives` : the engine goes on as long as no limit order without a price is to rest and nothing is too
  large. -/

namespace Coinjecture.ApiServer.Matching.Engine

open Lib.Trace
open ApiServer.Matching.Book ApiServer.Matching.Ladders
open ApiServer.Matching.Overflow

/-! ### Requests -/

/-- `AuthenticatedUser`. -/
structure AuthenticatedUser where
  walletAddress : Option String

structure NewOrderRequest where
  pairId : String
  side : String
  orderType : String
  price : Option String
  quantity : String
  timeInForce : Option String

inductive ApiError where
  | BadRequest (message : String)
  deriving DecidableEq

/-- What the handlers take from elsewhere. -/
structure Crates where
  decimal : DecimalCrate
  /-- `str::to_lowercase`, of all of Unicode. -/
  toLowercase : String → String
  /-- `str::parse::<Uuid>`. -/
  parseUuid : String → Option OrderId

variable (c : Crates)

def parseSide (side : String) : Except ApiError Side :=
  if c.toLowercase side = "buy" then .ok .Buy
  else if c.toLowercase side = "sell" then .ok .Sell
  else .error (.BadRequest "side must be 'buy' or 'sell'")

def parseOrderType (orderType : String) : Except ApiError Book.OrderType :=
  if c.toLowercase orderType = "limit" then .ok .Limit
  else if c.toLowercase orderType = "market" then .ok .Market
  else .error (.BadRequest "type must be 'limit' or 'market'")

/-- The price of a market order is not looked at. -/
def parsePrice (orderType : Book.OrderType) : Option String → Except ApiError (Option Decimal)
  | some p =>
    if orderType = .Limit then match c.decimal.parse p with
      | some price => .ok (some price)
      | none => .error (.BadRequest "Invalid price format")
    else .ok none
  | none => .ok none

def parseQuantity (quantity : String) : Except ApiError Decimal :=
  match c.decimal.parse quantity with
  | some quantity => if quantity ≤ 0 then .error (.BadRequest "Quantity must be positive") else .ok quantity
  | none => .error (.BadRequest "Invalid quantity format")

def parseTimeInForce (timeInForce : Option String) : TimeInForce :=
  if timeInForce = some "IOC" then .IOC else if timeInForce = some "FOK" then .FOK else .GTC

/-- `place_order`: the order that is handed to the engine. The id is a new one. -/
def placeOrder (user : AuthenticatedUser) (req : NewOrderRequest) (id : OrderId) :
    Except ApiError InternalOrder :=
  match user.walletAddress with
  | none => .error (.BadRequest "Wallet address required to place orders")
  | some wallet => do
    let side ← parseSide c req.side
    let orderType ← parseOrderType c req.orderType
    let price ← parsePrice c orderType req.price
    let quantity ← parseQuantity c req.quantity
    return { id, walletAddress := wallet, pairId := req.pairId, side, orderType, price, quantity
             filledQuantity := 0, timeInForce := parseTimeInForce req.timeInForce }

/-! ### The engine -/

/-- `MatchingEngine`. -/
structure MatchingEngine where
  books : String → Option OrderBook

namespace MatchingEngine

def new (knownPairs : List String) : MatchingEngine := ⟨fun pair => if pair ∈ knownPairs then some .new else none⟩

def withBook (pairId : String) (b : OrderBook) (e : MatchingEngine) : MatchingEngine :=
  ⟨Function.update e.books pairId (some b)⟩

@[simp] theorem books_withBook_self (pairId : String) (b : OrderBook) (e : MatchingEngine) :
    (e.withBook pairId b).books pairId = some b := Function.update_self ..

theorem books_withBook_of_ne {pairId pairId' : String} (h : pairId' ≠ pairId) (b : OrderBook)
    (e : MatchingEngine) : (e.withBook pairId b).books pairId' = e.books pairId' := Function.update_of_ne h ..

/-- `SubmitOrder`. A pair that is not known gets a book. -/
def submitOrder (order : InternalOrder) (e : MatchingEngine) : Option (MatchResult × MatchingEngine) :=
  (Overflow.submitOrder c.decimal order ((e.books order.pairId).getD .new)).map fun (result, b) =>
    (result, e.withBook order.pairId b)

/-- `CancelOrder`. -/
def cancelOrder (orderId : OrderId) (pairId : String) (e : MatchingEngine) :
    Option InternalOrder × MatchingEngine :=
  match e.books pairId with
  | none => (none, e)
  | some b => ((b.cancelOrder orderId).1, e.withBook pairId (b.cancelOrder orderId).2)

/-- `GetDepth`. -/
def getDepth (pairId : String) (maxLevels : ℕ) (e : MatchingEngine) :
    Option (Option (List DepthLevel × List DepthLevel)) :=
  match e.books pairId with
  | none => some none
  | some b => (depth c.decimal maxLevels b).map some

/-- The pairs are tried one after the other, until the order is found. -/
def cancelAmong (orderId : OrderId) : List String → MatchingEngine → Option InternalOrder × MatchingEngine
  | [], e => (none, e)
  | pair :: pairs, e =>
    match e.cancelOrder orderId pair with
    | (some removed, e) => (some removed, e)
    | (none, e) => cancelAmong orderId pairs e

end MatchingEngine

/-- The pairs that `main` sets up, and that `cancel_order` knows. -/
def KNOWN_PAIRS : List String := ["BEANS/USDC", "BEANS/ETH"]

inductive Request where
  | placeOrder (user : AuthenticatedUser) (req : NewOrderRequest) (id : OrderId)
  | cancelOrder (user : AuthenticatedUser) (orderId : String)
  | getOrders (pairId : Option String)

/-- What the engine and the handlers say. What is passed on goes to the database. -/
inductive Response where
  | rejected (e : ApiError)
  | placed (result : MatchResult)
  | cancelled
  | depth (levels : List DepthLevel × List DepthLevel)
  | passedOn
  deriving DecidableEq

/-- A request is served. `none` is a panic of the engine. -/
def serve : Request → MatchingEngine → Option (Response × MatchingEngine)
  | .placeOrder user req id, e =>
    match placeOrder c user req id with
    | .error error => some (.rejected error, e)
    | .ok order => (e.submitOrder c order).map fun (result, e) => (.placed result, e)
  | .cancelOrder _ orderId, e =>
    match c.parseUuid orderId with
    | none => some (.passedOn, e)
    | some id =>
      match e.cancelAmong id KNOWN_PAIRS with
      | (some _, e) => some (.cancelled, e)
      | (none, e) => some (.passedOn, e)
  | .getOrders none, e => some (.rejected (.BadRequest "pair_id query parameter is required"), e)
  | .getOrders (some pairId), e => (e.getDepth c pairId 20).map fun
    | some levels => (.depth levels, e)
    | none => (.passedOn, e)

/-- The engine, as it serves one request after the other. A panic ends it. -/
def server : Machine Request MatchingEngine where
  next request e := ((serve c request e).map Prod.snd).getD e
  halts request e := (serve c request e).isNone

/-! ### What is let through -/

variable {c}

theorem parseQuantity_ok {text : String} {quantity : Decimal} (h : parseQuantity c text = .ok quantity) :
    c.decimal.parse text = some quantity ∧ 0 < quantity := by
  unfold parseQuantity at h
  split at h
  · split_ifs at h with hpos
    obtain rfl := Except.ok.inj h
    exact ⟨by assumption, not_le.mp hpos⟩
  · cases h

theorem exists_of_bind_ok {α β : Type} {x : Except ApiError α} {f : α → Except ApiError β} {b : β}
    (h : x >>= f = .ok b) : ∃ a, x = .ok a ∧ f a = .ok b := by
  cases x with
  | error e => cases h
  | ok a => exact ⟨a, rfl, h⟩

/-- An order that is let through has the request's pair and the user's wallet, and wants something. -/
theorem placeOrder_ok {user : AuthenticatedUser} {req : NewOrderRequest} {id : OrderId} {order : InternalOrder}
    (h : placeOrder c user req id = .ok order) :
    order.id = id ∧ user.walletAddress = some order.walletAddress ∧ order.pairId = req.pairId ∧
      c.decimal.parse req.quantity = some order.quantity ∧ 0 < order.quantity ∧ order.filledQuantity = 0 := by
  unfold placeOrder at h
  cases hwallet : user.walletAddress with
  | none =>
    rw [hwallet] at h
    cases h
  | some wallet =>
    rw [hwallet] at h
    obtain ⟨side, -, h⟩ := exists_of_bind_ok h
    obtain ⟨orderType, -, h⟩ := exists_of_bind_ok h
    obtain ⟨price, -, h⟩ := exists_of_bind_ok h
    obtain ⟨quantity, hquantity, h⟩ := exists_of_bind_ok h
    obtain ⟨hparse, hpos⟩ := parseQuantity_ok hquantity
    rw [← Except.ok.inj h]
    exact ⟨rfl, rfl, rfl, hparse, hpos, rfl⟩

/-! ### No panic -/

/-- All orders of all books want less than the largest decimal, and are not filled. -/
def AllBooksOpen (e : MatchingEngine) : Prop := ∀ pairId b, e.books pairId = some b → AllSidesOpen b

/-- No limit order without a price is to rest, no order wants as much as the largest decimal, and what is shown
of a book adds up. -/
def Safe (c : Crates) (p : Request × MatchingEngine) : Prop :=
  match p with
  | (.placeOrder user req id, _) => ∀ order, placeOrder c user req id = .ok order →
    order.quantity + 1 / 2 ≤ MAX ∧
      ¬ (order.orderType = .Limit ∧ order.timeInForce = .GTC ∧ order.price = none)
  | (.cancelOrder _ _, _) => True
  | (.getOrders none, _) => True
  | (.getOrders (some pairId), e) => ∀ b, e.books pairId = some b → DepthFits 20 b

instance (p : Request × MatchingEngine) : Decidable (Safe c p) :=
  match p with
  | (.placeOrder user req id, _) =>
    match hplace : placeOrder c user req id with
    | .error _ => .isTrue fun _ h => by rw [hplace] at h; cases h
    | .ok order => decidable_of_iff (order.quantity + 1 / 2 ≤ MAX ∧
        ¬ (order.orderType = .Limit ∧ order.timeInForce = .GTC ∧ order.price = none))
        ⟨fun hsafe _ h => Except.ok.inj (hplace.symm.trans h) ▸ hsafe, fun h => h order hplace⟩
  | (.cancelOrder _ _, _) => .isTrue trivial
  | (.getOrders none, _) => .isTrue trivial
  | (.getOrders (some pairId), e) => inferInstanceAs (Decidable (∀ b ∈ e.books pairId, DepthFits 20 b))

theorem allBooksOpen_withBook {e : MatchingEngine} (he : AllBooksOpen e) {pairId : String} {b : OrderBook}
    (hb : AllSidesOpen b) : AllBooksOpen (e.withBook pairId b) := by
  intro pairId' b' hget
  by_cases hpair : pairId' = pairId
  · rw [hpair, MatchingEngine.books_withBook_self] at hget
    rw [← Option.some.inj hget]
    exact hb
  · rw [MatchingEngine.books_withBook_of_ne hpair] at hget
    exact he pairId' b' hget

theorem allBooksOpen_cancelAmong {e : MatchingEngine} (he : AllBooksOpen e) (orderId : OrderId)
    (pairs : List String) : AllBooksOpen (e.cancelAmong orderId pairs).2 := by
  have hcancel : ∀ (e : MatchingEngine) (pair : String), AllBooksOpen e →
      AllBooksOpen (e.cancelOrder orderId pair).2 := by
    intro e pair he
    unfold MatchingEngine.cancelOrder
    cases hget : e.books pair with
    | none => exact he
    | some b => exact allBooksOpen_withBook he (allSidesOpen_cancelOrder (he pair b hget) orderId)
  induction pairs generalizing e with
  | nil => exact he
  | cons pair pairs ih =>
    have hfirst := hcancel e pair he
    rw [MatchingEngine.cancelAmong]
    match hrun : e.cancelOrder orderId pair with
    | (some removed, e') =>
      rw [hrun] at hfirst
      exact hfirst
    | (none, e') =>
      rw [hrun] at hfirst
      exact ih hfirst

theorem submitOrder_serves (hd : c.decimal.Lawful) {e : MatchingEngine} (he : AllBooksOpen e)
    {order : InternalOrder} (horder : Bounded order)
    (hpriced : order.orderType = .Limit → order.timeInForce = .GTC → order.price.isSome = true) :
    ∃ result e', e.submitOrder c order = some (result, e') ∧ AllBooksOpen e' := by
  have hbook : AllSidesOpen ((e.books order.pairId).getD .new) := by
    cases hget : e.books order.pairId with
    | none => exact allSidesOpen_new
    | some b => exact he _ b hget
  obtain ⟨result, b', hsubmit, hb'⟩ := submitOrder_returns hd horder hbook hpriced
  refine ⟨result, e.withBook order.pairId b', ?_, allBooksOpen_withBook he hb'⟩
  rw [MatchingEngine.submitOrder, hsubmit, Option.map_some]

/-- A safe request is served. -/
theorem serve_safe (hd : c.decimal.Lawful) {e : MatchingEngine} (he : AllBooksOpen e) {request : Request}
    (hsafe : Safe c (request, e)) : ∃ response e', serve c request e = some (response, e') ∧ AllBooksOpen e' := by
  cases request with
  | placeOrder user req id =>
    rw [serve]
    cases hplace : placeOrder c user req id with
    | error error => exact ⟨_, e, rfl, he⟩
    | ok order =>
      obtain ⟨-, -, -, hparse, hpos, hfilled⟩ := placeOrder_ok hplace
      obtain ⟨hquantity, hunpriced⟩ := hsafe order hplace
      have hbounded : Bounded order := ⟨hfilled.ge, by rw [hfilled, MAX]; norm_num, hpos.le, hquantity⟩
      obtain ⟨result, e', hsubmit, he'⟩ := submitOrder_serves hd he hbounded fun htype hforce =>
        Option.isSome_iff_ne_none.mpr fun hnone => hunpriced ⟨htype, hforce, hnone⟩
      refine ⟨.placed result, e', ?_, he'⟩
      simp only [hsubmit, Option.map_some]
  | cancelOrder user orderId =>
    rw [serve]
    cases hparse : c.parseUuid orderId with
    | none => exact ⟨_, e, rfl, he⟩
    | some id =>
      have hcancel := allBooksOpen_cancelAmong he id KNOWN_PAIRS
      match hrun : e.cancelAmong id KNOWN_PAIRS with
      | (some removed, e') =>
        rw [hrun] at hcancel
        simp only [hrun]
        exact ⟨_, e', rfl, hcancel⟩
      | (none, e') =>
        rw [hrun] at hcancel
        simp only [hrun]
        exact ⟨_, e', rfl, hcancel⟩
  | getOrders pairId =>
    cases pairId with
    | none => exact ⟨_, e, rfl, he⟩
    | some pairId =>
      rw [serve, MatchingEngine.getDepth]
      cases hget : e.books pairId with
      | none => exact ⟨_, e, rfl, he⟩
      | some b =>
        obtain ⟨levels, hlevels⟩ := depth_returns hd (he pairId b hget) (hsafe b hget)
        refine ⟨.depth levels, e, ?_, he⟩
        simp only [hlevels, Option.map_some]

theorem allBooksOpen_new (knownPairs : List String) : AllBooksOpen (.new knownPairs) := by
  intro pairId b hget
  rw [MatchingEngine.new] at hget
  simp only at hget
  split_ifs at hget
  rw [← Option.some.inj hget]
  exact allSidesOpen_new

/-- In a run of safe requests the engine never panics. -/
theorem engine_survives (hd : c.decimal.Lawful) (requests : List Request)
    (hsafe : ∀ p ∈ (server c).trace requests (.new KNOWN_PAIRS), Safe c p) :
    ∀ p ∈ (server c).trace requests (.new KNOWN_PAIRS), (serve c p.1 p.2).isSome = true := by
  have hopen : ∀ p ∈ (server c).trace requests (.new KNOWN_PAIRS), AllBooksOpen p.2 := by
    refine Machine.invariant_trace (fun p hp he => ?_) (allBooksOpen_new KNOWN_PAIRS)
    obtain ⟨response, e', hserve, he'⟩ := serve_safe hd he (hsafe p hp)
    simp only [server, hserve, Option.map_some, Option.getD_some]
    exact he'
  intro p hp
  obtain ⟨response, e', hserve, -⟩ := serve_safe hd (hopen p hp) (hsafe p hp)
  rw [hserve]
  rfl

/-! ### A hundred beans -/

namespace Sample

/-- A decimal that is not too large. -/
def inRange (x : Decimal) : Option Decimal := if |x| ≤ MAX then some x else none

/-- Sums and differences of decimals that need no rounding. -/
def crates : Crates where
  decimal :=
    { parse := fun text => [("1.50", (3 / 2 : ℚ)), ("100", 100), ("50", 50)].lookup text
      add := fun x y => inRange (x + y)
      sub := fun x y => inRange (x - y) }
  toLowercase := String.toLower
  parseUuid := fun text => [("00000000-0000-4000-8000-000000000001", 0x00000000000040008000000000000001#128),
    ("00000000-0000-4000-8000-000000000002", 0x00000000000040008000000000000002#128)].lookup text

theorem inRange_of_le {x : Decimal} (h : |x| ≤ MAX) : inRange x = some x := if_pos h

theorem lawful : crates.decimal.Lawful where
  parse_le text x h := by
    have hmem := Coinjecture.Lib.Table.mem_of_lookup h
    simp only [List.mem_cons, Prod.mk.injEq, List.not_mem_nil, or_false] at hmem
    obtain ⟨-, rfl⟩ | ⟨-, rfl⟩ | ⟨-, rfl⟩ := hmem
    all_goals norm_num [MAX]
  add_ok x y hx hy hle := by
    have habs : |x + y| ≤ MAX := by rwa [abs_of_nonneg (add_nonneg hx hy)]
    exact ⟨x + y, inRange_of_le habs, add_nonneg hx hy, hle, by linarith⟩
  sub_ok x y hx hxle hy hyle := by
    have habs : |x - y| ≤ MAX := abs_le.mpr ⟨by linarith, by linarith⟩
    exact ⟨x - y, inRange_of_le habs, fun h => sub_nonneg.mpr h, by linarith⟩

def alice : AuthenticatedUser := ⟨some "alice"⟩

def bob : AuthenticatedUser := ⟨some "bob"⟩

def sale : NewOrderRequest := ⟨"BEANS/USDC", "sell", "limit", some "1.50", "100", none⟩

def purchase : NewOrderRequest := ⟨"BEANS/USDC", "BUY", "market", none, "50", some "IOC"⟩

/-- A limit order that names no limit. -/
def noPrice : NewOrderRequest := ⟨"BEANS/USDC", "buy", "limit", none, "50", none⟩

def requests : List Request :=
  [.placeOrder alice sale 1, .placeOrder bob purchase 2, .getOrders (some "BEANS/USDC")]

end Sample

/-- Alice sells, Bob buys half of it, and the rest is shown. -/
theorem engine_survives_sale : (∀ p ∈ (server Sample.crates).trace Sample.requests (.new KNOWN_PAIRS),
      (serve Sample.crates p.1 p.2).isSome = true) ∧
    (serve Sample.crates (.getOrders (some "BEANS/USDC"))
      ((server Sample.crates).final Sample.requests (.new KNOWN_PAIRS))).map Prod.fst =
        some (.depth ([], [⟨3 / 2, 50, 1⟩])) :=
  ⟨engine_survives Sample.lawful Sample.requests (by decide +kernel), by decide +kernel⟩

/-- The handler lets a limit order without a price through, and the engine panics. -/
theorem order_without_price_panics :
    (∃ order, placeOrder Sample.crates Sample.bob Sample.noPrice 1 = .ok order) ∧
      serve Sample.crates (.placeOrder Sample.bob Sample.noPrice 1) (.new KNOWN_PAIRS) = none ∧
      ¬ ∀ p ∈ (server Sample.crates).trace [.placeOrder Sample.bob Sample.noPrice 1] (.new KNOWN_PAIRS),
        (serve Sample.crates p.1 p.2).isSome = true := by
  have hplace : placeOrder Sample.crates Sample.bob Sample.noPrice 1 =
      .ok ⟨1, "bob", "BEANS/USDC", .Buy, .Limit, none, 50, 0, .GTC⟩ := by decide +kernel
  have hpanics : serve Sample.crates (.placeOrder Sample.bob Sample.noPrice 1) (.new KNOWN_PAIRS) = none :=
    Option.isNone_iff_eq_none.mp (by decide +kernel)
  refine ⟨⟨_, hplace⟩, hpanics, fun hall => ?_⟩
  have hserved := hall _ List.mem_cons_self
  rw [hpanics] at hserved
  cases hserved

end Coinjecture.ApiServer.Matching.Engine
