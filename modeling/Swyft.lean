import Swyft.Lib.Checked
import Swyft.Lib.IdStore
import Swyft.Lib.Trace
import Swyft.Lib.Bits
import Swyft.Host
import Swyft.PositionNft
import Swyft.OracleAdapter.Model
import Swyft.ClPool.PriceMath
import Swyft.ClPool.TickTable
import Swyft.ClPool.TickSearch
import Swyft.ClPool.SearchExact
import Swyft.ClPool.TickPrices
import Swyft.ClPool.Model
import Swyft.ClPool.System
import Swyft.ClPool.Steps
import Swyft.ClPool.SwapLoop
import Swyft.ClPool.WellFormed
import Swyft.ClPool.TickAgreement
import Swyft.ClPool.NftAgreement
import Swyft.Lib.Floors
import Swyft.Lib.Newton
import Swyft.Lib.Bisection
import Swyft.Lib.FixedPower
import Swyft.ClPool.Withdrawal
import Swyft.ClPool.FeeGrowth
import Swyft.ClPool.Exit
import Swyft.ClPool.Flows
import Swyft.ClPool.ActiveLiquidity
import Swyft.Lib.Ring
import Swyft.OracleAdapter.History
import Swyft.OracleAdapter.Twap
import Swyft.Lib.Accrual
import Swyft.ClPool.FeeShares
import Swyft.ClPool.Solvency
import Swyft.OracleAdapter.Buffer
import Swyft.OracleAdapter.Bounds
import Swyft.Lib.Ledger
import Swyft.PoolContract.Price
import Swyft.PoolContract.TickSearch
import Swyft.PoolContract.TickPrices
import Swyft.MathLib.Model
import Swyft.MathLib.Amounts
import Swyft.MathLib.Ticks
import Swyft.PoolContract.Model
import Swyft.PoolContract.System
import Swyft.PoolContract.Books
import Swyft.PoolContract.ActiveLiquidity
import Swyft.PoolContract.Solvency
import Swyft.PoolContract.Binding
import Swyft.PoolContract.Fees
import Swyft.PoolContract.Crossing
import Swyft.PoolContract.SwapCurve
import Swyft.Sdk.PositionMath
import Swyft.Lib.PartialMap
import Swyft.PoolFactory.Model
import Swyft.PoolFactory.Registry
import Swyft.Js
import Swyft.Indexer.Model
import Swyft.Indexer.Facts
import Swyft.Indexer.Convergence
import Swyft.Indexer.Interference
import Swyft.Sdk.Quote
import Swyft.ClPool.Ladder
import Swyft.ClPool.Splitting
import Swyft.Sdk.QuoteAgreement
import Swyft.Lib.Sorting
import Swyft.Sdk.QuoteWalk
import Swyft.Sdk.QuoteLadder
import Swyft.Lib.Doubles
import Swyft.Lib.Base64
import Swyft.Lib.Calendar
import Swyft.JsDate
import Swyft.Lib.Counting
import Swyft.Candles.Model
import Swyft.Candles.Hourly
import Swyft.Candles.GapPolicy
import Swyft.Sdk.QuoteMonotone
import Swyft.Sdk.QuoteErrors
import Swyft.Sdk.RoundTrip
import Swyft.Lib.Interleaving
import Swyft.Auth.Model
import Swyft.Auth.Steps
import Swyft.Auth.SingleUse
import Swyft.Auth.Lockout
import Swyft.Indexer.Cursor
import Swyft.Indexer.Handlers
import Swyft.Indexer.Acknowledge
import Swyft.Indexer.Checkpoint
import Swyft.Indexer.Positions
import Swyft.Indexer.Replay
import Swyft.Lib.Grouping
import Swyft.Horizon
import Swyft.Indexer.DeadLetters
import Swyft.Lib.OrderedMap
import Swyft.Indexer.Deduplication
import Swyft.Indexer.AtMostOnce
import Swyft.ClPool.Charges
import Swyft.Lib.Quotients
import Swyft.ClPool.Rounding
import Swyft.ClPool.PartialStep
import Swyft.ClPool.Road
import Swyft.ClPool.SwapDirection
import Swyft.ClPool.Products
import Swyft.Webhooks.Model
import Swyft.Webhooks.Accounting
import Swyft.Horizon.LiveEdge
import Swyft.FeeCollector.Model
import Swyft.FeeCollector.Custody
import Swyft.Sdk.Liquidity
import Swyft.Sdk.Invocation
import Swyft.Sdk.Queries
import Swyft.Candles.Backfill
import Swyft.Lib.Keyset
import Swyft.Candles.Ticks
import Swyft.Candles.Pagination
import Swyft.Price.Candles
import Swyft.Listings
import Swyft.JsNumber
import Swyft.Stats
import Swyft.Pools.CacheKeys
import Swyft.Pools.Listing
import Swyft.Price.Subscriptions
import Swyft.Price.Delivery
import Swyft.Price.Gateway
import Swyft.ClPool.Observations
import Swyft.Indexer.ReplayGuard
import Swyft.Admin.Analytics
import Swyft.Cache.SingleFlight
import Swyft.Lib.SlidingWindow
import Swyft.RateLimit.Expiry
import Swyft.RateLimit.Window
import Swyft.Pools.DetailCache
import Swyft.Auth.Guard
import Swyft.Admin.Audit
import Swyft.Alerts.Model
import Swyft.Alerts.Fanout
import Swyft.Alerts.Spacing
import Swyft.Positions.Activity
import Swyft.Positions.Fees
import Swyft.Sdk.RemoveAmounts
import Swyft.Web.SwapQuote
import Swyft.Web.CandleSeries
import Swyft.Sentry.Scrub
import Swyft.Lib.Loops
import Swyft.Lib.Addresses
import Swyft.OracleAdapter.Search
import Swyft.MathLib.SquareRoots
import Swyft.Sdk.TickConversions
import Swyft.Swaps.BaseUnits
import Swyft.Webhooks.UrlGuard
import Swyft.Webhooks.Signature
import Swyft.ClPool.Isolation
import Swyft.Lib.Staging
import Swyft.Compression.Middleware
import Swyft.Compression.Delivery
import Swyft.Compression.Cap
