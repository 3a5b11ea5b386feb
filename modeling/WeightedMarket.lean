import WeightedMarket.Action
import WeightedMarket.Coin
import WeightedMarket.Coin.Reader
import WeightedMarket.Command
import WeightedMarket.Command.Arguments
import WeightedMarket.Command.Words
import WeightedMarket.Decimal
import WeightedMarket.Decimal.Binary
import WeightedMarket.Document
import WeightedMarket.Document.Printer
import WeightedMarket.Document.Reader
import WeightedMarket.Failure
import WeightedMarket.Fixed
import WeightedMarket.Fixed.Checked
import WeightedMarket.Fixed.Power
import WeightedMarket.Fixed.Printer
import WeightedMarket.Fixed.Reader
import WeightedMarket.Folder
import WeightedMarket.Journal
import WeightedMarket.Json
import WeightedMarket.Json.Printer
import WeightedMarket.Json.Reader
import WeightedMarket.Ledger
import WeightedMarket.Main
import WeightedMarket.Market
import WeightedMarket.Market.Converge
import WeightedMarket.Market.Perform
import WeightedMarket.Market.Plan
import WeightedMarket.Market.Transaction
import WeightedMarket.Moment
import WeightedMarket.Moment.Epoch
import WeightedMarket.Numeral
import WeightedMarket.Path
import WeightedMarket.Pool
import WeightedMarket.Pool.Curve
import WeightedMarket.Pool.Fee
import WeightedMarket.Pool.Shares
import WeightedMarket.Pool.Trade
import WeightedMarket.Problem
import WeightedMarket.Repository
import WeightedMarket.Session
import WeightedMarket.Settings
import WeightedMarket.Table
import WeightedMarket.Text.Blank
import WeightedMarket.Text.Digit
import WeightedMarket.Text.Integer
import WeightedMarket.Text.Printable
import WeightedMarket.Text.Quoted
import WeightedMarket.Text.UpperCase
import WeightedMarket.Text.Utf8
import WeightedMarket.Window
import WeightedMarket.Proofs.Decision
import WeightedMarket.Proofs.Staging
import WeightedMarket.Proofs.Planning
import WeightedMarket.Proofs.Settlement
import WeightedMarket.Proofs.History
import WeightedMarket.Proofs.Blocks
import WeightedMarket.Proofs.Conservation
import WeightedMarket.Proofs.Atomicity
import WeightedMarket.Proofs.Solvency
import WeightedMarket.Proofs.Power.Reduction
import WeightedMarket.Proofs.Power.Terms
import WeightedMarket.Proofs.Power.Sign
import WeightedMarket.Proofs.Power.Squaring
import WeightedMarket.Proofs.Reserves
import WeightedMarket.Proofs.Power.Whole
import WeightedMarket.Proofs.Power.Binomial
import WeightedMarket.Proofs.Power.Series
import WeightedMarket.Proofs.Power.Surplus
import WeightedMarket.Proofs.Power.Below
import WeightedMarket.Proofs.Invariant
import WeightedMarket.Proofs.Redemption
import WeightedMarket.Proofs.Purchase
import WeightedMarket.Proofs.Power.Order
import WeightedMarket.Proofs.Power.Excess
import WeightedMarket.Proofs.Power.Drift
import WeightedMarket.Proofs.Selling
import WeightedMarket.Proofs.Power.Above
import WeightedMarket.Proofs.Deposit
import WeightedMarket.Proofs.Power.Answers
import WeightedMarket.Proofs.Power.Side
import WeightedMarket.Proofs.Refusal
import WeightedMarket.Proofs.Deals
import WeightedMarket.Proofs.Grant
import WeightedMarket.Proofs.Independence
import WeightedMarket.Proofs.Execution
import WeightedMarket.Proofs.Text.Digits
import WeightedMarket.Proofs.Text.Numerals
import WeightedMarket.Proofs.Text.Moments
import WeightedMarket.Proofs.Json.RoundTrip
import WeightedMarket.Proofs.Document.RoundTrip
import WeightedMarket.Proofs.Document.Faults
import WeightedMarket.Proofs.Folder
import WeightedMarket.Proofs.Loading
import WeightedMarket.Proofs.Curve
import WeightedMarket.Proofs.Power.Convergence
import WeightedMarket.Proofs.Power.Relative
import WeightedMarket.Proofs.Power.Accuracy
import WeightedMarket.Proofs.Units
import WeightedMarket.Proofs.Document.Rereading
import WeightedMarket.Proofs.WholeUnits
import WeightedMarket.Proofs.Power.Exponents
import WeightedMarket.Proofs.Ideal
import WeightedMarket.Proofs.Leaving
import WeightedMarket.Proofs.Candidates
import WeightedMarket.Proofs.Joining
import WeightedMarket.Proofs.Text.Leading
import WeightedMarket.Proofs.Text.Spelling
import WeightedMarket.Proofs.Text.Denotation
import WeightedMarket.Proofs.Text.Coins
import WeightedMarket.Proofs.Power.Remainder
import WeightedMarket.Proofs.Fees
import WeightedMarket.Proofs.Prices
import WeightedMarket.Proofs.Text.Integers
import WeightedMarket.Proofs.Listing
import WeightedMarket.Proofs.Power.Rounds
import WeightedMarket.Proofs.Power.UpToOne
