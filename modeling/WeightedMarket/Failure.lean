/-
  Why a request is refused.

  Each constructor of `Failure` is one cause, with the values that its message shows.  A cause
  belongs to a `Kind`, which has a name in reports.  The first fifteen kinds are those of the
  engine itself; the rest come from its surroundings: malformed arguments, the file system, the
  decimal context.

  A message that would show a number without a text cannot be written.  `refuse` is therefore the
  one way to raise a failure: it replaces such a failure by the overflow of the decimal context if
  the number is an amount, and by the refusal to write a long integer if it is an integer, such as
  the number of a pool.
-/
import WeightedMarket.Coin
import WeightedMarket.Moment
import WeightedMarket.Numeral
import WeightedMarket.Problem
import WeightedMarket.Text.Integer
import WeightedMarket.Text.Utf8

namespace WeightedMarket

/-- The kinds of failures, as reports name them. -/
inductive Kind where
  | sameDenomination
  | unknownDenomination
  | poolInactive
  | invalidMathApprox
  | tooManyTokensOut
  | limitExceeded
  | excessiveShareRedemption
  | unsupportedJoinShape
  | notImplementedJoin
  | mathDomain
  | powDidNotConverge
  | invalidPool
  | invalidFee
  | poolNotFound
  | insufficientFunds
  | value
  | type
  | zeroDivision
  | runtime
  | overflow
  | invalidOperation
  | fileNotFound
  | isADirectory
  | fileExists
  | unicodeDecode
  | validation
  deriving DecidableEq, Repr

namespace Kind

/-- Whether the engine itself refuses, rather than something around it. -/
def isEngine : Kind → Bool
  | .sameDenomination | .unknownDenomination | .poolInactive | .invalidMathApprox
  | .tooManyTokensOut | .limitExceeded | .excessiveShareRedemption | .unsupportedJoinShape
  | .notImplementedJoin | .mathDomain | .powDidNotConverge | .invalidPool | .invalidFee
  | .poolNotFound | .insufficientFunds => true
  | _ => false

/-- The name of a kind in reports and in the journal. -/
def name : Kind → String
  | .sameDenomination => "SameDenomination"
  | .unknownDenomination => "UnknownDenomination"
  | .poolInactive => "PoolInactive"
  | .invalidMathApprox => "InvalidMathApprox"
  | .tooManyTokensOut => "TooManyTokensOut"
  | .limitExceeded => "LimitExceeded"
  | .excessiveShareRedemption => "ExcessiveShareRedemption"
  | .unsupportedJoinShape => "UnsupportedJoinShape"
  | .notImplementedJoin => "NotImplementedJoin"
  | .mathDomain => "MathDomainError"
  | .powDidNotConverge => "PowDidNotConverge"
  | .invalidPool => "InvalidPoolError"
  | .invalidFee => "InvalidFeeError"
  | .poolNotFound => "PoolNotFound"
  | .insufficientFunds => "InsufficientFunds"
  | .value => "ValueError"
  | .type => "TypeError"
  | .zeroDivision => "ZeroDivisionError"
  | .runtime => "RuntimeError"
  | .overflow => "Overflow"
  | .invalidOperation => "InvalidOperation"
  | .fileNotFound => "FileNotFoundError"
  | .isADirectory => "IsADirectoryError"
  | .fileExists => "FileExistsError"
  | .unicodeDecode => "UnicodeDecodeError"
  | .validation => "ValidationError"

end Kind

/-- What the file system can object to. -/
inductive FileFault where
  | missing
  | isFolder
  | exists
  deriving DecidableEq, Repr

/-- What can be wrong with the parts of a pool. -/
inductive PoolFault where
  | emptyDenom
  | negativeBalance (denom : String)
  | weightNotPositive (denom : String)
  | assetDecimals (denom : String)
  | windowOrder
  | tooFewAssets (pool : Int)
  | duplicateDenoms (pool : Int) (denoms : List String)
  | sharesNotPositive (pool : Int)
  | shareDecimals (pool : Int)
  deriving DecidableEq, Repr

/-- What is outside the domain of the invariant or of a power. -/
inductive DomainFault where
  | negativePower (n : Int)
  | baseNotPositive (base : Fixed)
  | negativeExponent (exponent : Fixed)
  | fixedSideNotPositive
  | unknownWeightNotPositive
  deriving DecidableEq, Repr

/-- An amount that is zero or negative where it must be positive. -/
inductive ApproxFault where
  | requested (coin : Coin)
  | received (denom : String) (amount : Fixed)
  | paid (denom : String) (amount : Fixed)
  | deposited (coin : Coin)
  | issued (shares : Fixed)
  | redeemed (shares : Fixed)
  | withdrawsNothing (shares : Fixed)
  | worthlessQuote (pool : Int) (denom : String)
  | noInputFound (denom : String) (coin : Coin)
  deriving DecidableEq, Repr

/-- A cause of refusal. -/
inductive Failure where
  | sameDenom (denom : String)
  | unknownDenom (pool : Int) (denom : String)
  | inactive (action : String) (pool : Int) (now : Moment)
  | approx (fault : ApproxFault)
  | beyondReserve (wanted : Coin) (held : Fixed)
  | negativeReserve (denom : String) (balance : Fixed)
  | wholeReserve
  | belowMinimum (denom : String) (amount minimum : Fixed)
  | aboveMaximum (denom : String) (amount maximum : Fixed)
  | sharesBelowMinimum (shares minimum : Fixed)
  | redeemsAll (shares total : Fixed)
  | joinShape (pool : Int) (assets : Nat) (denoms : List String)
  | proportionalJoin (pool : Int)
  | domain (fault : DomainFault)
  | seriesTooLong (base exponent : Fixed) (limit : Int)
  | badPool (fault : PoolFault)
  | wrongDocument (path : String) (held expected : Int)
  | badDocument (pool : Int) (path : String) (problems : List Problem)
  | feeRange (fee : Fixed)
  | namedFeeRange (name : String) (fee : Fixed)
  | noPool (pool : Int)
  | noPoolIn (pool : Int) (folder : String)
  | shortOfFunds (account : String) (available : Fixed) (needed : Coin)
  | simulatedTransfer (coin : Coin)
  | badFields (problems : List Problem)
  | decimalsRange (decimals : Int)
  | decimalsNotWhole
  | badNumeral (text : String)
  | notFinite (text : String)
  | badCoin (text : String)
  | negativeTransfer (coin : Coin)
  | badInteger (text : String)
  | longNumeral (digits : Nat)
  | longInteger
  | noOperand
  | negativeAttempts (n : Int)
  | unknownLevel (level : String)
  | amountType (type : String)
  | amountForm (text : String)
  | amountNotFinite (text : String)
  | rawType (type : String)
  | mixedClocks
  | notOrdered (relation : String)
  | unhashable
  | zeroDivisor
  | zeroTruncatedDivisor
  | observerTaken
  | observerDown
  | storeRefused (pool : Int)
  | noSavepoint (name : String)
  | raised (words : String)
  | overflow
  | numeralForm
  | numeralExponent
  | file (fault : FileFault) (path : String)
  | notUtf8 (fault : Text.Utf8Fault)
  deriving DecidableEq, Repr

namespace Failure

/-- The kind of a failure. -/
def kind : Failure → Kind
  | .sameDenom .. => .sameDenomination
  | .unknownDenom .. => .unknownDenomination
  | .inactive .. => .poolInactive
  | .approx _ => .invalidMathApprox
  | .beyondReserve .. | .negativeReserve .. | .wholeReserve => .tooManyTokensOut
  | .belowMinimum .. | .aboveMaximum .. | .sharesBelowMinimum .. => .limitExceeded
  | .redeemsAll .. => .excessiveShareRedemption
  | .joinShape .. => .unsupportedJoinShape
  | .proportionalJoin .. => .notImplementedJoin
  | .domain _ => .mathDomain
  | .seriesTooLong .. => .powDidNotConverge
  | .badPool _ | .wrongDocument .. | .badDocument .. => .invalidPool
  | .feeRange .. | .namedFeeRange .. => .invalidFee
  | .noPool .. | .noPoolIn .. => .poolNotFound
  | .shortOfFunds .. | .simulatedTransfer .. => .insufficientFunds
  | .badFields _ => .validation
  | .decimalsRange _ | .badNumeral _ | .notFinite _ | .badCoin _ | .negativeTransfer _
  | .badInteger _ | .longNumeral _ | .longInteger | .noOperand | .negativeAttempts _
  | .unknownLevel _ | .amountType _ | .amountForm _ | .amountNotFinite _ => .value
  | .decimalsNotWhole | .rawType _ | .mixedClocks | .notOrdered _ | .unhashable => .type
  | .zeroDivisor | .zeroTruncatedDivisor => .zeroDivision
  | .observerTaken | .observerDown | .storeRefused _ | .noSavepoint _ | .raised _ => .runtime
  | .overflow => .overflow
  | .numeralForm | .numeralExponent => .invalidOperation
  | .file .missing _ => .fileNotFound
  | .file .isFolder _ => .isADirectory
  | .file .exists _ => .fileExists
  | .notUtf8 _ => .unicodeDecode

/-- Whether the engine itself refuses. -/
def isEngine (f : Failure) : Bool := f.kind.isEngine

end Failure

/-! ## Messages -/

def PoolFault.message : PoolFault → String
  | .emptyDenom => "Asset denom must be non-empty"
  | .negativeBalance denom => s!"Asset {denom} balance must be non-negative"
  | .weightNotPositive denom => s!"Asset {denom} weight must be positive"
  | .assetDecimals denom => s!"Asset {denom} decimals must be in [0, 18]"
  | .windowOrder => "Active window end must be after its start"
  | .tooFewAssets pool => s!"Pool {pool} needs at least two assets"
  | .duplicateDenoms pool denoms => s!"Pool {pool} has duplicate denoms: {Text.quotedList denoms}"
  | .sharesNotPositive pool => s!"Pool {pool} total shares must be positive"
  | .shareDecimals pool => s!"Pool {pool} share decimals must be in [0, 18]"

def DomainFault.message : DomainFault → String
  | .negativePower n => s!"Integer exponent must be non-negative, got {n}"
  | .baseNotPositive base => s!"pow base must be positive, got {base}"
  | .negativeExponent exponent => s!"pow exponent must be non-negative, got {exponent}"
  | .fixedSideNotPositive => "balance of the fixed side after the change must be positive"
  | .unknownWeightNotPositive => "weight of the unknown side must be positive"

def ApproxFault.message : ApproxFault → String
  | .requested coin => s!"token amount is zero or negative: {coin}"
  | .received denom amount => s!"{denom} amount out is zero or negative: {amount}"
  | .paid denom amount => s!"{denom} amount in is zero or negative: {amount}"
  | .deposited coin => s!"join amount must be positive, got {coin}"
  | .issued shares => s!"shares out is zero or negative: {shares}"
  | .redeemed shares => s!"exiting shares must be positive, got {shares}"
  | .withdrawsNothing shares => s!"exiting {shares} shares withdraws nothing"
  | .worthlessQuote _ denom => s!"quote asset {denom} has zero weighted balance"
  | .noInputFound denom coin => s!"could not find an input of {denom} that buys {coin}"

def FileFault.message : FileFault → String
  | .missing => "No such file or directory"
  | .isFolder => "Is a directory"
  | .exists => "File exists"

/-- The number of a file fault in the error table of the operating system. -/
def FileFault.number : FileFault → Nat
  | .missing => 2
  | .isFolder => 21
  | .exists => 17

namespace Failure

/-- The message of a failure. -/
def message : Failure → String
  | .sameDenom denom => s!"cannot trade same denomination in and out: {denom}"
  | .unknownDenom pool denom => s!"Pool {pool} has no asset {denom}"
  | .inactive action pool now => s!"{action} on inactive pool {pool} at {now.text}"
  | .approx fault => fault.message
  | .beyondReserve wanted held => s!"can't get {wanted} out of a pool holding {held}"
  | .negativeReserve denom balance => s!"swap would leave {denom} balance negative: {balance}"
  | .wholeReserve => "can't get more tokens out than there are tokens in the pool"
  | .belowMinimum denom amount minimum =>
    s!"{denom} token is lesser than min amount: {amount} < {minimum}"
  | .aboveMaximum denom amount maximum =>
    s!"{denom} token is larger than max amount: {amount} > {maximum}"
  | .sharesBelowMinimum shares minimum =>
    s!"shares out is lesser than min amount: {shares} < {minimum}"
  | .redeemsAll shares total => s!"too many shares out: {shares} >= total shares {total}"
  | .joinShape pool assets denoms =>
    s!"pool {pool} only supports joining with one asset, or each of its {assets} assets once; got "
      ++ ", ".intercalate denoms
  | .proportionalJoin pool => s!"proportional join with all assets of pool {pool}"
  | .domain fault => fault.message
  | .seriesTooLong base exponent limit => s!"pow_approx({base}, {exponent}) exceeded {limit} terms"
  | .badPool fault => fault.message
  | .wrongDocument path held expected => s!"{path} holds pool {held}, expected {expected}"
  | .badDocument _ path _ => s!"invalid pool document {path}"
  | .feeRange fee => s!"Fee must be in range [0, 1), got {fee}"
  | .namedFeeRange name fee => s!"{name} must be in range [0, 1), got {fee}"
  | .noPool pool => s!"pool {pool} not found"
  | .noPoolIn pool folder => s!"pool {pool} not found in {folder}"
  | .shortOfFunds account available needed =>
    s!"{account} has {available}{needed.denom}, needs {needed}"
  | .simulatedTransfer coin => s!"simulated failure moving {coin}"
  | .badFields problems => s!"{problems.length} invalid fields"
  | .decimalsRange decimals => s!"decimals must be in [0, 18], got {decimals}"
  | .decimalsNotWhole => "Dec requires a raw int, got float"
  | .badNumeral text => s!"Invalid decimal string: '{text}'"
  | .notFinite text => s!"Dec.from_decimal requires a finite value, got {text}"
  | .badCoin text => s!"Invalid coin string: '{text}'"
  | .negativeTransfer coin => s!"cannot transfer a negative amount: {coin}"
  | .badInteger text =>
    "invalid literal for int() with base 10: " ++ String.ofList ((Text.quoted text).toList.take 200)
  | .longNumeral digits =>
    s!"Exceeds the limit ({Text.maxIntegerDigits} digits) for integer string conversion: value has {digits} digits"
      ++ "; use sys.set_int_max_str_digits() to increase the limit"
  | .longInteger =>
    s!"Exceeds the limit ({Text.maxIntegerDigits} digits) for integer string conversion"
      ++ "; use sys.set_int_max_str_digits() to increase the limit"
  | .noOperand => "not enough values to unpack (expected 1, got 0)"
  | .negativeAttempts n => s!"converge_max_attempts must be non-negative, got {n}"
  | .unknownLevel level => s!"Unknown log level: {level}"
  | .amountType type => s!"Decimal must be string or int, got {type}"
  | .amountForm text => s!"Decimal must be a decimal string: '{text}'"
  | .amountNotFinite text => s!"Decimal must be finite: '{text}'"
  | .rawType type => s!"Dec requires a raw int, got {type}"
  | .mixedClocks => "can't compare offset-naive and offset-aware datetimes"
  | .notOrdered relation => s!"'{relation}' not supported between instances of 'Dec' and 'int'"
  | .unhashable => "unhashable type: 'Dec'"
  | .zeroDivisor => "Dec division by zero"
  | .zeroTruncatedDivisor => "Division by zero in _div_trunc"
  | .observerTaken => "a pool observer is already registered"
  | .observerDown => "observer is down"
  | .storeRefused pool => s!"simulated failure storing pool {pool}"
  | .noSavepoint name => s!"nothing was saved under {name}"
  | .raised words => words
  | .overflow => "[<class 'decimal.Overflow'>]"
  | .numeralForm => "[<class 'decimal.ConversionSyntax'>]"
  | .numeralExponent => "[<class 'decimal.InvalidOperation'>]"
  | .file fault _ => fault.message
  | .notUtf8 fault => fault.text

/-- The message as the journal keeps it: file faults are numbered and name their path. -/
def journalText : Failure → String
  | .file fault path => s!"[Errno {fault.number}] {fault.message}: {Text.quoted path}"
  | f => f.message

/-- The amounts that the message shows. -/
def shown : Failure → List Fixed
  | .approx (.requested c) | .approx (.deposited c) | .approx (.noInputFound _ c) => [c.amount]
  | .approx (.received _ a) | .approx (.paid _ a) | .approx (.issued a) | .approx (.redeemed a)
  | .approx (.withdrawsNothing a) => [a]
  | .beyondReserve c a => [c.amount, a]
  | .negativeReserve _ a => [a]
  | .belowMinimum _ a b | .aboveMaximum _ a b | .sharesBelowMinimum a b | .redeemsAll a b => [a, b]
  | .domain (.baseNotPositive a) | .domain (.negativeExponent a) => [a]
  | .seriesTooLong a b _ => [a, b]
  | .feeRange a | .namedFeeRange _ a => [a]
  | .shortOfFunds _ a c => [a, c.amount]
  | .simulatedTransfer c | .negativeTransfer c => [c.amount]
  | _ => []

/-- The integers that the message shows.  The number of assets of a pool is short anyway. -/
def numbers : Failure → List Int
  | .unknownDenom pool _ | .inactive _ pool _ | .joinShape pool _ _ | .proportionalJoin pool
  | .noPool pool | .noPoolIn pool _ | .storeRefused pool => [pool]
  | .badPool (.tooFewAssets pool) | .badPool (.duplicateDenoms pool _)
  | .badPool (.sharesNotPositive pool) | .badPool (.shareDecimals pool) => [pool]
  | .wrongDocument _ held expected => [held, expected]
  | .domain (.negativePower n) | .decimalsRange n | .negativeAttempts n => [n]
  | .seriesTooLong _ _ limit => [limit]
  | _ => []

/-- The failure itself if its message can be written; what writing it is refused with otherwise. -/
def settled (f : Failure) : Failure :=
  if f.shown.all Fixed.printable then
    if f.numbers.all fun n => decide (Text.IsWritable n) then f else .longInteger
  else .overflow

end Failure

/-- Refuses for a cause. -/
def refuse {α : Type} (f : Failure) : Except Failure α := .error f.settled

/-- Refuses for a cause unless a condition holds. -/
def require (condition : Bool) (f : Failure) : Except Failure Unit :=
  if condition then .ok () else refuse f

/-- Refuses an integer that is too long to be written. -/
def requireWritable (n : Int) : Except Failure Unit :=
  require (decide (Text.IsWritable n)) .longInteger

end WeightedMarket
