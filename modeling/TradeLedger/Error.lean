import TradeLedger.Basic
import TradeLedger.Config
import TradeLedger.Order.Status

/-!
# Ledger errors

A refusal carries a `RejectReason` that the requester can act on; the other errors are
violations of the ledger's invariants, after which the account must be synchronised again
(`isFatal`). Each error has a code name and a message; `message` is the one place where the
wording lives.
-/

namespace TradeLedger

/-- Why a request was refused. -/
inductive RejectReason where
  | duplicateOrder
  | unknownSymbol
  | incorrectQuantity
  | unknownOrder
  | cancelAlreadyPending
  | replaceAlreadyPending
  | tooLateToCancel
  | other
  deriving DecidableEq, Repr, Inhabited

namespace RejectReason

def names : List (String × RejectReason) :=
  [("DuplicateOrder", .duplicateOrder), ("UnknownSymbol", .unknownSymbol),
   ("IncorrectQuantity", .incorrectQuantity), ("UnknownOrder", .unknownOrder),
   ("CancelAlreadyPending", .cancelAlreadyPending), ("ReplaceAlreadyPending", .replaceAlreadyPending),
   ("TooLateToCancel", .tooLateToCancel), ("Other", .other)]

/-- The reason in words. -/
def describe : RejectReason → String
  | .duplicateOrder => "duplicate order"
  | .unknownSymbol => "unknown symbol"
  | .incorrectQuantity => "incorrect quantity"
  | .unknownOrder => "unknown order"
  | .cancelAlreadyPending => "cancel already pending"
  | .replaceAlreadyPending => "replace already pending"
  | .tooLateToCancel => "too late to cancel"
  | .other => "other"

end RejectReason

/-- The venue acknowledgments that can meet an order in the wrong status. -/
inductive Acknowledgment where
  | rejectNew
  | confirmCancel
  | confirmReplace
  | confirmExpired
  deriving DecidableEq, Repr

def Acknowledgment.name : Acknowledgment → String
  | .rejectNew => "reject_new_order"
  | .confirmCancel => "confirm_cancel_order"
  | .confirmReplace => "confirm_replace_order"
  | .confirmExpired => "confirm_expired_order"

/-- Everything that can go wrong in the ledger. -/
inductive LedgerError where
  | rejected (reason : RejectReason)
  | fillExceedsLeaves (order : ClientOrderId) (fill leaves : Int64)
  | foreignAccount (expected got : AccountId)
  | unknownSecurity (id : SecurityId)
  | invalidPrecision (id : SecurityId) (increment : Decimal)
  | invalidTransition (order : OrderRef) (status : OrderStatus) (via : Acknowledgment)
  | duplicateSnapshotOrder (order : ClientOrderId)
  | duplicateVenueOrder (venueId : VenueOrderId) (owner : ClientOrderId)
  | noMarkPrice (id : SecurityId)
  | overflow
  | config (error : ConfigError)
  deriving DecidableEq

namespace LedgerError

/-- The error's code name. -/
def code : LedgerError → String
  | .rejected _ => "Rejected"
  | .fillExceedsLeaves .. => "FillExceedsLeaves"
  | .foreignAccount .. => "ForeignAccount"
  | .unknownSecurity _ => "UnknownSecurity"
  | .invalidPrecision .. => "InvalidPrecision"
  | .invalidTransition .. => "InvalidTransition"
  | .duplicateSnapshotOrder _ => "DuplicateSnapshotOrder"
  | .duplicateVenueOrder .. => "DuplicateVenueOrder"
  | .noMarkPrice _ => "NoMarkPrice"
  | .overflow => "Overflow"
  | .config _ => "Config"

/-- The error in words. -/
def message : LedgerError → String
  | .rejected r => "Rejected: " ++ r.describe
  | .fillExceedsLeaves o fill leaves =>
    "Fill of " ++ toString fill.toInt ++ " raw lots exceeds " ++ toString leaves.toInt ++
      " raw leaves on order " ++ o
  | .foreignAccount expected got =>
    "Snapshot for account " ++ got.render ++ " applied to account " ++ expected.render
  | .unknownSecurity id => "Security " ++ toString id ++ " not found"
  | .invalidPrecision id increment =>
    "Security " ++ toString id ++ " has invalid increment " ++ increment.render
  | .invalidTransition o status via =>
    "Order " ++ o.render ++ " cannot go from " ++ status.name ++ " via " ++ via.name
  | .duplicateSnapshotOrder o => "Snapshot contains client order id " ++ o ++ " twice"
  | .duplicateVenueOrder v owner => "Venue order id " ++ v ++ " already belongs to order " ++ owner
  | .noMarkPrice id => "No mark price available for security " ++ toString id
  | .overflow => "Fixed-point overflow"
  | .config e => "Config error: " ++ e.message

/-- Invariant violations: all errors but refusals, missing marks and bad settings. -/
def isFatal : LedgerError → Bool
  | .rejected _ | .noMarkPrice _ | .config _ => false
  | _ => true

def rejectReason? : LedgerError → Option RejectReason
  | .rejected r => some r
  | _ => none

end LedgerError

/-- An arithmetic overflow that the ledger does not check for: the program stops. -/
inductive Fault where
  | arithmeticOverflow
  deriving DecidableEq, Repr

/-- A computation that may refuse with a ledger error and may also hit a fault. -/
abbrev Checked (α : Type) := ExceptT LedgerError (Except Fault) α

def Checked.fault {α : Type} : Checked α := ExceptT.lift (.error .arithmeticOverflow)

def Checked.orFault {α : Type} : Option α → Checked α
  | some a => pure a
  | none => Checked.fault

def Checked.orError {α : Type} (e : LedgerError) : Option α → Checked α
  | some a => pure a
  | none => throw e

end TradeLedger
