import Mathlib.Data.String.Basic

/-!
# Exceptions

The exceptions the modelled code raises, with the texts their handlers report.
-/

namespace LotusCore

/-- Why a value was refused at a persistence boundary. -/
inductive DecimalPrecisionViolation
  | excessScale
  | magnitudeOverflow
  deriving Repr, DecidableEq

def DecimalPrecisionViolation.value : DecimalPrecisionViolation → String
  | .excessScale => "excess_scale"
  | .magnitudeOverflow => "magnitude_overflow"

/-- The failure reasons of a redemption calculation that the modelled terms can meet. -/
inductive RedemptionCalculationReasonCode
  | invalidTransactionType
  | nonPositivePositionQuantity
  | missingQuantityAuthority
  | incompleteFactorAuthority
  | invalidFactorTransition
  | nonPositiveRedeemedQuantity
  | quantityExceedsPosition
  | fullRedemptionQuantityMismatch
  | partialRedemptionClosesPosition
  | quantityAuthorityMismatch
  | nonPositiveRedemptionPrice
  | principalProceedsMismatch
  | invalidMonetaryInput
  | nonPositiveFxRate
  | negativeTotalCashProceeds
  deriving Repr, DecidableEq

def RedemptionCalculationReasonCode.value : RedemptionCalculationReasonCode → String
  | .invalidTransactionType => "REDEMPTION_001_INVALID_TRANSACTION_TYPE"
  | .nonPositivePositionQuantity => "REDEMPTION_002_NON_POSITIVE_POSITION_QUANTITY"
  | .missingQuantityAuthority => "REDEMPTION_003_MISSING_QUANTITY_AUTHORITY"
  | .incompleteFactorAuthority => "REDEMPTION_004_INCOMPLETE_FACTOR_AUTHORITY"
  | .invalidFactorTransition => "REDEMPTION_005_INVALID_FACTOR_TRANSITION"
  | .nonPositiveRedeemedQuantity => "REDEMPTION_006_NON_POSITIVE_REDEEMED_QUANTITY"
  | .quantityExceedsPosition => "REDEMPTION_007_QUANTITY_EXCEEDS_POSITION"
  | .fullRedemptionQuantityMismatch => "REDEMPTION_008_FULL_REDEMPTION_QUANTITY_MISMATCH"
  | .partialRedemptionClosesPosition => "REDEMPTION_009_PARTIAL_REDEMPTION_CLOSES_POSITION"
  | .quantityAuthorityMismatch => "REDEMPTION_010_QUANTITY_AUTHORITY_MISMATCH"
  | .nonPositiveRedemptionPrice => "REDEMPTION_011_NON_POSITIVE_REDEMPTION_PRICE"
  | .principalProceedsMismatch => "REDEMPTION_012_PRINCIPAL_PROCEEDS_MISMATCH"
  | .invalidMonetaryInput => "REDEMPTION_013_INVALID_MONETARY_INPUT"
  | .nonPositiveFxRate => "REDEMPTION_014_NON_POSITIVE_FX_RATE"
  | .negativeTotalCashProceeds => "REDEMPTION_015_NEGATIVE_TOTAL_CASH_PROCEEDS"

/-- The exceptions raised by the modelled code. -/
inductive Raised
  /-- `DecimalPrecisionError`: the value of a field does not fit its policy. -/
  | decimalPrecision (fieldName : String) (violation : DecimalPrecisionViolation)
      (policyName : String)
  /-- `ValueError` with its text. -/
  | valueError (message : String)
  /-- `LotRestatementError`, a `ValueError`. -/
  | lotRestatement (message : String)
  /-- `RedemptionCalculationError`, a `ValueError`. -/
  | redemptionCalculation (code : RedemptionCalculationReasonCode) (field message : String)
  /-- `decimal.InvalidOperation` or `decimal.DivisionByZero`: a division by a zero value. -/
  | decimalDivision
  /-- `decimal.Overflow`: a result is beyond the largest exponent of the context. -/
  | decimalOverflow
  /-- `decimal.InvalidOperation`: a quantized value has more digits than the context. -/
  | decimalQuantize
  /-- `RuntimeError` with its text. -/
  | runtimeError (message : String)
  deriving Repr, DecidableEq

namespace Raised

/-- The exceptions an `except ValueError` clause catches. -/
def isValueError : Raised → Bool
  | .decimalDivision | .decimalOverflow | .decimalQuantize | .runtimeError _ => false
  | _ => true

/-- The exceptions an `except LotRestatementError` clause catches. -/
def isLotRestatement : Raised → Bool
  | .lotRestatement _ => true
  | _ => false

/-- The exceptions an `except RedemptionCalculationError` clause catches. -/
def isRedemptionCalculation : Raised → Bool
  | .redemptionCalculation _ _ _ => true
  | _ => false

/-- The text of an exception. -/
def message : Raised → String
  | .decimalPrecision fieldName violation policyName =>
    fieldName ++ " violates Decimal precision policy " ++ policyName ++ ": " ++ violation.value
  | .valueError message => message
  | .lotRestatement message => message
  | .redemptionCalculation code field message => code.value ++ ": " ++ field ++ ": " ++ message
  | .decimalDivision => "[<class 'decimal.DivisionByZero'>]"
  | .decimalOverflow => "[<class 'decimal.Overflow'>]"
  | .decimalQuantize => "[<class 'decimal.InvalidOperation'>]"
  | .runtimeError message => message

end Raised

/-! ## Checks -/

/-- A check of the source: refuse an input that meets a condition. -/
def refuseIf (c : Prop) [Decidable c] (message : String) : Except Raised Unit :=
  if c then .error (.valueError message) else .ok ()

@[simp] theorem refuseIf_eq_ok {c : Prop} [Decidable c] {message : String} :
    refuseIf c message = .ok () ↔ ¬ c := by
  unfold refuseIf
  by_cases h : c
  · simp [h]
  · simp [h]

theorem refuseIf_bind_of_not {α : Type} {c : Prop} [Decidable c] {message : String}
    {next : Unit → Except Raised α} (h : ¬ c) : (refuseIf c message >>= next) = next () := by
  rw [refuseIf_eq_ok.mpr h]
  rfl

theorem refuseIf_bind_eq_ok {α : Type} {c : Prop} [Decidable c] {message : String}
    {next : Unit → Except Raised α} {a : α} :
    (refuseIf c message >>= next) = .ok a ↔ ¬ c ∧ next () = .ok a := by
  by_cases h : c
  · simp [refuseIf, h, bind, Except.bind]
  · rw [refuseIf_bind_of_not h, and_iff_right h]

end LotusCore
