import LotusCore.Errors
import Mathlib.Data.List.DropRight

/-!
# Transaction types and control codes

The closed registry of transaction types with the attributes the calculations read, the ranks that
order linked corporate-action legs, and the text normalization every reader applies to a code.
-/

namespace LotusCore

open List

/-! ## Text -/

variable (c : Char)

/-- The characters `str.strip` removes. -/
def isSpace : Bool :=
  (9 ≤ c.toNat && c.toNat ≤ 13) || (28 ≤ c.toNat && c.toNat ≤ 32) || c.toNat == 133 ||
    c.toNat == 160 || c.toNat == 5760 || (8192 ≤ c.toNat && c.toNat ≤ 8202) ||
    c.toNat == 8232 || c.toNat == 8233 || c.toNat == 8239 || c.toNat == 8287 || c.toNat == 12288

variable (l : List Char)

/-- `str.strip` on characters. -/
def stripChars : List Char :=
  ((l.dropWhile isSpace).reverse.dropWhile isSpace).reverse

variable (s : String)

/-- `str.strip`. -/
def strip : String := String.ofList (stripChars s.toList)

/-- The texts on which `upper` and `lower` are those of Python: `str.upper` also changes letters of
other alphabets, `é` to `É` and `ß` to `SS`. -/
def IsAscii : Prop := ∀ c ∈ s.toList, c.toNat < 128

instance : Decidable (IsAscii s) := List.decidableBAll ..

/-- `str.upper` of an ASCII text; a text with other letters keeps these. -/
def upper : String := String.ofList (s.toList.map Char.toUpper)

/-- `str.lower` of an ASCII text; a text with other letters keeps these. -/
def lower : String := String.ofList (s.toList.map Char.toLower)

/-- `normalize_currency_code`, with the letters of ASCII: `str.isalpha` accepts those of other
alphabets too, which no code of ISO 4217 has. -/
def normalizeCurrencyCode (currencyCode : String) : Except Raised String :=
  let normalized := upper (strip currencyCode)
  if normalized.toList.length = 3 ∧ normalized.toList.all Char.isAlpha then .ok normalized
  else .error (.valueError "Currency code must be a three-letter ISO 4217 code.")

/-- `normalize_transaction_control_code`: the upper-case code, empty when there is none. -/
@[irreducible] def normalizeTransactionControlCode (value : Option String) : String :=
  upper (strip (value.getD ""))

theorem stripChars_eq_nil {l : List Char} : stripChars l = [] ↔ ∀ c ∈ l, isSpace c := by
  unfold stripChars
  rw [reverse_eq_nil_iff, dropWhile_eq_nil_iff]
  constructor
  · intro h
    by_contra hc
    have hne : l.dropWhile isSpace ≠ [] := by
      rw [ne_eq, dropWhile_eq_nil_iff]
      exact hc
    have hhead := h _ (mem_reverse.mpr (head_mem hne))
    rw [head_dropWhile_not isSpace hne] at hhead
    exact Bool.false_ne_true hhead
  · intro h c hc
    exact h c ((dropWhile_suffix _).mem (mem_reverse.mp hc))

theorem strip_eq_empty {s : String} : strip s = "" ↔ ∀ c ∈ s.toList, isSpace c := by
  rw [← stripChars_eq_nil, strip, ← String.toList_inj, String.toList_ofList, String.toList_empty]

theorem stripChars_stripChars : stripChars (stripChars l) = stripChars l := by
  have hdrop : ∀ m : List Char, m.dropWhile isSpace = m →
      (m.reverse.dropWhile isSpace).reverse.dropWhile isSpace =
        (m.reverse.dropWhile isSpace).reverse := by
    intro m hm
    cases m with
    | nil => rfl
    | cons a t =>
      have ha : isSpace a = false := by
        by_contra ha
        rw [dropWhile_cons_of_pos (by simpa using ha)] at hm
        exact absurd (congrArg List.length hm)
          (ne_of_lt (Nat.lt_succ_of_le (dropWhile_suffix _).length_le))
      -- the first character is kept from the right as well
      have hkeep : ∃ u, ((a :: t).reverse.dropWhile isSpace).reverse = a :: u := by
        rw [reverse_cons, dropWhile_append]
        split_ifs with hall
        · exact ⟨[], by simp [ha]⟩
        · exact ⟨(t.reverse.dropWhile isSpace).reverse, by simp⟩
      obtain ⟨u, hu⟩ := hkeep
      rw [hu, dropWhile_cons_of_neg (by simp [ha])]
  have hleft := hdrop _ (dropWhile_idempotent isSpace l)
  unfold stripChars
  rw [hleft, reverse_reverse, dropWhile_idempotent]

theorem strip_strip : strip (strip s) = strip s := by
  rw [strip, strip, String.toList_ofList, stripChars_stripChars]

/-- `TRIM`, which removes blanks only. -/
def sqlTrim : String :=
  String.ofList (((s.toList.dropWhile (· = ' ')).reverse.dropWhile (· = ' ')).reverse)

/-- How far an upper-case letter stands before the lower-case one. -/
theorem toNat_shift {c : Char} (hlow : 97 ≤ c.toNat) (hhigh : c.toNat ≤ 122) :
    (c.val + ('A'.val - 'a'.val)).toNat = c.toNat - 32 := by
  have hdist : ('A'.val - 'a'.val).toNat = 4294967264 := by decide
  rw [c.val.toNat_add, hdist]
  show (c.toNat + _) % _ = _
  omega

theorem isSpace_toUpper : isSpace c.toUpper = isSpace c := by
  unfold Char.toUpper
  split
  · rename_i h
    have hlow : 97 ≤ c.toNat := h.1
    have hhigh : c.toNat ≤ 122 := h.2
    have hshift := toNat_shift hlow hhigh
    unfold isSpace
    simp only [Char.toNat] at *
    simp only [hshift]
    grind
  · rfl

theorem stripChars_map_toUpper :
    stripChars (l.map Char.toUpper) = (stripChars l).map Char.toUpper := by
  have hspace : isSpace ∘ Char.toUpper = isSpace := funext isSpace_toUpper
  simp only [stripChars, dropWhile_map, hspace, ← map_reverse]

theorem toUpper_toUpper : c.toUpper.toUpper = c.toUpper := by
  unfold Char.toUpper
  split
  · rename_i h
    have hlow : 97 ≤ c.toNat := h.1
    have hhigh : c.toNat ≤ 122 := h.2
    split
    · rename_i h'
      have hagain : 97 ≤ (c.val + ('A'.val - 'a'.val)).toNat := h'.1
      rw [toNat_shift hlow hhigh] at hagain
      omega
    · rfl
  · rfl

theorem upper_strip_upper_strip : upper (strip (upper (strip s))) = upper (strip s) := by
  have hup : Char.toUpper ∘ Char.toUpper = Char.toUpper := funext toUpper_toUpper
  simp only [upper, strip, String.toList_ofList, stripChars_map_toUpper, stripChars_stripChars,
    map_map, hup]

/-- A code that is not blank is still not blank after another `str.strip`. -/
theorem strip_upper_strip_ne {s : String} (h : upper (strip s) ≠ "") :
    strip (upper (strip s)) ≠ "" := by
  intro hblank
  apply h
  have hchars : ∀ c ∈ stripChars s.toList, isSpace c := by
    have hnil : stripChars ((stripChars s.toList).map Char.toUpper) = [] := by
      simpa [strip, upper] using hblank
    intro c hc
    rw [← isSpace_toUpper]
    exact stripChars_eq_nil.mp hnil _ (mem_map_of_mem hc)
  -- the last character that is left is no space, so there is none
  have hnil : stripChars s.toList = [] := by
    by_contra hne
    have hdrop : (s.toList.dropWhile isSpace).reverse.dropWhile isSpace ≠ [] := fun hnil =>
      hne (reverse_eq_nil_iff.mpr hnil)
    have hlast := hchars _ (mem_reverse.mpr (head_mem hdrop))
    rw [head_dropWhile_not isSpace hdrop] at hlast
    exact Bool.false_ne_true hlast
  simp [upper, strip, hnil]

/-! ## Time -/

/-- A `datetime`: its instant, read in UTC if it names no zone, and whether it names one. -/
structure Timestamp where
  instant : ℤ
  aware : Bool
  deriving DecidableEq

def dayLength : ℤ := 86400000000

def utcDate (instant : ℤ) : ℤ := instant / dayLength

def startOfDay (day : ℤ) : ℤ := day * dayLength

def startOfNextDay (day : ℤ) : ℤ := (day + 1) * dayLength

/-! ## The registry -/

/-- The registered transaction types, in their normalized spelling, and any other code. -/
inductive TransactionType
  | buy | sell | fxSpot | fxForward | fxSwap | interest | dividend | deposit | withdrawal | fee
  | tax | transferIn | transferOut | mergerOut | mergerIn | exchangeOut | exchangeIn
  | replacementOut | replacementIn | spinOff | spinIn | demergerOut | demergerIn
  | cashConsideration | cashInLieu | maturityRedemption | callRedemption | partialRedemption
  | split | reverseSplit | consolidation | bonusIssue | stockDividend | rightsAnnounce
  | rightsAllocate | rightsExpire | rightsAdjustment | rightsSell | rightsSubscribe
  | rightsOversubscribe | rightsRefund | rightsShareDelivery | adjustment | fxCashSettlementBuy
  | fxCashSettlementSell | other | amortization | accretion | conversionEvent | conversionOut
  | conversionIn | exerciseOut | exerciseIn | strikePayment
  | unregistered (code : String)
  deriving Repr, DecidableEq

/-- How a type moves the position. -/
inductive PositionEffect
  | increase | decrease | none | cashIncrease | cashDecrease | mixed | unknown
  | targetModelRequired
  deriving Repr, DecidableEq

/-- How a type settles. -/
inductive SettlementBehavior
  | requiresCashLeg | cashAccountRequired | notApplicable | conditional | unknown
  | targetModelRequired
  deriving Repr, DecidableEq

/-- How far the calculations support a type. -/
inductive CalculationSupportStatus
  | supported | limited | defaultStrategy | internalGenerated | targetNotImplemented
  | migrationOnly
  deriving Repr, DecidableEq

def CalculationSupportStatus.value : CalculationSupportStatus → String
  | .supported => "supported"
  | .limited => "limited"
  | .defaultStrategy => "default_strategy"
  | .internalGenerated => "internal_generated"
  | .targetNotImplemented => "target_not_implemented"
  | .migrationOnly => "migration_only"

/-- The registry attributes the modelled calculations read. -/
structure TransactionTypeDefinition where
  positionEffect : PositionEffect
  settlementBehavior : SettlementBehavior
  calculationSupportStatus : CalculationSupportStatus
  productionBookingAllowed : Bool
  deriving Repr, DecidableEq

namespace TransactionType

def code : TransactionType → String
  | .buy => "BUY"
  | .sell => "SELL"
  | .fxSpot => "FX_SPOT"
  | .fxForward => "FX_FORWARD"
  | .fxSwap => "FX_SWAP"
  | .interest => "INTEREST"
  | .dividend => "DIVIDEND"
  | .deposit => "DEPOSIT"
  | .withdrawal => "WITHDRAWAL"
  | .fee => "FEE"
  | .tax => "TAX"
  | .transferIn => "TRANSFER_IN"
  | .transferOut => "TRANSFER_OUT"
  | .mergerOut => "MERGER_OUT"
  | .mergerIn => "MERGER_IN"
  | .exchangeOut => "EXCHANGE_OUT"
  | .exchangeIn => "EXCHANGE_IN"
  | .replacementOut => "REPLACEMENT_OUT"
  | .replacementIn => "REPLACEMENT_IN"
  | .spinOff => "SPIN_OFF"
  | .spinIn => "SPIN_IN"
  | .demergerOut => "DEMERGER_OUT"
  | .demergerIn => "DEMERGER_IN"
  | .cashConsideration => "CASH_CONSIDERATION"
  | .cashInLieu => "CASH_IN_LIEU"
  | .maturityRedemption => "MATURITY_REDEMPTION"
  | .callRedemption => "CALL_REDEMPTION"
  | .partialRedemption => "PARTIAL_REDEMPTION"
  | .split => "SPLIT"
  | .reverseSplit => "REVERSE_SPLIT"
  | .consolidation => "CONSOLIDATION"
  | .bonusIssue => "BONUS_ISSUE"
  | .stockDividend => "STOCK_DIVIDEND"
  | .rightsAnnounce => "RIGHTS_ANNOUNCE"
  | .rightsAllocate => "RIGHTS_ALLOCATE"
  | .rightsExpire => "RIGHTS_EXPIRE"
  | .rightsAdjustment => "RIGHTS_ADJUSTMENT"
  | .rightsSell => "RIGHTS_SELL"
  | .rightsSubscribe => "RIGHTS_SUBSCRIBE"
  | .rightsOversubscribe => "RIGHTS_OVERSUBSCRIBE"
  | .rightsRefund => "RIGHTS_REFUND"
  | .rightsShareDelivery => "RIGHTS_SHARE_DELIVERY"
  | .adjustment => "ADJUSTMENT"
  | .fxCashSettlementBuy => "FX_CASH_SETTLEMENT_BUY"
  | .fxCashSettlementSell => "FX_CASH_SETTLEMENT_SELL"
  | .other => "OTHER"
  | .amortization => "AMORTIZATION"
  | .accretion => "ACCRETION"
  | .conversionEvent => "CONVERSION_EVENT"
  | .conversionOut => "CONVERSION_OUT"
  | .conversionIn => "CONVERSION_IN"
  | .exerciseOut => "EXERCISE_OUT"
  | .exerciseIn => "EXERCISE_IN"
  | .strikePayment => "STRIKE_PAYMENT"
  | .unregistered c => c

/-- `get_transaction_type_definition`. -/
def definition : TransactionType → Option TransactionTypeDefinition
  | .buy => some ⟨.increase, .requiresCashLeg, .supported, true⟩
  | .sell | .cashInLieu | .maturityRedemption | .callRedemption | .partialRedemption
  | .rightsSell | .rightsSubscribe | .rightsOversubscribe =>
    some ⟨.decrease, .requiresCashLeg, .supported, true⟩
  | .fxSpot | .fxForward | .fxSwap | .interest | .dividend | .cashConsideration | .rightsRefund =>
    some ⟨.none, .requiresCashLeg, .supported, true⟩
  | .deposit => some ⟨.cashIncrease, .cashAccountRequired, .supported, true⟩
  | .withdrawal => some ⟨.cashDecrease, .cashAccountRequired, .supported, true⟩
  | .fee | .tax => some ⟨.cashDecrease, .cashAccountRequired, .limited, true⟩
  | .transferIn | .mergerIn | .exchangeIn | .replacementIn | .spinIn | .demergerIn | .split
  | .bonusIssue | .stockDividend | .rightsAllocate | .rightsShareDelivery =>
    some ⟨.increase, .notApplicable, .supported, true⟩
  | .transferOut | .mergerOut | .exchangeOut | .replacementOut | .spinOff | .demergerOut
  | .reverseSplit | .consolidation | .rightsExpire =>
    some ⟨.decrease, .notApplicable, .supported, true⟩
  | .rightsAnnounce | .rightsAdjustment => some ⟨.none, .notApplicable, .defaultStrategy, true⟩
  | .adjustment => some ⟨.mixed, .conditional, .defaultStrategy, true⟩
  | .fxCashSettlementBuy => some ⟨.cashIncrease, .cashAccountRequired, .internalGenerated, false⟩
  | .fxCashSettlementSell => some ⟨.cashDecrease, .cashAccountRequired, .internalGenerated, false⟩
  | .other => some ⟨.unknown, .unknown, .migrationOnly, false⟩
  | .amortization | .accretion | .conversionEvent | .conversionOut | .conversionIn | .exerciseOut
  | .exerciseIn | .strikePayment =>
    some ⟨.targetModelRequired, .targetModelRequired, .targetNotImplemented, false⟩
  | .unregistered _ => none

/-- `is_production_booking_transaction_type`. -/
def isProductionBooking (t : TransactionType) : Bool :=
  match t.definition with
  | some d => d.productionBookingAllowed
  | none => false

/-- `corporate_action_dependency_rank`: source legs first, restatements last. -/
def dependencyRank : TransactionType → ℤ
  | .spinOff | .demergerOut | .rightsAnnounce | .rightsAllocate => 0
  | .spinIn | .demergerIn | .rightsSubscribe | .rightsOversubscribe | .rightsSell | .rightsExpire
  | .rightsAdjustment => 1
  | .cashConsideration | .rightsShareDelivery => 2
  | .rightsRefund => 3
  | .split | .reverseSplit | .consolidation | .bonusIssue | .stockDividend => 5
  | _ => 4

/-- `SAME_INSTRUMENT_CORPORATE_ACTION_TYPES`. -/
def isSameInstrumentCorporateAction : TransactionType → Bool
  | .split | .reverseSplit | .consolidation | .bonusIssue | .stockDividend => true
  | _ => false

/-- `CASH_INFLOW_TRANSACTION_TYPES`. -/
def isCashInflow : TransactionType → Bool
  | .deposit | .transferIn | .mergerIn | .exchangeIn | .replacementIn | .buy => true
  | _ => false

/-- `CASH_OUTFLOW_TRANSACTION_TYPES`. -/
def isCashOutflow : TransactionType → Bool
  | .sell | .withdrawal | .fee | .tax | .transferOut => true
  | _ => false

end TransactionType

/-! ## Instrument classification -/

/-- `is_cash_instrument`: either authoritative code says so. -/
def isCashInstrument (productType assetClass : Option String) : Bool :=
  normalizeTransactionControlCode productType == "CASH" ||
    normalizeTransactionControlCode assetClass == "CASH"

/-- The sequence given to a leg without an explicit hint. -/
def defaultChildSequence : ℤ := 2147483647

/-! ## Cashflows -/

/-- `CashflowClassification`, and the codes a rule may carry besides. -/
inductive CashflowClassification
  | fxBuy
  | fxSell
  | investmentOutflow
  | investmentInflow
  | corporateActionProceeds
  | income
  | expense
  | cashflowIn
  | cashflowOut
  | internal
  | transfer
  | other (code : String)
  deriving DecidableEq, Repr

/-- `_CLASSIFICATION_SIGN_FACTORS`: the classifications with a positive sign. -/
def CashflowClassification.isPositive : CashflowClassification → Bool
  | .fxBuy | .investmentInflow | .corporateActionProceeds | .income | .cashflowIn => true
  | _ => false

end LotusCore
