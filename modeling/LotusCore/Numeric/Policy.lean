import LotusCore.Decimal.Share
import LotusCore.Errors
import LotusCore.Exec.Raising

/-!
# Decimal precision policies

The persistence boundary of the ledgers: `DecimalPrecisionPolicy` accepts a value only if the
column holds it exactly, `CalculatedDecimalPolicy` computes in a wide context and rounds the result
once before that test.

* `CalculatedDecimalPolicy.normalize_eq`: the closed form of `normalize`.
* **`CalculatedDecimalPolicy.multiply_round_div`**: multiplying a quantity by the unit cost derived
  from a storable cost gives that cost back.
-/

namespace LotusCore

open Decimal

/-- The smallest exponent of a normal number in a decimal context with default limits. -/
def defaultEmin : ℤ := -999999

/-- The largest exponent of the first digit of a number in such a context. -/
def defaultEmax : ℤ := 999999

/-- A decimal context with default exponent limits. -/
def contextOf (prec : ℕ) (h : 0 < prec) : Context where
  prec := prec
  etiny := defaultEmin - (prec - 1)
  emax := defaultEmax
  prec_pos := h

/-- The context of arithmetic done outside every policy. -/
def ambientContext : Context := contextOf 28 (by norm_num)

/-! ## Exact boundaries -/

/-- A bounded number column: total digits and fractional digits. -/
structure DecimalPrecisionPolicy where
  name : String
  precision : ℕ
  scale : ℕ
  precision_pos : 0 < precision
  scale_le : scale ≤ precision

namespace DecimalPrecisionPolicy

variable (p : DecimalPrecisionPolicy)

/-- The column holds values strictly below this bound. -/
def bound : ℚ := 10 ^ (p.precision - p.scale)

/-- The column holds `x` exactly. -/
def Storable (x : ℚ) : Prop := OnGrid p.scale x ∧ |x| < p.bound
  deriving Decidable

/-- Accept a value the column holds exactly, and say why another one is refused. -/
def requireExact (value : ℚ) (fieldName : String) : Except Raised ℚ :=
  if ¬ OnGrid p.scale value then .error (.decimalPrecision fieldName .excessScale p.name)
  else if p.bound ≤ |value| then .error (.decimalPrecision fieldName .magnitudeOverflow p.name)
  else .ok value

theorem bound_pos : 0 < p.bound := pow_pos (by norm_num) _

theorem one_le_bound : 1 ≤ p.bound := one_le_pow₀ (by norm_num)

theorem bound_eq_zpow : p.bound = 10 ^ ((p.precision : ℤ) - p.scale) := by
  rw [bound, ← Nat.cast_sub p.scale_le, zpow_natCast]

/-- An error of relative size `10 ^ k` on a stored value is far below half a quantum. -/
theorem bound_mul_ten_zpow_le {k : ℤ} (h : (p.precision : ℤ) + k ≤ -2) :
    p.bound * 10 ^ k ≤ 10 ^ (-(p.scale : ℤ)) / 16 := by
  have hle : p.bound * 10 ^ k ≤ 10 ^ (-(p.scale : ℤ)) * 10 ^ (-2 : ℤ) := by
    rw [p.bound_eq_zpow, ← zpow_add₀ (by norm_num), ← zpow_add₀ (by norm_num)]
    exact zpow_le_zpow_right₀ (by norm_num) (by omega)
  have hpos := ten_zpow_pos (-(p.scale : ℤ))
  have h2 : (10 : ℚ) ^ (-2 : ℤ) = 1 / 100 := by norm_num
  rw [h2] at hle
  linarith

variable {p} {x y : ℚ}

theorem Storable.onGrid (h : p.Storable x) : OnGrid p.scale x := h.1

theorem Storable.lt_bound (h : p.Storable x) : x < p.bound := (le_abs_self x).trans_lt h.2

theorem Storable.zero : p.Storable 0 := ⟨OnGrid.zero _, by simpa using p.bound_pos⟩

theorem Storable.neg (h : p.Storable x) : p.Storable (-x) := ⟨h.1.neg, by simpa using h.2⟩

theorem Storable.of_le (hx : OnGrid p.scale x) (h0 : 0 ≤ x) (hxy : x ≤ y) (hy : p.Storable y) :
    p.Storable x :=
  ⟨hx, by rw [abs_of_nonneg h0]; exact hxy.trans_lt hy.lt_bound⟩

theorem Storable.sub (hx : p.Storable x) (hy : p.Storable y) (h0 : 0 ≤ x) (h1 : 0 ≤ y) :
    p.Storable (x - y) := by
  refine ⟨hx.1.sub hy.1, abs_lt.mpr ⟨?_, ?_⟩⟩
  · have := hy.lt_bound; linarith
  · have := hx.lt_bound; linarith

theorem Storable.min (hx : p.Storable x) (hy : p.Storable y) : p.Storable (min x y) := by
  rcases min_choice x y with h | h <;> rw [h] <;> assumption

end DecimalPrecisionPolicy

/-! ## Calculated values -/

/-- A column together with the wide context its values are calculated in. -/
structure CalculatedDecimalPolicy where
  persistence : DecimalPrecisionPolicy
  workingPrecision : ℕ
  working_ge : persistence.precision * 2 ≤ workingPrecision

namespace CalculatedDecimalPolicy

variable (p : CalculatedDecimalPolicy)

/-- The context `arithmetic_context` enters. -/
def arithmeticContext : Context :=
  contextOf p.workingPrecision (by have := p.persistence.precision_pos; have := p.working_ge; omega)

/-- The result of one operation inside `arithmetic_context`. -/
def round (x : ℚ) : ℚ := p.arithmeticContext.round x

/-- Round a derived value once, then require that the column holds it. -/
def normalize (value : ℚ) (fieldName : String) : Except Raised ℚ :=
  match p.persistence.requireExact value fieldName with
  | .error (.decimalPrecision _ .excessScale _) =>
    p.persistence.requireExact (quantize p.persistence.scale value) fieldName
  | r => r

/-- Add in the wide context and normalize. -/
def add (left right : ℚ) (fieldName : String) : Except Raised ℚ :=
  p.normalize (p.round (left + right)) fieldName

/-- Subtract in the wide context and normalize. -/
def subtract (left right : ℚ) (fieldName : String) : Except Raised ℚ :=
  p.normalize (p.round (left - right)) fieldName

/-- Multiply in the wide context and normalize. -/
def multiply (left right : ℚ) (fieldName : String) : Except Raised ℚ :=
  p.normalize (p.round (left * right)) fieldName

/-- The column of the policy holds `x` exactly. -/
abbrev Storable (x : ℚ) : Prop := p.persistence.Storable x

/-- The error `normalize` raises for a value beyond the column. -/
def overflow (fieldName : String) : Raised :=
  .decimalPrecision fieldName .magnitudeOverflow p.persistence.name

theorem normalize_eq (x : ℚ) (f : String) :
    p.normalize x f =
      if |quantize p.persistence.scale x| < p.persistence.bound
      then .ok (quantize p.persistence.scale x) else .error (p.overflow f) := by
  unfold normalize DecimalPrecisionPolicy.requireExact
  by_cases h1 : OnGrid p.persistence.scale x
  · rw [if_neg (not_not.mpr h1), quantize_of_onGrid h1]
    by_cases h2 : p.persistence.bound ≤ |x|
    · rw [if_pos h2, if_neg (not_lt.mpr h2)]; rfl
    · rw [if_neg h2, if_pos (not_le.mp h2)]
  · rw [if_pos h1]
    have hq := onGrid_quantize p.persistence.scale x
    simp only [if_neg (not_not.mpr hq)]
    by_cases h2 : p.persistence.bound ≤ |quantize p.persistence.scale x|
    · rw [if_pos h2, if_neg (not_lt.mpr h2)]; rfl
    · rw [if_neg h2, if_pos (not_le.mp h2)]

theorem normalize_eq_ok {x y : ℚ} {f : String} :
    p.normalize x f = .ok y ↔ y = quantize p.persistence.scale x ∧ p.Storable y := by
  rw [normalize_eq]
  constructor
  · intro h
    split_ifs at h with hb
    cases h
    exact ⟨rfl, onGrid_quantize _ _, hb⟩
  · rintro ⟨rfl, -, hb⟩
    rw [if_pos hb]

variable {p} {x y z : ℚ} {f : String}

theorem storable_of_normalize (h : p.normalize x f = .ok y) : p.Storable y :=
  (p.normalize_eq_ok.mp h).2

theorem round_of_onGrid (hx : OnGrid p.persistence.scale x)
    (hb : |x| < 2 * p.persistence.bound) : p.round x = x := by
  have hw := p.working_ge
  have hpos := p.persistence.precision_pos
  have hs := p.persistence.scale_le
  refine Context.round_of_onGrid p.arithmeticContext (d := p.persistence.precision + 1) hx ?_ ?_ ?_
  · refine hb.trans_le ?_
    rw [p.persistence.bound_eq_zpow]
    have he : ((p.persistence.precision + 1 : ℕ) : ℤ) - (p.persistence.scale : ℤ) =
        1 + ((p.persistence.precision : ℤ) - p.persistence.scale) := by push_cast; ring
    rw [he, zpow_add₀ (by norm_num), zpow_one]
    have := ten_zpow_pos ((p.persistence.precision : ℤ) - p.persistence.scale)
    linarith
  · show p.persistence.precision + 1 ≤ p.workingPrecision
    omega
  · show defaultEmin - ((p.workingPrecision : ℤ) - 1) ≤ -(p.persistence.scale : ℤ)
    unfold defaultEmin
    omega

theorem add_of_storable (hx : p.Storable x) (hy : p.Storable y) :
    p.add x y f =
      if |x + y| < p.persistence.bound then .ok (x + y) else .error (p.overflow f) := by
  have hg := hx.1.add hy.1
  have hb : |x + y| < 2 * p.persistence.bound := by
    have := abs_add_le x y
    have := hx.2
    have := hy.2
    linarith
  rw [add, round_of_onGrid hg hb, normalize_eq, quantize_of_onGrid hg]

theorem subtract_of_storable (hx : p.Storable x) (hy : p.Storable y) :
    p.subtract x y f =
      if |x - y| < p.persistence.bound then .ok (x - y) else .error (p.overflow f) := by
  have hg := hx.1.sub hy.1
  have hb : |x - y| < 2 * p.persistence.bound := by
    have := abs_sub x y
    have := hx.2
    have := hy.2
    linarith
  rw [subtract, round_of_onGrid hg hb, normalize_eq, quantize_of_onGrid hg]

theorem add_eq_ok (hx : p.Storable x) (hy : p.Storable y) :
    p.add x y f = .ok z ↔ z = x + y ∧ p.Storable z := by
  rw [add_of_storable hx hy]
  constructor
  · intro h
    split_ifs at h with hb
    cases h
    exact ⟨rfl, hx.1.add hy.1, hb⟩
  · rintro ⟨rfl, -, hb⟩
    rw [if_pos hb]

theorem subtract_eq_ok (hx : p.Storable x) (hy : p.Storable y) :
    p.subtract x y f = .ok z ↔ z = x - y ∧ p.Storable z := by
  rw [subtract_of_storable hx hy]
  constructor
  · intro h
    split_ifs at h with hb
    cases h
    exact ⟨rfl, hx.1.sub hy.1, hb⟩
  · rintro ⟨rfl, -, hb⟩
    rw [if_pos hb]

/-- The difference of two nonnegative storable values never overflows. -/
theorem subtract_of_nonneg (hx : p.Storable x) (hy : p.Storable y) (h0 : 0 ≤ x) (h1 : 0 ≤ y) :
    p.subtract x y f = .ok (x - y) :=
  (subtract_eq_ok hx hy).mpr ⟨rfl, hx.sub hy h0 h1⟩

/-- **Recomposition.** A quantity times the unit cost derived from a storable cost is that cost. -/
theorem multiply_round_div (hp : 3 ≤ p.persistence.precision) (hx : p.Storable x)
    (hy : 0 < y) (hyb : y ≤ p.persistence.bound) :
    p.multiply y (p.round (x / y)) f = .ok x := by
  have hw := p.working_ge
  have hs := p.persistence.scale_le
  have hq : quantize p.persistence.scale (p.round (y * p.round (x / y))) = x := by
    refine quantize_round_mul_round_div p.arithmeticContext hx.1 hx.2.le hy hyb
      p.persistence.one_le_bound ?_ ?_
    · apply p.persistence.bound_mul_ten_zpow_le
      show (p.persistence.precision : ℤ) + (1 - (p.workingPrecision : ℤ)) ≤ -2
      omega
    · apply p.persistence.bound_mul_ten_zpow_le
      show (p.persistence.precision : ℤ) + (defaultEmin - ((p.workingPrecision : ℤ) - 1)) ≤ -2
      unfold defaultEmin
      omega
  rw [multiply, normalize_eq_ok]
  exact ⟨hq.symm, hx⟩

/-- The value of a product before the overflow test. -/
def product (p : CalculatedDecimalPolicy) (x y : ℚ) : ℚ :=
  quantize p.persistence.scale (p.round (x * y))

theorem multiply_eq_ok : p.multiply x y f = .ok z ↔ z = p.product x y ∧ p.Storable z :=
  p.normalize_eq_ok

theorem product_nonneg (hx : 0 ≤ x) (hy : 0 ≤ y) : 0 ≤ p.product x y :=
  quantize_nonneg (p.arithmeticContext.round_nonneg (mul_nonneg hx hy))

theorem product_mono_left (hx : 0 ≤ x) (hxy : x ≤ y) (hz : 0 ≤ z) :
    p.product x z ≤ p.product y z :=
  quantize_mono _ (p.arithmeticContext.round_mono (mul_nonneg hx hz)
    (mul_le_mul_of_nonneg_right hxy hz))

@[simp] theorem product_zero_left : p.product 0 x = 0 := by
  simp [product, round, quantize]

theorem product_round_div (hp : 3 ≤ p.persistence.precision) (hx : p.Storable x)
    (hy : 0 < y) (hyb : y ≤ p.persistence.bound) : p.product y (p.round (x / y)) = x :=
  (multiply_eq_ok.mp (multiply_round_div (f := "") hp hx hy hyb)).1.symm

end CalculatedDecimalPolicy

/-! ## The policies of the ledgers -/

/-- A policy for an 18 digit column with 10 fractional digits, computed with 64 digits. -/
def ledgerPolicy (name version : String) : CalculatedDecimalPolicy where
  persistence := ⟨name ++ "@" ++ version, 18, 10, by norm_num, by norm_num⟩
  workingPrecision := 64
  working_ge := by norm_num

/-- `TRANSACTION_PERSISTENCE_PRECISION_V1`. -/
def transactionPersistencePrecision : DecimalPrecisionPolicy :=
  ⟨"transaction-persistence-v1", 18, 10, by norm_num, by norm_num⟩

/-- `TRANSACTION_COST_LEDGER_OUTPUT_V1`. -/
abbrev transactionCostLedger : CalculatedDecimalPolicy :=
  ledgerPolicy "transaction-cost-ledger-output" "1.0.0"

/-- `COST_BASIS_STATE_LEDGER_OUTPUT_V1`. -/
abbrev costBasisStateLedger : CalculatedDecimalPolicy :=
  ledgerPolicy "cost-basis-state-ledger-output" "1.0.0"

/-- `canonical_cost_basis_output_payload`: every decimal of a lineage payload must fit the
ledger. -/
def canonicalPayload (payload : List (String × ℚ)) : Except Raised (List ℚ) :=
  payload.mapM fun p => costBasisStateLedger.normalize p.2 p.1

/-- `POSITION_HISTORY_LEDGER_OUTPUT_V1`. -/
abbrev positionHistoryLedger : CalculatedDecimalPolicy :=
  ledgerPolicy "position-history-ledger-output" "1.0.0"

/-- An 18 digit column with 10 fractional digits holds `x` exactly. -/
abbrev Storable (x : ℚ) : Prop := transactionPersistencePrecision.Storable x

theorem storable_zero : Storable 0 := DecimalPrecisionPolicy.Storable.zero

/-- Arithmetic outside every policy is exact where the column holds the result. -/
theorem ambientContext_round_of_storable {x : ℚ} (hx : Storable x) :
    ambientContext.round x = x := by
  refine ambientContext.round_of_onGrid (d := 18) hx.onGrid ?_ ?_ ?_
  · have hb : (10 : ℚ) ^ (((18 : ℕ) : ℤ) - (transactionPersistencePrecision.scale : ℤ)) =
        transactionPersistencePrecision.bound := transactionPersistencePrecision.bound_eq_zpow.symm
    rw [hb]
    exact hx.2
  · show 18 ≤ 28
    norm_num
  · show defaultEmin - (((28 : ℕ) : ℤ) - 1) ≤ -((10 : ℕ) : ℤ)
    norm_num [defaultEmin]

/-- The value of an operation in the 64 digit context of the ledgers. -/
def workingRound (x : ℚ) : ℚ := (ledgerPolicy "" "").round x

/-- The part of `v` that `part` is of `whole`, in that context. -/
def workingShare (v part whole : ℚ) : ℚ := workingRound (workingRound (v * part) / whole)

def extendedCost (quantity unitCost : ℚ) : ℚ := quantize 10 (workingRound (quantity * unitCost))

namespace Ledger

variable {name version : String} {x y z : ℚ} {f : String}

theorem storable_bound (h : Storable x) : |x| < 10 ^ 8 := h.2

theorem storable_iff : Storable x ↔ OnGrid 10 x ∧ |x| < 10 ^ 8 := Iff.rfl

theorem normalize_eq_ok :
    (ledgerPolicy name version).normalize x f = .ok y ↔ y = quantize 10 x ∧ Storable y :=
  (ledgerPolicy name version).normalize_eq_ok

theorem add_eq_ok (hx : Storable x) (hy : Storable y) :
    (ledgerPolicy name version).add x y f = .ok z ↔ z = x + y ∧ Storable z :=
  CalculatedDecimalPolicy.add_eq_ok (p := ledgerPolicy name version) hx hy

theorem subtract_eq_ok (hx : Storable x) (hy : Storable y) :
    (ledgerPolicy name version).subtract x y f = .ok z ↔ z = x - y ∧ Storable z :=
  CalculatedDecimalPolicy.subtract_eq_ok (p := ledgerPolicy name version) hx hy

theorem subtract_of_nonneg (hx : Storable x) (hy : Storable y) (h0 : 0 ≤ x) (h1 : 0 ≤ y) :
    (ledgerPolicy name version).subtract x y f = .ok (x - y) :=
  CalculatedDecimalPolicy.subtract_of_nonneg (p := ledgerPolicy name version) hx hy h0 h1

theorem storable_of_add (h : (ledgerPolicy name version).add x y f = .ok z) : Storable z :=
  CalculatedDecimalPolicy.storable_of_normalize (p := ledgerPolicy name version) h

theorem storable_of_subtract (h : (ledgerPolicy name version).subtract x y f = .ok z) :
    Storable z :=
  CalculatedDecimalPolicy.storable_of_normalize (p := ledgerPolicy name version) h

theorem multiply_eq_ok :
    (ledgerPolicy name version).multiply x y f = .ok z ↔ z = extendedCost x y ∧ Storable z :=
  CalculatedDecimalPolicy.multiply_eq_ok (p := ledgerPolicy name version)

theorem multiply_congr {x' y' : ℚ} (h : extendedCost x' y' = extendedCost x y) :
    (ledgerPolicy name version).multiply x' y' f = (ledgerPolicy name version).multiply x y f := by
  have hq : ∀ a b : ℚ, (ledgerPolicy name version).multiply a b f =
      if |extendedCost a b| < (ledgerPolicy name version).persistence.bound
      then .ok (extendedCost a b) else .error ((ledgerPolicy name version).overflow f) :=
    fun a b => (ledgerPolicy name version).normalize_eq _ f
  rw [hq, hq, h]

theorem extendedCost_nonneg (hx : 0 ≤ x) (hy : 0 ≤ y) : 0 ≤ extendedCost x y :=
  CalculatedDecimalPolicy.product_nonneg (p := ledgerPolicy "" "") hx hy

theorem extendedCost_mono_left (hx : 0 ≤ x) (hxy : x ≤ y) (hz : 0 ≤ z) :
    extendedCost x z ≤ extendedCost y z :=
  CalculatedDecimalPolicy.product_mono_left (p := ledgerPolicy "" "") hx hxy hz

@[simp] theorem extendedCost_zero_left : extendedCost 0 x = 0 :=
  CalculatedDecimalPolicy.product_zero_left (p := ledgerPolicy "" "")

theorem onGrid_extendedCost : OnGrid 10 (extendedCost x y) := onGrid_quantize 10 _

/-- **Recomposition.** A quantity times the unit cost of a storable cost is that cost. -/
theorem extendedCost_div (hx : Storable x) (hy : 0 < y) (hyb : y ≤ 10 ^ 8) :
    extendedCost y (workingRound (x / y)) = x :=
  CalculatedDecimalPolicy.product_round_div (p := ledgerPolicy "" "") (by decide) hx hy hyb

/-- Far larger sums than a column holds are still exact in the context of the ledgers. -/
theorem workingRound_of_onGrid (hx : OnGrid 10 x) (hb : |x| < 10 ^ 54) : workingRound x = x := by
  refine (ledgerPolicy "" "").arithmeticContext.round_of_onGrid (d := 64) hx ?_ ?_ ?_
  · have he : ((64 : ℕ) : ℤ) - ((10 : ℕ) : ℤ) = ((54 : ℕ) : ℤ) := by norm_num
    rw [he, zpow_natCast]
    exact hb
  · show 64 ≤ 64
    norm_num
  · show defaultEmin - (((64 : ℕ) : ℤ) - 1) ≤ -((10 : ℕ) : ℤ)
    norm_num [defaultEmin]

theorem workingRound_neg (x : ℚ) : workingRound (-x) = -workingRound x :=
  (ledgerPolicy "" "").arithmeticContext.round_neg x

theorem workingRound_abs (x : ℚ) : workingRound |x| = |workingRound x| :=
  (ledgerPolicy "" "").arithmeticContext.round_abs x

@[simp] theorem workingRound_workingRound (x : ℚ) :
    workingRound (workingRound x) = workingRound x :=
  (ledgerPolicy "" "").arithmeticContext.round_round x

theorem workingRound_nonneg (hx : 0 ≤ x) : 0 ≤ workingRound x :=
  (ledgerPolicy "" "").arithmeticContext.round_nonneg hx

theorem workingRound_mono (hx : 0 ≤ x) (hxy : x ≤ y) : workingRound x ≤ workingRound y :=
  (ledgerPolicy "" "").arithmeticContext.round_mono hx hxy

/-! ### Shares -/

section Shares

variable {v part part' whole : ℚ}

theorem workingShare_neg : workingShare (-v) part whole = -workingShare v part whole :=
  (ledgerPolicy "" "").arithmeticContext.share_neg

theorem workingShare_nonneg (hv : 0 ≤ v) (hp : 0 ≤ part) (hw : 0 ≤ whole) :
    0 ≤ workingShare v part whole :=
  (ledgerPolicy "" "").arithmeticContext.share_nonneg hv hp hw

/-- The underflow threshold of the context, against a whole far below every ledger value. -/
theorem etiny_le (hw : (10 : ℚ) ^ (-900000 : ℤ) ≤ whole) {s : ℕ} (hs : s ≤ 40) :
    (10 : ℚ) ^ (ledgerPolicy "" "").arithmeticContext.etiny ≤ whole * (10 ^ (-(s : ℤ)) / 16) := by
  have h16 : (10 : ℚ) ^ (-2 : ℤ) ≤ 1 / 16 := by norm_num
  have hs0 := ten_zpow_pos (-(s : ℤ))
  have hw0 := ten_zpow_pos (-900000)
  calc (10 : ℚ) ^ (ledgerPolicy "" "").arithmeticContext.etiny
      ≤ 10 ^ ((-900000 : ℤ) + (-(s : ℤ) + -2)) := by
        refine zpow_le_zpow_right₀ (by norm_num) ?_
        show defaultEmin - (((64 : ℕ) : ℤ) - 1) ≤ _
        unfold defaultEmin
        omega
    _ = 10 ^ (-900000 : ℤ) * (10 ^ (-(s : ℤ)) * 10 ^ (-2 : ℤ)) := by
        rw [zpow_add₀ (by norm_num), zpow_add₀ (by norm_num)]
    _ ≤ 10 ^ (-900000 : ℤ) * (10 ^ (-(s : ℤ)) * (1 / 16)) := by gcongr
    _ ≤ whole * (10 ^ (-(s : ℤ)) / 16) := by
        rw [mul_one_div]
        exact mul_le_mul_of_nonneg_right hw (by positivity)

theorem small_le_one : (10 : ℚ) ^ (-900000 : ℤ) ≤ 1 :=
  zpow_le_one_of_nonpos₀ (by norm_num) (by norm_num)

theorem precision_le {s : ℕ} (hs : s ≤ 40) :
    (10 : ℚ) ^ 8 * 10 ^ (1 - ((ledgerPolicy "" "").arithmeticContext.prec : ℤ)) ≤
      10 ^ (-(s : ℤ)) / 16 := by
  have h16 : (10 : ℚ) ^ (-2 : ℤ) ≤ 1 / 16 := by norm_num
  have hs0 := ten_zpow_pos (-(s : ℤ))
  calc (10 : ℚ) ^ 8 * 10 ^ (1 - ((ledgerPolicy "" "").arithmeticContext.prec : ℤ))
      = 10 ^ (8 : ℤ) * 10 ^ (-63 : ℤ) := rfl
    _ = 10 ^ (-55 : ℤ) := by rw [← zpow_add₀ (by norm_num)]; norm_num
    _ ≤ 10 ^ (-(s : ℤ) + -2) := zpow_le_zpow_right₀ (by norm_num) (by omega)
    _ = 10 ^ (-(s : ℤ)) * 10 ^ (-2 : ℤ) := zpow_add₀ (by norm_num) _ _
    _ ≤ 10 ^ (-(s : ℤ)) * (1 / 16) := by gcongr
    _ = 10 ^ (-(s : ℤ)) / 16 := mul_one_div _ _

theorem abs_mul_div_le (hv : |v| ≤ 10 ^ 8) (hp : 0 ≤ part) (hle : part ≤ whole) (hw : 0 < whole) :
    |v * part / whole| ≤ 10 ^ 8 := by
  rw [mul_div_assoc, abs_mul, abs_of_nonneg (div_nonneg hp hw.le)]
  exact (mul_le_of_le_one_right (abs_nonneg v) ((div_le_one hw).mpr hle)).trans hv

/-- The relative error of a product with a part of a whole, against the whole. -/
theorem abs_mul_precision_le (hv : |v| ≤ 10 ^ 8) (hp : 0 ≤ part) (hle : part ≤ whole) {s : ℕ}
    (hs : s ≤ 40) :
    |v * part| * 10 ^ (1 - ((ledgerPolicy "" "").arithmeticContext.prec : ℤ)) ≤
      whole * (10 ^ (-(s : ℤ)) / 16) := by
  have hprod : |v * part| ≤ whole * 10 ^ 8 := by
    rw [abs_mul, abs_of_nonneg hp, mul_comm]
    exact mul_le_mul hle hv (abs_nonneg v) (hp.trans hle)
  have hrel := mul_le_mul_of_nonneg_right hprod
    (ten_zpow_pos (1 - ((ledgerPolicy "" "").arithmeticContext.prec : ℤ))).le
  rw [mul_assoc] at hrel
  exact hrel.trans (mul_le_mul_of_nonneg_left (precision_le hs) (hp.trans hle))

/-- A product with a part of a whole that is far above the underflow threshold. -/
theorem abs_workingRound_mul_sub_le (hv : |v| ≤ 10 ^ 8) (hp : 0 ≤ part) (hle : part ≤ whole)
    (hw : (10 : ℚ) ^ (-900000 : ℤ) ≤ whole) {s : ℕ} (hs : s ≤ 40) :
    |workingRound (v * part) - v * part| ≤ whole * (10 ^ (-(s : ℤ)) / 16) := by
  have h : |workingRound (v * part) - v * part| ≤ _ :=
    (ledgerPolicy "" "").arithmeticContext.abs_round_sub_le (v * part)
  have hrel := abs_mul_precision_le hv hp hle hs
  have htiny := etiny_le hw hs
  linarith

theorem abs_workingShare_sub_le (hv : |v * part / whole| ≤ 10 ^ 8) (hw : 0 < whole)
    (hprod : |workingRound (v * part) - v * part| ≤ whole * (10 ^ (-((40 : ℕ) : ℤ)) / 16)) :
    |workingShare v part whole - v * part / whole| ≤ 1 / 10 ^ 40 := by
  have htiny := etiny_le small_le_one (le_refl 40)
  rw [one_mul] at htiny
  refine ((ledgerPolicy "" "").arithmeticContext.abs_share_sub_le hv (by norm_num) hw
    (by norm_num) (precision_le le_rfl) htiny hprod).trans ?_
  norm_num

/-- A rounded share of a ledger amount is within one unit of the exact share. -/
theorem abs_quantize_workingShare_sub_le (hv : |v| ≤ 10 ^ 8) (hp : 0 ≤ part) (hle : part ≤ whole)
    (hw : (10 : ℚ) ^ (-900000 : ℤ) ≤ whole) :
    |quantize 10 (workingShare v part whole) - v * part / whole| ≤ 1 / 10 ^ 10 := by
  have hpos : 0 < whole := (ten_zpow_pos _).trans_le hw
  have hshare := abs_workingShare_sub_le (abs_mul_div_le hv hp hle hpos) hpos
    (abs_workingRound_mul_sub_le hv hp hle hw le_rfl)
  have hround := abs_quantize_sub_le 10 (workingShare v part whole)
  have htri := abs_sub_le (quantize 10 (workingShare v part whole)) (workingShare v part whole)
    (v * part / whole)
  norm_num at hshare hround ⊢
  linarith

/-- An extended cost the ledger holds is within one unit of the exact product. -/
theorem abs_extendedCost_sub_le (h : Storable (extendedCost x y)) :
    |extendedCost x y - x * y| ≤ 1 / 10 ^ 10 := by
  have hbound : |extendedCost x y| < 10 ^ 8 := h.2
  have hround : |workingRound (x * y) - x * y| ≤ _ :=
    (ledgerPolicy "" "").arithmeticContext.abs_round_sub_le (x * y)
  have hquantize := abs_quantize_sub_le 10 (workingRound (x * y))
  have hprec : (10 : ℚ) ^ (1 - ((ledgerPolicy "" "").arithmeticContext.prec : ℤ)) =
      1 / 10 ^ 63 := by
    show (10 : ℚ) ^ (1 - ((64 : ℕ) : ℤ)) = _
    norm_num
  have htiny := etiny_le small_le_one (le_refl 40)
  unfold extendedCost at *
  rw [hprec] at hround
  generalize (ledgerPolicy "" "").arithmeticContext.etiny = e at hround htiny
  set z := x * y
  set r := workingRound z
  -- the result is a ledger amount, so the product is not much larger
  have hz : |z| ≤ 10 ^ 9 := by
    have h1 := abs_sub_abs_le_abs_sub z r
    have h2 := abs_sub_abs_le_abs_sub r (quantize 10 r)
    rw [abs_sub_comm] at h1 h2
    norm_num at *
    linarith
  have htri := abs_sub_le (quantize 10 r) r z
  norm_num at *
  linarith

/-- A rounded share of a storable value is nonnegative and at most the value. -/
theorem quantize_workingShare_le_of_product (hv : Storable v) (hv0 : 0 ≤ v) (hp : 0 ≤ part)
    (hle : part ≤ whole) (hw : 0 < whole)
    (hprod : |workingRound (v * whole) - v * whole| ≤ whole * (10 ^ (-((10 : ℕ) : ℤ)) / 16)) :
    0 ≤ quantize 10 (workingShare v part whole) ∧
      quantize 10 (workingShare v part whole) ≤ v := by
  have htiny := etiny_le small_le_one (by norm_num : 10 ≤ 40)
  rw [one_mul] at htiny
  exact (ledgerPolicy "" "").arithmeticContext.quantize_share_le (storable_iff.mp hv).1 hv0
    (storable_bound hv).le (by norm_num) hp hle hw (precision_le (by norm_num)) htiny hprod

end Shares

end Ledger

end LotusCore
