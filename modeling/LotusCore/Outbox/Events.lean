import LotusCore.Data.Table
import Mathlib

/-!
# Outbox events

A dispatcher claims pending rows of `outbox_events`, publishes them and records what the broker
reported. A claim is a token with an expiry in database time; every later write is fenced by both.
Times are integers, in microseconds.

* `claimPendingEvents`, `renewClaims`: claims.
* `persistDeliveryResult`: the result of one event.
-/

namespace LotusCore

open Table

inductive OutboxStatus
  | pending
  | processed
  | failed
  deriving DecidableEq, Repr

/-- A row of `outbox_events`. -/
structure OutboxEvent where
  id : ℕ
  topic : String
  partitionKey : String
  createdAt : ℤ
  status : OutboxStatus := .pending
  retryCount : ℕ := 0
  nextAttemptAt : Option ℤ := none
  claimToken : Option String := none
  claimExpiresAt : Option ℤ := none
  deriving DecidableEq, Repr

namespace OutboxEvent

def stream (r : OutboxEvent) : String × String := (r.topic, r.partitionKey)

/-- The order of the events of a stream. -/
def Before (q r : OutboxEvent) : Prop :=
  q.createdAt < r.createdAt ∨ q.createdAt = r.createdAt ∧ q.id < r.id
  deriving Decidable

/-- `PENDING` or `FAILED`. -/
def unresolved (r : OutboxEvent) : Bool := r.status = .pending || r.status = .failed

theorem unresolved_eq_false {r : OutboxEvent} : r.unresolved = false ↔ r.status = .processed := by
  cases h : r.status <;> simp [unresolved, h]

theorem before_trichotomy {q r : OutboxEvent} (h : q.id ≠ r.id) : q.Before r ∨ r.Before q := by
  unfold Before
  omega

/-- The claim of a row is unexpired. -/
def claimLive (clock : ℤ) (r : OutboxEvent) : Bool :=
  r.claimToken.isSome && (match r.claimExpiresAt with
    | none => false
    | some expiry => clock < expiry)

end OutboxEvent

structure OutboxSettings where
  batchSize : ℕ
  maxRetries : ℕ
  claimLease : ℤ
  retryMaxElapsed : ℤ
  retryInitialDelay : ℤ
  retryMaxDelay : ℤ
  retryJitter : ℤ
  one_le_maxRetries : 1 ≤ maxRetries

/-- `_ClaimedOutboxEvent`: what a dispatcher keeps of a row it claimed. -/
structure ClaimedOutboxEvent where
  id : ℕ
  topic : String
  partitionKey : String
  retryCount : ℕ
  createdAt : ℤ
  claimToken : String
  claimExpiresAt : ℤ
  deriving DecidableEq, Repr

/-! ## Claims -/

/-- The candidates of a claim. -/
def claimable (retryNow clock : ℤ) (rows : List OutboxEvent) (r : OutboxEvent) : Bool :=
  r.status = .pending &&
  (match r.nextAttemptAt with
    | none => true
    | some nextAttemptAt => nextAttemptAt ≤ retryNow) &&
  (r.claimToken.isNone || (match r.claimExpiresAt with
    | none => true
    | some expiry => expiry ≤ clock)) &&
  !rows.any fun q =>
    q.topic = r.topic && q.partitionKey = r.partitionKey && q.unresolved && q.Before r

/-- The order in which candidates are claimed. -/
def OutboxEvent.claimKey (r : OutboxEvent) : WithBot ℤ ×ₗ ℤ ×ₗ ℕ :=
  toLex (r.nextAttemptAt, toLex (r.createdAt, r.id))

/-- The rows a claim selects. Rows that another transaction has locked are skipped. -/
def selectClaims (batchSize : ℕ) (retryNow clock : ℤ) (locked : List ℕ)
    (rows : List OutboxEvent) : List OutboxEvent :=
  ((rows.filter fun r => claimable retryNow clock rows r && !locked.contains r.id).insertionSort
    fun a b => a.claimKey ≤ b.claimKey).take batchSize

variable (settings : OutboxSettings)

/-- `_claim_pending_events`: the table and the claimed events. -/
def claimPendingEvents (token : String) (retryNow clock : ℤ) (locked : List ℕ)
    (rows : List OutboxEvent) : List OutboxEvent × List ClaimedOutboxEvent :=
  let selected := selectClaims settings.batchSize retryNow clock locked rows
  let expiry := clock + settings.claimLease
  (updateWhere (fun r => selected.any fun q => q.id = r.id)
      (fun r => { r with claimToken := some token, claimExpiresAt := some expiry }) rows,
    selected.map fun r => ⟨r.id, r.topic, r.partitionKey, r.retryCount, r.createdAt, token, expiry⟩)

/-- `_owned_delivery_claim`. -/
def ClaimedOutboxEvent.owns (event : ClaimedOutboxEvent) (clock : ℤ) (r : OutboxEvent) : Bool :=
  r.id = event.id && r.claimToken = some event.claimToken &&
    (match r.claimExpiresAt with
      | none => false
      | some expiry => clock < expiry)

/-- `_renew_claims_for_delivery`: the table, and whether every claim was renewed. -/
def renewClaims (clock : ℤ) (events : List ClaimedOutboxEvent) (rows : List OutboxEvent)
    : List OutboxEvent × Bool :=
  (updateWhere (fun r => events.any fun event => event.owns clock r)
      (fun r => { r with claimExpiresAt := some (clock + settings.claimLease) }) rows,
    events.all fun event => rows.any fun r => event.owns clock r)

/-! ## Results -/

/-- What a dispatcher reads of its host while it records the result of an event: the times of the
classification and of the attempt, and the jitter drawn. -/
structure HostReadings where
  now : ℤ
  attemptedAt : ℤ
  jitter : ℤ

def retryElapsedBudgetExhausted (now : ℤ) (event : ClaimedOutboxEvent) : Bool :=
  if settings.retryMaxElapsed ≤ 0 then false
  else settings.retryMaxElapsed ≤ now - event.createdAt

/-- The condition of a terminal failure in `_classify_delivery_results`. -/
def terminalFailure (now : ℤ) (event : ClaimedOutboxEvent) : Bool :=
  settings.maxRetries ≤ event.retryCount + 1 || retryElapsedBudgetExhausted settings now event

/-- `_retry_delay_seconds`. -/
def retryDelay (retryCount : ℕ) (jitter : ℤ) : ℤ :=
  let boundedDelay := min settings.retryMaxDelay
    (settings.retryInitialDelay * 2 ^ (max 1 retryCount - 1))
  if settings.retryJitter ≤ 0 ∨ settings.retryMaxDelay ≤ boundedDelay then boundedDelay
  else min settings.retryMaxDelay (boundedDelay + jitter)

namespace OutboxEvent

/-- What `_mark_successes` sets. -/
def markDelivered (r : OutboxEvent) : OutboxEvent :=
  { r with status := .processed, nextAttemptAt := none, claimToken := none, claimExpiresAt := none }

/-- What `_mark_retryable_failures` sets. -/
def markRetryable (nextAttemptAt : ℤ) (r : OutboxEvent) : OutboxEvent :=
  { r with retryCount := r.retryCount + 1, nextAttemptAt := some nextAttemptAt,
           claimToken := none, claimExpiresAt := none }

/-- What `_mark_terminal_failures` sets. -/
def markFailed (r : OutboxEvent) : OutboxEvent :=
  { r with status := .failed, retryCount := r.retryCount + 1, nextAttemptAt := none,
           claimToken := none, claimExpiresAt := none }

end OutboxEvent

/-- What the result of one event does to the table; without a report nothing is written. -/
def persistDeliveryResult (host : HostReadings) (clock : ℤ) (event : ClaimedOutboxEvent)
    (ack : Option Bool) (rows : List OutboxEvent) : List OutboxEvent :=
  match ack with
  | none => rows
  | some true => updateWhere (event.owns clock) OutboxEvent.markDelivered rows
  | some false =>
    if terminalFailure settings host.now event then
      updateWhere (event.owns clock) OutboxEvent.markFailed rows
    else
      updateWhere (event.owns clock)
        (OutboxEvent.markRetryable
          (host.attemptedAt + retryDelay settings (event.retryCount + 1) host.jitter)) rows

/-- A claimed batch with the reports received so far. -/
structure OutboxBatch where
  token : String
  events : List ClaimedOutboxEvent
  deliveryAck : ℕ → Option Bool

end LotusCore
