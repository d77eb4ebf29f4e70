import LotusCore.Exec.Machine
import LotusCore.Outbox.Events

/-!
# Dispatching the outbox

Any number of dispatchers claim, publish and record at once. Each of their transactions is one
step; a batch that was given up is one that takes no more steps.

* `outboxMachine`: producers, dispatchers, the broker and the database clock.
* `OutboxEvent.Change`: all that one step can do to a row.
* `OutboxState.Sound`: claims stand on the head of a stream.
* **`outbox_keeps_stream_order`**: streams are dispatched in order, by owners, after an
  acknowledgement.
* **`failed_event_stops_stream`**, **`processed_event_acknowledged`**: what a final status means for
  the rest of a run.
-/

namespace LotusCore

open Table Exec List

/-! ## The machine -/

/-- The table, the database clock, the claimed batches, and the acknowledgements the broker has
given, by token and event. -/
structure OutboxState where
  rows : List OutboxEvent
  clock : ℤ
  batches : List OutboxBatch
  acknowledged : List (String × ℕ)

/-- The steps of producers, dispatchers, broker and clock. -/
inductive OutboxStep
  | insert (id : ℕ) (topic partitionKey : String) (createdAt : ℤ)
  | claim (token : String) (retryNow : ℤ) (locked : List ℕ)
  | renew (i : ℕ)
  | deliveryReport (i j : ℕ) (success : Bool)
  | persist (i j : ℕ) (host : HostReadings)
  | tick (elapsed : ℕ)

/-- What an insertion may add: a new id, after the rows of its stream. -/
def InsertsLast (rows : List OutboxEvent) (r : OutboxEvent) : Prop :=
  ∀ q ∈ rows, q.id ≠ r.id ∧ (q.stream = r.stream → q.Before r)
  deriving Decidable

/-- The report on one event: of the broker, or a failure recorded because publishing raised or no
callback came. -/
def OutboxBatch.report (id : ℕ) (success : Bool) (batch : OutboxBatch) : OutboxBatch :=
  { batch with deliveryAck := Function.update batch.deliveryAck id (some success) }

/-- One step. The token of a claim is a fresh UUID; an empty batch has no further steps. -/
def outboxStep (settings : OutboxSettings) (s : OutboxState) : OutboxStep → Option OutboxState
  | .insert id topic partitionKey createdAt =>
    let r : OutboxEvent :=
      { id := id, topic := topic, partitionKey := partitionKey, createdAt := createdAt }
    if InsertsLast s.rows r then some { s with rows := s.rows ++ [r] } else none
  | .claim token retryNow locked =>
    if s.batches.any fun b => b.token = token then none
    else
      let claimed := claimPendingEvents settings token retryNow s.clock locked s.rows
      some { s with
        rows := claimed.1
        batches := s.batches ++ [⟨token, claimed.2, fun _ => none⟩] }
  | .renew i =>
    s.batches[i]?.map fun b =>
      { s with rows := (renewClaims settings s.clock b.events s.rows).1 }
  | .deliveryReport i j success =>
    s.batches[i]?.bind fun b => b.events[j]?.map fun event =>
      { s with
        batches := s.batches.modify i (OutboxBatch.report event.id success)
        acknowledged :=
          if success then (b.token, event.id) :: s.acknowledged else s.acknowledged }
  | .persist i j host =>
    s.batches[i]?.bind fun b => b.events[j]?.map fun event =>
      { s with
        rows := persistDeliveryResult settings host s.clock event (b.deliveryAck event.id) s.rows }
  | .tick elapsed => some { s with clock := s.clock + elapsed }

def outboxMachine (settings : OutboxSettings) : Machine OutboxState OutboxStep where
  init s := s.rows = [] ∧ s.batches = [] ∧ s.acknowledged = []
  step := outboxStep settings

/-! ## What a step does to a row -/

variable {settings : OutboxSettings} {s t : OutboxState} {a : OutboxStep}

/-- The event is in a claimed batch and its claim on the row is unexpired. -/
structure OutboxState.Owned (s : OutboxState) (i j : ℕ) (b : OutboxBatch)
    (event : ClaimedOutboxEvent) (r : OutboxEvent) : Prop where
  batch_at : s.batches[i]? = some b
  event_at : b.events[j]? = some event
  owns : event.owns s.clock r

/-- All that one step can do to a row. -/
inductive OutboxEvent.Change (settings : OutboxSettings) (s : OutboxState) (a : OutboxStep)
    (r : OutboxEvent) : OutboxEvent → Prop
  | same : Change settings s a r r
  | claimed {token : String} {retryNow : ℤ} {locked : List ℕ}
      (step : a = .claim token retryNow locked) (pending : r.status = .pending)
      (head : ∀ q ∈ s.rows, q.stream = r.stream → q.Before r → q.status = .processed)
      (fresh : ∀ b ∈ s.batches, b.token ≠ token) :
      Change settings s a r { r with
        claimToken := some token, claimExpiresAt := some (s.clock + settings.claimLease) }
  | renewed :
      Change settings s a r { r with claimExpiresAt := some (s.clock + settings.claimLease) }
  | delivered {i j : ℕ} {host : HostReadings} {b : OutboxBatch} {event : ClaimedOutboxEvent}
      (step : a = .persist i j host) (owned : s.Owned i j b event r)
      (ack : b.deliveryAck event.id = some true) : Change settings s a r r.markDelivered
  | retried {i j : ℕ} {b : OutboxBatch} {event : ClaimedOutboxEvent} {nextAttemptAt : ℤ}
      (owned : s.Owned i j b event r) (budget : event.retryCount + 1 < settings.maxRetries) :
      Change settings s a r (r.markRetryable nextAttemptAt)
  | failed {i j : ℕ} {b : OutboxBatch} {event : ClaimedOutboxEvent}
      (owned : s.Owned i j b event r) : Change settings s a r r.markFailed

variable {rows : List OutboxEvent} {locked : List ℕ} {token : String} {retryNow clock : ℤ}

section Change

variable {r q : OutboxEvent}

theorem OutboxEvent.Change.kept (h : r.Change settings s a q) :
    q.id = r.id ∧ q.stream = r.stream ∧ q.createdAt = r.createdAt := by
  cases h <;> exact ⟨rfl, rfl, rfl⟩

theorem OutboxEvent.Change.before_iff {r' q' : OutboxEvent} (hr : r.Change settings s a r')
    (hq : q.Change settings s a q') : q'.Before r' ↔ q.Before r := by
  unfold OutboxEvent.Before
  rw [hr.kept.1, hq.kept.1, hr.kept.2.2, hq.kept.2.2]

theorem updateWhere_changes {p : OutboxEvent → Bool} {f : OutboxEvent → OutboxEvent}
    (h : ∀ r ∈ s.rows, p r → r.Change settings s a (f r)) :
    ∃ g : OutboxEvent → OutboxEvent, updateWhere p f s.rows = s.rows.map g ∧
      ∀ r ∈ s.rows, r.Change settings s a (g r) := by
  refine ⟨_, rfl, fun r hr => ?_⟩
  by_cases hp : p r
  · rw [if_pos hp]
    exact h r hr hp
  · rw [if_neg hp]
    exact .same

theorem claimable_head (h : claimable retryNow clock rows r) : r.status = .pending ∧
      ∀ q ∈ rows, q.stream = r.stream → q.Before r → q.status = .processed := by
  unfold claimable at h
  simp only [Bool.and_eq_true, decide_eq_true_eq, Bool.not_eq_true', any_eq_false] at h
  obtain ⟨⟨⟨hpending, -⟩, -⟩, hfirst⟩ := h
  refine ⟨hpending, fun q hq hstream hbefore => ?_⟩
  have hnot := hfirst q hq
  rw [OutboxEvent.stream, OutboxEvent.stream, Prod.mk.injEq] at hstream
  rw [← OutboxEvent.unresolved_eq_false]
  by_contra hunresolved
  exact hnot ⟨⟨⟨hstream.1, hstream.2⟩, by simpa using hunresolved⟩, hbefore⟩

theorem mem_selectClaims {batchSize : ℕ}
    (h : r ∈ selectClaims batchSize retryNow clock locked rows) :
    r ∈ rows ∧ claimable retryNow clock rows r := by
  have hmem := (perm_insertionSort _ _).mem_iff.mp (mem_of_mem_take h)
  rw [mem_filter, Bool.and_eq_true] at hmem
  exact ⟨hmem.1, hmem.2.1⟩

variable {event : ClaimedOutboxEvent}

theorem terminalFailure_of_budget {now : ℤ}
    (h : ¬ terminalFailure settings now event) : event.retryCount + 1 < settings.maxRetries := by
  unfold terminalFailure at h
  simp only [Bool.or_eq_true, decide_eq_true_eq, not_or, not_le] at h
  exact h.1

theorem claim_changes (hrows : (s.rows.map OutboxEvent.id).Nodup) {retryNow : ℤ}
    (ha : a = .claim token retryNow locked)
    (hfresh : ∀ b ∈ s.batches, b.token ≠ token) :
    ∃ g : OutboxEvent → OutboxEvent,
      (claimPendingEvents settings token retryNow s.clock locked s.rows).1 = s.rows.map g ∧
      ∀ r ∈ s.rows, r.Change settings s a (g r) := by
  refine updateWhere_changes fun r hr hselected => ?_
  obtain ⟨q, hq, hid⟩ := any_eq_true.mp hselected
  have hmem := mem_selectClaims hq
  obtain rfl : q = r := eq_of_key hrows hmem.1 hr (by simpa using hid)
  have hhead := claimable_head hmem.2
  exact .claimed ha hhead.1 hhead.2 hfresh

theorem persist_changes {i j : ℕ} {host : HostReadings} {b : OutboxBatch}
    (hb : s.batches[i]? = some b) (hevent : b.events[j]? = some event)
    (ha : a = .persist i j host) :
    ∃ g : OutboxEvent → OutboxEvent,
      persistDeliveryResult settings host s.clock event (b.deliveryAck event.id) s.rows =
        s.rows.map g ∧ ∀ r ∈ s.rows, r.Change settings s a (g r) := by
  unfold persistDeliveryResult
  cases hack : b.deliveryAck event.id with
  | none => exact ⟨id, (map_id _).symm, fun r _ => .same⟩
  | some success =>
    cases success with
    | true => exact updateWhere_changes fun r _ howns => .delivered ha ⟨hb, hevent, howns⟩ hack
    | false =>
      by_cases hterminal : terminalFailure settings host.now event
      · simp only [hterminal, if_true]
        exact updateWhere_changes fun r _ howns => .failed ⟨hb, hevent, howns⟩
      · simp only [hterminal]
        exact updateWhere_changes fun r _ howns =>
          .retried ⟨hb, hevent, howns⟩ (terminalFailure_of_budget hterminal)

theorem outboxStep_rows (hrows : (s.rows.map OutboxEvent.id).Nodup)
    (h : outboxStep settings s a = some t) :
    (∃ g : OutboxEvent → OutboxEvent, t.rows = s.rows.map g ∧
      ∀ r ∈ s.rows, r.Change settings s a (g r)) ∨
    ∃ id topic partitionKey createdAt, ∃ r : OutboxEvent,
      r = { id := id, topic := topic, partitionKey := partitionKey, createdAt := createdAt } ∧
      InsertsLast s.rows r ∧ t.rows = s.rows ++ [r] := by
  have hsame : ∃ g : OutboxEvent → OutboxEvent, s.rows = s.rows.map g ∧
      ∀ r ∈ s.rows, r.Change settings s a (g r) := ⟨id, (map_id _).symm, fun r _ => .same⟩
  cases a with
  | insert id topic partitionKey createdAt =>
    simp only [outboxStep, Option.ite_none_right_eq_some, Option.some.injEq] at h
    obtain ⟨hlast, rfl⟩ := h
    exact .inr ⟨id, topic, partitionKey, createdAt, _, rfl, hlast, rfl⟩
  | claim token retryNow locked =>
    simp only [outboxStep, Option.ite_none_left_eq_some, Option.some.injEq] at h
    obtain ⟨hfresh, rfl⟩ := h
    exact .inl (claim_changes hrows rfl (by simpa using hfresh))
  | renew i =>
    simp only [outboxStep, Option.map_eq_some_iff] at h
    obtain ⟨b, -, rfl⟩ := h
    exact .inl (updateWhere_changes fun r _ _ => .renewed)
  | deliveryReport i j success =>
    simp only [outboxStep, Option.bind_eq_some_iff, Option.map_eq_some_iff] at h
    obtain ⟨b, -, event, -, rfl⟩ := h
    exact .inl hsame
  | persist i j host =>
    simp only [outboxStep, Option.bind_eq_some_iff, Option.map_eq_some_iff] at h
    obtain ⟨b, hb, event, hevent, rfl⟩ := h
    exact .inl (persist_changes hb hevent rfl)
  | tick elapsed =>
    rw [← Option.some.inj h]
    exact .inl hsame

end Change

/-! ## What a step does to the batches -/

/-- What a step does to batches and acknowledgements: a batch keeps its token and its events, and a
claim adds one. -/
structure OutboxState.Batched (settings : OutboxSettings) (s : OutboxState) (a : OutboxStep)
    (t : OutboxState) : Prop where
  mem : ∀ b ∈ t.batches,
    (∃ c ∈ s.batches, b.token = c.token ∧ b.events = c.events ∧
      ∀ id, b.deliveryAck id = some true →
        c.deliveryAck id = some true ∨ (b.token, id) ∈ t.acknowledged) ∨
    ∃ token retryNow locked, a = .claim token retryNow locked ∧ b =
      ⟨token, (claimPendingEvents settings token retryNow s.clock locked s.rows).2, fun _ => none⟩
  kept : ∀ b ∈ s.batches, ∃ c ∈ t.batches, c.token = b.token
  claimed : ∀ token retryNow locked, a = .claim token retryNow locked →
    ∃ b ∈ t.batches, b.token = token
  acknowledged : s.acknowledged ⊆ t.acknowledged

theorem batched_of_eq (hbatches : t.batches = s.batches)
    (hacknowledged : t.acknowledged = s.acknowledged)
    (ha : ∀ token retryNow locked, a ≠ .claim token retryNow locked) : s.Batched settings a t where
  mem b hb := .inl ⟨b, hbatches ▸ hb, rfl, rfl, fun _ hid => .inl hid⟩
  kept b hb := ⟨b, hbatches ▸ hb, rfl⟩
  claimed token retryNow locked h := absurd h (ha token retryNow locked)
  acknowledged := hacknowledged ▸ fun _ h => h

theorem outboxStep_batched (h : outboxStep settings s a = some t) : s.Batched settings a t := by
  cases a with
  | insert id topic partitionKey createdAt =>
    simp only [outboxStep, Option.ite_none_right_eq_some, Option.some.injEq] at h
    obtain ⟨-, rfl⟩ := h
    exact batched_of_eq rfl rfl nofun
  | claim token retryNow locked =>
    simp only [outboxStep, Option.ite_none_left_eq_some, Option.some.injEq] at h
    obtain ⟨-, rfl⟩ := h
    refine ⟨fun b hb => ?_, fun b hb => ⟨b, mem_append_left _ hb, rfl⟩, ?_, fun _ h => h⟩
    · rcases mem_append.mp hb with hb | hb
      · exact .inl ⟨b, hb, rfl, rfl, fun _ hid => .inl hid⟩
      · exact .inr ⟨token, retryNow, locked, rfl, mem_singleton.mp hb⟩
    · rintro _ _ _ ⟨⟩
      exact ⟨_, mem_append_right _ mem_cons_self, rfl⟩
  | renew i =>
    simp only [outboxStep, Option.map_eq_some_iff] at h
    obtain ⟨c, -, rfl⟩ := h
    exact batched_of_eq rfl rfl nofun
  | deliveryReport i j success =>
    simp only [outboxStep, Option.bind_eq_some_iff, Option.map_eq_some_iff] at h
    obtain ⟨c, hc, event, -, rfl⟩ := h
    refine ⟨fun b hb => ?_, fun b hb => exists_mem_modify_of_mem (fun _ => rfl) hb, nofun, ?_⟩
    · rcases mem_modify hb with hb | ⟨c', hc', rfl⟩
      · exact .inl ⟨b, hb, rfl, rfl, fun _ hid => .inl hid⟩
      · obtain rfl := Option.some.inj (hc.symm.trans hc')
        refine .inl ⟨c, mem_of_getElem? hc, rfl, rfl, fun id hid => ?_⟩
        by_cases hevent : id = event.id
        · subst hevent
          simp only [OutboxBatch.report, Function.update_self, Option.some.injEq] at hid
          exact .inr (by simp [hid, OutboxBatch.report])
        · simp only [OutboxBatch.report, Function.update_of_ne hevent] at hid
          exact .inl hid
    · cases success with
      | true => exact subset_cons_self _ _
      | false => exact fun _ h => h
  | persist i j host =>
    simp only [outboxStep, Option.bind_eq_some_iff, Option.map_eq_some_iff] at h
    obtain ⟨c, -, event, -, rfl⟩ := h
    exact batched_of_eq rfl rfl nofun
  | tick elapsed =>
    obtain rfl := Option.some.inj h
    exact batched_of_eq rfl rfl nofun

/-! ## The invariant -/

/-- All earlier rows of the stream are processed. -/
def IsHead (rows : List OutboxEvent) (r : OutboxEvent) : Prop :=
  ∀ q ∈ rows, q.stream = r.stream → q.Before r → q.status = .processed

/-- Claims stand on pending heads and belong to batches, which know the retry count of the rows
they own. -/
structure OutboxState.Sound (settings : OutboxSettings) (s : OutboxState) : Prop where
  ids : (s.rows.map OutboxEvent.id).Nodup
  claims : ∀ r ∈ s.rows, r.claimToken.isSome → r.status = .pending ∧ IsHead s.rows r
  processed : ∀ r ∈ s.rows, r.status = .processed → IsHead s.rows r
  retries : ∀ r ∈ s.rows, r.retryCount ≤ settings.maxRetries ∧
    (r.status = .pending → r.retryCount < settings.maxRetries)
  tokens : ∀ r ∈ s.rows, ∀ token, r.claimToken = some token → ∃ b ∈ s.batches, b.token = token
  events : ∀ b ∈ s.batches, ∀ event ∈ b.events, event.claimToken = b.token
  snapshots : ∀ b ∈ s.batches, ∀ event ∈ b.events, ∀ r ∈ s.rows, r.id = event.id →
    r.claimToken = some event.claimToken → event.retryCount = r.retryCount
  acks : ∀ b ∈ s.batches, ∀ id, b.deliveryAck id = some true → (b.token, id) ∈ s.acknowledged

section Preservation

variable {r r' : OutboxEvent} {i j : ℕ} {b : OutboxBatch} {event : ClaimedOutboxEvent}

theorem ClaimedOutboxEvent.owns_iff {clock : ℤ} :
    event.owns clock r ↔ r.id = event.id ∧ r.claimToken = some event.claimToken ∧
      ∃ expiry, r.claimExpiresAt = some expiry ∧ clock < expiry := by
  unfold ClaimedOutboxEvent.owns
  cases r.claimExpiresAt with
  | none => simp
  | some expiry => simp [and_assoc]

theorem OutboxState.Owned.isSome_claimToken (h : s.Owned i j b event r) :
    r.claimToken.isSome := by
  rw [(ClaimedOutboxEvent.owns_iff.mp h.owns).2.1]
  rfl

theorem OutboxState.Sound.retryCount_of_owned (hs : s.Sound settings) (hr : r ∈ s.rows)
    (h : s.Owned i j b event r) : event.retryCount = r.retryCount := by
  have howns := ClaimedOutboxEvent.owns_iff.mp h.owns
  exact hs.snapshots b (mem_of_getElem? h.batch_at) event (mem_of_getElem? h.event_at)
    r hr howns.1 howns.2.1

theorem OutboxState.Sound.status_eq (hs : s.Sound settings) (hr : r ∈ s.rows)
    (h : r.Change settings s a r') (hstatus : r.status ≠ .pending) : r'.status = r.status := by
  have hnot (hsome : r.claimToken.isSome) : False := hstatus (hs.claims r hr hsome).1
  cases h with
  | same => rfl
  | claimed _ hpending => exact absurd hpending hstatus
  | renewed => rfl
  | delivered _ howned => exact (hnot howned.isSome_claimToken).elim
  | retried howned => exact (hnot howned.isSome_claimToken).elim
  | failed howned => exact (hnot howned.isSome_claimToken).elim

variable {g : OutboxEvent → OutboxEvent}

theorem OutboxState.Sound.isHead_map (hs : s.Sound settings)
    (hg : ∀ r ∈ s.rows, r.Change settings s a (g r)) (hr : r ∈ s.rows) (h : IsHead s.rows r) :
    IsHead (s.rows.map g) (g r) := by
  intro q' hq' hstream hbefore
  obtain ⟨q, hq, rfl⟩ := mem_map.mp hq'
  have hprocessed : q.status = .processed := by
    apply h q hq
    · rw [← (hg q hq).kept.2.1, ← (hg r hr).kept.2.1, hstream]
    · exact ((hg r hr).before_iff (hg q hq)).mp hbefore
  rw [hs.status_eq hq (hg q hq) (by simp [hprocessed]), hprocessed]

theorem OutboxState.Sound.claims_of_change (hs : s.Sound settings) (hr : r ∈ s.rows)
    (h : r.Change settings s a r') (hsome : r'.claimToken.isSome) :
    r'.status = .pending ∧ IsHead s.rows r := by
  cases h with
  | same => exact hs.claims r hr hsome
  | claimed _ hpending hhead => exact ⟨hpending, hhead⟩
  | renewed => exact hs.claims r hr hsome
  | delivered | retried | failed => simp [OutboxEvent.markDelivered, OutboxEvent.markRetryable,
      OutboxEvent.markFailed] at hsome

theorem OutboxState.Sound.isHead_of_processed (hs : s.Sound settings) (hr : r ∈ s.rows)
    (h : r.Change settings s a r') (hprocessed : r'.status = .processed) : IsHead s.rows r := by
  cases h with
  | same => exact hs.processed r hr hprocessed
  | claimed _ _ hhead => exact hhead
  | renewed => exact hs.processed r hr hprocessed
  | delivered _ howned => exact (hs.claims r hr howned.isSome_claimToken).2
  | retried howned => exact (hs.claims r hr howned.isSome_claimToken).2
  | failed => simp [OutboxEvent.markFailed] at hprocessed

theorem OutboxState.Sound.retries_of_change (hs : s.Sound settings) (hr : r ∈ s.rows)
    (h : r.Change settings s a r') : r'.retryCount ≤ settings.maxRetries ∧
      (r'.status = .pending → r'.retryCount < settings.maxRetries) := by
  have hretries := hs.retries r hr
  cases h with
  | same | claimed | renewed => exact hretries
  | delivered => exact ⟨hretries.1, by simp [OutboxEvent.markDelivered]⟩
  | retried howned hbudget =>
    rw [hs.retryCount_of_owned hr howned] at hbudget
    exact ⟨hbudget.le, fun _ => hbudget⟩
  | failed howned =>
    have hpending := hretries.2 (hs.claims r hr howned.isSome_claimToken).1
    exact ⟨hpending, by simp [OutboxEvent.markFailed]⟩

theorem OutboxEvent.Change.retryCount_eq (h : r.Change settings s a r')
    (hsome : r'.claimToken.isSome) : r'.retryCount = r.retryCount := by
  cases h with
  | same | claimed | renewed => rfl
  | delivered | retried | failed => simp [OutboxEvent.markDelivered, OutboxEvent.markRetryable,
      OutboxEvent.markFailed] at hsome

/-- A row that has the token of a batch had it before, or was claimed under it just now. -/
theorem OutboxEvent.Change.token_cases (h : r.Change settings s a r')
    (htoken : r'.claimToken = some token) :
    r.claimToken = some token ∨ (∃ retryNow locked, a = .claim token retryNow locked) ∧
      ∀ b ∈ s.batches, b.token ≠ token := by
  cases h with
  | same | renewed => exact .inl htoken
  | claimed hstep _ _ hfresh =>
    obtain rfl := Option.some.inj htoken
    exact .inr ⟨⟨_, _, hstep⟩, hfresh⟩
  | delivered | retried | failed => simp [OutboxEvent.markDelivered, OutboxEvent.markRetryable,
      OutboxEvent.markFailed] at htoken

theorem mem_claimPendingEvents
    (h : event ∈ (claimPendingEvents settings token retryNow clock locked rows).2) :
    event.claimToken = token ∧ ∃ q ∈ rows, q.id = event.id ∧ event.retryCount = q.retryCount := by
  obtain ⟨q, hq, rfl⟩ := mem_map.mp h
  exact ⟨rfl, q, (mem_selectClaims hq).1, rfl, rfl⟩

theorem OutboxState.Sound.step_events (hs : s.Sound settings)
    (h : outboxStep settings s a = some t) :
    ∀ b ∈ t.batches, ∀ event ∈ b.events, event.claimToken = b.token := by
  intro b hb event hevent
  rcases (outboxStep_batched h).mem b hb with ⟨c, hc, htoken, hevents, -⟩ |
    ⟨token, now, locked, -, rfl⟩
  · rw [htoken]
    exact hs.events c hc event (hevents ▸ hevent)
  · exact (mem_claimPendingEvents hevent).1

theorem OutboxState.Sound.step_acks (hs : s.Sound settings)
    (h : outboxStep settings s a = some t) :
    ∀ b ∈ t.batches, ∀ id, b.deliveryAck id = some true → (b.token, id) ∈ t.acknowledged := by
  intro b hb id hid
  rcases (outboxStep_batched h).mem b hb with ⟨c, hc, htoken, -, hack⟩ |
    ⟨token, now, locked, -, rfl⟩
  · cases hack id hid with
    | inl hid =>
      rw [htoken]
      exact (outboxStep_batched h).acknowledged (hs.acks c hc id hid)
    | inr hmem => exact hmem
  · cases hid

theorem OutboxState.Sound.step_of_map (hs : s.Sound settings)
    (h : outboxStep settings s a = some t)
    (hrows : t.rows = s.rows.map g) (hg : ∀ r ∈ s.rows, r.Change settings s a (g r)) :
    t.Sound settings where
  ids := by
    have hids : t.rows.map OutboxEvent.id = s.rows.map OutboxEvent.id := by
      rw [hrows, map_map]
      exact map_congr_left fun r hr => (hg r hr).kept.1
    rw [hids]
    exact hs.ids
  claims := by
    rw [hrows]
    intro r' hr' hsome
    obtain ⟨r, hr, rfl⟩ := mem_map.mp hr'
    have hclaims := hs.claims_of_change hr (hg r hr) hsome
    exact ⟨hclaims.1, hs.isHead_map hg hr hclaims.2⟩
  processed := by
    rw [hrows]
    intro r' hr' hprocessed
    obtain ⟨r, hr, rfl⟩ := mem_map.mp hr'
    exact hs.isHead_map hg hr (hs.isHead_of_processed hr (hg r hr) hprocessed)
  retries := by
    rw [hrows]
    intro r' hr'
    obtain ⟨r, hr, rfl⟩ := mem_map.mp hr'
    exact hs.retries_of_change hr (hg r hr)
  tokens := by
    rw [hrows]
    intro r' hr' token htoken
    obtain ⟨r, hr, rfl⟩ := mem_map.mp hr'
    rcases (hg r hr).token_cases htoken with hold | ⟨⟨now, locked, ha⟩, -⟩
    · obtain ⟨b, hb, rfl⟩ := hs.tokens r hr token hold
      exact (outboxStep_batched h).kept b hb
    · exact (outboxStep_batched h).claimed token now locked ha
  events := hs.step_events h
  snapshots := by
    rw [hrows]
    intro b hb event hevent r' hr' hid htoken
    obtain ⟨r, hr, rfl⟩ := mem_map.mp hr'
    rw [(hg r hr).retryCount_eq (by rw [htoken]; rfl)]
    rw [(hg r hr).kept.1] at hid
    rcases (outboxStep_batched h).mem b hb with ⟨c, hc, -, hevents, -⟩ |
      ⟨token, now, locked, -, rfl⟩
    · rw [hevents] at hevent
      have hc_token := hs.events c hc event hevent
      rcases (hg r hr).token_cases htoken with hold | ⟨-, hfresh⟩
      · exact hs.snapshots c hc event hevent r hr hid hold
      · exact absurd hc_token.symm (hfresh c hc)
    · -- the events of a new batch are rows as they stand
      obtain ⟨-, q, hq, hqid, hretry⟩ := mem_claimPendingEvents hevent
      obtain rfl := eq_of_key hs.ids hq hr (hqid.trans hid.symm)
      exact hretry
  acks := hs.step_acks h

theorem isHead_append {q : OutboxEvent} (hlast : InsertsLast rows q)
    (hr : r ∈ rows) (h : IsHead rows r) : IsHead (rows ++ [q]) r := by
  intro p hp hstream hbefore
  cases mem_append.mp hp with
  | inl hp => exact h p hp hstream hbefore
  | inr hp =>
    obtain rfl := mem_singleton.mp hp
    have hafter := (hlast r hr).2 hstream.symm
    unfold OutboxEvent.Before at hbefore hafter
    omega

theorem OutboxState.Sound.step_of_insert (hs : s.Sound settings) {q : OutboxEvent}
    {id : ℕ} {topic partitionKey : String} {createdAt : ℤ}
    (h : outboxStep settings s a = some t)
    (hq : q = { id := id, topic := topic, partitionKey := partitionKey, createdAt := createdAt })
    (hlast : InsertsLast s.rows q) (hrows : t.rows = s.rows ++ [q]) : t.Sound settings := by
  have hmem {r : OutboxEvent} (hr : r ∈ t.rows) : r ∈ s.rows ∨ r = q := by
    rw [hrows, mem_append, mem_singleton] at hr
    exact hr
  constructor
  · rw [hrows, map_append, nodup_append]
    refine ⟨hs.ids, nodup_singleton _, fun x hx y hy => ?_⟩
    obtain ⟨r, hr, rfl⟩ := mem_map.mp hx
    obtain rfl := mem_singleton.mp hy
    exact (hlast r hr).1
  · intro r hr hsome
    cases hmem hr with
    | inl hr =>
      have hclaims := hs.claims r hr hsome
      exact ⟨hclaims.1, hrows ▸ isHead_append hlast hr hclaims.2⟩
    | inr hr => simp [hr, hq] at hsome
  · intro r hr hprocessed
    cases hmem hr with
    | inl hr => exact hrows ▸ isHead_append hlast hr (hs.processed r hr hprocessed)
    | inr hr => simp [hr, hq] at hprocessed
  · intro r hr
    cases hmem hr with
    | inl hr => exact hs.retries r hr
    | inr hr =>
      rw [hr, hq]
      exact ⟨Nat.zero_le _, fun _ => settings.one_le_maxRetries⟩
  · intro r hr token htoken
    cases hmem hr with
    | inl hr =>
      obtain ⟨b, hb, rfl⟩ := hs.tokens r hr token htoken
      exact (outboxStep_batched h).kept b hb
    | inr hr => simp [hr, hq] at htoken
  · exact hs.step_events h
  · intro b hb event hevent r hr hid htoken
    cases hmem hr with
    | inl hr =>
      rcases (outboxStep_batched h).mem b hb with ⟨c, hc, -, hevents, -⟩ |
        ⟨token, now, locked, -, rfl⟩
      · exact hs.snapshots c hc event (hevents ▸ hevent) r hr hid htoken
      · obtain ⟨-, p, hp, hpid, hretry⟩ := mem_claimPendingEvents hevent
        obtain rfl := eq_of_key hs.ids hp hr (hpid.trans hid.symm)
        exact hretry
    | inr hr => simp [hr, hq] at htoken
  · exact hs.step_acks h

theorem OutboxState.Sound.step (hs : s.Sound settings) (h : outboxStep settings s a = some t) :
    t.Sound settings := by
  rcases outboxStep_rows hs.ids h with ⟨g, hrows, hg⟩ | ⟨id, topic, key, at_, q, hq, hlast, hrows⟩
  · exact hs.step_of_map h hrows hg
  · exact hs.step_of_insert h hq hlast hrows

theorem OutboxState.Sound.of_reachable (hs : (outboxMachine settings).Reachable s) :
    s.Sound settings := by
  refine hs.invariant (fun s h => ?_) fun s a t hs h => hs.step h
  obtain ⟨hrows, hbatches, -⟩ := h
  constructor <;> simp [hrows, hbatches]

end Preservation

/-! ## Streams are dispatched in order -/

section Main

/-- The row is still there, in its place, and a final status is kept. -/
structure OutboxEvent.Remains (r r' : OutboxEvent) : Prop where
  id_eq : r'.id = r.id
  stream_eq : r'.stream = r.stream
  createdAt_eq : r'.createdAt = r.createdAt
  status_eq : r.status ≠ .pending → r'.status = r.status

theorem OutboxEvent.Remains.trans {p q r : OutboxEvent} (hpq : p.Remains q) (hqr : q.Remains r) :
    p.Remains r := by
  refine ⟨hqr.id_eq.trans hpq.id_eq, hqr.stream_eq.trans hpq.stream_eq,
    hqr.createdAt_eq.trans hpq.createdAt_eq, fun h => ?_⟩
  have hq := hpq.status_eq h
  rw [hqr.status_eq (hq ▸ h), hq]

theorem outboxStep_remains (hs : s.Sound settings) (h : outboxStep settings s a = some t) :
    ∀ r ∈ s.rows, ∃ r' ∈ t.rows, r.Remains r' := by
  intro r hr
  rcases outboxStep_rows hs.ids h with ⟨g, hrows, hg⟩ | ⟨_, _, _, _, q, -, -, hrows⟩
  · have hchange := hg r hr
    obtain ⟨hid, hstream, hcreated⟩ := hchange.kept
    exact ⟨g r, hrows ▸ mem_map_of_mem hr, hid, hstream, hcreated, hs.status_eq hr hchange⟩
  · exact ⟨r, hrows ▸ mem_append_left _ hr, rfl, rfl, rfl, fun _ => rfl⟩

theorem remains_of_leads (hs : (outboxMachine settings).Reachable s)
    (h : (outboxMachine settings).Leads s t) : ∀ r ∈ s.rows, ∃ r' ∈ t.rows, r.Remains r' := by
  refine h.rel (R := fun s t => ∀ r ∈ s.rows, ∃ r' ∈ t.rows, r.Remains r') hs ?_ ?_ ?_
  · intro s r hr
    exact ⟨r, hr, rfl, rfl, rfl, fun _ => rfl⟩
  · intro s t u hst htu r hr
    obtain ⟨q, hq, hrq⟩ := hst r hr
    obtain ⟨p, hp, hqp⟩ := htu q hq
    exact ⟨p, hp, hrq.trans hqp⟩
  · intro s a t hs hstep
    exact outboxStep_remains (.of_reachable hs) hstep

/-- A row is processed by the owner of its claim, after a positive report. -/
theorem OutboxEvent.Change.processed {r r' : OutboxEvent} (h : r.Change settings s a r')
    (hprocessed : r'.status = .processed) :
    r.status = .processed ∨ ∃ i j host b event, a = .persist i j host ∧ s.Owned i j b event r ∧
      b.deliveryAck event.id = some true := by
  cases h with
  | same | claimed | renewed => exact .inl hprocessed
  | delivered hstep howned hack => exact .inr ⟨_, _, _, _, _, hstep, howned, hack⟩
  | retried => exact .inl hprocessed
  | failed => simp [OutboxEvent.markFailed] at hprocessed

theorem processed_step (hs : s.Sound settings) (h : outboxStep settings s a = some t)
    {r' : OutboxEvent} (hr' : r' ∈ t.rows) (hprocessed : r'.status = .processed) :
    ∃ r ∈ s.rows, r.id = r'.id ∧ (r.status = .processed ∨
      ∃ i j host b event, a = .persist i j host ∧ s.Owned i j b event r ∧
        b.deliveryAck r.id = some true ∧ (b.token, r.id) ∈ s.acknowledged) := by
  rcases outboxStep_rows hs.ids h with ⟨g, hrows, hg⟩ | ⟨_, _, _, _, q, hq, -, hrows⟩
  · rw [hrows] at hr'
    obtain ⟨r, hr, rfl⟩ := mem_map.mp hr'
    refine ⟨r, hr, (hg r hr).kept.1.symm, ?_⟩
    rcases (hg r hr).processed hprocessed with hold | ⟨i, j, host, b, event, ha, howned, hack⟩
    · exact .inl hold
    · rw [← (ClaimedOutboxEvent.owns_iff.mp howned.owns).1] at hack
      exact .inr ⟨i, j, host, b, event, ha, howned, hack,
        hs.acks b (mem_of_getElem? howned.batch_at) r.id hack⟩
  · rw [hrows, mem_append, mem_singleton] at hr'
    cases hr' with
    | inl hr' => exact ⟨r', hr', rfl, .inl hprocessed⟩
    | inr hr' => simp [hr', hq] at hprocessed

theorem OutboxState.Sound.head_unique (hs : s.Sound settings) {q r : OutboxEvent}
    (hq : q ∈ s.rows) (hr : r ∈ s.rows) (hstream : q.stream = r.stream)
    (hqhead : IsHead s.rows q) (hrhead : IsHead s.rows r) (hqstatus : q.status ≠ .processed)
    (hrstatus : r.status ≠ .processed) : q = r := by
  by_contra hne
  have hid : q.id ≠ r.id := fun hid => hne (eq_of_key hs.ids hq hr hid)
  cases OutboxEvent.before_trichotomy hid with
  | inl hbefore => exact hqstatus (hrhead q hq hstream hbefore)
  | inr hbefore => exact hrstatus (hqhead r hr hstream.symm hbefore)

/-- In every reachable state an unexpired claim is the only one of its stream and stands on the
first row that is not processed, processed rows form a prefix, a row becomes processed only through
a dispatcher that still owns it and has its acknowledgement, retries stay within the limit, final
statuses are kept and no row disappears. -/
theorem outbox_keeps_stream_order (hs : (outboxMachine settings).Reachable s) :
    (∀ r ∈ s.rows, r.claimLive s.clock → r.status ≠ .processed ∧ IsHead s.rows r ∧
      ∀ q ∈ s.rows, q.stream = r.stream → q.claimLive s.clock → q = r) ∧
    (∀ r ∈ s.rows, r.status = .processed → IsHead s.rows r) ∧
    (∀ a t, (outboxMachine settings).step s a = some t →
      ∀ r' ∈ t.rows, r'.status = .processed → ∃ r ∈ s.rows, r.id = r'.id ∧
        (r.status = .processed ∨ ∃ i j host b event, a = .persist i j host ∧
          s.Owned i j b event r ∧ b.deliveryAck r.id = some true ∧
          (b.token, r.id) ∈ s.acknowledged)) ∧
    (∀ r ∈ s.rows, r.retryCount ≤ settings.maxRetries) ∧
    (∀ t, (outboxMachine settings).Leads s t → ∀ r ∈ s.rows, ∃ r' ∈ t.rows, r.Remains r') := by
  have hsound := OutboxState.Sound.of_reachable hs
  have hclaim (r : OutboxEvent) (hr : r ∈ s.rows) (hlive : r.claimLive s.clock) :
      r.status ≠ .processed ∧ IsHead s.rows r := by
    have hclaims := hsound.claims r hr (Bool.and_eq_true_iff.mp hlive).1
    exact ⟨by simp [hclaims.1], hclaims.2⟩
  refine ⟨fun r hr hlive => ?_, hsound.processed, ?_, fun r hr => (hsound.retries r hr).1,
    fun t h => remains_of_leads hs h⟩
  · have hr_head := hclaim r hr hlive
    refine ⟨hr_head.1, hr_head.2, fun q hq hstream hqlive => ?_⟩
    have hq_head := hclaim q hq hqlive
    exact hsound.head_unique hq hr hstream hq_head.2 hr_head.2 hq_head.1 hr_head.1
  · intro a t h r' hr' hprocessed
    exact processed_step hsound h hr' hprocessed

end Main

theorem reachable_of_run (settings : OutboxSettings) (steps : List OutboxStep)
    (h : (outboxMachine settings).run ⟨[], 0, [], []⟩ steps = some s) :
    (outboxMachine settings).Reachable s := by
  have hinit : (outboxMachine settings).init ⟨[], 0, [], []⟩ := ⟨rfl, rfl, rfl⟩
  exact (Machine.Reachable.init hinit).run h

def claimedStream : OutboxState :=
  { rows :=
      [{ id := 1, topic := "t", partitionKey := "k", createdAt := 5,
         claimToken := some "a", claimExpiresAt := some 15000000 },
       { id := 2, topic := "t", partitionKey := "k", createdAt := 5 }]
    clock := 0
    batches := [⟨"a", [⟨1, "t", "k", 0, 5, "a", 15000000⟩], fun _ => none⟩]
    acknowledged := [] }

def minimalSettings : OutboxSettings := ⟨10, 3, 15000000, 0, 1, 60, 0, by decide⟩

theorem claimedStream_reachable : (outboxMachine minimalSettings).Reachable claimedStream :=
  reachable_of_run minimalSettings [.insert 1 "t" "k" 5, .insert 2 "t" "k" 5, .claim "a" 0 []] rfl

/-- Only the first event of the stream is claimed. -/
theorem outbox_keeps_stream_order_claimed :
    (outboxMachine minimalSettings).Reachable claimedStream ∧
      ∀ q ∈ claimedStream.rows, q.stream = ("t", "k") → q.claimLive 0 → q.id = 1 := by
  refine ⟨claimedStream_reachable, fun q hq hstream hlive => ?_⟩
  have hfirst := (outbox_keeps_stream_order claimedStream_reachable).1 _ mem_cons_self
    (by decide)
  rw [hfirst.2.2 q hq hstream hlive]

/-! ## What follows a result -/

/-- One event from its insertion to the result of its delivery. -/
def oneDelivery (success : Bool) : List OutboxStep :=
  [.insert 1 "t" "k" 5, .claim "a" 0 [], .deliveryReport 0 0 success, .persist 0 0 ⟨0, 0, 0⟩]

/-- **A failed event holds up its stream.** Whatever happens after an event has failed for good, no
later event of its stream is claimed or delivered. -/
theorem failed_event_stops_stream (hs : (outboxMachine settings).Reachable s) {r : OutboxEvent}
    (hr : r ∈ s.rows) (hfailed : r.status = .failed) (h : (outboxMachine settings).Leads s t)
    {q : OutboxEvent} (hq : q ∈ t.rows) (hstream : q.stream = r.stream) (hbefore : r.Before q) :
    q.status ≠ .processed ∧ q.claimToken = none := by
  obtain ⟨r', hr', hremains⟩ := remains_of_leads hs h r hr
  have hsound := OutboxState.Sound.of_reachable (hs.leads h)
  have hblocked : ¬ IsHead t.rows q := by
    intro hhead
    have hfirst : r'.Before q := by
      unfold OutboxEvent.Before
      rw [hremains.id_eq, hremains.createdAt_eq]
      exact hbefore
    have hstatus := hhead r' hr' (hremains.stream_eq.trans hstream.symm) hfirst
    rw [hremains.status_eq (by simp [hfailed]), hfailed] at hstatus
    cases hstatus
  refine ⟨fun hprocessed => hblocked (hsound.processed q hq hprocessed), ?_⟩
  by_contra htoken
  exact hblocked (hsound.claims q hq (Option.isSome_iff_ne_none.mpr htoken)).2

theorem failed_event_stops_stream_refused :
    let settings : OutboxSettings := ⟨10, 1, 15000000, 0, 1, 60, 0, le_rfl⟩
    ∃ s, (outboxMachine settings).run ⟨[], 0, [], []⟩ (oneDelivery false) = some s ∧
      ∀ t, (outboxMachine settings).Leads s t → ∀ q ∈ t.rows, q.stream = ("t", "k") →
        q.createdAt = 5 → 1 < q.id → q.claimToken = none := by
  intro settings
  refine ⟨_, rfl, fun t h q hq hstream hcreated hid => ?_⟩
  have hs := reachable_of_run settings (oneDelivery false) rfl
  exact (failed_event_stops_stream hs mem_cons_self rfl h hq hstream
    (.inr ⟨hcreated.symm, hid⟩)).2

/-- **No delivery without an acknowledgement.** In every reachable state the broker has acknowledged
every event that is marked as processed, under the token of some claim. -/
theorem processed_event_acknowledged (hs : (outboxMachine settings).Reachable s) :
    ∀ r ∈ s.rows, r.status = .processed → ∃ token, (token, r.id) ∈ s.acknowledged := by
  induction hs with
  | init h => simp [h.1]
  | step hs h ih =>
    intro r' hr' hprocessed
    have hkept := (outboxStep_batched h).acknowledged
    obtain ⟨r, hr, hid, hold | ⟨_, _, _, b, _, -, -, -, hack⟩⟩ :=
      processed_step (.of_reachable hs) h hr' hprocessed
    · obtain ⟨token, htoken⟩ := ih r hr hold
      exact ⟨token, hkept (hid ▸ htoken)⟩
    · exact ⟨b.token, hkept (hid ▸ hack)⟩

theorem processed_event_acknowledged_delivered :
    ∃ s, (outboxMachine minimalSettings).run ⟨[], 0, [], []⟩ (oneDelivery true) = some s ∧
      ∃ token, (token, 1) ∈ s.acknowledged := by
  have hs := reachable_of_run minimalSettings (oneDelivery true) rfl
  exact ⟨_, rfl, processed_event_acknowledged hs _ mem_cons_self rfl⟩

end LotusCore
