import LotusCore.CostBasis.Increment
import LotusCore.Data.Cover

/-!
# Bounded loading of FIFO lots

For one disposal the repository streams the open lots of a portfolio and security, in an order of
its own, and stops as soon as they cover the quantity; the increment then sorts the loaded lots
canonically and restores each into the book of its instrument.

* `OpenLotRecord`: an open lot with the transaction that opened it.
* `getFifoDisposalLotCheckpointRecords`: the streamed prefix.
* `BoundedDisposalAgrees`: a disposal from the prefix and one from all open lots have the same
  evidence and leave every lot the same.
* **`boundedDisposal_agrees_iff`**: they agree exactly when the prefix holds every lot of the book
  that the canonically older ones leave something to take from.
-/

namespace LotusCore

open Exec List

/-- `OpenLotCheckpointRecord`. -/
structure OpenLotRecord where
  transaction : CostBasisTransaction
  state : OpenLotState
  deriving DecidableEq

namespace OpenLotRecord

variable (r : OpenLotRecord)

/-- The transaction that re-adds the lot. -/
def checkpoint : CostBasisTransaction := restoredLot r.transaction r.state

/-- The identity of the lot. -/
def transactionId : String := r.transaction.transactionId

/-- The open quantity of the lot. -/
def quantity : ℚ := r.state.quantity

/-- The canonical order of the lots. -/
def canonicalKey : TransactionOrderKey := transactionOrderKey r.transaction

/-- The lots of a book. -/
def inBook (key : BookKey) (records : List OpenLotRecord) : List OpenLotRecord :=
  records.filter fun r => r.transaction.bookKey = key

end OpenLotRecord

section Loading

variable {κ : Type} [LinearOrder κ] (collate : String ↪ κ)

/-- The `ORDER BY` of `_open_lot_checkpoint_statement`; identities are compared in the collation of
the database. -/
def sqlKey (r : OpenLotRecord) : ℤ ×ₗ ℚ ×ₗ κ :=
  toLex (r.transaction.transactionDate, toLex (-r.transaction.quantity, collate r.transactionId))

/-- The rows of `_open_lot_checkpoint_statement`. -/
def openLotRows (records : List OpenLotRecord) : List OpenLotRecord :=
  records.insertionSort fun a b => sqlKey collate a ≤ sqlKey collate b

/-- The rows read until their quantities cover the required one. -/
def coveringRows (requiredQuantity : ℚ) : ℚ → List OpenLotRecord → List OpenLotRecord
  | _, [] => []
  | covered, row :: rows =>
    let covered := ambientContext.round (covered + row.quantity)
    row :: if requiredQuantity ≤ covered then [] else coveringRows requiredQuantity covered rows

/-- `get_fifo_disposal_lot_checkpoint_records`. -/
def getFifoDisposalLotCheckpointRecords (requiredQuantity : ℚ) (records : List OpenLotRecord) :
    Except Raised (List OpenLotRecord) :=
  if requiredQuantity ≤ 0 then
    .error (.valueError "FIFO disposal checkpoint quantity must be positive")
  else .ok (coveringRows requiredQuantity 0 (openLotRows collate records))

end Loading

/-- Restore lots as `process_increment` does and take a quantity from a book: the evidence, and the
states the book is left in. -/
def disposalOutcome (key : BookKey) (records : List OpenLotRecord) (quantity : ℚ) :
    Except Raised (LotDisposalResult × List (String × OpenLotState)) := do
  let restored ← Exec.stateAfter (LotDispositionEngine.restoreOpenLots
    (sortTransactions [] (validTransactions (records.map OpenLotRecord.checkpoint))))
    (TimelineState.start .fifo).engine
  match CostBasisBooks.consume key quantity restored.books with
  | .ok result books => do
    let states ← books.openLotStates key
    .ok (result, states)
  | .error e _ => .error e

variable {κ : Type}

/-- A disposal from the loaded prefix has the evidence of a disposal from all open lots and leaves
each lot of the book the same state; a lot that was not loaded keeps its own. -/
def BoundedDisposalAgrees [LinearOrder κ] (collate : String ↪ κ) (key : BookKey)
    (records : List OpenLotRecord) (quantity : ℚ) : Prop :=
  ∃ loaded result boundedStates states,
    getFifoDisposalLotCheckpointRecords collate quantity records = .ok loaded ∧
    disposalOutcome key loaded quantity = .ok (result, boundedStates) ∧
    disposalOutcome key records quantity = .ok (result, states) ∧
    ∀ r ∈ OpenLotRecord.inBook key records, states.lookup r.transactionId =
      (boundedStates.lookup r.transactionId).or (some r.state)

/-- The open quantity of the lots before `r`. -/
def quantityBefore [LinearOrder κ] (key : OpenLotRecord → κ) (records : List OpenLotRecord)
    (r : OpenLotRecord) : ℚ :=
  ((records.filter fun x => key x < key r).map OpenLotRecord.quantity).sum

/-- A lot of the book that the canonically older ones leave something to take from is streamed
before the quantity is covered, by lots of this book or of others. -/
def NeededLotsLoaded [LinearOrder κ] (collate : String ↪ κ) (key : BookKey)
    (records : List OpenLotRecord) (quantity : ℚ) : Prop :=
  ∀ r ∈ OpenLotRecord.inBook key records,
    quantityBefore OpenLotRecord.canonicalKey (OpenLotRecord.inBook key records) r < quantity →
      quantityBefore (sqlKey collate) records r < quantity

/-- Open lots of any books, under their own identities and with storable values. -/
structure OpenLots (records : List OpenLotRecord) : Prop where
  parsed : ∀ r ∈ records, r.transaction.errorReason.getD "" = ""
  booked : ∀ r ∈ records, r.transaction.sourceLotOrderQuantity = none
  ids : (records.map fun r => strip r.transactionId).Nodup
  positive : ∀ r ∈ records, 0 < r.quantity
  storable : ∀ r ∈ records, Storable r.quantity ∧ Storable r.state.costLocal ∧
    Storable r.state.costBase
  total : Storable (records.map OpenLotRecord.quantity).sum

/-! ## Restored lots of records -/

namespace OpenLotRecord

/-- The restored lot. -/
def lot (r : OpenLotRecord) : CostLot where
  transactionId := r.transactionId
  lotId := "LOT-" ++ r.transactionId
  acquisitionDate := utcTransactionDate r.transaction
  originalQuantity := r.state.originalQuantity
  remainingQuantity := r.quantity
  costPerShareLocal := workingRound (r.state.costLocal / r.quantity)
  costPerShareBase := workingRound (r.state.costBase / r.quantity)

variable (records : List OpenLotRecord)

/-- The lots as the increment sorts them. -/
def canonicalOrder : List OpenLotRecord :=
  records.insertionSort fun a b => a.canonicalKey ≤ b.canonicalKey

theorem canonicalOrder_perm :
    (canonicalOrder records).Perm records := perm_insertionSort _ records

/-- The book restored from its lots. -/
def restoredBook : FifoBook where
  openLots := (canonicalOrder records).map lot
  available := (records.map quantity).sum

end OpenLotRecord

variable {states : List (String × OpenLotState)} {result : LotDisposalResult}

namespace OpenLots

open OpenLotRecord

variable {key : BookKey} {records loaded : List OpenLotRecord} {r : OpenLotRecord} {q : ℚ}

section Open

variable (h : OpenLots records)

include h

theorem lot_sound (hr : r ∈ records) :
    r.lot.Sound ∧ r.lot.costLocal = r.state.costLocal ∧ r.lot.costBase = r.state.costBase :=
  CostLot.Sound.of_unit_costs r.lot (h.positive r hr) (h.storable r hr).1 r.state.quantity_le
    (h.storable r hr).2.1 (h.storable r hr).2.2 r.state.costLocal_nonneg r.state.costBase_nonneg
    rfl rfl

theorem lot_refreshed (hr : r ∈ records) : r.lot.refreshed = r.lot := by
  obtain ⟨-, hl, hb⟩ := h.lot_sound hr
  unfold CostLot.refreshed assignFifoLotCosts
  rw [hl, hb]
  rfl

theorem lot_openState (hr : r ∈ records) : r.lot.openState = .ok r.state := by
  obtain ⟨hs, hl, hb⟩ := h.lot_sound hr
  exact CostLot.openState_eq_ok.mpr ⟨rfl, rfl, hl.symm, hb.symm, hs.costLocal_storable,
    hs.costBase_storable⟩

theorem lot_restoredBy (hr : r ∈ records) : r.lot.RestoredBy r.checkpoint := by
  obtain ⟨-, hl, hb⟩ := h.lot_sound hr
  exact ⟨rfl, rfl, rfl, rfl, rfl, by rw [hl]; rfl, by rw [hb]; rfl⟩

theorem of_subperm (hsub : loaded.Subperm records) :
    OpenLots loaded where
  parsed r hr := h.parsed r (hsub.subset hr)
  booked r hr := h.booked r (hsub.subset hr)
  ids := by
    obtain ⟨l, hperm, hl⟩ := hsub
    exact (hperm.map _).nodup_iff.mp (h.ids.sublist (hl.map _))
  positive r hr := h.positive r (hsub.subset hr)
  storable r hr := h.storable r (hsub.subset hr)
  total := by
    obtain ⟨l, hperm, hl⟩ := hsub
    have hnonneg : ∀ a ∈ records.map OpenLotRecord.quantity, 0 ≤ a := by
      simpa using fun r hr => (h.positive r hr).le
    rw [← (hperm.map _).sum_eq]
    refine .of_le ?_ (sum_nonneg fun a ha => hnonneg a ((hl.map _).subset ha))
      ((hl.map _).sum_le_sum hnonneg) h.total
    exact .list_sum fun a ha => by
      obtain ⟨r, hr, rfl⟩ := mem_map.mp ha
      exact (h.storable r (hl.subset hr)).1.onGrid

theorem canonical : OpenLots (canonicalOrder records) :=
  h.of_subperm (canonicalOrder_perm records).subperm

theorem inBook (key : BookKey) : OpenLots (inBook key records) :=
  h.of_subperm filter_sublist.subperm

theorem sorted_checkpoints :
    sortTransactions [] (validTransactions (records.map checkpoint)) =
      (canonicalOrder records).map checkpoint := by
  rw [validTransactions_of_parsed fun t ht => by
    obtain ⟨r, hr, rfl⟩ := mem_map.mp ht
    exact h.parsed r hr]
  have hkey : ∀ r ∈ records, transactionOrderKey r.checkpoint = r.canonicalKey :=
    fun r hr => transactionOrderKey_restoredLot (h.booked r hr)
  refine (map_insertionSort _ _ _ _ fun a ha b hb => ?_).symm
  rw [hkey a ha, hkey b hb]

theorem restoredBook_sound : (restoredBook records).Sound where
  lots := by
    intro x hx
    obtain ⟨r, hr, rfl⟩ := mem_map.mp hx
    exact (h.canonical.lot_sound hr).1
  available_eq := by
    show _ = (((canonicalOrder records).map lot).map (·.remainingQuantity)).sum
    rw [map_map]
    exact ((canonicalOrder_perm records).map OpenLotRecord.quantity).sum_eq.symm
  available_storable := h.total

theorem eq_of_transactionId {x y : OpenLotRecord} (hx : x ∈ records) (hy : y ∈ records)
    (hxy : strip x.transactionId = strip y.transactionId) : x = y :=
  inj_on_of_nodup_map h.ids hx hy hxy

theorem keys_nodup {κ' : Type} {f : OpenLotRecord → κ'}
    (hf : ∀ x y, f x = f y → x.transactionId = y.transactionId) : (records.map f).Nodup :=
  h.ids.of_map.map_on fun x hx y hy hxy => h.eq_of_transactionId hx hy (by rw [hf x y hxy])

theorem canonical_lt :
    (canonicalOrder records).Pairwise fun a b => a.canonicalKey < b.canonicalKey := by
  refine Cover.insertionSort_pairwise_lt (h.keys_nodup fun x y hxy => ?_)
  simp only [canonicalKey, transactionOrderKey, EmbeddingLike.apply_eq_iff_eq, Prod.mk.injEq] at hxy
  exact hxy.2.2.2.2.2.2

theorem lotsOf_canonicalOrder (key : BookKey) :
    lotsOf key ((canonicalOrder records).map fun r => (r.lot, r.checkpoint)) =
      (canonicalOrder (OpenLotRecord.inBook key records)).map lot := by
  rw [lotsOf, filter_map, map_map]
  have hfilter : (canonicalOrder records).filter (fun r => r.transaction.bookKey = key) =
      canonicalOrder (OpenLotRecord.inBook key records) := by
    refine List.Perm.eq_of_pairwise (fun a b _ _ h h' => absurd h' h.asymm)
      (h.canonical_lt.filter _) (h.inBook key).canonical_lt ?_
    exact ((canonicalOrder_perm records).filter _).trans (canonicalOrder_perm _).symm
  exact congrArg (List.map lot) hfilter

theorem restoreOpenLots_eq_ok :
    LotDispositionEngine.restoreOpenLots
        (sortTransactions [] (validTransactions (records.map checkpoint)))
        (TimelineState.start .fifo).engine =
      .ok () { books := .fifo fun key => restoredBook (OpenLotRecord.inBook key records) } := by
  have hsum (key : BookKey) :
      ((lotsOf key ((canonicalOrder records).map fun r => (r.lot, r.checkpoint))).map
        (·.remainingQuantity)).sum =
          (restoredBook (OpenLotRecord.inBook key records)).available := by
    rw [h.lotsOf_canonicalOrder]
    exact (h.inBook key).restoredBook_sound.available_eq.symm
  have hlots (key : BookKey) :
      (lotsOf key ((canonicalOrder records).map fun r => (r.lot, r.checkpoint))).map
        CostLot.refreshed = (canonicalOrder (OpenLotRecord.inBook key records)).map lot := by
    rw [h.lotsOf_canonicalOrder, map_map]
    exact map_congr_left fun r hr => (h.inBook key).canonical.lot_refreshed hr
  have hsnd : (canonicalOrder records).map checkpoint =
      ((canonicalOrder records).map fun r => (r.lot, r.checkpoint)).map Prod.snd := by
    rw [map_map]
    rfl
  rw [h.sorted_checkpoints, hsnd]
  refine (restoreOpenLots_fifo (f := fun _ => {}) ?_ rfl ?_ ?_).trans ?_
  · intro p hp
    obtain ⟨r, hr, rfl⟩ := mem_map.mp hp
    exact ⟨h.canonical.lot_restoredBy hr, (h.canonical.lot_sound hr).1⟩
  · exact fun _ => ⟨storable_zero, le_rfl⟩
  · intro key
    rw [hsum key]
    exact (zero_add (restoredBook _).available).symm ▸ (h.inBook key).total
  · simp only [FifoBook.restored, hlots, hsum, zero_add]
    rfl

theorem disposalOutcome_iff_consume :
    disposalOutcome key records q = .ok (result, states) ↔ ∃ after,
      fifoConsume q (restoredBook (OpenLotRecord.inBook key records)) = .ok result after ∧
        after.openLotStates = .ok states := by
  unfold disposalOutcome
  rw [stateAfter_eq_ok.mpr ⟨(), h.restoreOpenLots_eq_ok⟩]
  show (match CostBasisBooks.consume key q (.fifo fun key =>
      restoredBook (OpenLotRecord.inBook key records)) with
    | .ok result books => do
      let states ← books.openLotStates key
      Except.ok (result, states)
    | .error e _ => .error e) = _ ↔ _
  have hconsume : ∀ r b, CostBasisBooks.consume key q (.fifo fun key =>
      restoredBook (OpenLotRecord.inBook key records)) = .ok r b ↔ _ :=
    fun r b => CostBasisBooks.onBook_fifo_eq_ok
  constructor
  · intro hout
    rcases hc : CostBasisBooks.consume key q (.fifo fun key =>
      restoredBook (OpenLotRecord.inBook key records)) with ⟨r, b⟩ | ⟨e, b⟩
    · rw [hc] at hout
      obtain ⟨s, hs, hout⟩ := except_bind_eq_ok.mp hout
      cases hout
      obtain ⟨after, hafter, rfl⟩ := (hconsume _ _).mp hc
      simp only [CostBasisBooks.openLotStates, Function.update_self] at hs
      exact ⟨after, hafter, hs⟩
    · rw [hc] at hout
      cases hout
  · rintro ⟨after, hafter, hs⟩
    rw [(hconsume _ _).mpr ⟨after, hafter, rfl⟩]
    refine except_bind_eq_ok.mpr ⟨states, ?_, rfl⟩
    simp only [CostBasisBooks.openLotStates, Function.update_self]
    exact hs

theorem disposalOutcome_eq_ok (hq : Storable q) (hpos : 0 < q)
    (hle : q ≤ ((OpenLotRecord.inBook key records).map OpenLotRecord.quantity).sum) :
    disposalOutcome key records q = .ok (result, states) ↔ ∃ totals,
      disposalTotals ((canonicalOrder (OpenLotRecord.inBook key records)).map lot)
          { required := q } = .ok totals ∧
        LotDisposalResult.new totals.costBase totals.costLocal q totals.allocations = .ok result ∧
        lotStates
          ((consumedLots ((canonicalOrder (OpenLotRecord.inBook key records)).map lot) q).1 ++
            (consumedLots ((canonicalOrder (OpenLotRecord.inBook key records)).map lot) q).2) =
          .ok states := by
  rw [h.disposalOutcome_iff_consume]
  have hfifo : ∀ after, fifoConsume q (restoredBook (OpenLotRecord.inBook key records)) =
      .ok result after ↔ _ :=
    fun after => fifoConsume_eq_ok (h.inBook key).restoredBook_sound hq hpos hle
  constructor
  · rintro ⟨after, hafter, hs⟩
    obtain ⟨totals, htotals, hnew, rfl⟩ := (hfifo after).mp hafter
    exact ⟨totals, htotals, hnew, hs⟩
  · rintro ⟨totals, htotals, hnew, hs⟩
    exact ⟨_, (hfifo _).mpr ⟨totals, htotals, hnew, rfl⟩, hs⟩

/-- A disposal without an error is covered by its book. -/
theorem le_of_disposalOutcome (hpos : 0 < q)
    (hout : disposalOutcome key records q = .ok (result, states))
    (herror : result.errorReason = none) :
    q ≤ ((OpenLotRecord.inBook key records).map OpenLotRecord.quantity).sum := by
  obtain ⟨after, hafter, -⟩ := h.disposalOutcome_iff_consume.mp hout
  rcases fifoConsume_cases hafter with ⟨-, ⟨hzero, -⟩ | ⟨reason, rfl⟩⟩ | ⟨-, hle, -⟩
  · exact absurd hzero hpos.ne'
  · cases herror
  · exact hle

end Open

end OpenLots

/-! ## Disposals from a prefix -/

section Prefix

variable {xs ys : List CostLot} {q : ℚ} {totals totals' : DisposalTotals}

theorem consumedLots_append (h : q ≤ (xs.map (·.remainingQuantity)).sum) :
    consumedLots (xs ++ ys) q = ((consumedLots xs q).1, (consumedLots xs q).2 ++ ys) := by
  induction xs generalizing q with
  | nil => rw [nil_append, consumedLots_of_nonpos h, consumedLots_of_nonpos h, nil_append]
  | cons lot rest ih =>
    rw [map_cons, sum_cons] at h
    rw [cons_append, consumedLots, consumedLots]
    split_ifs
    · rfl
    · simp only [ih (sub_le_iff_le_add'.mpr h)]
    · rfl

theorem consumedLots_transactionIds :
    ((consumedLots xs q).1 ++ (consumedLots xs q).2).map (·.transactionId) =
      xs.map (·.transactionId) := by
  have hsame : List.Forall₂ (fun id (lot : CostLot) => lot.transactionId = id)
      (xs.map (·.transactionId)) xs := by
    rw [forall₂_map_left_iff, forall₂_same]
    exact fun _ _ => rfl
  have hafter := forall₂_consumedLots (q := q) (fun _ _ _ h => h) hsame
  rw [← forall₂_eq_eq_eq, forall₂_map_left_iff]
  exact hafter.flip

theorem required_sub_min (q m : ℚ) : q - min q m ≤ 0 ∨ q - min q m = q - m := by
  rcases le_total q m with h | h
  · exact .inl (by rw [min_eq_left h, sub_self])
  · exact .inr (by rw [min_eq_right h])

theorem disposalTotals_append (h : totals.required ≤ (xs.map (·.remainingQuantity)).sum) :
    disposalTotals (xs ++ ys) totals = disposalTotals xs totals := by
  induction xs generalizing totals with
  | nil =>
    rw [nil_append, disposalTotals_of_nonpos (not_lt.mpr h),
      disposalTotals_of_nonpos (not_lt.mpr h)]
  | cons lot rest ih =>
    rw [map_cons, sum_cons] at h
    rw [cons_append, disposalTotals, disposalTotals]
    split_ifs
    · refine except_bind_congr fun a ha => except_bind_congr fun totals₁ hadd => ?_
      obtain ⟨_, _, _, -, -, -, rfl⟩ := disposalTotals_add_eq_ok.mp hadd
      have hreq := required_sub_min totals.required lot.remainingQuantity
      rw [← (lotAllocation_consumed ha).1] at hreq
      rcases hreq with hreq | hreq
      · rw [disposalTotals_of_nonpos (not_lt.mpr hreq), disposalTotals_of_nonpos (not_lt.mpr hreq)]
      · refine ih ?_
        show totals.required - a.consumedQuantity ≤ _
        rw [hreq]
        exact sub_le_iff_le_add'.mpr h
    · rfl

theorem disposalTotals_sources (h : disposalTotals xs totals = .ok totals') :
    totals'.allocations.map (·.sourceTransactionId) =
      totals.allocations.map (·.sourceTransactionId) ++
        (Cover.reach (·.remainingQuantity) xs totals.required).map fun lot =>
          strip lot.transactionId := by
  induction xs generalizing totals with
  | nil =>
    cases h
    simp [Cover.reach]
  | cons lot rest ih =>
    rw [disposalTotals] at h
    rw [Cover.reach]
    split_ifs at h with hpos
    · obtain ⟨a, ha, h⟩ := except_bind_eq_ok.mp h
      obtain ⟨totals₁, hadd, h⟩ := except_bind_eq_ok.mp h
      obtain ⟨_, _, _, -, -, -, rfl⟩ := disposalTotals_add_eq_ok.mp hadd
      have hsource : a.sourceTransactionId = strip lot.transactionId :=
        (SourceLotDisposalAllocation.new_eq_ok ha).2.1
      have hrest : Cover.reach (·.remainingQuantity) rest (totals.required - a.consumedQuantity) =
          Cover.reach (·.remainingQuantity) rest (totals.required - lot.remainingQuantity) := by
        rw [(lotAllocation_consumed ha).1]
        rcases le_total totals.required lot.remainingQuantity with hle | hle
        · rw [min_eq_left hle, Cover.reach_of_nonpos (sub_self _).le,
            Cover.reach_of_nonpos (sub_nonpos.mpr hle)]
        · rw [min_eq_right hle]
      rw [ih h, hrest, if_neg (not_le.mpr hpos)]
      simp [hsource]
    · cases h
      rw [if_pos (not_lt.mp hpos)]
      simp

end Prefix

/-! ## The loaded prefix -/

namespace OpenLots

open OpenLotRecord

variable {key : BookKey} {records : List OpenLotRecord} {q : ℚ} {κ : Type} [LinearOrder κ]
  {collate : String ↪ κ}

theorem rows_lt (h : OpenLots records) :
    (openLotRows collate records).Pairwise fun a b => sqlKey collate a < sqlKey collate b := by
  refine Cover.insertionSort_pairwise_lt (h.keys_nodup fun x y hxy => ?_)
  simp only [sqlKey, EmbeddingLike.apply_eq_iff_eq, Prod.mk.injEq] at hxy
  exact hxy.2.2

theorem coveringRows_eq {rows : List OpenLotRecord} {covered : ℚ} (h : OpenLots rows)
    (h0 : 0 ≤ covered) (hgrid : Decimal.OnGrid 10 covered) (hlt : covered < q)
    (htotal : Storable (covered + (rows.map OpenLotRecord.quantity).sum)) :
    coveringRows q covered rows = Cover.reach OpenLotRecord.quantity rows (q - covered) := by
  induction rows generalizing covered with
  | nil => rfl
  | cons row rows ih =>
    have hrows : OpenLots rows := h.of_subperm (sublist_cons_self _ _).subperm
    have hrow : 0 < row.quantity := h.positive row (by simp)
    have hnonneg : 0 ≤ (rows.map OpenLotRecord.quantity).sum :=
      sum_nonneg (by simpa using fun r hr => (hrows.positive r hr).le)
    rw [map_cons, sum_cons] at htotal
    have hgrid' : Decimal.OnGrid 10 (covered + row.quantity) :=
      hgrid.add (h.storable row (by simp)).1.onGrid
    have hst : Storable (covered + row.quantity) :=
      .of_le hgrid' (by linarith) (by linarith) htotal
    rw [coveringRows, Cover.reach, if_neg (not_le.mpr (sub_pos.mpr hlt)),
      ambientContext_round_of_storable hst, sub_sub]
    congr 1
    split_ifs with hq
    · rw [Cover.reach_of_nonpos (sub_nonpos.mpr hq)]
    · exact ih hrows (by linarith) hgrid' (not_le.mp hq) (by rwa [add_assoc])

theorem getFifoDisposalLotCheckpointRecords_eq (h : OpenLots records) (hpos : 0 < q) :
    getFifoDisposalLotCheckpointRecords collate q records =
      .ok (Cover.reach OpenLotRecord.quantity (openLotRows collate records) q) := by
  have hrows : OpenLots (openLotRows collate records) :=
    h.of_subperm (perm_insertionSort _ _).subperm
  rw [getFifoDisposalLotCheckpointRecords, if_neg (not_le.mpr hpos),
    hrows.coveringRows_eq le_rfl (Decimal.OnGrid.zero 10) hpos (by simpa using hrows.total),
    sub_zero]

variable {l : List OpenLotRecord}

theorem mem_reach_iff {κ' : Type} [LinearOrder κ'] {f : OpenLotRecord → κ'}
    {r : OpenLotRecord} (h : OpenLots records)
    (hl : l.Pairwise fun a b => f a < f b) (hperm : l.Perm records) :
    r ∈ Cover.reach OpenLotRecord.quantity l q ↔ r ∈ records ∧ quantityBefore f records r < q := by
  rw [Cover.mem_reach_iff hl fun x hx => (h.positive x (hperm.subset hx)).le, hperm.mem_iff,
    quantityBefore, ((hperm.filter _).map _).sum_eq]

theorem neededLotsLoaded_iff (h : OpenLots records) :
    NeededLotsLoaded collate key records q ↔
      Cover.reach OpenLotRecord.quantity (canonicalOrder (OpenLotRecord.inBook key records)) q ⊆
        Cover.reach OpenLotRecord.quantity (openLotRows collate records) q := by
  have hcanonical : ∀ r, r ∈ Cover.reach OpenLotRecord.quantity
      (canonicalOrder (OpenLotRecord.inBook key records)) q ↔ _ :=
    fun r => (h.inBook key).mem_reach_iff (h.inBook key).canonical_lt (canonicalOrder_perm _)
  have hlt : (openLotRows collate records).Pairwise
      fun a b => sqlKey collate a < sqlKey collate b :=
    h.rows_lt
  have hrows : ∀ r, r ∈ Cover.reach OpenLotRecord.quantity (openLotRows collate records) q ↔ _ :=
    fun r => h.mem_reach_iff hlt (perm_insertionSort _ _)
  constructor
  · intro hneeded r hr
    obtain ⟨hmem, hbefore⟩ := (hcanonical r).mp hr
    exact (hrows r).mpr ⟨mem_of_mem_filter hmem, hneeded r hmem hbefore⟩
  · intro hsub r hmem hbefore
    exact ((hrows r).mp (hsub ((hcanonical r).mpr ⟨hmem, hbefore⟩))).2

theorem lotStates_map_lot (h : OpenLots records) :
    lotStates (records.map lot) = .ok (records.map fun r => (r.transactionId, r.state)) := by
  rw [lotStates_eq_ok, forall₂_map_left_iff, forall₂_map_right_iff, forall₂_same]
  exact fun r hr => ⟨rfl, h.lot_openState hr⟩

theorem lookup_states (h : OpenLots records) (hl : l ⊆ records)
    {r : OpenLotRecord} (hr : r ∈ records) :
    (l.map fun x => (x.transactionId, x.state)).lookup r.transactionId =
      if r ∈ l then some r.state else none := by
  induction l with
  | nil => rfl
  | cons x rest ih =>
    rw [map_cons, lookup_cons]
    by_cases hx : x = r
    · subst hx
      simp
    · have hne : (r.transactionId == x.transactionId) = false := by
        rw [beq_eq_false_iff_ne]
        exact fun heq => hx (h.eq_of_transactionId (hl (by simp)) hr (by rw [heq]))
      rw [hne, ih fun y hy => hl (by simp [hy])]
      simp [Ne.symm hx]

/-- Disposals from two lists whose books share a prefix covering the quantity. -/
theorem disposalOutcome_of_prefix {loaded taken rest rest' : List OpenLotRecord}
    (h : OpenLots records) (hloaded : OpenLots loaded) (hq : Storable q) (hpos : 0 < q)
    (hall : canonicalOrder (OpenLotRecord.inBook key records) = taken ++ rest)
    (hpart : canonicalOrder (OpenLotRecord.inBook key loaded) = taken ++ rest')
    (hrest : rest' ⊆ rest)
    (hcover : q ≤ (taken.map OpenLotRecord.quantity).sum)
    (hfull : disposalOutcome key records q = .ok (result, states)) :
    ∃ boundedStates, disposalOutcome key loaded q = .ok (result, boundedStates) ∧
      ∀ r ∈ OpenLotRecord.inBook key records, states.lookup r.transactionId =
        (boundedStates.lookup r.transactionId).or (some r.state) := by
  have hbook := h.inBook key
  have hpartBook := hloaded.inBook key
  have hsum : ∀ {l : List OpenLotRecord} {tail}, OpenLots l →
      canonicalOrder l = taken ++ tail → q ≤ (l.map OpenLotRecord.quantity).sum := by
    intro l tail hl heq
    have htail : 0 ≤ (tail.map OpenLotRecord.quantity).sum := sum_nonneg (by
      simpa using fun r hr => (hl.canonical.positive r (heq ▸ mem_append_right _ hr)).le)
    rw [← ((canonicalOrder_perm l).map OpenLotRecord.quantity).sum_eq, heq, map_append,
      sum_append]
    linarith
  have hcover' : q ≤ ((taken.map lot).map (·.remainingQuantity)).sum := by
    rwa [map_map]
  have hsublist : ∀ {l : List OpenLotRecord} {tail}, OpenLots l →
      canonicalOrder l = taken ++ tail → OpenLots tail := by
    intro l tail hl heq
    exact hl.canonical.of_subperm (heq ▸ (sublist_append_right _ _).subperm)
  obtain ⟨totals, htotals, hnew, hstates⟩ :=
    (h.disposalOutcome_eq_ok hq hpos (hsum hbook hall)).mp hfull
  rw [hall, map_append] at htotals hstates
  rw [disposalTotals_append hcover'] at htotals
  rw [consumedLots_append hcover', ← append_assoc, lotStates_append_eq_ok] at hstates
  obtain ⟨s₁, s₂, hs₁, hs₂, rfl⟩ := hstates
  rw [(hsublist hbook hall).lotStates_map_lot] at hs₂
  cases hs₂
  refine ⟨s₁ ++ rest'.map fun r => (r.transactionId, r.state),
    (hloaded.disposalOutcome_eq_ok hq hpos (hsum hpartBook hpart)).mpr ⟨totals, ?_, hnew, ?_⟩, ?_⟩
  · rw [hpart, map_append, disposalTotals_append hcover']
    exact htotals
  · rw [hpart, map_append, consumedLots_append hcover', ← append_assoc,
      lotStates_append_eq_ok]
    exact ⟨s₁, _, hs₁, (hsublist hpartBook hpart).lotStates_map_lot, rfl⟩
  · intro r hr
    have hrest₁ : rest ⊆ OpenLotRecord.inBook key records := fun x hx =>
      (canonicalOrder_perm _).subset (by simp [hall, hx])
    rw [lookup_append, lookup_append, hbook.lookup_states hrest₁ hr,
      hbook.lookup_states (fun x hx => hrest₁ (hrest hx)) hr]
    cases hlook : s₁.lookup r.transactionId with
    | some v => simp
    | none =>
      -- a lot without a state among the taken ones is one of the others
      have hr' : r ∈ rest := by
        have hmem := (canonicalOrder_perm _).symm.subset hr
        rw [hall, mem_append] at hmem
        refine hmem.resolve_left fun htaken => ?_
        have hkey : r.transactionId ∈ s₁.map Prod.fst := by
          rw [lotStates_keys hs₁, consumedLots_transactionIds, map_map]
          exact mem_map_of_mem htaken
        obtain ⟨p, hp, hpr⟩ := mem_map.mp hkey
        exact absurd (lookup_eq_none_iff.mp hlook p hp) (by simp [hpr])
      by_cases hr'' : r ∈ rest' <;> simp [hr', hr'']

end OpenLots

section Main

open OpenLotRecord

variable {κ : Type} [LinearOrder κ] {collate : String ↪ κ} {key : BookKey}
  {records : List OpenLotRecord} {q : ℚ}

/-- **Bounded loading.** A disposal that the whole book covers and completes is the same from the
loaded prefix exactly when the prefix holds every lot of the book that the canonically older ones
leave something to take from. -/
theorem boundedDisposal_agrees_iff (h : OpenLots records) (hq : Storable q) (hpos : 0 < q)
    (hle : q ≤ ((inBook key records).map OpenLotRecord.quantity).sum)
    (hfull : ∃ outcome, disposalOutcome key records q = .ok outcome) :
    BoundedDisposalAgrees collate key records q ↔ NeededLotsLoaded collate key records q := by
  have hrows : (openLotRows collate records).Perm records := perm_insertionSort _ _
  have hbook := h.inBook key
  have hcanon := canonicalOrder_perm (inBook key records)
  set loaded := Cover.reach OpenLotRecord.quantity (openLotRows collate records) q with hloaded
  have hsub : loaded.Subperm records :=
    Cover.reach_isPrefix.sublist.subperm.trans hrows.subperm
  have hl : OpenLots loaded := h.of_subperm hsub
  have hmemBook {r : OpenLotRecord} (hr : r ∈ inBook key loaded) : r ∈ inBook key records :=
    mem_filter.mpr ⟨hsub.subset (mem_of_mem_filter hr), (mem_filter.mp hr).2⟩
  rw [h.neededLotsLoaded_iff, ← hloaded]
  constructor
  · rintro ⟨loaded', result, boundedStates, states, hload, hbounded, hall, -⟩ r hr
    rw [h.getFifoDisposalLotCheckpointRecords_eq hpos, ← hloaded] at hload
    cases hload
    obtain ⟨totals, htotals, hnew, -⟩ := (h.disposalOutcome_eq_ok hq hpos hle).mp hall
    obtain ⟨hresult, -⟩ := LotDisposalResult.new_eq_ok hnew
    have hlle := hl.le_of_disposalOutcome hpos hbounded (by rw [hresult])
    obtain ⟨totals', htotals', hnew', -⟩ := (hl.disposalOutcome_eq_ok hq hpos hlle).mp hbounded
    -- both disposals name the same lots, and the bounded one only loaded lots
    have hsources := disposalTotals_sources htotals
    have hsources' := disposalTotals_sources htotals'
    have hsame : totals'.allocations = totals.allocations := by
      rw [(LotDisposalResult.new_eq_ok hnew').1] at hresult
      exact congrArg LotDisposalResult.allocations hresult
    rw [hsame, hsources, Cover.reach_map, Cover.reach_map, map_map, map_map] at hsources'
    have hmem := mem_map_of_mem (f := fun r => strip r.transactionId) hr
    have hmem' : strip r.transactionId ∈
        (Cover.reach OpenLotRecord.quantity (canonicalOrder (inBook key loaded)) q).map
          fun r => strip r.transactionId := by
      have := append_cancel_left hsources'
      exact this ▸ hmem
    obtain ⟨x, hx, hxr⟩ := mem_map.mp hmem'
    have hx' : x ∈ inBook key loaded :=
      (canonicalOrder_perm _).subset (Cover.reach_isPrefix.sublist.subset hx)
    have hrecord : r ∈ inBook key records := hcanon.subset (Cover.reach_isPrefix.sublist.subset hr)
    rw [← hbook.eq_of_transactionId (hmemBook hx') hrecord hxr]
    exact mem_of_mem_filter hx'
  · intro hneeded
    obtain ⟨⟨result, states⟩, hall⟩ := hfull
    obtain ⟨rest, hsplit⟩ :
      Cover.reach OpenLotRecord.quantity (canonicalOrder (inBook key records)) q
      <+: canonicalOrder (inBook key records) := Cover.reach_isPrefix
    have hnodup : (canonicalOrder (inBook key records)).Nodup :=
      hbook.canonical_lt.imp fun h => ne_of_apply_ne canonicalKey h.ne
    have hpartSub : (canonicalOrder (inBook key loaded)).Sublist
        (Cover.reach OpenLotRecord.quantity (canonicalOrder (inBook key records)) q ++ rest) := by
      rw [hsplit]
      exact Cover.sublist_of_subset_of_sorted (hl.inBook key).canonical_lt hbook.canonical_lt
        fun r hr => hcanon.symm.subset (hmemBook ((canonicalOrder_perm _).subset hr))
    obtain ⟨rest', hpart, hrest⟩ := Cover.eq_append_of_sublist_append (by rwa [hsplit]) hpartSub
      fun x hx => (canonicalOrder_perm _).symm.subset (mem_filter.mpr ⟨hneeded hx,
        (mem_filter.mp (hcanon.subset (Cover.reach_isPrefix.sublist.subset hx))).2⟩)
    obtain ⟨boundedStates, hbounded, hstates⟩ := h.disposalOutcome_of_prefix hl hq hpos hsplit.symm
      hpart hrest.subset (Cover.le_sum_reach (by rwa [(hcanon.map _).sum_eq])) hall
    exact ⟨loaded, result, boundedStates, states, h.getFifoDisposalLotCheckpointRecords_eq hpos,
      hbounded, hall, hstates⟩

end Main

/-- A lot of which nothing was taken yet. -/
def untouchedLot (id instrument : String) (type : TransactionType) (date : ℤ) (quantity cost : ℕ) :
    OpenLotRecord where
  transaction := { bookedTrade id type date quantity cost with instrumentId := instrument }
  state := ⟨quantity, quantity, cost, cost, Nat.cast_nonneg _, Nat.cast_nonneg _, Nat.cast_nonneg _,
    le_rfl⟩

/-- A purchase of 100 units, a later receipt of 50 from a spin-off, and a lot of another instrument
in between: 60 units are disposed of. -/
def laterReceipt : List OpenLotRecord :=
  [untouchedLot "B" "I" .buy 0 100 200, untouchedLot "C" "J" .buy 1 10 20,
    untouchedLot "S" "I" .spinIn 2 50 25]

theorem boundedDisposal_agrees_later_spinIn :
    BoundedDisposalAgrees (Function.Embedding.refl String) ("P", "I") laterReceipt 60 := by
  have hfull : ∃ outcome, disposalOutcome ("P", "I") laterReceipt 60 = .ok outcome := by
    have hok : (disposalOutcome ("P", "I") laterReceipt 60).toBool = true := by decide +kernel
    cases h : disposalOutcome ("P", "I") laterReceipt 60 with
    | ok outcome => exact ⟨outcome, rfl⟩
    | error e =>
      rw [h] at hok
      cases hok
  have hlots : OpenLots laterReceipt := by constructor <;> decide +kernel
  refine (boundedDisposal_agrees_iff hlots (by decide +kernel) (by decide +kernel)
    (by decide +kernel) hfull).mpr ?_
  unfold NeededLotsLoaded
  decide +kernel

/-- A purchase of 100 units and a receipt of 50 from a spin-off at the same instant. -/
def sameInstant : List OpenLotRecord :=
  [untouchedLot "B" "I" .buy 0 100 200, untouchedLot "S" "I" .spinIn 0 50 25]

/-- Two instruments of one security: the older lot is not of the book. -/
def twoInstrumentLots : List OpenLotRecord :=
  [untouchedLot "A" "J" .buy 0 60 60, untouchedLot "B" "I" .buy 1 100 200]

/-- The evidence of the bounded disposal, and that of the disposal from all open lots. -/
def disposalEvidence (key : BookKey) (records : List OpenLotRecord) (quantity : ℚ) :
    Except Raised LotDisposalResult × Except Raised LotDisposalResult :=
  (do
    let loaded ←
      getFifoDisposalLotCheckpointRecords (Function.Embedding.refl String) quantity records
    let bounded ← disposalOutcome key loaded quantity
    .ok bounded.1,
  do
    let full ← disposalOutcome key records quantity
    .ok full.1)

theorem not_agrees_of_evidence {key : BookKey} {records : List OpenLotRecord} {q : ℚ}
    (h : (disposalEvidence key records q).1 ≠ (disposalEvidence key records q).2) :
    ¬ BoundedDisposalAgrees (Function.Embedding.refl String) key records q := by
  rintro ⟨loaded, result, boundedStates, states, hload, hbounded, hall, -⟩
  refine h ?_
  unfold disposalEvidence
  rw [hall]
  exact except_bind_eq_ok.mpr ⟨loaded, hload, except_bind_eq_ok.mpr ⟨_, hbounded, rfl⟩⟩

/-- Of two lots of one instant 60 units are disposed of. The stream stops after the purchase, which
has the larger quantity; in canonical order the receipt comes first. Of two instruments it stops
after the older lot, which is of the other book, and the disposal finds nothing. -/
theorem boundedDisposal_disagrees_same_instant :
    (disposalOutcome ("P", "I") sameInstant 60).toBool = true ∧
    ¬ BoundedDisposalAgrees (Function.Embedding.refl String) ("P", "I") sameInstant 60 ∧
    (disposalOutcome ("P", "I") twoInstrumentLots 60).toBool = true ∧
    ¬ BoundedDisposalAgrees (Function.Embedding.refl String) ("P", "I") twoInstrumentLots 60 :=
  ⟨by decide +kernel, not_agrees_of_evidence (by decide +kernel), by decide +kernel,
    not_agrees_of_evidence (by decide +kernel)⟩

end LotusCore
