import LotusCore.Transaction.Types

/-!
# Digests and source references

Evidence is named by SHA-256 digests. A source reference is built from stripped texts and a digest
of 64 lower-case digits of base 16. The release repository asks `int` to read a lease token instead,
which also takes a sign, `0x` and underscores.

* `FinancialSourceReference`: the evidence for one fact; an invalid one cannot be built.
* `isSha256Digest`, `isCanonicalDigest`: the two checks of a digest.
* `isCanonicalDigest_of_isSha256Digest`: the second accepts what the first accepts.
-/

namespace LotusCore

open List

/-- The characters of a digest. -/
def hexDigits : List Char := "0123456789abcdef".toList

/-- What `require_sha256_digest` accepts. -/
def isSha256Digest (value : String) : Bool :=
  value.toList.length = 64 && value.toList.all hexDigits.contains

/-- `FinancialSourceReference`, after its constructor has stripped the texts. The time is in
microseconds. -/
structure FinancialSourceReference where
  sourceSystem : String
  sourceRecordId : String
  sourceRevision : String
  sourceContentHash : String
  observedAt : ℤ
  nonblank : ∀ value ∈ [sourceSystem, sourceRecordId, sourceRevision],
    strip value = value ∧ value ≠ ""
  digest : isSha256Digest sourceContentHash
  deriving DecidableEq, Repr

/-! ## Lease tokens -/

/-- The digits `int` reads in base 16: an underscore may stand between two of them. -/
def readsHexDigits : List Char → Bool
  | [] => false
  | [c] => hexDigits.contains c
  | c :: '_' :: rest => hexDigits.contains c && readsHexDigits rest
  | c :: rest => hexDigits.contains c && readsHexDigits rest

/-- What follows the sign. -/
def unsigned : List Char → List Char
  | '+' :: rest | '-' :: rest => rest
  | value => value

/-- The lower-case texts `int` reads in base 16. Digits of other scripts, which `int` reads too, are
left out. -/
def readsBase16 (value : List Char) : Bool :=
  match unsigned value with
  | '0' :: 'x' :: '_' :: rest => readsHexDigits rest
  | '0' :: 'x' :: rest => readsHexDigits rest
  | digits => readsHexDigits digits

/-- What `_require_sha256_digest` accepts. -/
def isCanonicalDigest (value : String) : Bool :=
  value.toList.length = 64 && lower value = value && strip value = value &&
    readsBase16 value.toList

theorem hexDigits_plain : ∀ c ∈ hexDigits,
    c ≠ '_' ∧ c ≠ '+' ∧ c ≠ '-' ∧ c ≠ 'x' ∧ c.toLower = c ∧ isSpace c = false :=
  @of_decide_eq_true _ (List.decidableBAll ..) (by decide +kernel)

theorem readsHexDigits_of_subset {l : List Char} (hne : l ≠ []) (h : l ⊆ hexDigits) :
    readsHexDigits l := by
  fun_induction readsHexDigits l with
  | case1 => exact absurd rfl hne
  | case2 c => simpa using h
  | case3 c rest => exact absurd rfl (hexDigits_plain '_' (h (by simp))).1
  | case4 c rest hrest _ ih =>
    rw [cons_subset] at h
    rw [Bool.and_eq_true, contains_iff_mem]
    exact ⟨h.1, ih hrest h.2⟩

/-- No digit is a sign or the letter of `0x`, so all of the text is read as digits. -/
theorem readsBase16_of_subset {l : List Char} (hne : l ≠ []) (h : l ⊆ hexDigits) :
    readsBase16 l := by
  have hunsigned : unsigned l = l := by
    unfold unsigned
    split
    · exact absurd rfl (hexDigits_plain '+' (h mem_cons_self)).2.1
    · exact absurd rfl (hexDigits_plain '-' (h mem_cons_self)).2.2.1
    · rfl
  unfold readsBase16
  rw [hunsigned]
  split
  · exact absurd rfl (hexDigits_plain 'x' (h (by simp))).2.2.2.1
  · exact absurd rfl (hexDigits_plain 'x' (h (by simp))).2.2.2.1
  · exact readsHexDigits_of_subset hne h

theorem stripChars_of_subset {l : List Char} (h : l ⊆ hexDigits) : stripChars l = l := by
  have hdrop {m : List Char} (hm : m ⊆ hexDigits) : m.dropWhile isSpace = m := by
    cases m with
    | nil => rfl
    | cons c rest =>
      have hc := (hexDigits_plain c (hm mem_cons_self)).2.2.2.2.2
      rw [dropWhile_cons, hc]
      rfl
  rw [stripChars, hdrop h, hdrop (reverse_subset.mpr h), reverse_reverse]

theorem isCanonicalDigest_of_isSha256Digest {value : String} (h : isSha256Digest value) :
    isCanonicalDigest value := by
  simp only [isSha256Digest, Bool.and_eq_true, decide_eq_true_eq, all_eq_true,
    contains_iff_mem] at h
  obtain ⟨hlength, hdigits⟩ := h
  have hlower : value.toList.map Char.toLower = value.toList :=
    map_congr_left (fun c hc => (hexDigits_plain c (hdigits c hc)).2.2.2.2.1) |>.trans
      (map_id _)
  have hne : value.toList ≠ [] := by
    intro hnil
    rw [hnil] at hlength
    cases hlength
  simp only [isCanonicalDigest, lower, strip, hlower, stripChars_of_subset hdigits,
    String.ofList_toList, hlength, readsBase16_of_subset hne hdigits, decide_true, Bool.and_self]

end LotusCore
