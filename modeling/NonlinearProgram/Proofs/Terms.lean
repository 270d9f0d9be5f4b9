import NonlinearProgram.Proofs.Exact
import NonlinearProgram.Lagrangian.Term

/-!
# The terms of a layout

Which terms `Layout.ofBounds` makes, and that it makes no two for the same side of the same row or
variable. `Term.SameSlot` says that the multipliers of two terms would be put in the same place;
that no two terms of a layout do so is what makes it safe to overwrite a multiplier of a variable
where one of a row is added.
-/

namespace NonlinearProgram

variable {α : Type} [Scalar α]

namespace Term

/-! ## Membership

Where a term comes from. The two sides of a pair of bounds give at most two terms, a pair of finite
and equal bounds of a row gives the one equality instead, and the variables never give an equality.
What is said here of a source is said of rows and variables alike; the case of an index is only
looked at where the two differ. -/

theorem mem_ofBounds {source : ℕ → Source} {equalities : Bool} {t : Term α} {index : ℕ}
    {lower upper : Point α} :
    t ∈ ofBounds source equalities index lower upper ↔
      ∃ k lo hi, lower[k]? = some lo ∧ upper[k]? = some hi ∧
        t ∈ sides (source (index + k)) lo hi equalities := by
  induction lower generalizing index upper with
  | nil => simp [ofBounds]
  | cons lo lower ih =>
    rcases upper with _ | ⟨hi, upper⟩
    · simp [ofBounds]
    · rw [ofBounds, List.mem_append, ih]
      constructor
      · rintro (h | ⟨k, lo', hi', hlo, hhi, h⟩)
        · exact ⟨0, lo, hi, rfl, rfl, h⟩
        · exact ⟨k + 1, lo', hi', hlo, hhi, by rwa [show index + (k + 1) = index + 1 + k by omega]⟩
      · rintro ⟨k, lo', hi', hlo, hhi, h⟩
        rcases k with _ | k
        · rw [List.getElem?_cons_zero, Option.some_inj] at hlo hhi
          subst hlo hhi
          exact Or.inl h
        · rw [List.getElem?_cons_succ] at hlo hhi
          exact Or.inr ⟨k, lo', hi', hlo, hhi,
            by rwa [show index + 1 + k = index + (k + 1) by omega]⟩

/-- The three kinds of terms that a pair of bounds can have. -/
theorem mem_sides {source : Source} {lo hi : α} {equalities : Bool} {t : Term α} :
    t ∈ sides source lo hi equalities ↔
      if equalities && bounded lo && bounded hi && lo == hi then t = ⟨source, 1.0, lo, true⟩
      else (bounded lo ∧ t = ⟨source, 1.0, lo, false⟩) ∨
        (bounded hi ∧ t = ⟨source, -1.0, hi, false⟩) := by
  rw [sides]
  split
  · rw [List.mem_singleton]
  · rw [List.mem_append]
    by_cases hlo : bounded lo <;> by_cases hhi : bounded hi <;> simp [hlo, hhi]

theorem source_of_mem_sides {source : Source} {lo hi : α} {equalities : Bool} {t : Term α}
    (h : t ∈ sides source lo hi equalities) : t.source = source := by
  rw [mem_sides] at h
  split at h
  · rw [h]
  · rcases h with ⟨-, rfl⟩ | ⟨-, rfl⟩ <;> rfl

/-- A term is an equality exactly where equalities are made and the bounds are finite and equal. -/
theorem equality_of_mem_sides {source : Source} {lo hi : α} {equalities : Bool} {t : Term α}
    (h : t ∈ sides source lo hi equalities) :
    t.equality = (equalities && bounded lo && bounded hi && lo == hi) := by
  rw [mem_sides] at h
  split at h
  · rename_i hcond
    rw [h, hcond]
  · rename_i hcond
    rw [Bool.not_eq_true] at hcond
    rw [hcond]
    rcases h with ⟨-, rfl⟩ | ⟨-, rfl⟩ <;> rfl

end Term

/-- Whether a row has to have one value. -/
def Bounds.equalityRow (b : Bounds α) (j : ℕ) : Bool :=
  match b.rowLower[j]?, b.rowUpper[j]? with
  | some lo, some hi => Term.bounded lo && Term.bounded hi && lo == hi
  | _, _ => false

namespace Layout

theorem mem_terms_ofBounds {n : ℕ} {b : Bounds α} {t : Term α} (h : t ∈ (ofBounds n b).terms) :
    (∃ j lo hi, b.rowLower[j]? = some lo ∧ b.rowUpper[j]? = some hi ∧
      t ∈ Term.sides (.row j) lo hi true) ∨
    (∃ i lower upper lo hi, b.lower = some lower ∧ b.upper = some upper ∧ lower[i]? = some lo ∧
      upper[i]? = some hi ∧ t ∈ Term.sides (.coordinate i) lo hi false) := by
  rw [ofBounds, List.mem_append] at h
  rcases h with h | h
  · obtain ⟨j, lo, hi, hlo, hhi, ht⟩ := Term.mem_ofBounds.mp h
    rw [Nat.zero_add] at ht
    exact Or.inl ⟨j, lo, hi, hlo, hhi, ht⟩
  · rcases hl : b.lower with _ | lower <;> rcases hu : b.upper with _ | upper <;>
      simp only [hl, hu, List.not_mem_nil] at h
    obtain ⟨i, lo, hi, hlo, hhi, ht⟩ := Term.mem_ofBounds.mp h
    rw [Nat.zero_add] at ht
    exact Or.inr ⟨i, lower, upper, lo, hi, rfl, rfl, hlo, hhi, ht⟩

/-- A term of a row belongs to a row that has bounds, and it is an equality where the bounds are
equal. -/
theorem of_mem_ofBounds_row {n : ℕ} {b : Bounds α} {t : Term α} (h : t ∈ (ofBounds n b).terms)
    {j : ℕ} (ht : t.source = .row j) :
    j < b.rowLower.length ∧ t.equality = b.equalityRow j := by
  rcases mem_terms_ofBounds h with ⟨k, lo, hi, hlo, hhi, hmem⟩ | ⟨i, _, _, _, _, -, -, -, -, hmem⟩
  · rw [Term.source_of_mem_sides hmem, Source.row.injEq] at ht
    subst ht
    refine ⟨(List.getElem?_eq_some_iff.mp hlo).1, ?_⟩
    rw [Term.equality_of_mem_sides hmem, Bounds.equalityRow, hlo, hhi, Bool.true_and]
  · rw [Term.source_of_mem_sides hmem] at ht
    cases ht

theorem of_mem_ofBounds_coordinate {n : ℕ} {b : Bounds α} {t : Term α}
    (h : t ∈ (ofBounds n b).terms) {i : ℕ} (ht : t.source = .coordinate i) :
    t.equality = false := by
  rcases mem_terms_ofBounds h with ⟨j, _, _, -, -, hmem⟩ | ⟨_, _, _, _, _, -, -, -, -, hmem⟩
  · rw [Term.source_of_mem_sides hmem] at ht
    cases ht
  · rw [Term.equality_of_mem_sides hmem, Bool.false_and, Bool.false_and, Bool.false_and]

end Layout

/-! ## Slots

A row has one place for its multiplier, and a variable has two, one for each bound. Two terms of one
row with opposite signs may both be there, since multipliers of a row are added; so a slot is a
source together with a sign, and not a place. -/

variable {K : Type} [ExactScalar K]

namespace Term

/-- The multipliers of both terms belong to the same side of the same row or variable. -/
def SameSlot (t u : Term K) : Prop := t.source = u.source ∧ (0 < t.sign ↔ 0 < u.sign)

theorem sign_of_mem_sides {source : Source} {lo hi : K} {equalities : Bool} {t : Term K}
    (h : t ∈ sides source lo hi equalities) : t.sign = 1 ∨ t.sign = -1 := by
  rw [mem_sides] at h
  split at h
  · rw [h]
    exact Or.inl Scalar.one_eq
  · rcases h with ⟨-, rfl⟩ | ⟨-, rfl⟩
    · exact Or.inl Scalar.one_eq
    · exact Or.inr (by simp)

theorem pairwise_sides (source : Source) (lo hi : K) (equalities : Bool) :
    (sides source lo hi equalities).Pairwise fun t u ↦ ¬SameSlot t u := by
  rw [sides]
  split
  · exact List.pairwise_singleton _ _
  · -- of two terms one has a positive sign and the other has not
    by_cases hlo : bounded lo <;> by_cases hhi : bounded hi <;> simp [hlo, hhi, SameSlot]

theorem pairwise_ofBounds {source : ℕ → Source} (hsource : Function.Injective source)
    (equalities : Bool) (index : ℕ) (lower upper : Point K) :
    (ofBounds source equalities index lower upper).Pairwise fun t u ↦ ¬SameSlot t u := by
  induction lower generalizing index upper with
  | nil => exact List.Pairwise.nil
  | cons lo lower ih =>
    rcases upper with _ | ⟨hi, upper⟩
    · exact List.Pairwise.nil
    · rw [ofBounds, List.pairwise_append]
      refine ⟨pairwise_sides _ _ _ _, ih _ _, ?_⟩
      -- later terms belong to later indices
      intro t ht u hu hsame
      obtain ⟨k, _, _, -, -, hu⟩ := mem_ofBounds.mp hu
      rw [SameSlot, source_of_mem_sides ht, source_of_mem_sides hu] at hsame
      have := hsource hsame.1
      omega

end Term

namespace Layout

theorem sign_of_mem_ofBounds {n : ℕ} {b : Bounds K} {t : Term K} (h : t ∈ (ofBounds n b).terms) :
    t.sign = 1 ∨ t.sign = -1 := by
  rcases mem_terms_ofBounds h with ⟨_, _, _, -, -, ht⟩ | ⟨_, _, _, _, _, -, -, -, -, ht⟩ <;>
    exact Term.sign_of_mem_sides ht

theorem pairwise_terms_ofBounds (n : ℕ) (b : Bounds K) :
    (ofBounds n b).terms.Pairwise fun t u ↦ ¬Term.SameSlot t u := by
  have hrow : Function.Injective Source.row := fun _ _ h ↦ Source.row.inj h
  have hcoordinate : Function.Injective Source.coordinate := fun _ _ h ↦ Source.coordinate.inj h
  rw [ofBounds, List.pairwise_append]
  refine ⟨Term.pairwise_ofBounds hrow _ _ _ _, ?_, ?_⟩
  · split
    · exact Term.pairwise_ofBounds hcoordinate _ _ _ _
    · exact List.Pairwise.nil
  · intro t ht u hu hsame
    obtain ⟨j, _, _, -, -, ht⟩ := Term.mem_ofBounds.mp ht
    split at hu
    · obtain ⟨i, _, _, -, -, hu⟩ := Term.mem_ofBounds.mp hu
      rw [Term.SameSlot, Term.source_of_mem_sides ht, Term.source_of_mem_sides hu] at hsame
      exact Source.noConfusion hsame.1
    · exact absurd hu List.not_mem_nil

end Layout

end NonlinearProgram
