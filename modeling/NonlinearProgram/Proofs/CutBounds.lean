import NonlinearProgram.Proofs.Feasible
import NonlinearProgram.Proofs.FloatDifference

/-!
# Bounds that are cut off

A pair of bounds is compared before it is cut off, and each side is cut off in one direction only:
the lower one from below and the upper one from above. So the two cuts are in order, and within the
limit, where neither side lies wholly beyond it. A cut of the size of the limit leaves no term, and
a point below the limit at which the terms that are left hold satisfies the pair that was asked for
(`Box.within_of_ofPairs`).

At a term the rounded difference of a value and a bound is compared with zero. Rounding does not
change its sign, so this is the comparison of the two.
-/

namespace NonlinearProgram

open FloatOrder

/-! ## The two cuts of a pair

The comparison before the cut refuses a pair that is out of order or undefined. The cuts of the
others can only be out of order where one of them was not cut because it lies beyond the limit on
the far side. -/

namespace Box

theorem isUndefined_limit : Scalar.isUndefined (limit : Float) = false := by decide +kernel

theorem isUndefined_neg_limit : Scalar.isUndefined (-limit : Float) = false := by decide +kernel

section Accepts

variable {lo hi : Float} (h : Accepts (lo, hi))

include h

theorem Accepts.le : lo ≤ hi := (not_lt_iff h.1 h.2.1).mp h.2.2

theorem Accepts.neg_limit_le_cut : -limit ≤ (cut (lo, hi)).1 :=
  le_max_right h.1 isUndefined_neg_limit

theorem Accepts.cut_le_limit : (cut (lo, hi)).2 ≤ limit := min_le_right h.2.1 isUndefined_limit

/-- Unless the pair lies wholly beyond the limit, its cuts are in order. -/
theorem Accepts.cut_le_cut (hlo : lo ≤ limit) (hhi : -limit ≤ hi) :
    (cut (lo, hi)).1 ≤ (cut (lo, hi)).2 := by
  have hlimit : (-limit : Float) ≤ limit := by decide +kernel
  rw [cut, max_le_iff h.1 isUndefined_neg_limit, le_min_iff h.2.1 isUndefined_limit,
    le_min_iff h.2.1 isUndefined_limit]
  exact ⟨⟨h.le, hlo⟩, hhi, hlimit⟩

end Accepts

theorem cut_fst {lo hi : Float} (h : -limit < lo) : (cut (lo, hi)).1 = lo := by
  rw [cut, max_of_defined isUndefined_neg_limit, if_pos h]

theorem cut_snd {lo hi : Float} (h : hi < limit) : (cut (lo, hi)).2 = hi := by
  rw [cut, min_of_defined isUndefined_limit, if_pos h]

end Box

/-! ## The distances of a variable from its bounds -/

namespace Term

variable {source : Source} {equality : Bool} {bound v : Float}

theorem distance_lower_lt_zero (h : v < bound) :
    distance ⟨source, 1.0, bound, equality⟩ v < 0.0 :=
  lt_zero_of_onSide (onSide_mul_of_unit unpack_one (onSide_sub h).1)

theorem distance_upper_lt_zero (h : bound < v) :
    distance ⟨source, -1.0, bound, equality⟩ v < 0.0 :=
  lt_zero_of_onSide (onSide_mul_of_unit unpack_neg_one (onSide_sub h).2)

theorem bounded_eq_true_iff : bounded bound = true ↔ -Box.limit < bound ∧ bound < Box.limit := by
  rw [bounded, decide_eq_true_iff]
  exact abs_lt_iff

end Term

namespace Box

variable {pairs : List (Float × Float)} {n : ℕ} {lower upper : Option (Point Float)}

theorem pair?_of_ofPairs (h : ofPairs (some pairs) n = .ok (lower, upper))
    (rowLower rowUpper : Point Float) {i : ℕ} {pair : Float × Float}
    (hpair : pairs[i]? = some pair) :
    Bounds.pair? ⟨lower, upper, rowLower, rowUpper⟩ i = some (cut pair) := by
  obtain ⟨-, rfl, rfl⟩ := ofPairs_eq_ok h
  rw [Bounds.pair?]
  refine List.getElem?_zip_eq_some.mpr ⟨?_, ?_⟩ <;> rw [List.getElem?_map, hpair] <;> rfl

theorem within_of_sides (source : Source) {lo hi v : Float} (h : Accepts (lo, hi))
    (hlo : lo < limit) (hhi : -limit < hi) (hv : Scalar.abs v < limit)
    (hterms : ∀ t ∈ Term.sides source (cut (lo, hi)).1 (cut (lo, hi)).2 false,
      0.0 ≤ t.distance v) : lo ≤ v ∧ v ≤ hi := by
  obtain ⟨hlow, hhigh⟩ := abs_lt_iff.mp hv
  have hdefined : Scalar.isUndefined v = false := (defined_of_le (le_of_lt hlow)).2
  simp only [Term.mem_sides, Bool.false_and, Bool.false_eq_true, if_false] at hterms
  constructor
  · -- a bound above such a value is below the limit, so it is neither cut nor dropped
    refine (not_lt_iff h.1 hdefined).mp fun hlt ↦ ?_
    have hlimit : -limit < lo := lt_trans hlow hlt
    rw [cut_fst hlimit] at hterms
    have hnonneg := hterms _ (.inl ⟨Term.bounded_eq_true_iff.mpr ⟨hlimit, hlo⟩, rfl⟩)
    exact not_le_of_lt (Term.distance_lower_lt_zero hlt) hnonneg
  · refine (not_lt_iff hdefined h.2.1).mp fun hlt ↦ ?_
    have hlimit : hi < limit := lt_trans hlt hhigh
    rw [cut_snd hlimit] at hterms
    have hnonneg := hterms _ (.inr ⟨Term.bounded_eq_true_iff.mpr ⟨hhi, hlimit⟩, rfl⟩)
    exact not_le_of_lt (Term.distance_upper_lt_zero hlt) hnonneg

/-- **Bounds that are cut off still bound.** The two lists are as long as there are variables and
do not leave the limit on their own side; unless a pair lies wholly beyond the limit its cuts are in
order, and a point below the limit at which the terms hold is within it. -/
theorem within_of_ofPairs (h : ofPairs (some pairs) n = .ok (lower, upper)) :
    ∃ lows highs, lower = some lows ∧ upper = some highs ∧
      pairs.length = n ∧ lows.length = n ∧ highs.length = n ∧
      (∀ i < n, -limit ≤ lows.coord i ∧ highs.coord i ≤ limit) ∧
      (∀ i lo hi, pairs[i]? = some (lo, hi) → lo ≤ limit → -limit ≤ hi →
        lows.coord i ≤ highs.coord i) ∧
      ∀ rowLower rowUpper x : Point Float, (∀ i < n, Scalar.abs (x.coord i) < limit) →
        (∀ t ∈ (Layout.ofBounds n ⟨lower, upper, rowLower, rowUpper⟩).terms,
          ∀ i, t.source = .coordinate i → 0.0 ≤ t.distance (x.coord i)) →
        ∀ i lo hi, pairs[i]? = some (lo, hi) → lo < limit → -limit < hi →
          lo ≤ x.coord i ∧ x.coord i ≤ hi := by
  have haccepts := accepts_of_ofPairs h
  have hpair := @pair?_of_ofPairs pairs n lower upper h
  obtain ⟨hlength, rfl, rfl⟩ := ofPairs_eq_ok h
  have hcoord : ∀ {i : ℕ} {p : Float × Float} (f : Float × Float → Float), pairs[i]? = some p →
      Point.coord (pairs.map f) i = f p := fun f hp ↦ by
    rw [Point.coord, List.getD_eq_getElem?_getD, List.getElem?_map, hp]
    rfl
  refine ⟨_, _, rfl, rfl, hlength, by rw [List.length_map, hlength],
    by rw [List.length_map, hlength], fun i hi ↦ ?_, fun i lo hi hp hlo hhi ↦ ?_,
    fun rowLower rowUpper x hx hterms i lo hi hp hlo hhi ↦ ?_⟩
  · have hp : pairs[i]? = some pairs[i] := List.getElem?_eq_getElem _
    rw [hcoord _ hp, hcoord _ hp]
    exact ⟨(haccepts _ (List.getElem_mem _)).neg_limit_le_cut,
      (haccepts _ (List.getElem_mem _)).cut_le_limit⟩
  · rw [hcoord _ hp, hcoord _ hp]
    exact (haccepts _ (List.mem_of_getElem? hp)).cut_le_cut hlo hhi
  · have hi : i < n := hlength ▸ (List.getElem?_eq_some_iff.mp hp).1
    refine within_of_sides (.coordinate i) (haccepts _ (List.mem_of_getElem? hp)) hlo hhi (hx i hi)
      fun t ht ↦ ?_
    have hsource := Term.source_of_mem_sides ht
    exact hterms t ((Bounds.mem_terms_iff hsource).mpr ⟨_, _, hpair rowLower rowUpper hp, ht⟩) i
      hsource

/-- Of a pair whose lower side lies beyond the limit the upper side is kept: six is not below
five. -/
theorem within_of_ofPairs_below_five :
    ∃ lows highs : Point Float,
      ofPairs (some [(-1e30, 5.0)]) 1 = .ok (some lows, some highs) ∧
        lows.length = 1 ∧ highs.length = 1 ∧ -limit ≤ lows.coord 0 ∧
        lows.coord 0 ≤ highs.coord 0 ∧ highs.coord 0 ≤ limit ∧
        ¬∀ t ∈ (Layout.ofBounds 1 ⟨some lows, some highs, [], []⟩).terms,
          ∀ i, t.source = .coordinate i → 0.0 ≤ t.distance (Point.coord [6.0] i) := by
  have haccepts : ∀ p ∈ [((-1e30 : Float), (5.0 : Float))], Accepts p :=
    List.forall_mem_singleton.mpr ⟨by decide +kernel, by decide +kernel, by decide +kernel⟩
  have hbox := ofPairs_eq_ok_iff.mpr ⟨rfl, haccepts, rfl, rfl⟩
  obtain ⟨lows, highs, hlows, hhighs, -, hlower, hupper, hlimit, hle, hwithin⟩ :=
    within_of_ofPairs hbox
  rw [hlows, hhighs] at hbox hwithin
  refine ⟨lows, highs, hbox, hlower, hupper, (hlimit 0 Nat.one_pos).1,
    hle 0 _ _ rfl (by decide +kernel) (by decide +kernel), (hlimit 0 Nat.one_pos).2,
    fun hterms ↦ ?_⟩
  have hsmall : ∀ i < 1, Scalar.abs (Point.coord [(6.0 : Float)] i) < limit := by decide +kernel
  have hle := (hwithin [] [] [6.0] hsmall hterms 0 _ _ rfl (by decide +kernel)
    (by decide +kernel)).2
  exact absurd hle (by decide +kernel)

/-- A pair that lies wholly beyond the limit is accepted. Its lower cut is above the limit and above
its upper one, and no term is left, so that zero, which is not within the pair, passes. -/
theorem ofPairs_beyond_limit :
    ∃ lows highs : Point Float,
      ofPairs (some [(1e20, 1e30)]) 1 = .ok (some lows, some highs) ∧
        ¬lows.coord 0 ≤ limit ∧ ¬lows.coord 0 ≤ highs.coord 0 ∧
        (Layout.ofBounds 1 ⟨some lows, some highs, [], []⟩).terms = [] ∧
        Scalar.abs (0.0 : Float) < limit ∧ ¬(1e20 : Float) ≤ 0.0 := by
  have haccepts : ∀ p ∈ [((1e20 : Float), (1e30 : Float))], Accepts p :=
    List.forall_mem_singleton.mpr ⟨by decide +kernel, by decide +kernel, by decide +kernel⟩
  exact ⟨_, _, ofPairs_eq_ok_iff.mpr ⟨rfl, haccepts, rfl, rfl⟩, by decide +kernel,
    by decide +kernel, List.isEmpty_iff.mp (by decide +kernel), by decide +kernel,
    by decide +kernel⟩

end Box

end NonlinearProgram
