import NonlinearProgram.Proofs.Terms

/-!
# Projection and violation

In exact arithmetic `Layout.project` clamps each variable to the finite ones of its two bounds
(`Layout.coord_project`), and `Layout.violation` is at most a tolerance exactly if the excess of
every term is (`Layout.violation_le_iff`). Where each pair of bounds leaves a value, so that the two
sides of a variable do not undo one another, every term of a variable holds after the projection,
and no coordinate moves by more than the violation.
-/

namespace NonlinearProgram

/-! ## Pairs of bounds -/

namespace Bounds

variable {α : Type} [Scalar α]

/-- The bounds of a variable, where both lists of bounds have one for it. -/
def pair? (b : Bounds α) (k : ℕ) : Option (α × α) :=
  match b.lower, b.upper with
  | some lower, some upper => (lower.zip upper)[k]?
  | _, _ => none

/-- Only the first `n` variables have bounds, and each pair of bounds leaves a value. -/
def Boxed (b : Bounds α) (n : ℕ) : Prop :=
  ∀ k lo hi, b.pair? k = some (lo, hi) → k < n ∧ lo ≤ hi

/-- The terms of a variable are those of its pair of bounds. -/
theorem mem_terms_iff {n : ℕ} {b : Bounds α} {t : Term α} {k : ℕ} (ht : t.source = .coordinate k) :
    t ∈ (Layout.ofBounds n b).terms ↔
      ∃ lo hi, b.pair? k = some (lo, hi) ∧ t ∈ Term.sides (.coordinate k) lo hi false := by
  constructor
  · intro h
    rcases Layout.mem_terms_ofBounds h with
      ⟨j, _, _, -, -, hmem⟩ | ⟨i, lower, upper, lo, hi, hl, hu, hlo, hhi, hmem⟩
    · rw [Term.source_of_mem_sides hmem] at ht
      cases ht
    · rw [Term.source_of_mem_sides hmem, Source.coordinate.injEq] at ht
      subst ht
      refine ⟨lo, hi, ?_, hmem⟩
      rw [pair?, hl, hu]
      exact List.getElem?_zip_eq_some.mpr ⟨hlo, hhi⟩
  · rintro ⟨lo, hi, hpair, hmem⟩
    rw [pair?] at hpair
    rw [Layout.ofBounds, List.mem_append]
    rcases hl : b.lower with _ | lower <;> rcases hu : b.upper with _ | upper <;>
      rw [hl, hu] at hpair <;> try cases hpair
    obtain ⟨hlo, hhi⟩ := List.getElem?_zip_eq_some.mp hpair
    exact Or.inr (Term.mem_ofBounds.mpr ⟨k, lo, hi, hlo, hhi, by rwa [Nat.zero_add]⟩)

end Bounds

variable {K : Type} [ExactScalar K]

/-! ## Violation

A maximum of numbers that starts from zero is within a tolerance if all of them are, where the
tolerance is not negative. The excess of a term is the size of its distance for an equality, and for
an inequality as much of it as is below zero. -/

namespace Term

@[simp] theorem distance_lower (source : Source) (lo v : K) (equality : Bool) :
    distance ⟨source, 1, lo, equality⟩ v = v - lo := by
  rw [distance, one_mul]

@[simp] theorem distance_upper (source : Source) (hi v : K) (equality : Bool) :
    distance ⟨source, -1, hi, equality⟩ v = hi - v := by
  rw [distance, neg_one_mul, neg_sub]

theorem excess_le_iff {t : Term K} (ht : t.equality = false) {s tol : K} :
    t.excess s ≤ tol ↔ -s ≤ tol ∧ 0 ≤ tol := by
  rw [excess, if_neg (by rw [ht]; decide), Scalar.max_eq, Scalar.zero_eq, max_le_iff]

end Term

theorem Scalar.foldl_max_le_iff {values : List K} {a tol : K} :
    values.foldl Scalar.max a ≤ tol ↔ a ≤ tol ∧ ∀ v ∈ values, v ≤ tol := by
  induction values generalizing a with
  | nil => exact (and_iff_left fun _ h ↦ absurd h List.not_mem_nil).symm
  | cons v values ih =>
    rw [List.foldl_cons, ih, Scalar.max_eq, max_le_iff, List.forall_mem_cons, and_assoc]

theorem Layout.violation_le_iff {l : Layout K} {x rows : Point K} {tol : K} :
    l.violation (l.values x rows) ≤ tol ↔
      0 ≤ tol ∧ ∀ t ∈ l.terms, t.excess (t.distance (t.source.read x rows)) ≤ tol := by
  rw [violation, values, List.zipWith_map_right, List.zipWith_self, Scalar.foldl_max_le_iff,
    Scalar.zero_eq, List.forall_mem_map]

/-! ## Clamping

The terms of a variable come in the order lower bound, upper bound. So a value is raised first and
lowered then, and where the bounds are in order the second step leaves it above the lower one. -/

namespace Term

/-- A value moved up to its lower bound, where it has one. -/
def raise (lo v : K) : K := if bounded lo ∧ v < lo then lo else v

/-- A value moved down to its upper bound, where it has one. -/
def lower (hi v : K) : K := if bounded hi ∧ hi < v then hi else v

/-- A value moved onto its bounds, the lower one first. -/
def clamp (lo hi v : K) : K := lower hi (raise lo v)

variable {lo hi : K}

theorem le_clamp (h : lo ≤ hi) (hlo : bounded lo) (v : K) : lo ≤ clamp lo hi v := by
  have hraise : lo ≤ raise lo v := by
    by_cases hv : v < lo
    · rw [raise, if_pos ⟨hlo, hv⟩]
    · rw [raise, if_neg fun hlt ↦ hv hlt.2]
      exact not_lt.mp hv
  rw [clamp, lower]
  split
  · exact h
  · exact hraise

theorem clamp_le (hhi : bounded hi) (v : K) : clamp lo hi v ≤ hi := by
  by_cases hv : hi < raise lo v
  · rw [clamp, lower, if_pos ⟨hhi, hv⟩]
  · rw [clamp, lower, if_neg fun hlt ↦ hv hlt.2]
    exact not_lt.mp hv

/-- A value that is beyond its bounds by at most `tol` moves by at most `tol`. -/
theorem abs_clamp_sub_le {v tol : K} (h : lo ≤ hi) (htol : 0 ≤ tol)
    (hlo : bounded lo → lo - v ≤ tol) (hhi : bounded hi → v - hi ≤ tol) :
    |clamp lo hi v - v| ≤ tol := by
  by_cases hlow : bounded lo ∧ v < lo
  · -- a raised value does not exceed the upper bound
    have hraise : clamp lo hi v = lo := by
      rw [clamp, raise, if_pos hlow, lower, if_neg fun hlt ↦ not_lt.mpr h hlt.2]
    rw [hraise, abs_of_pos (sub_pos.mpr hlow.2)]
    exact hlo hlow.1
  · rw [clamp, raise, if_neg hlow]
    by_cases hhigh : bounded hi ∧ hi < v
    · rw [lower, if_pos hhigh, abs_sub_comm, abs_of_pos (sub_pos.mpr hhigh.2)]
      exact hhi hhigh.1
    · rwa [lower, if_neg hhigh, sub_self, abs_zero]

end Term

/-! ## Projection

The walk goes over all terms and moves a coordinate at each term of a variable that does not hold.
Terms of rows change nothing, and terms of one variable stand next to each other, so each coordinate
meets its own two sides and no other ones. -/

namespace Layout

theorem length_enforce (x : Point K) (t : Term K) : (enforce x t).length = x.length := by
  rw [enforce]
  split
  · rfl
  · split
    · exact List.length_set
    · rfl

theorem length_foldl_enforce (terms : List (Term K)) (x : Point K) :
    (terms.foldl enforce x).length = x.length := by
  induction terms generalizing x with
  | nil => rfl
  | cons t terms ih => rw [List.foldl_cons, ih, length_enforce]

theorem coord_enforce {x : Point K} {k : ℕ} (hk : k < x.length) (t : Term K) :
    (enforce x t).coord k =
      if t.source = .coordinate k ∧ t.equality = false ∧ t.distance (x.coord k) < 0 then t.offset
      else x.coord k := by
  rw [enforce]
  rcases ht : t.source with j | i
  · rw [if_neg fun h ↦ Source.noConfusion h.1]
  · simp only [Scalar.zero_eq, Bool.and_eq_true, Bool.not_eq_true', decide_eq_true_eq,
      Source.coordinate.injEq]
    by_cases hik : i = k
    · subst hik
      by_cases hmove : t.equality = false ∧ t.distance (x.coord i) < 0
      · rw [if_pos hmove, if_pos ⟨rfl, hmove⟩, Point.coord,
          List.getD_eq_getElem _ _ (by rwa [List.length_set]), List.getElem_set_self]
      · rw [if_neg hmove, if_neg fun h ↦ hmove h.2]
    · rw [if_neg (c := i = k ∧ _) fun h ↦ hik h.1]
      split
      · exact Point.coord_set_of_ne _ _ hik
      · rfl

theorem coord_foldl_sides {x : Point K} {k : ℕ} (hk : k < x.length) (i : ℕ) (lo hi : K) :
    Point.coord ((Term.sides (.coordinate i) lo hi false).foldl enforce x) k
      = if i = k then Term.clamp lo hi (x.coord k) else x.coord k := by
  rw [Term.sides, if_neg (by simp), List.foldl_append]
  by_cases hlo : Term.bounded lo <;> by_cases hhi : Term.bounded hi <;> by_cases hik : i = k <;>
    simp [hlo, hhi, hik, coord_enforce, length_enforce, hk, Term.clamp, Term.raise, Term.lower]

/-- The terms of all variables clamp each of those that have a pair of bounds. Induction on the
bounds; those of later variables do not touch the first one. -/
theorem coord_foldl_ofBounds {x : Point K} {k : ℕ} (hk : k < x.length) (index : ℕ)
    (lower upper : Point K) :
    Point.coord ((Term.ofBounds .coordinate false index lower upper).foldl enforce x) k
      = if index ≤ k then ((lower.zip upper)[k - index]?).elim (x.coord k)
          fun pair ↦ Term.clamp pair.1 pair.2 (x.coord k)
        else x.coord k := by
  induction lower generalizing index upper x with
  | nil => simp [Term.ofBounds]
  | cons lo lower ih =>
    rcases upper with _ | ⟨hi, upper⟩
    · simp [Term.ofBounds]
    rw [Term.ofBounds, List.foldl_append, ih (by rwa [length_foldl_enforce]),
      coord_foldl_sides hk, List.zip_cons_cons]
    rcases Nat.lt_trichotomy index k with hlt | rfl | hgt
    · have hsub : k - index = k - (index + 1) + 1 := by omega
      rw [if_pos (Nat.succ_le_of_lt hlt), if_neg hlt.ne, if_pos hlt.le, hsub,
        List.getElem?_cons_succ]
    · rw [if_neg (by omega), if_pos rfl, if_pos le_rfl, Nat.sub_self, List.getElem?_cons_zero]
      rfl
    · rw [if_neg (by omega), if_neg hgt.ne', if_neg (by omega)]

theorem foldl_enforce_rows {α : Type} [Scalar α] {terms : List (Term α)}
    (h : ∀ t ∈ terms, ∃ j, t.source = .row j) (x : Point α) : terms.foldl enforce x = x := by
  induction terms with
  | nil => rfl
  | cons t terms ih =>
    rw [List.forall_mem_cons] at h
    obtain ⟨⟨j, hj⟩, hterms⟩ := h
    rw [List.foldl_cons, enforce, hj]
    exact ih hterms

theorem foldl_enforce_ofBounds_row {α : Type} [Scalar α] (equal : Bool) (index : ℕ)
    (lower upper x : Point α) :
    (Term.ofBounds .row equal index lower upper).foldl enforce x = x := by
  refine foldl_enforce_rows (fun t ht ↦ ?_) x
  obtain ⟨j, _, _, -, -, ht⟩ := Term.mem_ofBounds.mp ht
  exact ⟨_, Term.source_of_mem_sides ht⟩

/-- **The projection clamps every variable to its bounds.** -/
theorem coord_project (n : ℕ) (b : Bounds K) {x : Point K} {k : ℕ} (hk : k < x.length) :
    ((ofBounds n b).project x).coord k
      = (b.pair? k).elim (x.coord k) fun pair ↦ Term.clamp pair.1 pair.2 (x.coord k) := by
  rw [project, ofBounds, List.foldl_append, foldl_enforce_ofBounds_row, Bounds.pair?]
  rcases b.lower with _ | lower <;> rcases b.upper with _ | upper
  · rfl
  · rfl
  · rfl
  · exact coord_foldl_ofBounds hk 0 lower upper

theorem length_project (l : Layout K) (x : Point K) : (l.project x).length = x.length :=
  length_foldl_enforce _ _

section Boxed

variable {n : ℕ} {b : Bounds K} {x : Point K}

theorem distance_project_nonneg (hb : b.Boxed n) (hx : x.length = n) {t : Term K}
    (ht : t ∈ (ofBounds n b).terms) {k : ℕ} (hk : t.source = .coordinate k) :
    0 ≤ t.distance (((ofBounds n b).project x).coord k) := by
  obtain ⟨lo, hi, hpair, hmem⟩ := (Bounds.mem_terms_iff hk).mp ht
  obtain ⟨hlt, hle⟩ := hb k lo hi hpair
  rw [coord_project n b (hx ▸ hlt), hpair, Option.elim_some]
  rw [Term.mem_sides, if_neg (by simp), Scalar.one_eq] at hmem
  rcases hmem with ⟨hlo, rfl⟩ | ⟨hhi, rfl⟩
  · rw [Term.distance_lower]
    exact sub_nonneg.mpr (Term.le_clamp hle hlo _)
  · rw [Term.distance_upper]
    exact sub_nonneg.mpr (Term.clamp_le hhi _)

theorem abs_project_sub_le (hb : b.Boxed n) (hx : x.length = n) {rows : Point K} {tol : K}
    (h : (ofBounds n b).violation ((ofBounds n b).values x rows) ≤ tol) (k : ℕ) :
    |((ofBounds n b).project x).coord k - x.coord k| ≤ tol := by
  obtain ⟨htol, hexcess⟩ := violation_le_iff.mp h
  by_cases hlt : k < n
  · rw [coord_project n b (hx ▸ hlt)]
    rcases hpair : b.pair? k with _ | ⟨lo, hi⟩
    · rwa [Option.elim_none, sub_self, abs_zero]
    · -- the bounds that the clamp looks at have terms
      have hside : ∀ t ∈ Term.sides (.coordinate k) lo hi false,
          -t.distance (x.coord k) ≤ tol := by
        intro t ht
        have hsource := Term.source_of_mem_sides ht
        have heq := Term.equality_of_mem_sides ht
        have ht' := hexcess t ((Bounds.mem_terms_iff hsource).mpr ⟨lo, hi, hpair, ht⟩)
        rw [hsource, Source.read, Term.excess_le_iff (by rw [heq]; rfl)] at ht'
        exact ht'.1
      simp only [Term.mem_sides, Bool.false_and, Bool.false_eq_true, if_false,
        Scalar.one_eq] at hside
      refine Term.abs_clamp_sub_le (hb k lo hi hpair).2 htol (fun hlo ↦ ?_) fun hhi ↦ ?_
      · have hlower := hside _ (Or.inl ⟨hlo, rfl⟩)
        rwa [Term.distance_lower, neg_sub] at hlower
      · have hupper := hside _ (Or.inr ⟨hhi, rfl⟩)
        rwa [Term.distance_upper, neg_sub] at hupper
  · have hout : x.length ≤ k := hx.symm ▸ Nat.not_lt.mp hlt
    rw [Point.coord_of_length_le hout, Point.coord_of_length_le (by rwa [length_project]),
      sub_self, abs_zero]
    exact htol

/-- After the projection only a row can be violated. -/
theorem violation_project_le_iff (hb : b.Boxed n) (hx : x.length = n) {rows : Point K} {tol : K}
    (htol : 0 ≤ tol) :
    (ofBounds n b).violation ((ofBounds n b).values ((ofBounds n b).project x) rows) ≤ tol ↔
      ∀ t ∈ (ofBounds n b).terms, ∀ j, t.source = .row j →
        t.excess (t.distance (rows.coord j)) ≤ tol := by
  rw [violation_le_iff]
  constructor
  · rintro ⟨-, h⟩ t ht j hj
    have hexcess := h t ht
    rwa [hj, Source.read] at hexcess
  · intro h
    refine ⟨htol, fun t ht ↦ ?_⟩
    rcases hsource : t.source with j | k
    · exact h t ht j hsource
    · rw [Term.excess_le_iff (of_mem_ofBounds_coordinate ht hsource), Source.read]
      exact ⟨(neg_nonpos.mpr (distance_project_nonneg hb hx ht hsource)).trans htol, htol⟩

end Boxed

end Layout

end NonlinearProgram
