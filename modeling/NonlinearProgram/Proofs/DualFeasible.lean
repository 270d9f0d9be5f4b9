import NonlinearProgram.Proofs.Multipliers
import NonlinearProgram.Proofs.Stationarity
import NonlinearProgram.Proofs.Account

/-!
# Signs of multipliers

The multiplier of an inequality is cut off at zero in every update, so it is never negative, and it
is positive only as far as the multiplier before it exceeds the penalty times the distance
(`Iteration.DualFeasible`). Nothing is assumed of the penalty or of the optimizer for this.

The split keeps these signs. What a run returns has the signs of multipliers of the original bounds
(`Multipliers.DualFeasible`): none of a variable is negative, one of a side without a finite bound
is zero, and a row that is bounded on one side only has a multiplier that pushes to the other side.
-/

namespace NonlinearProgram

open MultiplierMethod

/-! ## Updates

An update goes through the terms and the multipliers side by side. What it makes of one inequality
depends on the multiplier, the penalty and the distance of its term alone, and it is not negative
wherever the descent went. -/

namespace Layout

variable {α : Type} [Scalar α]

theorem length_updateFrom (rho : α) (terms : List (Term α)) (lambda values : List α) :
    (updateFrom rho terms lambda values).length = lambda.length := by
  induction terms generalizing lambda values with
  | nil => rfl
  | cons t terms ih =>
    rcases lambda with _ | ⟨l, lambda⟩
    · rfl
    rcases values with _ | ⟨v, values⟩
    · rfl
    · rw [updateFrom, List.length_cons, ih, List.length_cons]

theorem getElem?_updateFrom (rho : α) {terms : List (Term α)} {lambda values : List α} {k : ℕ}
    {t : Term α} {l v : α} (ht : terms[k]? = some t) (hl : lambda[k]? = some l)
    (hv : values[k]? = some v) :
    (updateFrom rho terms lambda values)[k]? = some (t.update rho l v) := by
  induction terms generalizing lambda values k with
  | nil => cases ht
  | cons u terms ih =>
    rcases lambda with _ | ⟨m, lambda⟩
    · cases hl
    rcases values with _ | ⟨w, values⟩
    · cases hv
    rw [updateFrom]
    rcases k with _ | k
    · cases ht
      cases hl
      cases hv
      rfl
    · exact ih ht hl hv

end Layout

variable {K σ : Type} [ExactScalar K]

namespace Term

variable {t : Term K}

theorem update_of_inequality (ht : t.equality = false) (rho l s : K) :
    t.update rho l s = max (l - rho * s) 0 := by
  rw [update, if_neg (Bool.eq_false_iff.mp ht), Scalar.max_eq, Scalar.zero_eq]

theorem update_nonneg (ht : t.equality = false) (rho l s : K) : 0 ≤ t.update rho l s := by
  rw [update_of_inequality ht]
  exact le_max_right _ _

theorem update_pos_iff (ht : t.equality = false) (rho l s : K) :
    0 < t.update rho l s ↔ rho * s < l := by
  rw [update_of_inequality ht, lt_max_iff, sub_pos]
  exact or_iff_left (lt_irrefl 0)

end Term

/-- There is a multiplier for each term, and that of an inequality is not negative; it is positive
exactly where the one before it exceeds the penalty times the distance at the new point. -/
structure Iteration.DualFeasible (l : Layout K) (i : Iteration K) : Prop where
  length_eq : i.lambda.length = l.size
  of_inequality : ∀ (k : ℕ) (t : Term K), l.terms[k]? = some t → t.equality = false →
    ∃ old new : K, i.start.lambda[k]? = some old ∧ i.lambda[k]? = some new ∧ 0 ≤ new ∧
      (0 < new ↔ i.start.rho * t.distance (t.source.read i.inner.point i.rows) < old)

section Course

variable {minimizer : Minimizer K} {p : Problem K σ} {c : Config K} {l : Layout K}

theorem Iteration.Performed.dualFeasible {i : Iteration K} {s s' : σ}
    (h : i.Performed minimizer p c l s s') (hstart : i.start.lambda.length = l.size) :
    i.DualFeasible l := by
  refine ⟨?_, fun k t ht hequality ↦ ?_⟩
  · rw [h.lambda_eq, Layout.updateMultipliers, Layout.length_updateFrom, hstart]
  have hk : k < i.start.lambda.length := by
    rw [hstart]
    exact (List.getElem?_eq_some_iff.mp ht).1
  have hvalue : (l.values i.inner.point i.rows)[k]?
      = some (t.distance (t.source.read i.inner.point i.rows)) := by
    rw [Layout.values, List.getElem?_map, ht, Option.map_some]
  refine ⟨_, _, List.getElem?_eq_getElem hk, ?_, Term.update_nonneg hequality _ _ _,
    Term.update_pos_iff hequality _ _ _⟩
  rw [h.lambda_eq, Layout.updateMultipliers]
  exact Layout.getElem?_updateFrom _ ht (List.getElem?_eq_getElem hk) hvalue

theorem Course.dualFeasible {index : ℕ} {start : Iterate K} {its : List (Iteration K)} {s s' : σ}
    (h : Course minimizer p c l index start s its s') (hstart : start.lambda.length = l.size) :
    (∀ i ∈ its, i.DualFeasible l) ∧ (start.after c its).lambda.length = l.size := by
  induction h with
  | done => exact ⟨fun _ hi ↦ absurd hi List.not_mem_nil, hstart⟩
  | step performed rest ih =>
    have hfirst := performed.dualFeasible hstart
    obtain ⟨hits, hafter⟩ := ih hfirst.length_eq
    exact ⟨List.forall_mem_cons.mpr ⟨hfirst, hits⟩, hafter⟩

theorem Course.nonneg_after {index : ℕ} {start : Iterate K} {its : List (Iteration K)} {s s' : σ}
    (h : Course minimizer p c l index start s its s') (hstart : start.lambda = Point.zeros l.size)
    {k : ℕ} {t : Term K} {m : K} (ht : l.terms[k]? = some t) (hequality : t.equality = false)
    (hm : (start.after c its).lambda[k]? = some m) : 0 ≤ m := by
  obtain ⟨hits, -⟩ := h.dualFeasible (by rw [hstart, Point.length_zeros])
  rcases List.eq_nil_or_concat its with rfl | ⟨before, i, rfl⟩
  · rw [Iterate.after_nil, hstart, Point.zeros, List.getElem?_replicate] at hm
    split at hm
    · cases hm
      exact Scalar.zero_eq.ge
    · cases hm
  · rw [List.concat_eq_append] at hits hm
    rw [Iterate.after_concat] at hm
    obtain ⟨_, _, -, hnew, hnonneg, -⟩ :=
      (hits i (List.mem_append_right _ (List.mem_singleton_self i))).of_inequality k t ht hequality
    cases hm.symm.trans hnew
    exact hnonneg

end Course

/-! ## Sides without a bound

A bound counts as present where the layout makes a term of it, which `Term.bounded` decides for
variables and rows alike. Each term of a layout was made from a bound that is present, on the side
that its sign tells. -/

namespace Bounds

/-- A variable has a finite lower bound. -/
def HasLower (b : Bounds K) (i : ℕ) : Prop :=
  ∃ lower lo, b.lower = some lower ∧ lower[i]? = some lo ∧ Term.bounded lo = true

/-- A variable has a finite upper bound. -/
def HasUpper (b : Bounds K) (i : ℕ) : Prop :=
  ∃ upper hi, b.upper = some upper ∧ upper[i]? = some hi ∧ Term.bounded hi = true

/-- A row has a finite lower bound. -/
def HasRowLower (b : Bounds K) (j : ℕ) : Prop :=
  ∃ lo, b.rowLower[j]? = some lo ∧ Term.bounded lo = true

/-- A row has a finite upper bound. -/
def HasRowUpper (b : Bounds K) (j : ℕ) : Prop :=
  ∃ hi, b.rowUpper[j]? = some hi ∧ Term.bounded hi = true

end Bounds

namespace Layout

variable {n : ℕ} {b : Bounds K} {t : Term K}

theorem bounds_of_row (h : t ∈ (ofBounds n b).terms) {j : ℕ} (ht : t.source = .row j) :
    (t.equality = true ∧ b.HasRowLower j ∧ b.HasRowUpper j) ∨
      t.equality = false ∧ (t.sign = 1 ∧ b.HasRowLower j ∨ t.sign = -1 ∧ b.HasRowUpper j) := by
  rcases mem_terms_ofBounds h with ⟨k, lo, hi, hlo, hhi, hmem⟩ | ⟨_, _, _, _, _, -, -, -, -, hmem⟩
  · have hsource := Term.source_of_mem_sides hmem
    rw [ht, Source.row.injEq] at hsource
    subst hsource
    rw [Term.mem_sides] at hmem
    split at hmem
    · rename_i hcond
      simp only [Bool.true_and, Bool.and_eq_true] at hcond
      subst hmem
      exact Or.inl ⟨rfl, ⟨lo, hlo, hcond.1.1⟩, hi, hhi, hcond.1.2⟩
    · rcases hmem with ⟨hbounded, rfl⟩ | ⟨hbounded, rfl⟩
      · exact Or.inr ⟨rfl, Or.inl ⟨Scalar.one_eq, lo, hlo, hbounded⟩⟩
      · exact Or.inr ⟨rfl, Or.inr ⟨by simp, hi, hhi, hbounded⟩⟩
  · rw [Term.source_of_mem_sides hmem] at ht
    cases ht

theorem bounds_of_coordinate (h : t ∈ (ofBounds n b).terms) {i : ℕ}
    (ht : t.source = .coordinate i) :
    0 < t.sign ∧ b.HasLower i ∨ ¬0 < t.sign ∧ b.HasUpper i := by
  rcases mem_terms_ofBounds h with ⟨_, _, _, -, -, hmem⟩ |
    ⟨k, lower, upper, lo, hi, hl, hu, hlo, hhi, hmem⟩
  · rw [Term.source_of_mem_sides hmem] at ht
    cases ht
  · have hsource := Term.source_of_mem_sides hmem
    rw [ht, Source.coordinate.injEq] at hsource
    subst hsource
    rw [Term.mem_sides, Bool.false_and, Bool.false_and, Bool.false_and,
      if_neg Bool.false_ne_true] at hmem
    rcases hmem with ⟨hbounded, rfl⟩ | ⟨hbounded, rfl⟩
    · exact Or.inl ⟨by simp, lower, lo, hl, hlo, hbounded⟩
    · exact Or.inr ⟨by simp, upper, hi, hu, hhi, hbounded⟩

end Layout

/-! ## The split

Zeros have the signs of all bounds. From there on one term after the other puts a number that is not
negative on a side that has its bound, with the sign of the side. -/

namespace Multipliers

/-- The multipliers have the signs that belong to the bounds. -/
structure DualFeasible (b : Bounds K) (ms : Multipliers K) : Prop where
  lower_nonneg : ∀ i, 0 ≤ ms.lower.coord i
  upper_nonneg : ∀ i, 0 ≤ ms.upper.coord i
  lower_eq_zero : ∀ i, ¬b.HasLower i → ms.lower.coord i = 0
  upper_eq_zero : ∀ i, ¬b.HasUpper i → ms.upper.coord i = 0
  row_nonneg : ∀ j, ¬b.HasRowUpper j → 0 ≤ ms.rows.coord j
  row_nonpos : ∀ j, ¬b.HasRowLower j → ms.rows.coord j ≤ 0

theorem dualFeasible_zeros (b : Bounds K) (m n : ℕ) :
    DualFeasible b ⟨.zeros m, .zeros n, .zeros n⟩ := by
  constructor <;> simp

theorem coord_set_cases (v : Point K) (a : K) (i k : ℕ) :
    Point.coord (v.set i a) k = v.coord k ∨ i = k ∧ Point.coord (v.set i a) k = a := by
  rcases eq_or_ne i k with rfl | hne
  · rcases Nat.lt_or_ge i v.length with hi | hi
    · exact Or.inr ⟨rfl, Point.coord_set_self hi a⟩
    · rw [List.set_eq_of_length_le hi]
      exact Or.inl rfl
  · exact Or.inl (Point.coord_set_of_ne v a hne)

theorem coord_modify_cases (v : Point K) (a : K) (j k : ℕ) :
    Point.coord (v.modify j (· + a)) k = v.coord k ∨
      j = k ∧ Point.coord (v.modify j (· + a)) k = v.coord k + a := by
  rcases Nat.lt_or_ge k v.length with hk | hk
  · rw [Point.coord_modify _ _ _ hk]
    split
    · exact Or.inr ⟨‹_›, rfl⟩
    · exact Or.inl rfl
  · rw [Point.coord_of_length_le hk, Point.coord_of_length_le (by rwa [List.length_modify])]
    exact Or.inl rfl

namespace DualFeasible

variable {n : ℕ} {b : Bounds K} {ms : Multipliers K} {t : Term K} {a : K} (h : ms.DualFeasible b)

include h

theorem modify_rows {j : ℕ} (hupper : ¬b.HasRowUpper j → 0 ≤ a)
    (hlower : ¬b.HasRowLower j → a ≤ 0) :
    DualFeasible b ⟨ms.rows.modify j (· + a), ms.lower, ms.upper⟩ where
  lower_nonneg := h.lower_nonneg
  upper_nonneg := h.upper_nonneg
  lower_eq_zero := h.lower_eq_zero
  upper_eq_zero := h.upper_eq_zero
  row_nonneg k hk := by
    rcases coord_modify_cases ms.rows a j k with heq | ⟨rfl, heq⟩
    · exact heq ▸ h.row_nonneg k hk
    · exact heq ▸ add_nonneg (h.row_nonneg j hk) (hupper hk)
  row_nonpos k hk := by
    rcases coord_modify_cases ms.rows a j k with heq | ⟨rfl, heq⟩
    · exact heq ▸ h.row_nonpos k hk
    · exact heq ▸ add_nonpos (h.row_nonpos j hk) (hlower hk)

theorem set_lower {i : ℕ} (ha : 0 ≤ a) (hi : b.HasLower i) :
    DualFeasible b ⟨ms.rows, ms.lower.set i a, ms.upper⟩ where
  lower_nonneg k := by
    rcases coord_set_cases ms.lower a i k with heq | ⟨-, heq⟩
    · exact heq ▸ h.lower_nonneg k
    · exact ha.trans_eq heq.symm
  upper_nonneg := h.upper_nonneg
  lower_eq_zero k hk := by
    rcases coord_set_cases ms.lower a i k with heq | ⟨rfl, -⟩
    · exact heq ▸ h.lower_eq_zero k hk
    · exact absurd hi hk
  upper_eq_zero := h.upper_eq_zero
  row_nonneg := h.row_nonneg
  row_nonpos := h.row_nonpos

theorem set_upper {i : ℕ} (ha : 0 ≤ a) (hi : b.HasUpper i) :
    DualFeasible b ⟨ms.rows, ms.lower, ms.upper.set i a⟩ where
  lower_nonneg := h.lower_nonneg
  upper_nonneg k := by
    rcases coord_set_cases ms.upper a i k with heq | ⟨-, heq⟩
    · exact heq ▸ h.upper_nonneg k
    · exact ha.trans_eq heq.symm
  lower_eq_zero := h.lower_eq_zero
  upper_eq_zero k hk := by
    rcases coord_set_cases ms.upper a i k with heq | ⟨rfl, -⟩
    · exact heq ▸ h.upper_eq_zero k hk
    · exact absurd hi hk
  row_nonneg := h.row_nonneg
  row_nonpos := h.row_nonpos

/-- The multiplier of a term goes where the bound is that the term was made from. -/
theorem deposit (ht : t ∈ (Layout.ofBounds n b).terms) (ha : t.equality = false → 0 ≤ a) :
    (ms.deposit t a).DualFeasible b := by
  rcases hsource : t.source with j | i
  · rw [deposit_row hsource]
    rcases Layout.bounds_of_row ht hsource with ⟨-, hlower, hupper⟩ |
      ⟨hequality, ⟨hsign, hlower⟩ | ⟨hsign, hupper⟩⟩
    · -- an equality may push to both sides
      exact h.modify_rows (absurd hupper) (absurd hlower)
    · refine h.modify_rows (fun _ ↦ ?_) (absurd hlower)
      rw [hsign, one_mul]
      exact ha hequality
    · refine h.modify_rows (absurd hupper) fun _ ↦ ?_
      rw [hsign, neg_one_mul]
      exact neg_nonpos.mpr (ha hequality)
  · have hnonneg := ha (Layout.of_mem_ofBounds_coordinate ht hsource)
    rcases Layout.bounds_of_coordinate ht hsource with ⟨hsign, hbound⟩ | ⟨hsign, hbound⟩
    · rw [deposit_lower hsource hsign]
      exact h.set_lower hnonneg hbound
    · rw [deposit_upper hsource hsign]
      exact h.set_upper hnonneg hbound

end DualFeasible

end Multipliers

theorem Layout.dualFeasible_splitMultipliers {n : ℕ} {b : Bounds K} {lambda : List K}
    (h : ∀ (k : ℕ) (t : Term K) (l : K), (ofBounds n b).terms[k]? = some t →
      lambda[k]? = some l → t.equality = false → 0 ≤ l) :
    ((ofBounds n b).splitMultipliers lambda).DualFeasible b := by
  rw [splitMultipliers]
  refine List.foldlRecOn _ _ (Multipliers.dualFeasible_zeros b _ _) fun ms hms pair hpair ↦ ?_
  obtain ⟨k, hk⟩ := List.mem_iff_getElem?.mp hpair
  rw [List.getElem?_zip_eq_some] at hk
  exact hms.deposit (List.mem_iff_getElem?.mpr ⟨k, hk.1⟩) (h k _ _ hk.1 hk.2)

/-! ## Runs -/

namespace MultiplierMethod

/-- **The signs of multipliers.** Whatever the problem and the optimizer do, after every iteration
the multipliers of inequalities are not negative, and those returned have the signs of the
bounds. -/
theorem dual_feasible (minimizer : Minimizer K) (p : Problem K σ) (c : Config K) (n : ℕ)
    (b : Bounds K) (x : Point K) (s : σ) :
    ∃ starts its, Account minimizer p c (.ofBounds n b) x s starts its
        (run minimizer p c (.ofBounds n b) x s).1 (run minimizer p c (.ofBounds n b) x s).2 ∧
      (∀ i ∈ its, i.DualFeasible (.ofBounds n b)) ∧
      ∀ y info, (run minimizer p c (.ofBounds n b) x s).1 = .ok (y, info) →
        Multipliers.DualFeasible b
          ⟨info.rowMultipliers, info.lowerMultipliers, info.upperMultipliers⟩ := by
  obtain ⟨starts, its, haccount⟩ := exists_account minimizer p c (.ofBounds n b) x s
  have hfirst : ∀ {first s₁}, start p c (.ofBounds n b) x s = (.ok first, s₁) →
      first.lambda = Point.zeros (Layout.ofBounds n b).size := by
    intro first s₁ hstart
    obtain ⟨_, _, -, -, rfl⟩ := start_eq_ok.mp hstart
    rfl
  refine ⟨starts, its, haccount, ?_, fun y info houtcome ↦ ?_⟩
  · rcases haccount.course with rfl | ⟨first, s₁, s₂, hstart, hcourse⟩
    · exact fun i hi ↦ absurd hi List.not_mem_nil
    · exact (hcourse.dualFeasible (by rw [hfirst hstart, Point.length_zeros])).1
  · rw [houtcome] at haccount
    obtain ⟨first, s₁, s₂, hstart, hcourse, -, -, -, hfinish⟩ := haccount.finish_eq
    obtain ⟨-, _, _, _, _, -, -, -, rfl⟩ := finish_eq_ok.mp hfinish
    exact Layout.dualFeasible_splitMultipliers fun _ _ _ ht hm hequality ↦
      hcourse.nonneg_after (hfirst hstart) ht hequality hm

/-- A variable that has to be at least zero and two rows with the value of the
variable. -/
def oneSided : Problem ℚ Unit where
  objective x := pure (x.coord 0)
  gradient _ := pure [1]
  constraints x := pure [x.coord 0, x.coord 0]
  jacobian _ := pure ⟨1, [[1], [1]]⟩
  intermediate _ := pure true
  note _ := pure ()

/-- Two descents below both bounds: each side that has no bound is left at zero, and the row with an
upper bound has a negative multiplier. -/
theorem dual_feasible_oneSided :
    let b : Bounds ℚ := ⟨some [0], some [Box.limit], [1, -Box.limit], [Box.limit, -3]⟩
    let c : Config ℚ := { Config.standard with iterationLimit := 2 }
    let minimizer : Minimizer ℚ := fun _ ↦ .ok fun _ ↦ .pure (.ok ⟨some [-1], none, 0, none⟩)
    let outcome := (run minimizer oneSided c (.ofBounds 1 b) [5] ()).1
    ∃ y info, outcome = .ok (y, info) ∧
      Multipliers.DualFeasible b
        ⟨info.rowMultipliers, info.lowerMultipliers, info.upperMultipliers⟩ ∧
      info.rowMultipliers = [220, -220] ∧ info.lowerMultipliers = [110] ∧
      info.upperMultipliers = [0] := by
  intro b c minimizer outcome
  have hok : (outcome.toOption.map fun answer ↦ (answer.2.rowMultipliers,
      answer.2.lowerMultipliers, answer.2.upperMultipliers)) = some ([220, -220], [110], [0]) := by
    decide +kernel
  obtain ⟨_, _, -, -, hsigns⟩ := dual_feasible minimizer oneSided c 1 b [5] ()
  obtain ⟨⟨y, info⟩, houtcome, hsplit⟩ := Except.map_toOption_eq_some.mp hok
  obtain ⟨hrows, hlower, hupper⟩ := (Prod.mk.inj hsplit).imp_right Prod.mk.inj
  exact ⟨y, info, houtcome, hsigns y info houtcome, hrows, hlower, hupper⟩

end MultiplierMethod

end NonlinearProgram
