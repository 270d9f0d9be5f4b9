import Mathlib.Algebra.Order.BigOperators.Group.List
import Mathlib.Tactic.FieldSimp
import NonlinearProgram.Proofs.DualFeasible
import NonlinearProgram.Proofs.Feasible
import NonlinearProgram.Proofs.Stationarity

/-!
# What a term contributes to the merit

The contribution of a term is written with a square for an equality and with a clipped square for an
inequality. Both are the largest value over all multipliers `μ` that the term may have of

  `± μ s - (μ - λ)² / (2 ρ)`,

the pull of `μ` on the distance less a price for leaving the old multiplier `λ`. It is reached at
the updated multiplier, and by how much any other one falls short is known (`Term.proximal_add_le`).

From this one inequality come the facts about the merit that the method relies on, without another
look at the clip: the price falls as the penalty grows, so the contribution does not; the
multiplier zero costs nothing where the old one is zero; and a multiplier that is the best at one
distance is a candidate at every other one, which compares the contributions at two distances.
`Merit.cost_bounds` sums this up over the terms of a layout.
-/

namespace NonlinearProgram

variable {K : Type} [ExactScalar K]

namespace Term

/-! ## The update as a nearest point

An equality admits every multiplier and an inequality those that are not negative. Either way the
admitted ones are convex, and of a nearest point of a convex set all that is used is the angle: `(μ
- λ') (λ' - λ ∓ ρ s) ≥ 0` for the update `λ'` and every admitted `μ`. -/

/-- Whether a term may have a multiplier. That of an inequality is not negative. -/
def Admits (t : Term K) (μ : K) : Prop := t.equality = false → 0 ≤ μ

theorem admits_update (t : Term K) (rho l s : K) : t.Admits (t.update rho l s) :=
  fun h ↦ update_nonneg h rho l s

theorem admits_zero (t : Term K) : t.Admits 0 := fun _ ↦ le_rfl

theorem pull_mul (t : Term K) (l s : K) : t.pull l * s = l * t.pull s := by
  by_cases h : t.equality
  · rw [pull, pull, if_pos h, if_pos h]
  · rw [pull, pull, if_neg h, if_neg h, neg_mul, mul_neg]

section Update

variable {t : Term K} {μ : K} (rho l s : K)

/-- The update is the admitted multiplier nearest to `λ ± ρ s`: seen from it, every other one lies
on the far side. -/
theorem update_obtuse (hμ : t.Admits μ) :
    0 ≤ (μ - t.update rho l s) * (t.update rho l s - (l + rho * t.pull s)) := by
  by_cases h : t.equality
  · have hfree : t.update rho l s = l + rho * t.pull s := by
      rw [update, pull, if_pos h, if_pos h]
    rw [hfree, sub_self, mul_zero]
  · have hpull : l + rho * t.pull s = l - rho * s := by
      rw [pull, if_neg h, mul_neg, sub_eq_add_neg]
    rw [Bool.not_eq_true] at h
    rw [hpull, update_of_inequality h]
    by_cases hclip : l - rho * s ≤ 0
    · rw [max_eq_right hclip, sub_zero, zero_sub]
      exact mul_nonneg (hμ h) (neg_nonneg.mpr hclip)
    · rw [max_eq_left (not_le.mp hclip).le, sub_self, mul_zero]

theorem update_mul (t : Term K) :
    t.update rho l s * (t.update rho l s - (l + rho * t.pull s)) = 0 := by
  have hdouble : t.Admits (2 * t.update rho l s) := fun h ↦
    mul_nonneg zero_le_two (t.admits_update rho l s h)
  have habove := update_obtuse rho l s hdouble
  have hbelow := update_obtuse rho l s t.admits_zero
  apply le_antisymm
  · linarith
  · linarith

end Update

/-! ## The contribution as a largest value

The square in the definition and the value at the updated multiplier agree by arithmetic alone. That
no other multiplier does better is the angle at the update, expanded. -/

/-- What a multiplier makes of a distance, less the price of leaving the old one. -/
def proximal (t : Term K) (rho l s μ : K) : K := t.pull μ * s - (μ - l) ^ 2 / (2 * rho)

variable {t : Term K} {rho l s μ : K}

theorem penalty_eq (hrho : 0 < rho) (t : Term K) (l s : K) :
    t.penalty rho l s = (t.update rho l s ^ 2 - l ^ 2) / (2 * rho) := by
  by_cases h : t.equality
  · have hhalf : (0.5 : K) = 1 / 2 := by norm_num
    rw [penalty, update, if_pos h, if_pos h, hhalf]
    field_simp
    ring
  · have htwo : (2.0 : K) = 2 := by norm_num
    rw [penalty, if_neg h, htwo]
    rw [Bool.not_eq_true] at h
    rw [update_of_inequality h, Scalar.square, Scalar.max_eq, Scalar.zero_eq, sq, sq]

theorem penalty_eq_proximal (hrho : 0 < rho) (t : Term K) (l s : K) :
    t.penalty rho l s = t.proximal rho l s (t.update rho l s) := by
  have hclip := t.update_mul rho l s
  rw [penalty_eq hrho, proximal, pull_mul, eq_sub_iff_add_eq, ← add_div,
    div_eq_iff (mul_pos two_pos hrho).ne']
  linarith

/-- **No admitted multiplier exceeds the contribution**, and each one falls short of it by the
price of leaving the updated one at least. -/
theorem proximal_add_le (hrho : 0 < rho) (hμ : t.Admits μ) (l s : K) :
    t.proximal rho l s μ + (μ - t.update rho l s) ^ 2 / (2 * rho) ≤ t.penalty rho l s := by
  have hgap : t.penalty rho l s - (t.proximal rho l s μ + (μ - t.update rho l s) ^ 2 / (2 * rho))
      = (μ - t.update rho l s) * (t.update rho l s - (l + rho * t.pull s)) / rho := by
    rw [penalty_eq_proximal hrho, proximal, proximal, pull_mul, pull_mul]
    field_simp
    ring
  rw [← sub_nonneg, hgap]
  exact div_nonneg (update_obtuse rho l s hμ) hrho.le

theorem proximal_le (hrho : 0 < rho) (hμ : t.Admits μ) (l s : K) :
    t.proximal rho l s μ ≤ t.penalty rho l s := by
  have hprice : 0 ≤ (μ - t.update rho l s) ^ 2 / (2 * rho) :=
    div_nonneg (sq_nonneg _) (mul_pos two_pos hrho).le
  have hbest := proximal_add_le hrho hμ l s
  linarith

/-! ## Bounds of a contribution

Each bound names the multiplier that is compared with the updated one: the old one, zero, and the
one of the smaller penalty. -/

theorem penalty_nonpos (hrho : 0 < rho) (h : t.Holds s) (l : K) : t.penalty rho l s ≤ 0 := by
  have hpull : t.pull (t.update rho l s) * s ≤ 0 := by
    rw [pull]
    by_cases heq : t.equality
    · rw [Holds, if_pos heq] at h
      rw [h, mul_zero]
    · rw [Holds, if_neg heq] at h
      rw [if_neg heq, neg_mul, neg_nonpos]
      rw [Bool.not_eq_true] at heq
      exact mul_nonneg (update_nonneg heq rho l s) h
  have hprice : 0 ≤ (t.update rho l s - l) ^ 2 / (2 * rho) :=
    div_nonneg (sq_nonneg _) (mul_pos two_pos hrho).le
  rw [penalty_eq_proximal hrho, proximal]
  linarith

theorem update_zero_eq_zero_iff (hrho : 0 < rho) : t.update rho 0 s = 0 ↔ t.Holds s := by
  by_cases h : t.equality
  · rw [update, Holds, if_pos h, if_pos h, zero_add, mul_eq_zero]
    exact or_iff_right hrho.ne'
  · rw [Holds, if_neg h]
    rw [Bool.not_eq_true] at h
    rw [update_of_inequality h, max_eq_right_iff, zero_sub, neg_nonpos]
    exact mul_nonneg_iff_of_pos_left hrho

theorem penalty_zero (hrho : 0 < rho) :
    0 ≤ t.penalty rho 0 s ∧ (t.penalty rho 0 s = 0 ↔ t.Holds s) := by
  have hdouble : 0 < 2 * rho := mul_pos two_pos hrho
  rw [penalty_eq hrho, zero_pow two_ne_zero, sub_zero, div_eq_zero_iff, sq_eq_zero_iff,
    update_zero_eq_zero_iff hrho]
  exact ⟨div_nonneg (sq_nonneg _) hdouble.le, or_iff_left hdouble.ne'⟩

/-- A contribution does not fall as the penalty grows: what the multiplier of the smaller penalty
reaches costs less under the larger one. -/
theorem penalty_mono {rho' : K} (hrho : 0 < rho) (hle : rho ≤ rho') (t : Term K) (l s : K) :
    t.penalty rho l s ≤ t.penalty rho' l s := by
  have hrho' : 0 < rho' := hrho.trans_le hle
  have hprice : (t.update rho l s - l) ^ 2 / (2 * rho') ≤ (t.update rho l s - l) ^ 2 / (2 * rho) :=
    div_le_div_of_nonneg_left (sq_nonneg _) (mul_pos two_pos hrho)
      (mul_le_mul_of_nonneg_left hle zero_le_two)
  calc t.penalty rho l s
      = t.proximal rho l s (t.update rho l s) := penalty_eq_proximal hrho t l s
    _ ≤ t.proximal rho' l s (t.update rho l s) := by
      rw [proximal, proximal]
      exact sub_le_sub_left hprice _
    _ ≤ t.penalty rho' l s := proximal_le hrho' (t.admits_update rho l s) l s

/-! ## A contribution at two distances

The same inequality twice. The multiplier of one distance is admitted at the other, so the
contribution lies above its linearization; with the distances exchanged, the price of that
multiplier bounds by how much. -/

theorem linearization_le (hrho : 0 < rho) (t : Term K) (l s s' : K) :
    t.penalty rho l s + t.weight rho l s * (s' - s) ≤ t.penalty rho l s' := by
  have hmove : t.proximal rho l s (t.update rho l s) + t.pull (t.update rho l s) * (s' - s)
      = t.proximal rho l s' (t.update rho l s) := by
    rw [proximal, proximal]
    ring
  rw [penalty_eq_proximal hrho t l s, weight_eq_pull, hmove]
  exact proximal_le hrho (t.admits_update rho l s) l s'

theorem le_linearization_add (hrho : 0 < rho) (t : Term K) (l s s' : K) :
    t.penalty rho l s' ≤
      t.penalty rho l s + t.weight rho l s * (s' - s) + rho / 2 * (s' - s) ^ 2 := by
  have hbest := proximal_add_le hrho (t.admits_update rho l s') l s
  have hmove : t.penalty rho l s'
      = t.proximal rho l s (t.update rho l s') + t.pull (t.update rho l s') * (s' - s) := by
    rw [penalty_eq_proximal hrho, proximal, proximal]
    ring
  have hsquare : t.pull (s' - s) ^ 2 = (s' - s) ^ 2 := by
    by_cases h : t.equality
    · rw [pull, if_pos h]
    · rw [pull, if_neg h, neg_sq]
  have hpay : t.update rho l s' * t.pull (s' - s)
      ≤ (t.update rho l s' - t.update rho l s) ^ 2 / (2 * rho)
        + t.update rho l s * t.pull (s' - s) + rho / 2 * t.pull (s' - s) ^ 2 := by
    have hgap : (t.update rho l s' - t.update rho l s) ^ 2 / (2 * rho)
          + t.update rho l s * t.pull (s' - s) + rho / 2 * t.pull (s' - s) ^ 2
          - t.update rho l s' * t.pull (s' - s)
        = (t.update rho l s' - t.update rho l s - rho * t.pull (s' - s)) ^ 2 / (2 * rho) := by
      field_simp
      ring
    rw [← sub_nonneg, hgap]
    exact div_nonneg (sq_nonneg _) (mul_pos two_pos hrho).le
  rw [weight_eq_pull, hmove, pull_mul, pull_mul, ← hsquare]
  linarith

theorem sum_linearized (hrho : 0 < rho) (pairs : List (Term K × K)) (s s' : Term K → K) :
    let before := (pairs.map fun q ↦ q.1.penalty rho q.2 (s q.1)).sum
    let after := (pairs.map fun q ↦ q.1.penalty rho q.2 (s' q.1)).sum
    let linear := (pairs.map fun q ↦ q.1.weight rho q.2 (s q.1) * (s' q.1 - s q.1)).sum
    let square := (pairs.map fun q ↦ (s' q.1 - s q.1) ^ 2).sum
    0 ≤ after - before - linear ∧ after - before - linear ≤ rho / 2 * square := by
  intro before after linear square
  have hbelow : before + linear ≤ after := by
    rw [← List.sum_map_add]
    exact List.sum_le_sum fun q _ ↦ linearization_le hrho q.1 q.2 _ _
  have habove : after ≤ before + linear + rho / 2 * square := by
    rw [← List.sum_map_mul_left, ← List.sum_map_add, ← List.sum_map_add]
    exact List.sum_le_sum fun q _ ↦ le_linearization_add hrho q.1 q.2 _ _
  constructor
  · linarith
  · linarith

end Term

/-! ## All terms

The merit adds the contributions to the objective, so each bound of one contribution is a bound of
the merit. The sums go over the terms and their multipliers side by side, of which there are as many
of one as of the other. -/

theorem Watched.watch_of_ok {α σ β : Type} {act : Eval α σ β} {w : Watched α σ} {b : β} {s : σ}
    (h : act w.problem = (.ok b, s)) : watch act w = (.ok b, { w with problem := s }) := by
  rw [watch, h]

namespace Merit

variable {σ : Type}

theorem zip_values (l : Layout K) (lambda : List K) (x rows : Point K) :
    (l.terms.zip lambda).zip (l.values x rows)
      = (l.terms.zip lambda).map fun p ↦ (p, p.1.distance (p.1.source.read x rows)) := by
  rw [Layout.values]
  generalize l.terms = terms
  induction terms generalizing lambda with
  | nil => rfl
  | cons t terms ih =>
    rcases lambda with _ | ⟨m, lambda⟩
    · rfl
    · rw [List.zip_cons_cons, List.map_cons, List.zip_cons_cons, ih, List.map_cons]

theorem costAt_eq (m : Merit K) (x : Point K) (f : K) (rows : Point K) :
    m.costAt x f rows = f + ((m.layout.terms.zip m.lambda).map fun p ↦
      p.1.penalty m.rho p.2 (p.1.distance (p.1.source.read x rows))).sum := by
  rw [costAt, penalty, zip_values, List.map_map, Scalar.zero_eq, ← List.sum_eq_foldl]
  rfl

theorem cost_of_answers (m : Merit K) {p : Problem K σ} {x : Point K} {w : Watched K σ} {f : K}
    {rows : Point K} {s₁ s₂ : σ} (hf : p.objective x w.problem = (.ok f, s₁))
    (hrows : m.layout.rows p x s₁ = (.ok rows, s₂)) :
    m.cost p x w = (.ok (m.costAt x f rows), { w with problem := s₂ }) := by
  rw [cost, Eval.bind_of_ok (Watched.watch_of_ok hf), Eval.bind_of_ok (Watched.watch_of_ok hrows),
    Eval.pure_apply]

section Bounds

variable {l : Layout K} {x rows : Point K} {lambda : List K} {rho : K}

theorem costAt_le (hrho : 0 < rho) (h : l.Holds (l.values x rows)) (lambda : List K) (f : K) :
    costAt ⟨l, lambda, rho⟩ x f rows ≤ f := by
  rw [Layout.holds_values_iff] at h
  rw [costAt_eq, add_le_iff_nonpos_right]
  refine (List.sum_le_card_nsmul _ 0 ?_).trans_eq (nsmul_zero _)
  rw [List.forall_mem_map]
  intro p hp
  exact Term.penalty_nonpos hrho (h p.1 (List.of_mem_zip hp).1) p.2

/-- Without multipliers the merit is the objective and the contributions of the terms that do not
hold. -/
theorem costAt_zeros (hrho : 0 < rho) (f : K) :
    f ≤ costAt ⟨l, Point.zeros l.size, rho⟩ x f rows ∧
      (costAt ⟨l, Point.zeros l.size, rho⟩ x f rows = f ↔ l.Holds (l.values x rows)) := by
  have hzip : l.terms.zip (Point.zeros l.size) = l.terms.map fun t ↦ (t, (0 : K)) := by
    have hpairs : (l.terms.map id).zip (l.terms.map fun _ ↦ (0 : K))
        = l.terms.map fun t ↦ (t, 0) := List.zip_map'
    rw [List.map_id, List.map_const'] at hpairs
    rwa [Point.zeros, Scalar.zero_eq, Layout.size]
  have hnonneg : ∀ t ∈ l.terms, 0 ≤ t.penalty rho 0 (t.distance (t.source.read x rows)) :=
    fun t _ ↦ (Term.penalty_zero hrho).1
  rw [costAt_eq, hzip, List.map_map, le_add_iff_nonneg_right, add_eq_left,
    Layout.holds_values_iff]
  constructor
  · apply List.sum_nonneg
    rw [List.forall_mem_map]
    exact hnonneg
  constructor
  · intro hsum t ht
    have hzero := List.all_zero_of_le_zero_le_of_sum_eq_zero (List.forall_mem_map.mpr hnonneg) hsum
      (List.mem_map_of_mem ht)
    exact (Term.penalty_zero hrho).2.mp hzero
  · intro h
    apply List.sum_eq_zero
    rw [List.forall_mem_map]
    exact fun t ht ↦ (Term.penalty_zero hrho).2.mpr (h t ht)

theorem costAt_mono {rho' : K} (hrho : 0 < rho) (hle : rho ≤ rho') (l : Layout K)
    (lambda : List K) (x : Point K) (f : K) (rows : Point K) :
    costAt ⟨l, lambda, rho⟩ x f rows ≤ costAt ⟨l, lambda, rho'⟩ x f rows := by
  rw [costAt_eq, costAt_eq]
  apply add_le_add_right
  exact List.sum_le_sum fun p _ ↦ Term.penalty_mono hrho hle p.1 p.2 _

end Bounds

/-- **On which side of the objective the merit lies.** Where all terms hold it does not exceed the
objective, whatever the multipliers; without multipliers it is not below the objective, and equal to
it exactly where all terms hold; and it does not fall as the penalty grows. -/
theorem cost_bounds (l : Layout K) {p : Problem K σ} {x : Point K} {w : Watched K σ} {f : K}
    {rows : Point K} {s₁ s₂ : σ} (hf : p.objective x w.problem = (.ok f, s₁))
    (hrows : l.rows p x s₁ = (.ok rows, s₂)) :
    ∃ v : List K → K → K,
      (∀ lambda rho, cost ⟨l, lambda, rho⟩ p x w
        = (.ok (v lambda rho), { w with problem := s₂ })) ∧
      (∀ lambda rho, 0 < rho → l.Holds (l.values x rows) → v lambda rho ≤ f) ∧
      (∀ rho, 0 < rho → f ≤ v (Point.zeros l.size) rho ∧
        (v (Point.zeros l.size) rho = f ↔ l.Holds (l.values x rows))) ∧
      ∀ lambda rho rho', 0 < rho → rho ≤ rho' → v lambda rho ≤ v lambda rho' := by
  refine ⟨fun lambda rho ↦ costAt ⟨l, lambda, rho⟩ x f rows, ?_, ?_, ?_, ?_⟩
  · intro lambda rho
    exact cost_of_answers ⟨l, lambda, rho⟩ hf hrows
  · intro lambda rho hrho h
    exact costAt_le hrho h lambda f
  · intro rho hrho
    exact costAt_zeros hrho f
  · intro lambda rho rho' hrho hle
    exact costAt_mono hrho hle l lambda x f rows

theorem cost_bounds_oneSided :
    let l : Layout ℚ := .ofBounds 1 ⟨some [0], some [Box.limit], [1, -Box.limit], [Box.limit, -3]⟩
    let problem := MultiplierMethod.oneSided
    problem.objective [2] () = (.ok 2, ()) ∧ l.rows problem [2] () = (.ok [2, 2], ()) ∧
      (cost ⟨l, Point.zeros l.size, 10⟩ problem [2] ⟨none, ()⟩).1.toOption = some 127 ∧
      ¬l.Holds (l.values [2] [2, 2]) := by
  intro l problem
  have hf : problem.objective [2] () = (.ok 2, ()) := rfl
  have hrows : l.rows problem [2] () = (.ok [2, 2], ()) := rfl
  have hcost : (cost ⟨l, Point.zeros l.size, 10⟩ problem [2] ⟨none, ()⟩).1.toOption = some 127 := by
    decide +kernel
  refine ⟨hf, hrows, hcost, fun hholds ↦ ?_⟩
  obtain ⟨v, hv, hle, -, -⟩ := cost_bounds l (w := ⟨none, ()⟩) hf hrows
  rw [hv] at hcost
  have hvalue : v (Point.zeros l.size) 10 = 127 := Option.some.inj hcost
  have hbelow := hle (Point.zeros l.size) 10 (by norm_num) hholds
  rw [hvalue] at hbelow
  norm_num at hbelow

end Merit

end NonlinearProgram
