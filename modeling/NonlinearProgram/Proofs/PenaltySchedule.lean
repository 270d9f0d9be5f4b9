import Mathlib.Order.Bounds.Defs
import Mathlib.Tactic.Positivity
import NonlinearProgram.Proofs.Exact
import NonlinearProgram.Proofs.Account

/-!
# The schedule of the penalty

The penalty of a descent is a matter of counting. It is the first penalty, ten times larger for each
iteration before it that raised it: one that ended infeasible and was stuck, or left more than a
quarter of the violation that it found, or ran under the monotone strategy. `growths` counts them
from the violations alone, without looking at any penalty.

The limit is tested right after the penalty has grown. So an iteration that did not stop the run has
not grown it beyond the limit (`Course.growths_eq_zero_or`), and the iteration that does so is the
last one, whatever the iteration limit is.
-/

namespace NonlinearProgram

open MultiplierMethod

variable {K σ : Type} [ExactScalar K]

/-! ## Counting

Iterations are counted by what they found and what they left. The violation that one found is the
one that the iteration before it left, or the one of the start, so it is handed along;
`Course.growths_eq` says that the count is that of the iterations that raised the penalty. -/

/-- The iteration came to an infeasible point, and was stuck there, or had found a violation that it
left more than a quarter of, or ran under the monotone strategy. -/
def Iteration.Raises (c : Config K) (found : K) (i : Iteration K) : Prop :=
  c.violationTolerance < i.violation ∧
    (i.inner.stuck = true ∨ found / 4 < i.violation ∨ c.strategy = .monotone)

instance (c : Config K) (found : K) (i : Iteration K) : Decidable (i.Raises c found) :=
  inferInstanceAs (Decidable (_ ∧ _))

/-- The number of iterations in a row, the first of which found a given violation, that went on and
raised the penalty. -/
def growths (c : Config K) : K → List (Iteration K) → ℕ
  | _, [] => 0
  | found, i :: its =>
    growths c i.violation its + if i.agreed = true ∧ i.Raises c found then 1 else 0

namespace Iteration

variable {c : Config K} {i : Iteration K}

theorem largestPenalty_pos : (0 : K) < largestPenalty := by
  rw [largestPenalty]
  norm_num

theorem grows_iff : i.grows c = true ↔ i.agreed = true ∧ i.Raises c i.start.violation := by
  have hquarter : (0.25 : K) * i.start.violation = i.start.violation / 4 := by
    rw [div_eq_mul_inv, mul_comm]
    norm_num
  simp only [grows, feasible, slow, Raises, Bool.and_eq_true, Bool.or_eq_true, Bool.not_eq_true',
    decide_eq_false_iff_not, decide_eq_true_eq, not_le, hquarter, and_assoc, or_assoc]

theorem nextRho_eq : i.nextRho c = i.start.rho * 10 ^ (if i.grows c then 1 else 0) := by
  rw [nextRho, growth]
  split
  · rw [pow_one]
    norm_num
  · rw [pow_zero, mul_one]

theorem nextRho_le_of_grows (hi : ¬i.Stops c) (hgrows : i.grows c = true) :
    i.nextRho c ≤ largestPenalty := by
  refine not_lt.mp fun hlt ↦ hi (Or.inr (Or.inr (Or.inr ⟨?_, hlt⟩)))
  exact not_le.mpr (grows_iff.mp hgrows).2.1

end Iteration

namespace Course

variable {minimizer : Minimizer K} {p : Problem K σ} {c : Config K} {l : Layout K} {index : ℕ}
  {start : Iterate K} {its : List (Iteration K)} {s s' : σ}

theorem growths_eq (h : Course minimizer p c l index start s its s') :
    growths c start.violation its = its.countP fun i ↦ i.grows c := by
  induction h with
  | done => rfl
  | @step i its s s₁ s₂ _ _ ih =>
    have hrest : growths c i.violation its = its.countP fun i ↦ i.grows c := ih
    rw [growths, hrest, List.countP_cons]
    simp only [Iteration.grows_iff]

theorem rho_after (h : Course minimizer p c l index start s its s') :
    (start.after c its).rho = start.rho * 10 ^ growths c start.violation its := by
  rw [h.growths_eq]
  induction h with
  | done => rw [Iterate.after_nil, List.countP_nil, pow_zero, mul_one]
  | @step i its s s₁ s₂ _ _ ih =>
    have hnext : (i.next c).rho = i.start.rho * 10 ^ (if i.grows c then 1 else 0) :=
      Iteration.nextRho_eq
    rw [Iterate.after_cons, ih, hnext, List.countP_cons, mul_assoc, ← pow_add, add_comm]

/-- As long as no iteration stops the run, the penalty has not grown, or it is below the limit. -/
theorem growths_eq_zero_or (h : Course minimizer p c l index start s its s')
    (hits : ∀ i ∈ its, ¬i.Stops c) : growths c start.violation its = 0 ∨
      start.rho * 10 ^ growths c start.violation its ≤ Iteration.largestPenalty := by
  rw [h.growths_eq]
  induction h with
  | done => exact Or.inl rfl
  | @step i its s s₁ s₂ _ _ ih =>
    rw [List.forall_mem_cons] at hits
    have hnext : (i.next c).rho = i.start.rho * 10 ^ (if i.grows c then 1 else 0) :=
      Iteration.nextRho_eq
    rw [List.countP_cons]
    by_cases hgrows : i.grows c = true
    · have hle : (i.next c).rho ≤ Iteration.largestPenalty :=
        Iteration.nextRho_le_of_grows hits.1 hgrows
      rw [if_pos hgrows] at hnext ⊢
      refine Or.inr ?_
      rcases ih hits.2 with hzero | hrest
      · rwa [hzero, zero_add, ← hnext]
      · rwa [hnext, mul_assoc, ← pow_add, add_comm] at hrest
    · rw [if_neg hgrows, pow_zero, mul_one] at hnext
      rw [if_neg hgrows, add_zero, ← hnext]
      exact ih hits.2

end Course

/-! ## The limit

With `G` the least number of growths beyond the limit, the count before the last iteration is below
`G`, and with the last one it is at most `G`. A run that starts below the limit is infeasible
exactly where the count is `G`, because the test comes right after the growth. -/

/-- The least positive number of growths that takes the penalty beyond its limit. -/
def Config.IsGrowthLimit (c : Config K) (G : ℕ) : Prop :=
  IsLeast {g | 1 ≤ g ∧ Iteration.largestPenalty < c.penalty * 10 ^ g} G

theorem Config.IsGrowthLimit.lt_of_le {c : Config K} {G g : ℕ} (hG : c.IsGrowthLimit G)
    (hg : c.penalty * 10 ^ g ≤ Iteration.largestPenalty) : g < G := by
  obtain ⟨-, hlimit⟩ := hG.1
  have hpenalty : 0 < c.penalty := by
    by_contra hle
    have hnonpos : c.penalty * 10 ^ G ≤ 0 :=
      mul_nonpos_of_nonpos_of_nonneg (not_lt.mp hle) (by positivity)
    exact (hlimit.trans_le hnonpos).not_gt Iteration.largestPenalty_pos
  by_contra hle
  have hpow : (10 : K) ^ G ≤ 10 ^ g := pow_le_pow_right₀ (by norm_num) (not_lt.mp hle)
  have hlt := hlimit.trans_le (mul_le_mul_of_nonneg_left hpow hpenalty.le)
  exact hlt.not_ge hg

namespace MultiplierMethod

/-- What a run has to do with its penalty, from the violation that it found at its start. -/
structure Scheduled (c : Config K) (found : K) (starts : List (Iterate K))
    (its : List (Iteration K)) (outcome : Except (Fault K) (Point K × Summary K)) : Prop where
  /-- The penalty of a descent is the first one, ten times larger for each growth before it. -/
  rho_eq : ∀ k st, starts[k]? = some st →
    st.rho = c.penalty * 10 ^ growths c found (its.take k) ∧ ∀ i ∈ its.take k, i.agreed = true
  /-- From a feasible point the next descent goes on with the penalty of this one. -/
  feasible : ∀ k i st, its[k]? = some i → i.violation ≤ c.violationTolerance →
    starts[k + 1]? = some st → st.rho = i.start.rho
  rho_le : c.penalty ≤ Iteration.largestPenalty →
    ∀ st ∈ starts, st.rho ≤ Iteration.largestPenalty
  growths_le : ∀ G, c.IsGrowthLimit G → growths c found its ≤ G
  /-- With the growth that takes the penalty beyond its limit the run ends as infeasible. -/
  ends : ∀ G, c.IsGrowthLimit G → ∀ k ≤ its.length, growths c found (its.take k) = G →
    k = its.length ∧ starts.length = k ∧ ∀ y info, outcome = .ok (y, info) → info.status = 2
  /-- From a penalty below the limit it ends so in no other way. -/
  growths_eq : ∀ G, c.IsGrowthLimit G → c.penalty ≤ Iteration.largestPenalty →
    ∀ y info, outcome = .ok (y, info) → info.status = 2 → growths c found its = G
  monotone : ∀ G, c.IsGrowthLimit G → c.strategy = .monotone →
    (its.countP fun i ↦ i.agreed = true ∧ c.violationTolerance < i.violation) ≤ G

variable {minimizer : Minimizer K} {p : Problem K σ} {c : Config K} {l : Layout K} {x : Point K}
  {s s' : σ}

theorem rho_start {first : Iterate K} (h : start p c l x s = (.ok first, s')) :
    first.rho = c.penalty := by
  obtain ⟨_, _, -, -, rfl⟩ := start_eq_ok.mp h
  rfl

namespace Account

variable {starts : List (Iterate K)} {its : List (Iteration K)}
  {outcome : Except (Fault K) (Point K × Summary K)} {found : K} {G : ℕ}
  (h : Account minimizer p c l x s starts its outcome s')
  (hfound : ∀ first s₁, start p c l x s = (.ok first, s₁) → first.violation = found)

include h hfound

theorem rho_eq {k : ℕ} {st : Iterate K} (hst : starts[k]? = some st) :
    st.rho = c.penalty * 10 ^ growths c found (its.take k) := by
  obtain ⟨first, s₁, s₂, hstart, hcourse, -, rfl, -⟩ := h.of_start hst
  rw [hcourse.rho_after, rho_start hstart, hfound first s₁ hstart]

theorem growths_eq_countP (k : ℕ) :
    growths c found (its.take k) = (its.take k).countP fun i ↦ i.grows c := by
  rcases h.course with rfl | ⟨first, s₁, s₂, hstart, hcourse⟩
  · rw [List.take_nil]
    rfl
  obtain ⟨s₃, hfront⟩ := hcourse.take k
  rw [← hfound first s₁ hstart, hfront.growths_eq]

theorem growths_concat {before : List (Iteration K)} {i : Iteration K}
    (hits : its = before ++ [i]) :
    growths c found its = growths c found before + if i.grows c then 1 else 0 := by
  subst hits
  have hall := h.growths_eq_countP hfound (before ++ [i]).length
  have hfront := h.growths_eq_countP hfound before.length
  rw [List.take_length, List.countP_append, List.countP_singleton] at hall
  rw [List.take_left] at hfront
  rw [hall, hfront]

theorem growths_lt (hG : c.IsGrowthLimit G) {k : ℕ} (hk : k < its.length) :
    growths c found (its.take k) < G := by
  rcases h.course with rfl | ⟨first, s₁, s₂, hstart, hcourse⟩
  · exact absurd hk (Nat.not_lt_zero k)
  obtain ⟨s₃, hfront⟩ := hcourse.take k
  have hgrowths := hfront.growths_eq_zero_or (h.not_stops hk)
  rw [rho_start hstart, hfound first s₁ hstart] at hgrowths
  rcases hgrowths with hzero | hle
  · rw [hzero]
    exact hG.1.1
  · exact hG.lt_of_le hle

theorem growths_lt_of_concat (hG : c.IsGrowthLimit G) {before : List (Iteration K)}
    {i : Iteration K} (hits : its = before ++ [i]) : growths c found before < G := by
  subst hits
  have hlt := h.growths_lt hfound hG (k := before.length) (by simp)
  rwa [List.take_left] at hlt

theorem growths_le (hG : c.IsGrowthLimit G) : growths c found its ≤ G := by
  rcases List.eq_nil_or_concat its with hits | ⟨before, i, hits⟩
  · rw [hits]
    exact Nat.zero_le _
  · rw [List.concat_eq_append] at hits
    have hlt := h.growths_lt_of_concat hfound hG hits
    rw [h.growths_concat hfound hits]
    split <;> omega

theorem exists_outgrown (hG : c.IsGrowthLimit G) (hlimit : growths c found its = G) :
    ∃ i, its.getLast? = some i ∧ i.agreed = true ∧ i.Outgrown c := by
  rcases List.eq_nil_or_concat its with hits | ⟨before, i, hits⟩
  · have hpos : 1 ≤ G := hG.1.1
    rw [← hlimit, hits] at hpos
    exact absurd hpos (Nat.not_succ_le_zero 0)
  rw [List.concat_eq_append] at hits
  -- without a growth in the last iteration there would be too few
  have hgrows : i.grows c = true := by
    by_contra hnot
    have hlt := h.growths_lt_of_concat hfound hG hits
    rw [h.growths_concat hfound hits, if_neg hnot] at hlimit
    omega
  obtain ⟨hagreed, hraises⟩ := Iteration.grows_iff.mp hgrows
  have hrho : i.nextRho c = c.penalty * 10 ^ G := by
    rcases h.course with hnil | ⟨first, s₁, s₂, hstart, hcourse⟩
    · exact absurd (hnil.symm.trans hits) (by simp)
    have hafter := hcourse.rho_after
    rwa [rho_start hstart, hfound first s₁ hstart, hlimit, hits, Iterate.after_concat] at hafter
  refine ⟨i, ?_, hagreed, not_le.mpr hraises.1, ?_⟩
  · rw [hits, List.getLast?_concat]
  · rw [hrho]
    exact hG.1.2

/-- With the limit reached the run is over, and infeasible. -/
theorem ends (hG : c.IsGrowthLimit G) {k : ℕ} (hk : k ≤ its.length)
    (hlimit : growths c found (its.take k) = G) :
    k = its.length ∧ starts.length = k ∧ ∀ y info, outcome = .ok (y, info) → info.status = 2 := by
  obtain rfl | hlt := hk.eq_or_lt
  · rw [List.take_length] at hlimit
    obtain ⟨i, hi, hagreed, houtgrown⟩ := h.exists_outgrown hfound hG hlimit
    have hget : its[its.length - 1]? = some i := by rw [← List.getLast?_eq_getElem?, hi]
    obtain ⟨hstarts, hlength⟩ :=
      h.length_of_stops hget (Or.inr (Or.inr (Or.inr houtgrown)))
    refine ⟨rfl, hstarts.trans hlength.symm, ?_⟩
    rintro y info rfl
    obtain ⟨_, _, _, -, -, -, -, hcertificate, -⟩ := h.finish_eq
    exact hcertificate.infeasible.mpr ⟨i, hi, hagreed, houtgrown⟩
  · exact absurd hlimit (h.growths_lt hfound hG hlt).ne

omit hfound in
theorem rho_le (hrho : c.penalty ≤ Iteration.largestPenalty) {k : ℕ} {st : Iterate K}
    (hst : starts[k]? = some st) : st.rho ≤ Iteration.largestPenalty := by
  obtain ⟨first, s₁, s₂, hstart, hcourse, -, rfl, hunstopped⟩ := h.of_start hst
  have hgrowths := hcourse.growths_eq_zero_or hunstopped
  rw [hcourse.rho_after]
  rcases hgrowths with hzero | hle
  · rw [hzero, pow_zero, mul_one, rho_start hstart]
    exact hrho
  · exact hle

omit hfound in
theorem rho_eq_of_feasible {k : ℕ} {i : Iteration K} {st : Iterate K} (hi : its[k]? = some i)
    (hfeasible : i.violation ≤ c.violationTolerance) (hst : starts[k + 1]? = some st) :
    st.rho = i.start.rho := by
  obtain ⟨first, s₁, s₂, -, -, -, rfl, -⟩ := h.of_start hst
  rw [List.take_add_one, hi, Option.toList_some, Iterate.after_concat]
  show i.nextRho c = i.start.rho
  rw [Iteration.nextRho, if_neg]
  exact fun hgrows ↦ (Iteration.grows_iff.mp hgrows).2.1.not_ge hfeasible

theorem growths_eq_of_infeasible (hG : c.IsGrowthLimit G)
    (hrho : c.penalty ≤ Iteration.largestPenalty) {y : Point K} {info : Summary K}
    (houtcome : outcome = .ok (y, info)) (hstatus : info.status = 2) :
    growths c found its = G := by
  subst houtcome
  obtain ⟨first, s₁, s₂, hstart, hcourse, -, -, hcertificate, -⟩ := h.finish_eq
  obtain ⟨i, hi, -, -, hlimit⟩ := hcertificate.infeasible.mp hstatus
  obtain ⟨before, rfl⟩ := List.getLast?_eq_some_iff.mp hi
  have hafter := hcourse.rho_after
  rw [Iterate.after_concat, rho_start hstart, hfound first s₁ hstart] at hafter
  have hbeyond : Iteration.largestPenalty < c.penalty * 10 ^ growths c found (before ++ [i]) := by
    rw [← hafter]
    exact hlimit
  refine le_antisymm (h.growths_le hfound hG) (hG.2 ⟨Nat.one_le_iff_ne_zero.mpr ?_, hbeyond⟩)
  intro hzero
  rw [hzero, pow_zero, mul_one] at hbeyond
  exact hbeyond.not_ge hrho

theorem countP_le_of_monotone (hG : c.IsGrowthLimit G) (hstrategy : c.strategy = .monotone) :
    (its.countP fun i ↦ i.agreed = true ∧ c.violationTolerance < i.violation) ≤ G := by
  have hall := h.growths_eq_countP hfound its.length
  rw [List.take_length] at hall
  have hcount : (its.countP fun i ↦ i.agreed = true ∧ c.violationTolerance < i.violation)
      = its.countP fun i ↦ i.grows c := by
    refine List.countP_congr fun i _ ↦ ?_
    rw [decide_eq_true_iff, Iteration.grows_iff, Iteration.Raises]
    exact and_congr_right fun _ ↦ (and_iff_left (Or.inr (Or.inr hstrategy))).symm
  rw [hcount, ← hall]
  exact h.growths_le hfound hG

theorem scheduled : Scheduled c found starts its outcome where
  rho_eq k st hst := by
    obtain ⟨_, _, _, -, -, -, -, hunstopped⟩ := h.of_start hst
    refine ⟨h.rho_eq hfound hst, fun i hi ↦ ?_⟩
    by_contra hagreed
    exact hunstopped i hi (Or.inl (Bool.not_eq_true _ ▸ hagreed))
  feasible _ _ _ := h.rho_eq_of_feasible
  rho_le hrho st hst := by
    obtain ⟨k, hk⟩ := List.mem_iff_getElem?.mp hst
    exact h.rho_le hrho hk
  growths_le _ hG := h.growths_le hfound hG
  ends _ hG _ hk hits := h.ends hfound hG hk hits
  growths_eq _ hG hrho _ _ := h.growths_eq_of_infeasible hfound hG hrho
  monotone _ hG := h.countP_le_of_monotone hfound hG

end Account

/-- **The schedule of the penalty.** Whatever the problem and the optimizer do, the descents of a
run have the first penalty, ten times larger for each iteration before that raised it, and a run
that takes the penalty beyond its limit ends there as infeasible. -/
theorem penalty_schedule (minimizer : Minimizer K) (p : Problem K σ) (c : Config K) (l : Layout K)
    (x : Point K) (s : σ) :
    ∃ starts its found, Account minimizer p c l x s starts its (run minimizer p c l x s).1
        (run minimizer p c l x s).2 ∧
      (∀ rows s₁, l.rows p (l.project x) s = (.ok rows, s₁) →
        found = l.violation (l.values (l.project x) rows)) ∧
      Scheduled c found starts its (run minimizer p c l x s).1 := by
  obtain ⟨starts, its, haccount⟩ := exists_account minimizer p c l x s
  rcases hrows : l.rows p (l.project x) s with ⟨fault | rows, s₁⟩
  · refine ⟨starts, its, 0, haccount, nofun, haccount.scheduled ?_⟩
    intro first s₁ hstart
    obtain ⟨_, _, hrows', -⟩ := start_eq_ok.mp hstart
    cases hrows.symm.trans hrows'
  · refine ⟨starts, its, l.violation (l.values (l.project x) rows), haccount, ?_,
      haccount.scheduled ?_⟩
    · rintro rows' s₁' h
      cases h
      rfl
    · intro first s₁' hstart
      obtain ⟨_, _, hrows', -, rfl⟩ := start_eq_ok.mp hstart
      cases hrows.symm.trans hrows'
      rfl

/-- A row that is one everywhere and has to be zero. -/
def unmeetable : Problem ℚ Unit where
  objective x := pure (x.coord 0)
  gradient _ := pure [1]
  constraints _ := pure [1]
  jacobian _ := pure ⟨1, [[0]]⟩
  intermediate _ := pure true
  note _ := pure ()

/-- From a penalty of ten the twelfth growth is beyond the limit, and there the run ends, although
thousands of iterations are allowed. -/
theorem penalty_schedule_unmeetable :
    let c : Config ℚ := Config.standard
    let minimizer : Minimizer ℚ := fun _ ↦ .ok fun x ↦ .pure (.ok ⟨some x, none, 0, none⟩)
    let outcome := (run minimizer unmeetable c (.ofBounds 1 ⟨none, none, [0], [0]⟩) [5] ()).1
    c.IsGrowthLimit 12 ∧ ∃ starts its, Scheduled c 1 starts its outcome ∧
      growths c 1 its = 12 ∧ (outcome.toOption.map fun answer ↦ answer.2.status) = some 2 := by
  intro c minimizer outcome
  have hpenalty : c.penalty = 10 := by decide +kernel
  have hlargest : (Iteration.largestPenalty : ℚ) = 10 ^ 12 := by decide +kernel
  have hG : c.IsGrowthLimit 12 := by
    rw [Config.IsGrowthLimit, hpenalty, hlargest]
    refine ⟨⟨by norm_num, by norm_num⟩, fun g hg ↦ ?_⟩
    by_contra hlt
    have hpow : (10 : ℚ) ^ g ≤ 10 ^ 11 := pow_le_pow_right₀ (by norm_num) (by omega)
    linarith [hg.2]
  have hok : (outcome.toOption.map fun answer ↦ answer.2.status) = some 2 := by decide +kernel
  obtain ⟨starts, its, found, -, hfound, hscheduled⟩ :=
    penalty_schedule minimizer unmeetable c (.ofBounds 1 ⟨none, none, [0], [0]⟩) [5] ()
  obtain rfl : found = 1 := (hfound [1] () rfl).trans (by decide +kernel)
  refine ⟨hG, starts, its, hscheduled, ?_, hok⟩
  obtain ⟨⟨y, info⟩, houtcome, hstatus⟩ := Except.map_toOption_eq_some.mp hok
  have hle : c.penalty ≤ Iteration.largestPenalty := by
    rw [hpenalty, hlargest]
    norm_num
  exact hscheduled.growths_eq 12 hG hle y info houtcome hstatus

end MultiplierMethod

end NonlinearProgram
