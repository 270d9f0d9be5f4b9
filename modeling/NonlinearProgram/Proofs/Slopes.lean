import NonlinearProgram.Proofs.Contribution
import NonlinearProgram.Proofs.PureCallbacks

/-!
# The gradient of the merit as a sum of slopes

The slope of a term is the gradient of its distance: a row of the derivative or a unit vector, with
the sign of the term. The walk that builds the gradient of the merit works in place, on rows by a
scaled addition and on variables by a single entry, and passes over terms of weight zero. It comes
to the gradient of the objective plus one multiple of a slope for every term
(`Merit.gradient_eq_sum`), the multiple being the pull of the multiplier that the update would give
the term.

Along a line the distances of terms change by their slopes where the rows are affine, and so the
gradient of the merit is the derivative of the merit: what is left after the linear part is never
negative and at most the square of the changes of the distances (`Merit.cost_linearized`).
-/

namespace NonlinearProgram

variable {K : Type} [ExactScalar K]

/-! ## Vectors

A pairing is linear in its vector and in its weights. The walk adds vectors of one length to a point
of that length, so the pairing of the result is a sum of pairings. -/

namespace Point

/-- The unit vector of a variable. -/
def unit (n i : ℕ) : Point K := (zeros n).set i 1

theorem length_unit (n i : ℕ) : (unit n i : Point K).length = n := by
  rw [unit, List.length_set, length_zeros]

theorem coord_unit {n i : ℕ} (k : ℕ) (hi : i < n) :
    (unit n k : Point K).coord i = (Pi.single i 1 : ℕ → K) k := by
  have hlength : i < ((zeros n : Point K).set k 1).length := by
    rwa [List.length_set, length_zeros]
  rw [unit, coord, List.getD_eq_getElem _ _ hlength, List.getElem_set, Pi.single_apply]
  split
  · rfl
  · simp [zeros]

theorem coord_scale (v : Point K) (a : K) (i : ℕ) : (v.scale a).coord i = v.coord i * a := by
  have hzero : (0.0 : K) = 0.0 * a := by rw [Scalar.zero_eq, zero_mul]
  rw [coord, coord, scale, hzero, List.getD_map, ← hzero]

theorem pairing_scale (v : Point K) (a : K) (c : ℕ → K) :
    (v.scale a).pairing c = a * v.pairing c := by
  rw [pairing, pairing, length_scale_eq rfl, Finset.mul_sum]
  refine Finset.sum_congr rfl fun i _ ↦ ?_
  rw [coord_scale]
  ring

theorem pairing_add {v w : Point K} (h : v.length = w.length) (c : ℕ → K) :
    (v.add w).pairing c = v.pairing c + w.pairing c := by
  rw [pairing, pairing, pairing, length_add_eq rfl h.symm, ← h, ← Finset.sum_add_distrib]
  refine Finset.sum_congr rfl fun i _ ↦ ?_
  rw [coord_add h, add_mul]

theorem pairing_sub {v w : Point K} (h : v.length = w.length) (c : ℕ → K) :
    (v.sub w).pairing c = v.pairing c - w.pairing c := by
  rw [pairing, pairing, pairing, length_sub_eq rfl h.symm, ← h, ← Finset.sum_sub_distrib]
  refine Finset.sum_congr rfl fun i _ ↦ ?_
  rw [coord_sub h, sub_mul]

theorem pairing_weights_sub (v : Point K) (c d : ℕ → K) :
    (v.pairing fun i ↦ c i - d i) = v.pairing c - v.pairing d := by
  rw [pairing, pairing, pairing, ← Finset.sum_sub_distrib]
  exact Finset.sum_congr rfl fun i _ ↦ mul_sub _ _ _

/-- Induction on the vectors, which have the length of the point they are added to. -/
theorem pairing_foldl_add {vs : List (Point K)} {v : Point K} (h : ∀ w ∈ vs, w.length = v.length)
    (c : ℕ → K) :
    (vs.foldl add v).pairing c = v.pairing c + (vs.map fun w ↦ w.pairing c).sum := by
  induction vs generalizing v with
  | nil => exact (add_zero _).symm
  | cons w vs ih =>
    rw [List.forall_mem_cons] at h
    have hfirst : (v.add w).length = v.length := length_add_eq rfl h.1
    rw [List.foldl_cons, ih (by rw [hfirst]; exact h.2), pairing_add h.1.symm, List.map_cons,
      List.sum_cons, add_assoc]

end Point

/-! ## Slopes

The walk takes a vector and returns it changed. Each step comes to an addition of a multiple of a
slope, which for a variable is the addition to one entry. -/

namespace Term

/-- The gradient of the distance of a term, in `n` variables. -/
def slope (t : Term K) (J : Matrix K) (n : ℕ) : Point K :=
  match t.source with
  | .row j => Point.scale (J.row j) t.sign
  | .coordinate i => Point.scale (Point.unit n i) t.sign

section Slope

variable {t : Term K} {J : Matrix K} {n : ℕ}

theorem length_slope (hrow : ∀ j, t.source = .row j → (J.row j).length = n) :
    (t.slope J n).length = n := by
  rw [slope]
  split
  · exact Point.length_scale_eq (hrow _ ‹_›) _
  · exact Point.length_scale_eq (Point.length_unit _ _) _

theorem coord_slope {i : ℕ} (hi : i < n) :
    (t.slope J n).coord i = t.sign * t.source.pick (J.column i) (Pi.single i 1) := by
  rw [slope]
  split
  · rename_i j ht
    rw [Point.coord_scale, ht, Source.pick, Matrix.column, mul_comm]
  · rename_i k ht
    rw [Point.coord_scale, Point.coord_unit k hi, ht, Source.pick, mul_comm]

theorem addSlope_eq {g : Point K} (hrow : ∀ j, t.source = .row j → (J.row j).length = g.length)
    (w : K) : t.addSlope J w g = g.add ((t.slope J g.length).scale w) := by
  have hscale : ((t.slope J g.length).scale w).length = g.length :=
    Point.length_scale_eq (length_slope hrow) w
  apply Point.ext_coord
  · rw [length_addSlope hrow, Point.length_add_eq rfl hscale]
  · intro i hi
    rw [length_addSlope hrow] at hi
    rw [coord_addSlope hrow w hi, Point.coord_add hscale.symm, Point.coord_scale, coord_slope hi,
      mul_comm w]

/-- Induction on the walk, which keeps the length of what it adds to. -/
theorem foldl_addSlope_eq {pairs : List (Term K × K)} {g : Point K}
    (hrow : ∀ p ∈ pairs, ∀ j, p.1.source = .row j → (J.row j).length = g.length) :
    pairs.foldl (fun g p ↦ p.1.addSlope J p.2 g) g
      = (pairs.map fun p ↦ (p.1.slope J g.length).scale p.2).foldl Point.add g := by
  induction pairs generalizing g with
  | nil => rfl
  | cons p pairs ih =>
    rw [List.forall_mem_cons] at hrow
    have hlength := length_addSlope hrow.1 p.2
    rw [List.foldl_cons, ih (by rw [hlength]; exact hrow.2), hlength, addSlope_eq hrow.1,
      List.map_cons, List.foldl_cons]

theorem foldl_addSlope_filter (pairs : List (Term K × K)) (J : Matrix K) (g : Point K) :
    (pairs.filter fun p ↦ p.2 ≠ 0).foldl (fun g p ↦ p.1.addSlope J p.2 g) g
      = pairs.foldl (fun g p ↦ p.1.addSlope J p.2 g) g := by
  rw [List.foldl_filter]
  congr 1
  funext g p
  by_cases hp : p.2 = 0
  · rw [if_neg (by simp [hp]), addSlope, hp, if_pos (by simp)]
  · rw [if_pos (by simp [hp])]

end Slope

end Term

namespace Merit

variable {σ : Type}

theorem gradient_of_answers (m : Merit K) {p : Problem K σ} {x : Point K} {w : Watched K σ}
    {g rows : Point K} {J : Matrix K} {s₁ s₂ s₃ : σ} (hg : p.gradient x w.problem = (.ok g, s₁))
    (hrows : m.layout.rows p x s₁ = (.ok rows, s₂)) (hJ : m.layout.slopes p x s₂ = (.ok J, s₃)) :
    m.gradient p x w = (.ok (m.gradientAt x g rows J), { w with problem := s₃ }) := by
  rw [gradient, Eval.bind_of_ok (Watched.watch_of_ok hg),
    Eval.bind_of_ok (Watched.watch_of_ok hrows), Eval.bind_of_ok (Watched.watch_of_ok hJ),
    Eval.pure_apply]

/-- **The gradient of the merit, term by term.** To the gradient of the objective each term adds its
slope, an equality times the multiplier that the update gives it and an inequality times minus that
multiplier. Terms for which this is zero can be left out. -/
theorem gradient_eq_sum (m : Merit K) {p : Problem K σ} {x : Point K} {w : Watched K σ}
    {g rows : Point K} {J : Matrix K} {s₁ s₂ s₃ : σ} (hg : p.gradient x w.problem = (.ok g, s₁))
    (hrows : m.layout.rows p x s₁ = (.ok rows, s₂)) (hJ : m.layout.slopes p x s₂ = (.ok J, s₃))
    (hwhole : ∀ t ∈ m.layout.terms, ∀ j, t.source = .row j → (J.row j).length = g.length) :
    let updated := m.layout.updateMultipliers m.lambda (m.layout.values x rows) m.rho
    let pulls := (m.layout.terms.zip updated).map fun q ↦ (q.1, q.1.pull q.2)
    let total := fun pulls : List (Term K × K) ↦
      (pulls.map fun q ↦ (q.1.slope J g.length).scale q.2).foldl Point.add g
    m.gradient p x w = (.ok (total pulls), { w with problem := s₃ }) ∧
      total (pulls.filter fun q ↦ q.2 ≠ 0) = total pulls := by
  intro updated pulls total
  have hpulls : ∀ q ∈ pulls, ∀ j, q.1.source = .row j → (J.row j).length = g.length := by
    intro q hq
    obtain ⟨pair, hpair, rfl⟩ := List.mem_map.mp hq
    exact hwhole pair.1 (List.of_mem_zip hpair).1
  have htotal : total pulls = pulls.foldl (fun g q ↦ q.1.addSlope J q.2 g) g :=
    (Term.foldl_addSlope_eq hpulls).symm
  constructor
  · rw [gradient_of_answers m hg hrows hJ, gradientAt_eq_foldl, htotal]
  · have hfilter : total (pulls.filter fun q ↦ q.2 ≠ 0)
        = (pulls.filter fun q ↦ q.2 ≠ 0).foldl (fun g q ↦ q.1.addSlope J q.2 g) g :=
      (Term.foldl_addSlope_eq fun q hq ↦ hpulls q (List.mem_of_mem_filter hq)).symm
    rw [hfilter, htotal, Term.foldl_addSlope_filter]

/-- A sum that has to be one and a difference that has to be at most two, over two variables. -/
def slanted : Problem ℚ Unit where
  objective x := pure (x.coord 0)
  gradient _ := pure [1, 0]
  constraints x := pure [x.coord 0 + x.coord 1 + 2, x.coord 0 - x.coord 1]
  jacobian _ := pure ⟨2, [[1, 1], [1, -1]]⟩
  intermediate _ := pure true
  note _ := pure ()

/-- The bounds of the two rows, and variables that have to be at least zero. -/
def slantedBounds : Bounds ℚ :=
  ⟨some [0, 0], some [Box.limit, Box.limit], [1, -Box.limit], [1, 2]⟩

theorem hasShape_slanted :
    (⟨2, [[1, 1], [1, -1]]⟩ : Matrix ℚ).HasShape slantedBounds.rowLower.length 2 :=
  ⟨rfl, rfl, by decide⟩

theorem gradient_eq_sum_slanted :
    let m : Merit ℚ := ⟨.ofBounds 2 slantedBounds, [1, 0, 0, 0], 2⟩
    let J : Matrix ℚ := ⟨2, [[1, 1], [1, -1]]⟩
    (∀ t ∈ m.layout.terms, ∀ j, t.source = .row j → (J.row j).length = 2) ∧
      m.gradient slanted [2, -1] ⟨none, ()⟩ = (.ok [8, 1], ⟨none, ()⟩) := by
  intro m J
  have hwhole : ∀ t ∈ m.layout.terms, ∀ j, t.source = .row j → (J.row j).length = 2 :=
    fun t ht j hj ↦ hasShape_slanted.length_row (Layout.of_mem_ofBounds_row ht hj).1
  have hg : slanted.gradient [2, -1] () = (.ok [1, 0], ()) := rfl
  have hrows : m.layout.rows slanted [2, -1] () = (.ok [2 + -1 + 2, 2 - -1], ()) := rfl
  have hJ : m.layout.slopes slanted [2, -1] () = (.ok J, ()) := rfl
  refine ⟨hwhole, (gradient_eq_sum m (w := ⟨none, ()⟩) hg hrows hJ hwhole).1.trans ?_⟩
  exact congrArg (fun g ↦ (Except.ok g, _)) (by decide +kernel)

end Merit

/-! ## Affine rows

With affine rows the distance of every term is affine, and the difference of two distances is the
pairing of the way with a slope. That reduces the statement about the merit to the one about
contributions at two distances, term by term. -/

namespace Matrix

/-- The product of a matrix with a point. -/
def image (A : Matrix K) (x : Point K) : Point K := A.rows.map fun r ↦ Point.pairing r x.coord

theorem length_image (A : Matrix K) (x : Point K) : (A.image x).length = A.height :=
  List.length_map _

theorem coord_image (A : Matrix K) (x : Point K) (j : ℕ) :
    (A.image x).coord j = Point.pairing (A.row j) x.coord := by
  have hzero : (0.0 : K) = Point.pairing [] x.coord := by rw [Scalar.zero_eq, Point.pairing_nil]
  rw [Point.coord, image, hzero, List.getD_map, Matrix.row]

end Matrix

/-- The rows of a problem are those of an affine map, and their derivative is its matrix. -/
structure Problem.AffineRows {σ : Type} (p : Problem K σ) (A : Matrix K) (a : Point K) : Prop where
  constraints : ∀ x, x.length = A.width → (p.constraints x).Gives ((A.image x).add a)
  jacobian : ∀ x, x.length = A.width → (p.jacobian x).Gives A

section Affine

variable {σ : Type} {p : Problem K σ} {n : ℕ} {b : Bounds K} {A : Matrix K} {a x x' : Point K}
  (hA : A.HasShape b.rowLower.length n)

include hA

theorem Problem.AffineRows.rows (hp : p.AffineRows A a) (hx : x.length = n) :
    ((Layout.ofBounds n b).rows p x).Gives ((A.image x).add a) := by
  rw [Layout.rows]
  split
  · rename_i hm
    have hnone : A.rows = [] := List.length_eq_zero_iff.mp (hA.height.trans hm)
    rw [Matrix.image, hnone]
    exact fun _ ↦ rfl
  · exact hp.constraints x (hx.trans hA.width.symm)

theorem Problem.AffineRows.slopes (hp : p.AffineRows A a) (hx : x.length = n) :
    ((Layout.ofBounds n b).slopes p x).Gives A := by
  rw [Layout.slopes]
  split
  · rename_i hm
    have hnone : A.rows = [] := List.length_eq_zero_iff.mp (hA.height.trans hm)
    have hempty : A = .zeros 0 n := by
      obtain ⟨width, rows⟩ := A
      rw [Matrix.zeros, List.replicate_zero, Matrix.mk.injEq]
      exact ⟨hA.width, hnone⟩
    rw [hempty]
    exact fun _ ↦ rfl
  · exact hp.jacobian x (hx.trans hA.width.symm)

theorem Term.pairing_slope (ha : a.length = b.rowLower.length) (hx : x.length = n)
    (hx' : x'.length = n) (t : Term K) :
    (t.slope A n).pairing (x'.sub x).coord
      = t.distance (t.source.read x' ((A.image x').add a))
        - t.distance (t.source.read x ((A.image x).add a)) := by
  have hway : (x'.sub x).coord = fun i ↦ x'.coord i - x.coord i :=
    funext (Point.coord_sub (hx'.trans hx.symm))
  have hchange : t.distance (t.source.read x' ((A.image x').add a))
        - t.distance (t.source.read x ((A.image x).add a))
      = t.sign * (t.source.read x' ((A.image x').add a)
        - t.source.read x ((A.image x).add a)) := by
    rw [distance, distance]
    ring
  rw [hchange, slope, hway]
  split
  · rename_i j hj
    have himage : ∀ y : Point K, (A.image y).length = a.length := fun y ↦
      (A.length_image y).trans (hA.height.trans ha.symm)
    rw [hj, Source.read, Source.read, Point.coord_add (himage x'), Point.coord_add (himage x),
      Matrix.coord_image, Matrix.coord_image, Point.pairing_scale, Point.pairing_weights_sub]
    ring
  · rename_i i hi
    -- a variable beyond the last one is zero at both ends of the line
    have hbeyond : (Point.zeros n : Point K).length ≤ i → x'.coord i - x.coord i = 0 := by
      intro hle
      rw [Point.length_zeros] at hle
      rw [Point.coord_of_length_le (hx'.le.trans hle), Point.coord_of_length_le (hx.le.trans hle),
        sub_zero]
    rw [hi, Source.read, Source.read, Point.pairing_scale, Point.unit,
      Point.pairing_set _ (Point.coord_zeros n i) hbeyond, Point.pairing_zeros, zero_add, one_mul]

end Affine

namespace Merit

variable {σ : Type}

theorem pairing_gradientAt (m : Merit K) {x g rows : Point K} {J : Matrix K}
    (hwhole : ∀ t ∈ m.layout.terms, ∀ j, t.source = .row j → (J.row j).length = g.length)
    (c : ℕ → K) :
    (m.gradientAt x g rows J).pairing c = g.pairing c + ((m.layout.terms.zip m.lambda).map fun p ↦
      p.1.weight m.rho p.2 (p.1.distance (p.1.source.read x rows))
        * (p.1.slope J g.length).pairing c).sum := by
  let pairs := (m.layout.terms.zip m.lambda).map fun p ↦
    (p.1, p.1.weight m.rho p.2 (p.1.distance (p.1.source.read x rows)))
  have hpairs : ∀ q ∈ pairs, ∀ j, q.1.source = .row j → (J.row j).length = g.length := by
    intro q hq
    obtain ⟨p, hp, rfl⟩ := List.mem_map.mp hq
    exact hwhole p.1 (List.of_mem_zip hp).1
  have hwalk : m.gradientAt x g rows J = pairs.foldl (fun g q ↦ q.1.addSlope J q.2 g) g := by
    rw [gradientAt, zip_values, List.foldl_map, List.foldl_map]
  have hslopes : ∀ v ∈ pairs.map fun q ↦ (q.1.slope J g.length).scale q.2,
      v.length = g.length := by
    rw [List.forall_mem_map]
    intro q hq
    exact Point.length_scale_eq (Term.length_slope (hpairs q hq)) _
  rw [hwalk, Term.foldl_addSlope_eq hpairs, Point.pairing_foldl_add hslopes, List.map_map,
    List.map_map]
  simp only [Function.comp_def, Point.pairing_scale]

/-- The gradient of the merit adds to that of the objective, along a line, the changes of the
distances times the weights of their terms. -/
theorem pairing_gradientAt_sub {n : ℕ} {b : Bounds K} {A : Matrix K} {a x x' g : Point K}
    (hA : A.HasShape b.rowLower.length n) (ha : a.length = b.rowLower.length) (hx : x.length = n)
    (hx' : x'.length = n) (hg : g.length = n) (lambda : List K) (rho : K) :
    let m : Merit K := ⟨.ofBounds n b, lambda, rho⟩
    let s := fun (t : Term K) (x : Point K) ↦ t.distance (t.source.read x ((A.image x).add a))
    ((m.gradientAt x g ((A.image x).add a) A).sub g).pairing (x'.sub x).coord
      = ((m.layout.terms.zip lambda).map fun q ↦
          q.1.weight rho q.2 (s q.1 x) * (s q.1 x' - s q.1 x)).sum := by
  intro m s
  have hwhole : ∀ t ∈ m.layout.terms, ∀ j, t.source = .row j → (A.row j).length = g.length := by
    intro t ht j hj
    rw [hg]
    exact hA.length_row (Layout.of_mem_ofBounds_row ht hj).1
  have hmerit : (m.gradientAt x g ((A.image x).add a) A).length = g.length :=
    (length_gradientAt hg hA lambda rho x _).trans hg.symm
  rw [Point.pairing_sub hmerit, pairing_gradientAt m hwhole, add_sub_cancel_left, hg]
  simp only [Term.pairing_slope hA ha hx hx']
  rfl

/-- **The gradient of the merit is the derivative of the merit.** Between two points of a problem
with affine rows, what the merit adds to the objective changes by what its gradient adds to that of
the objective, applied to the way, and by a rest that is not negative and at most half the penalty
times the squared changes of the distances. -/
theorem cost_linearized {p : Problem K σ} {n : ℕ} {b : Bounds K} {A : Matrix K} {a : Point K}
    (hA : A.HasShape b.rowLower.length n) (ha : a.length = b.rowLower.length)
    (hp : p.AffineRows A a) {lambda : List K} {rho : K}
    (hlambda : lambda.length = (Layout.ofBounds n b).size) (hrho : 0 < rho) {x x' g : Point K}
    (hx : x.length = n) (hx' : x'.length = n) {w w' w'' : Watched K σ} {f f' : K}
    (hf : (p.objective x w.problem).1 = .ok f) (hf' : (p.objective x' w'.problem).1 = .ok f')
    (hg : (p.gradient x w''.problem).1 = .ok g) (hlength : g.length = n) :
    let m : Merit K := ⟨.ofBounds n b, lambda, rho⟩
    let s := fun (t : Term K) (x : Point K) ↦ t.distance (t.source.read x ((A.image x).add a))
    ∃ v v' h, (m.cost p x w).1 = .ok v ∧ (m.cost p x' w').1 = .ok v' ∧
      (m.gradient p x w'').1 = .ok h ∧
      let rest := (v' - f') - (v - f) - (h.sub g).pairing (x'.sub x).coord
      0 ≤ rest ∧ rest ≤ rho / 2 * (m.layout.terms.map fun t ↦ (s t x' - s t x) ^ 2).sum := by
  intro m s
  have hcost : (m.cost p x w).1 = .ok (m.costAt x f ((A.image x).add a)) := by
    rw [cost_of_answers m (Prod.ext hf rfl) (Prod.ext (hp.rows hA hx _) rfl)]
  have hcost' : (m.cost p x' w').1 = .ok (m.costAt x' f' ((A.image x').add a)) := by
    rw [cost_of_answers m (Prod.ext hf' rfl) (Prod.ext (hp.rows hA hx' _) rfl)]
  have hgradient : (m.gradient p x w'').1 = .ok (m.gradientAt x g ((A.image x).add a) A) := by
    rw [gradient_of_answers m (Prod.ext hg rfl) (Prod.ext (hp.rows hA hx _) rfl)
      (Prod.ext (hp.slopes hA hx _) rfl)]
  refine ⟨_, _, _, hcost, hcost', hgradient, ?_⟩
  have hsquare : (m.layout.terms.zip lambda).map (fun q ↦ (s q.1 x' - s q.1 x) ^ 2)
      = m.layout.terms.map fun t ↦ (s t x' - s t x) ^ 2 := by
    have hterms : (m.layout.terms.zip lambda).map Prod.fst = m.layout.terms :=
      List.map_fst_zip hlambda.ge
    conv_rhs => rw [← hterms, List.map_map]
    rfl
  rw [pairing_gradientAt_sub hA ha hx hx' hlength, costAt_eq, costAt_eq, add_sub_cancel_left,
    add_sub_cancel_left, ← hsquare]
  exact Term.sum_linearized hrho _ (fun t ↦ s t x) fun t ↦ s t x'

theorem affineRows_slanted : slanted.AffineRows ⟨2, [[1, 1], [1, -1]]⟩ [2, 0] where
  constraints x hx u := by
    obtain ⟨a, b, rfl⟩ := List.length_eq_two.mp hx
    refine congrArg Except.ok ?_
    simp [Matrix.image, Point.add, Point.coord, sub_eq_add_neg]
  jacobian _ _ _ := rfl

theorem cost_linearized_slanted :
    let m : Merit ℚ := ⟨.ofBounds 2 slantedBounds, [1, -1, 3, 0], 2⟩
    let A : Matrix ℚ := ⟨2, [[1, 1], [1, -1]]⟩
    slanted.AffineRows A [2, 0] ∧
      (m.cost slanted [2, -1] ⟨none, ()⟩).1.toOption = some (27 / 4) ∧
      (m.cost slanted [-3, 1] ⟨none, ()⟩).1.toOption = some (59 / 4) ∧
      (m.gradient slanted [2, -1] ⟨none, ()⟩).1.toOption = some [7, 2] ∧
      let s := fun (t : Term ℚ) (x : Point ℚ) ↦
        t.distance (t.source.read x ((A.image x).add [2, 0]))
      let rest := (59 / 4 - -3) - (27 / 4 - 2)
        - (Point.sub [7, 2] [1, 0]).pairing (Point.sub [-3, 1] [2, -1]).coord
      0 ≤ rest ∧
        rest ≤ 2 / 2 * (m.layout.terms.map fun t ↦ (s t [-3, 1] - s t [2, -1]) ^ 2).sum := by
  intro m A
  have hbefore : (m.cost slanted [2, -1] ⟨none, ()⟩).1.toOption = some (27 / 4) := by
    decide +kernel
  have hafter : (m.cost slanted [-3, 1] ⟨none, ()⟩).1.toOption = some (59 / 4) := by
    decide +kernel
  have hgradient : (m.gradient slanted [2, -1] ⟨none, ()⟩).1.toOption = some [7, 2] := by
    decide +kernel
  have hf : (slanted.objective [2, -1] ()).1 = .ok 2 := rfl
  have hf' : (slanted.objective [-3, 1] ()).1 = .ok (-3) := rfl
  have hg : (slanted.gradient [2, -1] ()).1 = .ok [1, 0] := rfl
  refine ⟨affineRows_slanted, hbefore, hafter, hgradient, ?_⟩
  have hlambda : m.lambda.length = m.layout.size := by decide +kernel
  obtain ⟨v, v', h, hv, hv', hh, hrest⟩ := @cost_linearized ℚ _ Unit slanted 2 slantedBounds A
    [2, 0] hasShape_slanted rfl affineRows_slanted m.lambda m.rho hlambda two_pos [2, -1] [-3, 1]
    [1, 0] rfl rfl ⟨none, ()⟩ ⟨none, ()⟩ ⟨none, ()⟩ 2 (-3) hf hf' hg rfl
  rw [hv] at hbefore
  rw [hv'] at hafter
  rw [hh] at hgradient
  cases hbefore
  cases hafter
  cases hgradient
  exact hrest

end Merit

end NonlinearProgram
