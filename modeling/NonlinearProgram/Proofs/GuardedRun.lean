import NonlinearProgram.Lagrangian.Run
import NonlinearProgram.Proofs.Guarded
import NonlinearProgram.Proofs.Lengths
import NonlinearProgram.Proofs.Course

/-!
# Runs with guarded access

The run of the method of multipliers with every access guarded: each step is written as it is
without guards, with the guarded operations in the place of the others. Over a problem whose answers
have the right shapes (`GuardedProblem.Shaped`), a layout for as many variables and rows, and an
optimizer that keeps to points of the length of its start, such a run never gets stuck and is the
run without guards (`MultiplierMethod.safe_run`).

The proof walks along the run once. What one part hands to the next is the length of a point.
-/

namespace NonlinearProgram

variable {α σ β : Type}

/-- A problem whose derivative is put together with guarded access. -/
structure GuardedProblem (α σ : Type) extends Problem α σ where
  jacobian? : Point α → Strict α σ (Matrix α)

/-! ## Optimizers

An optimizer knows the merit by its answers alone, so that it is enough to guard these. What it asks
for has the length of its start. -/

/-- Answers a query by computations that can get stuck. -/
def Query.run? (costs : Point α → Strict α σ α) (gradients : Point α → Strict α σ (Point α)) :
    Query α β → StateT σ Option β
  | pure result => fun s ↦ some (result, s)
  | cost x next => fun s ↦ do
    let (answer, s) ← costs x s
    run? costs gradients (next answer) s
  | gradient x next => fun s ↦ do
    let (answer, s) ← gradients x s
    run? costs gradients (next answer) s

/-- An operation of the problem under watch. -/
def Watched.watch? (act : Strict α σ β) : Strict α (Watched α σ) β := fun w ↦
  (act w.problem).map fun outcome ↦ watch (fun _ ↦ outcome) w

section Watch

variable {I : σ → Prop} {P : β → Prop}

theorem Watched.keeps_watch {act : Eval α σ β} (h : Eval.Keeps I act P) :
    Eval.Keeps (fun w : Watched α σ ↦ I w.problem) (watch act) P := by
  intro w hw
  obtain ⟨hkept, hanswer⟩ := h w.problem hw
  rcases hact : act w.problem with ⟨fault | b, s⟩
  · rw [hact] at hkept
    simp only [watch, hact]
    exact ⟨hkept, fun _ h ↦ nomatch h⟩
  · rw [hact] at hkept hanswer
    simp only [watch, hact]
    exact ⟨hkept, hanswer⟩

theorem Watched.safe_watch {act? : Strict α σ β} {act : Eval α σ β}
    (h : Strict.Safe I act? act P) :
    Strict.Safe (fun w : Watched α σ ↦ I w.problem) (watch? act?) (watch act) P := by
  refine ⟨fun w hw ↦ ?_, keeps_watch h.keeps⟩
  rw [watch?, h.agrees w.problem hw]
  rfl

/-- Answers of a query by safe computations, as long as it asks for points of the right length. -/
theorem Query.safe_run {costs? : Point α → Strict α σ α} {costs : Point α → Eval α σ α}
    {gradients? : Point α → Strict α σ (Point α)} {gradients : Point α → Eval α σ (Point α)}
    {n : ℕ} (hcosts : ∀ x, x.length = n → Strict.Safe I (costs? x) (costs x) fun _ ↦ True)
    (hgradients : ∀ x, x.length = n →
      Strict.Safe I (gradients? x) (gradients x) fun g ↦ g.length = n)
    {q : Query α β} (hq : q.Keeps n P) {s : σ} (hs : I s) :
    q.run? costs? gradients? s = some (q.run costs gradients s) ∧
      I (q.run costs gradients s).2 ∧ P (q.run costs gradients s).1 := by
  induction q generalizing s with
  | pure result => exact ⟨rfl, hs, hq⟩
  | cost x next ih =>
    obtain ⟨hkept, -⟩ := (hcosts x hq.1).keeps s hs
    obtain ⟨hrun, hrest⟩ := ih (costs x s).1 (hq.2 _) hkept
    refine ⟨?_, hrest⟩
    show (costs? x s).bind _ = _
    rw [(hcosts x hq.1).agrees s hs]
    exact hrun
  | gradient x next ih =>
    obtain ⟨hkept, hanswer⟩ := (hgradients x hq.1).keeps s hs
    obtain ⟨hrun, hrest⟩ := ih (gradients x s).1 (hq.2 _ hanswer) hkept
    refine ⟨?_, hrest⟩
    show (gradients? x s).bind _ = _
    rw [(hgradients x hq.1).agrees s hs]
    exact hrun

end Watch

/-! ## Shapes

What a problem has to promise, as one structure over a property of its state: each operation keeps
the property, answers in the right shape, and has a guarded version that does the same. -/

/-- Under a property of the state that they keep, the operations of a problem answer with the right
shapes at points with `n` coordinates, and none of them gets stuck. -/
structure GuardedProblem.Shaped (p : GuardedProblem α σ) (I : σ → Prop) (n m : ℕ) : Prop where
  objective : ∀ x, x.length = n → Eval.Keeps I (p.objective x) fun _ ↦ True
  gradient : ∀ x, x.length = n → Eval.Keeps I (p.gradient x) fun g ↦ g.length = n
  constraints : ∀ x, x.length = n → Eval.Keeps I (p.constraints x) fun rows ↦ rows.length = m
  jacobian : ∀ x, x.length = n →
    Strict.Safe I (p.jacobian? x) (p.jacobian x) fun J ↦ J.HasShape m n
  intermediate : ∀ report s, I s → I (p.intermediate report s).2
  note : ∀ remark s, I s → I (p.note remark s).2

theorem GuardedProblem.Shaped.rows {p : GuardedProblem α σ} {I : σ → Prop} {n m : ℕ}
    (hp : p.Shaped I n m) {l : Layout α} (hl : l.Fits n m) {x : Point α} (hx : x.length = n) :
    Eval.Keeps I (l.rows p.toProblem x) fun rows ↦ rows.length = m := by
  rw [Layout.rows]
  split
  · rename_i hm
    exact Eval.keeps_pure (hm.symm.trans hl.m_eq)
  · exact hp.constraints x hx

/-- Keeping a remark keeps what remarks keep. -/
theorem GuardedProblem.Shaped.progress [Scalar α] {p : GuardedProblem α σ} {I : σ → Prop}
    {n m : ℕ} (hp : p.Shaped I n m) {c : Config α} (r : Remark α) :
    Eval.Keeps I (MultiplierMethod.progress c p.toProblem r) fun _ ↦ True := by
  rw [MultiplierMethod.progress]
  split
  · exact Eval.keeps_lift fun s hs ↦ hp.note r s hs
  · exact Eval.keeps_pure trivial

/-! ## The method

The definitions of the run once more, one by one, with guarded operations where arrays are accessed.
They are what the theorems below are about and are not used elsewhere. -/

variable [Scalar α]

/-- The derivative of the stacked rows at a point, where there are any. -/
def Layout.slopes? (l : Layout α) (p : GuardedProblem α σ) (x : Point α) :
    Strict α σ (Matrix α) :=
  if l.m = 0 then pure (.zeros 0 l.n) else p.jacobian? x

namespace Merit

/-- The merit of a point. -/
def cost? (m : Merit α) (p : GuardedProblem α σ) (x : Point α) : Strict α (Watched α σ) α := do
  let f ← Strict.ofEval (Watched.watch (p.objective x))
  let rows ← Strict.ofEval (Watched.watch (m.layout.rows p.toProblem x))
  let values ← Strict.access (m.layout.values? x rows)
  pure (f + m.penalty values)

/-- The gradient of the merit at a point. -/
def gradient? (m : Merit α) (p : GuardedProblem α σ) (x : Point α) :
    Strict α (Watched α σ) (Point α) := do
  let g ← Strict.ofEval (Watched.watch (p.gradient x))
  let rows ← Strict.ofEval (Watched.watch (m.layout.rows p.toProblem x))
  let jacobian ← Watched.watch? (m.layout.slopes? p x)
  Strict.access (m.gradientAt? x g rows jacobian)

end Merit

namespace MultiplierMethod

/-- One descent of the merit, once the optimizer has taken its tolerances. -/
def descend? (minimizer : Minimizer α) (p : GuardedProblem α σ) (c : Config α) (merit : Merit α)
    (x : Point α) : Strict α σ (Inner α) := fun s ↦
  match minimizer (stopping c) with
  | .error refusal => some (.error (.ofRoutine refusal), s)
  | .ok search => do
    let (outcome, w) ← (search x).run? (merit.cost? p) (merit.gradient? p) ⟨none, s⟩
    match w.failure with
    | some fault => some (.error fault, w.problem)
    | none =>
      let (inner, s) := conclude p.toProblem x outcome w.problem
      some (.ok inner, s)

/-- One iteration. -/
def iterate? (minimizer : Minimizer α) (p : GuardedProblem α σ) (c : Config α) (l : Layout α)
    (index : Nat) (s : Iterate α) : Strict α σ (Iteration α) := do
  let inner ← descend? minimizer p c ⟨l, s.lambda, s.rho⟩ s.point
  let move ← Strict.access (inner.point.sub? s.point)
  let step := move.maxNorm
  let rows ← Strict.ofEval (l.rows p.toProblem inner.point)
  let values ← Strict.access (l.values? inner.point rows)
  let violation := l.violation values
  let objective ← Strict.ofEval (p.objective inner.point)
  Strict.ofEval
    (progress c p.toProblem (.iterated index objective violation inner.gradient s.rho step))
  let agreed ← Strict.ofEval (ExceptT.lift
    (p.intermediate (Iteration.report index s.rho objective violation step inner)))
  pure ⟨index, s, inner, rows, violation, l.updateMultipliers s.lambda values s.rho, step,
    objective, agreed⟩

/-- The iterations from `index` on, at most `fuel` of them. -/
def history? (minimizer : Minimizer α) (p : GuardedProblem α σ) (c : Config α) (l : Layout α) :
    (fuel index : Nat) → Iterate α → StateT σ Option (History α)
  | 0, _, _ => pure ⟨[], none⟩
  | fuel + 1, index, s => do
    match ← (iterate? minimizer p c l index s).run with
    | .error fault => pure ⟨[], some fault⟩
    | .ok i =>
      match i.verdict? c with
      | some _ => pure ⟨[i], none⟩
      | none =>
        let rest ← history? minimizer p c l fuel (index + 1) (i.next c)
        pure { rest with iterations := i :: rest.iterations }

/-- Where the first iteration starts. -/
def start? (p : GuardedProblem α σ) (c : Config α) (l : Layout α) (x : Point α) :
    Strict α σ (Iterate α) := do
  let x ← Strict.access (l.project? x)
  let rows ← Strict.ofEval (l.rows p.toProblem x)
  let values ← Strict.access (l.values? x rows)
  Strict.ofEval (progress c p.toProblem (.started l.n l.m l.size c.penalty))
  pure ⟨x, Point.zeros l.size, c.penalty, l.violation values, Scalar.infinity⟩

/-- The point returned, with what is reported about it. -/
def finish? (p : GuardedProblem α σ) (c : Config α) (l : Layout α) (s : Iterate α)
    (t : Termination) : Strict α σ (Point α × Summary α) := do
  let x ← Strict.access (l.project? s.point)
  let objective ← Strict.ofEval (p.objective x)
  let rows ← Strict.ofEval (l.rows p.toProblem x)
  let split ← Strict.access (l.splitMultipliers? s.lambda)
  Strict.ofEval (progress c p.toProblem (.ended t objective))
  pure (x, ⟨t.status, t.message, objective, x, rows, split.rows, split.lower, split.upper⟩)

/-- A run from a point. -/
def run? (minimizer : Minimizer α) (p : GuardedProblem α σ) (c : Config α) (l : Layout α)
    (x : Point α) : Strict α σ (Point α × Summary α) := do
  let s ← start? p c l x
  let h ← ExceptT.lift (history? minimizer p c l c.iterationLimit 1 s)
  match h.fault with
  | some fault => throw fault
  | none => finish? p c l (h.final c s) (h.termination c s)

end MultiplierMethod

/-! ## The run -/

variable {I : σ → Prop} {p : GuardedProblem α σ} {l : Layout α} {n m : ℕ}

section Operations

variable (hp : p.Shaped I n m) (hl : l.Fits n m) {x : Point α} (hx : x.length = n)

include hp hl hx

theorem GuardedProblem.Shaped.slopes :
    Strict.Safe I (l.slopes? p x) (l.slopes p.toProblem x) fun J ↦ J.HasShape m n := by
  rw [Layout.slopes?, Layout.slopes]
  split
  -- without rows nothing is asked for, and the derivative is made up in the right shape
  · rename_i hm
    refine Strict.safe_pure ⟨hm.symm.trans hl.m_eq, hl.n_eq, fun r hr ↦ ?_⟩
    exact absurd hr List.not_mem_nil
  · exact hp.jacobian x hx

theorem Merit.safe_cost (lambda : List α) (rho : α) :
    Strict.Safe (fun w : Watched α σ ↦ I w.problem) (cost? ⟨l, lambda, rho⟩ p x)
      (cost ⟨l, lambda, rho⟩ p.toProblem x) fun _ ↦ True := by
  refine (Strict.safe_ofEval (Watched.keeps_watch (hp.objective x hx))).bind fun f _ ↦ ?_
  refine (Strict.safe_ofEval (Watched.keeps_watch (hp.rows hl hx))).bind fun rows hrows ↦ ?_
  exact (Strict.safe_pure trivial).access_bind (l.values?_eq_some hl hx hrows)

theorem Merit.safe_gradient (lambda : List α) (rho : α) :
    Strict.Safe (fun w : Watched α σ ↦ I w.problem) (gradient? ⟨l, lambda, rho⟩ p x)
      (gradient ⟨l, lambda, rho⟩ p.toProblem x) fun g ↦ g.length = n := by
  refine (Strict.safe_ofEval (Watched.keeps_watch (hp.gradient x hx))).bind fun g hg ↦ ?_
  refine (Strict.safe_ofEval (Watched.keeps_watch (hp.rows hl hx))).bind fun rows hrows ↦ ?_
  refine (Watched.safe_watch (hp.slopes hl hx)).bind fun J hJ ↦ ?_
  obtain ⟨hgradient, hlength⟩ :=
    Merit.gradientAt?_eq_some (m := ⟨l, lambda, rho⟩) hl hx hg hrows hJ
  exact Strict.safe_access hgradient hlength

end Operations

namespace MultiplierMethod

variable {minimizer : Minimizer α} {c : Config α}

/-! ## Descents

A descent starts at a point of the right length and ends at one: the best point that was found, or
its start. -/

theorem keeps_conclude (hp : p.Shaped I n m) {x : Point α} (hx : x.length = n)
    {outcome : Except (Breakdown α) (Descent α)}
    (hbest : ∀ d, outcome = .ok d → ∀ b, d.best = some b → b.length = n) {s : σ} (hs : I s) :
    I (conclude p.toProblem x outcome s).2 ∧
      (conclude p.toProblem x outcome s).1.point.length = n := by
  rcases outcome with cause | d
  · exact ⟨hp.note (.descentFailed cause) s hs, hx⟩
  · have hpoint : (d.best.getD x).length = n := by
      cases hb : d.best with
      | none => exact hx
      | some b => exact hbest d rfl b hb
    rcases hstuck : d.stuck with _ | cause
    · simp only [conclude, hstuck]
      exact ⟨hs, hpoint⟩
    · simp only [conclude, hstuck]
      exact ⟨hp.note (.searchFailed cause) s hs, hpoint⟩

theorem descend?_of_search {search : Point α → Query α (Except (Breakdown α) (Descent α))}
    (hsearch : minimizer (stopping c) = .ok search) {merit : Merit α} {x : Point α} {s : σ}
    (hrun : (search x).run? (merit.cost? p) (merit.gradient? p) ⟨none, s⟩
      = some ((search x).run (merit.cost p.toProblem) (merit.gradient p.toProblem) ⟨none, s⟩)) :
    descend? minimizer p c merit x s = some (descend minimizer p.toProblem c merit x s) := by
  rw [descend_of_search hsearch]
  simp only [descend?, hsearch, hrun]
  rcases (search x).run (merit.cost p.toProblem) (merit.gradient p.toProblem) ⟨none, s⟩
    with ⟨outcome, ⟨_ | fault, s₁⟩⟩ <;> rfl

theorem history?_of_fault {index : ℕ} {start : Iterate α} {s s₁ : σ} {fault : Fault α}
    (h : iterate? minimizer p c l index start s = some (.error fault, s₁)) {fuel : ℕ} :
    history? minimizer p c l (fuel + 1) index start s = some (⟨[], some fault⟩, s₁) := by
  show (iterate? minimizer p c l index start s).bind _ = _
  rw [h]
  rfl

theorem history?_of_verdict {index : ℕ} {start : Iterate α} {i : Iteration α} {s s₁ : σ}
    {verdict : Termination} (h : iterate? minimizer p c l index start s = some (.ok i, s₁))
    (hi : i.verdict? c = some verdict) {fuel : ℕ} :
    history? minimizer p c l (fuel + 1) index start s = some (⟨[i], none⟩, s₁) := by
  show (iterate? minimizer p c l index start s).bind _ = _
  rw [h]
  simp only [Option.bind_some, hi]
  rfl

theorem history?_of_none {index : ℕ} {start : Iterate α} {i : Iteration α} {s s₁ s₂ : σ}
    {rest : History α} (h : iterate? minimizer p c l index start s = some (.ok i, s₁))
    (hi : i.verdict? c = none) {fuel : ℕ}
    (hrest : history? minimizer p c l fuel (index + 1) (i.next c) s₁ = some (rest, s₂)) :
    history? minimizer p c l (fuel + 1) index start s
      = some (⟨i :: rest.iterations, rest.fault⟩, s₂) := by
  show (iterate? minimizer p c l index start s).bind _ = _
  rw [h]
  simp only [Option.bind_some, hi]
  show (history? minimizer p c l fuel (index + 1) (i.next c) s₁).bind _ = _
  rw [hrest]
  rfl

theorem length_final {h : History α} (hh : ∀ i ∈ h.iterations, i.inner.point.length = n)
    {first : Iterate α} (hfirst : first.point.length = n) :
    (h.final c first).point.length = n := by
  rw [History.final]
  split
  · rename_i i hi
    exact hh i (List.mem_of_getLast? hi)
  · exact hfirst

section Run

variable (hp : p.Shaped I n m) (hl : l.Fits n m)

include hp hl

theorem safe_start {x : Point α} (hx : x.length = n) :
    Strict.Safe I (start? p c l x) (start p.toProblem c l x) fun s ↦ s.point.length = n := by
  obtain ⟨hproject, hlength⟩ := Layout.project?_eq_some hl hx
  refine Strict.Safe.access_bind hproject ?_
  refine (Strict.safe_ofEval (hp.rows hl hlength)).bind fun rows hrows ↦ ?_
  refine Strict.Safe.access_bind (Layout.values?_eq_some hl hlength hrows) ?_
  exact (Strict.safe_ofEval (hp.progress _)).bind fun _ _ ↦ Strict.safe_pure hlength

theorem safe_finish {s : Iterate α} (hs : s.point.length = n) (t : Termination) :
    Strict.Safe I (finish? p c l s t) (finish p.toProblem c l s t) fun _ ↦ True := by
  obtain ⟨hproject, hlength⟩ := Layout.project?_eq_some hl hs
  refine Strict.Safe.access_bind hproject ?_
  refine (Strict.safe_ofEval (hp.objective _ hlength)).bind fun objective _ ↦ ?_
  refine (Strict.safe_ofEval (hp.rows hl hlength)).bind fun rows _ ↦ ?_
  refine Strict.Safe.access_bind (Layout.splitMultipliers?_eq_some hl s.lambda) ?_
  exact (Strict.safe_ofEval (hp.progress _)).bind fun _ _ ↦ Strict.safe_pure trivial

variable (hminimizer : minimizer.KeepsLength)

include hminimizer

theorem safe_descend (lambda : List α) (rho : α) {x : Point α} (hx : x.length = n) :
    Strict.Safe I (descend? minimizer p c ⟨l, lambda, rho⟩ x)
      (descend minimizer p.toProblem c ⟨l, lambda, rho⟩ x) fun inner ↦ inner.point.length = n := by
  rcases hsearch : minimizer (stopping c) with refusal | search
  -- a minimizer that refuses its tolerances asks for no point
  · refine ⟨fun s _ ↦ ?_, fun s hs ↦ ?_⟩
    · simp only [descend?, descend, hsearch]
    · simp only [descend, hsearch]
      exact ⟨hs, fun _ h ↦ by cases h⟩
  have hkeeps := hminimizer (stopping c) search hsearch x
  rw [hx] at hkeeps
  have hsafe := fun s hs ↦ Query.safe_run (fun y hy ↦ Merit.safe_cost hp hl hy lambda rho)
    (fun y hy ↦ Merit.safe_gradient hp hl hy lambda rho) hkeeps (s := ⟨none, s⟩) hs
  refine ⟨fun s hs ↦ descend?_of_search hsearch (hsafe s hs).1, fun s hs ↦ ?_⟩
  obtain ⟨-, hkept, hbest⟩ := hsafe s hs
  rw [descend_of_search hsearch]
  rcases hrun : (search x).run (Merit.cost ⟨l, lambda, rho⟩ p.toProblem)
    (Merit.gradient ⟨l, lambda, rho⟩ p.toProblem) ⟨none, s⟩ with ⟨outcome, ⟨_ | fault, s₁⟩⟩
  all_goals
    rw [show (ExceptT.mk (search x)).run = search x from rfl, hrun] at hkept hbest
  · obtain ⟨hkept', hpoint⟩ := keeps_conclude hp hx hbest hkept
    refine ⟨hkept', fun inner hinner ↦ ?_⟩
    cases hinner
    exact hpoint
  -- a fault that the watch saw is the outcome, whatever the search made of it
  · exact ⟨hkept, fun _ h ↦ by cases h⟩

/-! ## Iterations

Between two iterations stand a point, multipliers and a penalty. Only the point is indexed into by
what comes next. -/

theorem safe_iterate (index : ℕ) {start : Iterate α} (hstart : start.point.length = n) :
    Strict.Safe I (iterate? minimizer p c l index start)
      (iterate minimizer p.toProblem c l index start) fun i ↦ i.inner.point.length = n := by
  refine (safe_descend hp hl hminimizer start.lambda start.rho hstart).bind fun inner hinner ↦ ?_
  refine Strict.Safe.access_bind (Point.sub?_eq_some (hinner.trans hstart.symm)) ?_
  refine (Strict.safe_ofEval (hp.rows hl hinner)).bind fun rows hrows ↦ ?_
  refine Strict.Safe.access_bind (Layout.values?_eq_some hl hinner hrows) ?_
  refine (Strict.safe_ofEval (hp.objective _ hinner)).bind fun objective _ ↦ ?_
  refine (Strict.safe_ofEval (hp.progress _)).bind fun _ _ ↦ ?_
  refine (Strict.safe_ofEval (Eval.keeps_lift (hp.intermediate _))).bind fun agreed _ ↦ ?_
  exact Strict.safe_pure hinner

/-- Induction on the iterations that are left; each one hands a point with `n` coordinates on. -/
theorem safe_history (fuel index : ℕ) {start : Iterate α} (hstart : start.point.length = n)
    {s : σ} (hs : I s) :
    history? minimizer p c l fuel index start s
        = some (history minimizer p.toProblem c l fuel index start s) ∧
      I (history minimizer p.toProblem c l fuel index start s).2 ∧
      ∀ i ∈ (history minimizer p.toProblem c l fuel index start s).1.iterations,
        i.inner.point.length = n := by
  induction fuel generalizing index start s with
  | zero => exact ⟨rfl, hs, fun i hi ↦ absurd hi List.not_mem_nil⟩
  | succ fuel ih =>
    have hsafe := safe_iterate hp hl hminimizer (c := c) index hstart
    have hiterate := hsafe.agrees s hs
    obtain ⟨hkept, hpoint⟩ := hsafe.keeps s hs
    rcases hi : iterate minimizer p.toProblem c l index start s with ⟨fault | i, s₁⟩
    · rw [hi] at hiterate hkept
      rw [history?_of_fault hiterate, history_of_fault hi]
      exact ⟨rfl, hkept, fun i hi ↦ absurd hi List.not_mem_nil⟩
    rw [hi] at hiterate hkept hpoint
    have hfirst : i.inner.point.length = n := hpoint i rfl
    rcases hverdict : i.verdict? c with _ | verdict
    -- only the multipliers and the penalty change before the next iteration
    · have hnext : (i.next c).point.length = n := hfirst
      obtain ⟨hrun, hkept', hrest⟩ := ih (index + 1) hnext hkept
      rw [history?_of_none hiterate hverdict hrun, history_of_none hi hverdict]
      exact ⟨rfl, hkept', List.forall_mem_cons.mpr ⟨hfirst, hrest⟩⟩
    · rw [history?_of_verdict hiterate hverdict, history_of_verdict hi hverdict]
      exact ⟨rfl, hkept, List.forall_mem_singleton.mpr hfirst⟩

/-! ## Runs -/

/-- **Over a problem of the right shapes a run reads nothing that is not there.** -/
theorem safe_run {x : Point α} (hx : x.length = n) :
    Strict.Safe I (run? minimizer p c l x) (run minimizer p.toProblem c l x) fun _ ↦ True := by
  refine (safe_start hp hl hx).bind fun s hs ↦ ?_
  have hhistory : Strict.Safe I
      (ExceptT.lift (history? minimizer p c l c.iterationLimit 1 s) : Strict α σ (History α))
      (ExceptT.lift (history minimizer p.toProblem c l c.iterationLimit 1 s))
      fun h ↦ ∀ i ∈ h.iterations, i.inner.point.length = n :=
    Strict.safe_lift fun _ ↦ safe_history hp hl hminimizer c.iterationLimit 1 hs
  refine hhistory.bind fun h hh ↦ ?_
  rcases h.fault with _ | fault
  · exact safe_finish hp hl (length_final hh hs) (h.termination c s)
  · exact ⟨fun _ _ ↦ rfl, fun _ hs ↦ ⟨hs, fun _ h ↦ nomatch h⟩⟩

end Run

end MultiplierMethod

end NonlinearProgram
