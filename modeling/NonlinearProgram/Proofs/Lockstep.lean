import NonlinearProgram.Proofs.Checked
import NonlinearProgram.Proofs.Differences
import NonlinearProgram.Proofs.Course

/-!
# Runs in lockstep

Two problems whose operations answer alike give the same run, whatever else they do with their
states. `Eval.Lockstep` relates two computations by a relation of their states: from related states
they come to related states, and they are at fault alike or answer alike. The relation passes
through every sequence, and so from the operations of two problems (`Problem.Lockstep`) through
merits, descents, iterations and histories to whole runs, and on to requests that differ only in
what their models do (`Request.lockstep_runChecked`).

An optimizer sees a problem only through its answers. So two runs in lockstep ask for the same
points, and nothing is assumed of the optimizer.
-/

namespace NonlinearProgram

variable {α σ τ β β' γ γ' : Type}

/-- Outcomes that are at fault alike, or whose answers are related. -/
inductive Agree {ε : Type} (Q : β → γ → Prop) : Except ε β → Except ε γ → Prop
  | fault (fault : ε) : Agree Q (.error fault) (.error fault)
  | answer {b : β} {c : γ} (related : Q b c) : Agree Q (.ok b) (.ok c)

theorem Agree.refl {ε : Type} (outcome : Except ε β) : Agree Eq outcome outcome := by
  cases outcome with
  | error fault => exact .fault fault
  | ok b => exact .answer rfl

theorem Agree.eq {ε : Type} {outcome outcome' : Except ε β} (h : Agree Eq outcome outcome') :
    outcome = outcome' := by
  cases h with
  | fault fault => rfl
  | answer related => rw [related]

theorem Agree.mono {ε : Type} {Q Q' : β → γ → Prop} {x : Except ε β} {y : Except ε γ}
    (h : Agree Q x y) (hQ : ∀ b c, Q b c → Q' b c) : Agree Q' x y := by
  cases h with
  | fault fault => exact .fault fault
  | answer related => exact .answer (hQ _ _ related)

theorem Agree.bind {ε : Type} {Q : β → γ → Prop} {S : β' → γ' → Prop} {x : Except ε β}
    {y : Except ε γ} {f : β → Except ε β'} {g : γ → Except ε γ'} (h : Agree Q x y)
    (hfg : ∀ b c, Q b c → Agree S (f b) (g c)) : Agree S (x >>= f) (y >>= g) := by
  cases h with
  | fault fault => exact .fault fault
  | answer related => exact hfg _ _ related

/-! ## Computations

The relation of the states is a parameter, and so is that of the answers. A sequence in lockstep is
proved from its parts; where they only differ in what is counted the parts are the same term twice,
and the rules below go through the term without naming its states. -/

namespace Eval

/-- Two computations that can be run side by side. -/
def Lockstep (R : σ → τ → Prop) (Q : β → γ → Prop) (act : Eval α σ β) (act' : Eval α τ γ) : Prop :=
  ∀ s t, R s t → R (act s).2 (act' t).2 ∧ Agree Q (act s).1 (act' t).1

variable {R : σ → τ → Prop} {Q : β → γ → Prop}

theorem lockstep_pure {b : β} {c : γ} (h : Q b c) :
    Lockstep R Q (pure b : Eval α σ β) (pure c) := fun _ _ hR ↦ ⟨hR, .answer h⟩

theorem lockstep_throw (fault : Fault α) :
    Lockstep R Q (throw fault : Eval α σ β) (throw fault) := fun _ _ hR ↦ ⟨hR, .fault fault⟩

theorem lockstep_ofExcept {outcome : Except (Fault α) β} {outcome' : Except (Fault α) γ}
    (h : Agree Q outcome outcome') :
    Lockstep R Q (ofExcept outcome : Eval α σ β) (ofExcept outcome') := fun _ _ hR ↦ ⟨hR, h⟩

theorem lockstep_lift {act : StateM σ β} {act' : StateM τ γ}
    (h : ∀ s t, R s t → R (act s).2 (act' t).2 ∧ Q (act s).1 (act' t).1) :
    Lockstep R Q (ExceptT.lift act : Eval α σ β) (ExceptT.lift act') :=
  fun s t hR ↦ ⟨(h s t hR).1, .answer (h s t hR).2⟩

theorem lockstep_of_const {act : Eval α σ β} {act' : Eval α τ β}
    (h : ∀ s t, R s t → ∃ b, act s = (.ok b, s) ∧ act' t = (.ok b, t)) :
    Lockstep R Eq act act' := by
  intro s t hR
  obtain ⟨b, hs, ht⟩ := h s t hR
  rw [hs, ht]
  exact ⟨hR, .answer rfl⟩

theorem lockstep_modify {f : σ → σ} {f' : τ → τ} (h : ∀ s t, R s t → R (f s) (f' t)) :
    Lockstep R Eq (modify f : Eval α σ Unit) (modify f') := fun s t hR ↦ ⟨h s t hR, .answer rfl⟩

theorem lockstep_get : Lockstep R R (get : Eval α σ σ) get := fun _ _ hR ↦ ⟨hR, .answer hR⟩

theorem Lockstep.bind {S : β' → γ' → Prop} {act : Eval α σ β} {act' : Eval α τ γ}
    {f : β → Eval α σ β'} {f' : γ → Eval α τ γ'} (h : Lockstep R Q act act')
    (hf : ∀ b c, Q b c → Lockstep R S (f b) (f' c)) : Lockstep R S (act >>= f) (act' >>= f') := by
  intro s t hR
  obtain ⟨hstates, hanswers⟩ := h s t hR
  rcases hact : act s with ⟨outcome, s₁⟩
  rcases hact' : act' t with ⟨outcome', t₁⟩
  rw [hact, hact'] at hstates hanswers
  cases hanswers with
  | fault fault =>
    rw [bind_of_error hact, bind_of_error hact']
    exact ⟨hstates, .fault fault⟩
  | answer related =>
    rw [bind_of_ok hact, bind_of_ok hact']
    exact hf _ _ related s₁ t₁ hstates

theorem Lockstep.bindEq {S : β' → γ' → Prop} {act : Eval α σ β} {act' : Eval α τ β}
    {f : β → Eval α σ β'} {f' : β → Eval α τ γ'} (h : Lockstep R Eq act act')
    (hf : ∀ b, Lockstep R S (f b) (f' b)) : Lockstep R S (act >>= f) (act' >>= f') :=
  h.bind fun b _ hb ↦ hb ▸ hf b

theorem Lockstep.mono {Q' : β → γ → Prop} {act : Eval α σ β} {act' : Eval α τ γ}
    (h : Lockstep R Q act act') (hQ : ∀ b c, Q b c → Q' b c) : Lockstep R Q' act act' :=
  fun s t hR ↦ ⟨(h s t hR).1, (h s t hR).2.mono hQ⟩

theorem lockstep_mapM {ι : Type} {f : ι → Eval α σ β} {f' : ι → Eval α τ β} {xs : List ι}
    (h : ∀ x ∈ xs, Lockstep R Eq (f x) (f' x)) : Lockstep R Eq (xs.mapM f) (xs.mapM f') := by
  induction xs with
  | nil => exact lockstep_pure rfl
  | cons x xs ih =>
    rw [List.forall_mem_cons] at h
    rw [List.mapM_cons, List.mapM_cons]
    exact h.1.bindEq fun b ↦ (ih h.2).bindEq fun bs ↦ lockstep_pure rfl

/-- A computation in lockstep with itself, from states and to answers of which something holds. -/
theorem Lockstep.keeps {I : σ → Prop} {P : β → Prop} {act : Eval α σ β}
    (h : Lockstep (fun s t ↦ s = t ∧ I s) (fun b c ↦ b = c ∧ P b) act act) : Keeps I act P := by
  intro s hs
  obtain ⟨⟨-, hkept⟩, hanswers⟩ := h s s ⟨rfl, hs⟩
  refine ⟨hkept, fun b hb ↦ ?_⟩
  rw [hb] at hanswers
  cases hanswers with
  | answer related => exact related.2

end Eval

/-! ## Differences -/

namespace Forward

variable [Scalar α] {R : σ → τ → Prop}

theorem lockstep_gradient {f : Point α → Eval α σ α} {f' : Point α → Eval α τ α}
    (h : ∀ x, Eval.Lockstep R Eq (f x) (f' x)) (x : Point α) (step : Step α) :
    Eval.Lockstep R Eq (gradient f x step) (gradient f' x step) := by
  rw [gradient_eq, gradient_eq]
  exact (Eval.lockstep_mapM fun p _ ↦ h p).bindEq fun values ↦ Eval.lockstep_pure rfl

theorem lockstep_jacobian {c : Point α → Eval α σ (Point α)} {c' : Point α → Eval α τ (Point α)}
    (h : ∀ x, Eval.Lockstep R Eq (c x) (c' x)) (x : Point α) (step : Step α) :
    Eval.Lockstep R Eq (jacobian c x step) (jacobian c' x step) := by
  rw [jacobian_eq_fixed, jacobian_eq_fixed, fixedJacobian_eq, fixedJacobian_eq]
  refine (h x).bindEq fun start ↦ ?_
  refine (Eval.lockstep_mapM fun p _ ↦ ?_).bindEq fun columns ↦ Eval.lockstep_pure rfl
  refine (h p).bindEq fun values ↦ ?_
  exact (Eval.lockstep_ofExcept (Agree.refl _)).bindEq fun _ ↦ Eval.lockstep_pure rfl

end Forward

/-! ## Watched evaluations and queries -/

/-- States of problems under watch, with the same failure kept. -/
def Watched.Both (R : σ → τ → Prop) (w : Watched α σ) (w' : Watched α τ) : Prop :=
  w.failure = w'.failure ∧ R w.problem w'.problem

section Queries

variable {R : σ → τ → Prop}

theorem Watched.lockstep_watch {act : Eval α σ β} {act' : Eval α τ β}
    (h : Eval.Lockstep R Eq act act') :
    Eval.Lockstep (Watched.Both R) Eq (watch act) (watch act') := by
  intro w w' hw
  obtain ⟨hstates, hanswers⟩ := h w.problem w'.problem hw.2
  rcases hact : act w.problem with ⟨outcome, s⟩
  rcases hact' : act' w'.problem with ⟨outcome', t⟩
  rw [hact, hact'] at hstates hanswers
  simp only [watch, hact, hact']
  cases hanswers with
  | fault fault => exact ⟨⟨congrArg (· <|> some fault) hw.1, hstates⟩, .fault fault⟩
  | answer related => exact ⟨⟨hw.1, hstates⟩, .answer related⟩

/-- Answers that agree lead a query along the same branch. Induction on the query. -/
theorem Query.lockstep_run {costs : Point α → Eval α σ α} {costs' : Point α → Eval α τ α}
    {gradients : Point α → Eval α σ (Point α)} {gradients' : Point α → Eval α τ (Point α)}
    (hcosts : ∀ x, Eval.Lockstep R Eq (costs x) (costs' x))
    (hgradients : ∀ x, Eval.Lockstep R Eq (gradients x) (gradients' x)) (q : Query α β) {s : σ}
    {t : τ} (hR : R s t) :
    R (q.run costs gradients s).2 (q.run costs' gradients' t).2 ∧
      (q.run costs gradients s).1 = (q.run costs' gradients' t).1 := by
  induction q generalizing s t with
  | pure result => exact ⟨hR, rfl⟩
  | cost x next ih =>
    obtain ⟨hstates, hanswers⟩ := hcosts x s t hR
    rcases hcost : costs x s with ⟨answer, s₁⟩
    rcases hcost' : costs' x t with ⟨answer', t₁⟩
    rw [hcost, hcost'] at hstates hanswers
    cases hanswers.eq
    simp only [run, hcost, hcost']
    exact ih answer hstates
  | gradient x next ih =>
    obtain ⟨hstates, hanswers⟩ := hgradients x s t hR
    rcases hgradient : gradients x s with ⟨answer, s₁⟩
    rcases hgradient' : gradients' x t with ⟨answer', t₁⟩
    rw [hgradient, hgradient'] at hstates hanswers
    cases hanswers.eq
    simp only [run, hgradient, hgradient']
    exact ih answer hstates

end Queries

/-! ## Problems

What a run knows of a problem is its four operations, the reports and the remarks. With these in
lockstep every other computation of the method is in lockstep for the reason that it is the same
computation. -/

/-- The operations of two problems in lockstep. -/
structure Problem.Lockstep (R : σ → τ → Prop) (p : Problem α σ) (p' : Problem α τ) : Prop where
  objective : ∀ x, Eval.Lockstep R Eq (p.objective x) (p'.objective x)
  gradient : ∀ x, Eval.Lockstep R Eq (p.gradient x) (p'.gradient x)
  constraints : ∀ x, Eval.Lockstep R Eq (p.constraints x) (p'.constraints x)
  jacobian : ∀ x, Eval.Lockstep R Eq (p.jacobian x) (p'.jacobian x)
  intermediate : ∀ report s t, R s t →
    R (p.intermediate report s).2 (p'.intermediate report t).2 ∧
      (p.intermediate report s).1 = (p'.intermediate report t).1
  note : ∀ remark s t, R s t → R (p.note remark s).2 (p'.note remark t).2

section Problems

variable {R : σ → τ → Prop} {p : Problem α σ} {p' : Problem α τ} (h : p.Lockstep R p')

include h

theorem Problem.Lockstep.rows (l : Layout α) (x : Point α) :
    Eval.Lockstep R Eq (l.rows p x) (l.rows p' x) := by
  rw [Layout.rows, Layout.rows]
  split
  · exact Eval.lockstep_pure rfl
  · exact h.constraints x

theorem Problem.Lockstep.progress (c : Config α) (r : Remark α) :
    Eval.Lockstep R Eq (MultiplierMethod.progress c p r) (MultiplierMethod.progress c p' r) := by
  rw [MultiplierMethod.progress, MultiplierMethod.progress]
  split
  · exact Eval.lockstep_lift fun s t hR ↦ ⟨h.note r s t hR, rfl⟩
  · exact Eval.lockstep_pure rfl

variable [Scalar α]

theorem Problem.Lockstep.slopes (l : Layout α) (x : Point α) :
    Eval.Lockstep R Eq (l.slopes p x) (l.slopes p' x) := by
  rw [Layout.slopes, Layout.slopes]
  split
  · exact Eval.lockstep_pure rfl
  · exact h.jacobian x

/-! ## Merits -/

theorem Merit.lockstep_cost (m : Merit α) (x : Point α) :
    Eval.Lockstep (Watched.Both R) Eq (m.cost p x) (m.cost p' x) := by
  refine (Watched.lockstep_watch (h.objective x)).bindEq fun f ↦ ?_
  refine (Watched.lockstep_watch (h.rows m.layout x)).bindEq fun rows ↦ ?_
  exact Eval.lockstep_pure rfl

theorem Merit.lockstep_gradient (m : Merit α) (x : Point α) :
    Eval.Lockstep (Watched.Both R) Eq (m.gradient p x) (m.gradient p' x) := by
  refine (Watched.lockstep_watch (h.gradient x)).bindEq fun g ↦ ?_
  refine (Watched.lockstep_watch (h.rows m.layout x)).bindEq fun rows ↦ ?_
  refine (Watched.lockstep_watch (h.slopes m.layout x)).bindEq fun J ↦ ?_
  exact Eval.lockstep_pure rfl

/-! ## Runs -/

namespace MultiplierMethod

theorem lockstep_conclude (x : Point α) (outcome : Except (Breakdown α) (Descent α)) {s : σ}
    {t : τ} (hR : R s t) :
    R (conclude p x outcome s).2 (conclude p' x outcome t).2 ∧
      (conclude p x outcome s).1 = (conclude p' x outcome t).1 := by
  rcases outcome with cause | d
  · exact ⟨h.note (.descentFailed cause) s t hR, rfl⟩
  · rcases hstuck : d.stuck with _ | cause
    · simp only [conclude, hstuck]
      exact ⟨hR, rfl⟩
    · simp only [conclude, hstuck]
      exact ⟨h.note (.searchFailed cause) s t hR, rfl⟩

variable (minimizer : Minimizer α) (c : Config α) (l : Layout α)

theorem lockstep_descend (merit : Merit α) (x : Point α) :
    Eval.Lockstep R Eq (descend minimizer p c merit x) (descend minimizer p' c merit x) := by
  intro s t hR
  rcases hsearch : minimizer (stopping c) with refusal | search
  · simp only [descend, hsearch]
    exact ⟨hR, Agree.refl _⟩
  have hboth : Watched.Both R (⟨none, s⟩ : Watched α σ) ⟨none, t⟩ := ⟨rfl, hR⟩
  have hrun :=
    Query.lockstep_run (merit.lockstep_cost h) (merit.lockstep_gradient h) (search x) hboth
  rw [descend_of_search hsearch, descend_of_search hsearch]
  generalize (search x).run (merit.cost p) (merit.gradient p) ⟨none, s⟩ = ran at hrun
  generalize (search x).run (merit.cost p') (merit.gradient p') ⟨none, t⟩ = ran' at hrun
  obtain ⟨outcome, failure, s₁⟩ := ran
  obtain ⟨outcome', failure', t₁⟩ := ran'
  -- told the same, the optimizer came to the same end, and the same failure was kept
  obtain ⟨⟨⟨⟩, hstates⟩, ⟨⟩⟩ := hrun
  rcases failure with _ | fault
  · obtain ⟨hstates', hinner⟩ := lockstep_conclude h x outcome hstates
    exact ⟨hstates', .answer hinner⟩
  · exact ⟨hstates, .fault fault⟩

theorem lockstep_iterate (index : Nat) (start : Iterate α) :
    Eval.Lockstep R Eq (iterate minimizer p c l index start)
      (iterate minimizer p' c l index start) := by
  refine (lockstep_descend h minimizer c _ _).bindEq fun inner ↦ ?_
  refine (h.rows l inner.point).bindEq fun rows ↦ ?_
  refine (h.objective inner.point).bindEq fun objective ↦ ?_
  refine (h.progress c _).bindEq fun _ ↦ ?_
  refine (Eval.lockstep_lift (h.intermediate _)).bindEq fun agreed ↦ ?_
  exact Eval.lockstep_pure rfl

theorem lockstep_history (fuel index : Nat) (start : Iterate α) {s : σ} {t : τ} (hR : R s t) :
    R (history minimizer p c l fuel index start s).2
        (history minimizer p' c l fuel index start t).2 ∧
      (history minimizer p c l fuel index start s).1
        = (history minimizer p' c l fuel index start t).1 := by
  induction fuel generalizing index start s t with
  | zero => exact ⟨hR, rfl⟩
  | succ fuel ih =>
    obtain ⟨hstates, hanswers⟩ := lockstep_iterate h minimizer c l index start s t hR
    rcases hi : iterate minimizer p c l index start s with ⟨outcome, s₁⟩
    rcases hi' : iterate minimizer p' c l index start t with ⟨outcome', t₁⟩
    rw [hi, hi'] at hstates hanswers
    cases hanswers.eq
    rcases outcome with fault | i
    · rw [history_of_fault hi, history_of_fault hi']
      exact ⟨hstates, rfl⟩
    rcases hverdict : i.verdict? c with _ | verdict
    · obtain ⟨hrest, hhistory⟩ := ih (index + 1) (i.next c) hstates
      rw [history_of_none hi hverdict, history_of_none hi' hverdict]
      exact ⟨hrest, congrArg
        (fun rest : History α ↦ (⟨i :: rest.iterations, rest.fault⟩ : History α)) hhistory⟩
    · rw [history_of_verdict hi hverdict, history_of_verdict hi' hverdict]
      exact ⟨hstates, rfl⟩

theorem lockstep_start (x : Point α) :
    Eval.Lockstep R Eq (start p c l x) (start p' c l x) := by
  refine (h.rows l _).bindEq fun rows ↦ ?_
  refine (h.progress c _).bindEq fun _ ↦ ?_
  exact Eval.lockstep_pure rfl

theorem lockstep_finish (s : Iterate α) (verdict : Termination) :
    Eval.Lockstep R Eq (finish p c l s verdict) (finish p' c l s verdict) := by
  refine (h.objective _).bindEq fun objective ↦ ?_
  refine (h.rows l _).bindEq fun rows ↦ ?_
  refine (h.progress c _).bindEq fun _ ↦ ?_
  exact Eval.lockstep_pure rfl

/-- Problems in lockstep have runs in lockstep. -/
theorem lockstep_run (x : Point α) :
    Eval.Lockstep R Eq (run minimizer p c l x) (run minimizer p' c l x) := by
  refine (lockstep_start h c l x).bindEq fun s ↦ ?_
  refine (Eval.lockstep_lift fun _ _ ↦
    lockstep_history h minimizer c l c.iterationLimit 1 s).bindEq fun history ↦ ?_
  rcases history.fault with _ | fault
  · exact lockstep_finish h c l _ _
  · exact Eval.lockstep_throw fault

end MultiplierMethod

end Problems

/-! ## Solvers

A solver holds its problem together with a configuration and a layout. Creating it and configuring
it read only the latter, so that two solvers stay in lockstep while they are set up. -/

section Settings

variable {R : σ → τ → Prop} {b : Backend α σ} {b' : Backend α τ} {Q : b.Solver → b'.Solver → Prop}
  {note : Remark α → StateM σ Unit} {note' : Remark α → StateM τ Unit}
  (hnote : ∀ r s t, R s t → R (note r s).2 (note' r t).2)
  (hconfigure : ∀ solver solver' name value s t, Q solver solver' → R s t →
    R (b.configure solver name value s).2 (b'.configure solver' name value t).2 ∧
    Agree Q (b.configure solver name value s).1 (b'.configure solver' name value t).1)

include hnote hconfigure

/-- Induction on the settings that are left. -/
theorem Backend.lockstep_configureEach (entries : List (String × Setting α)) {solver : b.Solver}
    {solver' : b'.Solver} (hsolver : Q solver solver') {s : σ} {t : τ} (hR : R s t) :
    R (b.configureEach note entries solver s).2 (b'.configureEach note' entries solver' t).2 ∧
      Q (b.configureEach note entries solver s).1.1 (b'.configureEach note' entries solver' t).1.1 ∧
      (b.configureEach note entries solver s).1.2
        = (b'.configureEach note' entries solver' t).1.2 := by
  induction entries generalizing solver solver' s t with
  | nil => exact ⟨hR, hsolver, rfl⟩
  | cons entry entries ih =>
    obtain ⟨name, value⟩ := entry
    have hnoted := hnote (.applying name value) s t hR
    obtain ⟨hstates, hnext⟩ := hconfigure solver solver' name value _ _ hsolver hnoted
    rw [configureEach, configureEach, Eval.state_bind_apply, Eval.state_bind_apply,
      Eval.state_bind_apply, Eval.state_bind_apply]
    rcases hresult : b.configure solver name value (note (.applying name value) s).2
      with ⟨outcome, s₁⟩
    rcases hresult' : b'.configure solver' name value (note' (.applying name value) t).2
      with ⟨outcome', t₁⟩
    rw [hresult, hresult'] at hstates hnext
    cases hnext with
    | fault reason => exact ⟨hstates, hsolver, rfl⟩
    | answer related => exact ih related hstates

theorem Backend.lockstep_configureAll (settings : Settings α) {solver : b.Solver}
    {solver' : b'.Solver} (hsolver : Q solver solver') :
    Eval.Lockstep R Q (b.configureAll note settings solver)
      (b'.configureAll note' settings solver') := by
  intro s t hR
  have hall := lockstep_configureEach hnote hconfigure settings.entries hsolver hR
  rw [configureAll_apply, configureAll_apply]
  generalize b.configureEach note settings.entries solver s = ran at hall
  generalize b'.configureEach note' settings.entries solver' t = ran' at hall
  obtain ⟨⟨last, outcome⟩, s₁⟩ := ran
  obtain ⟨⟨last', outcome'⟩, t₁⟩ := ran'
  obtain ⟨hstates, hlast, ⟨⟩⟩ := hall
  cases outcome with
  | error fault => exact ⟨hstates, .fault fault⟩
  | ok _ => exact ⟨hstates, .answer hlast⟩

end Settings

variable [Scalar α]

namespace MultiplierMethod

/-- Solvers that differ only in their problems, and whose runs from a point are in lockstep. -/
structure Solver.Lockstep (R : σ → τ → Prop) (minimizer : Minimizer α) (x : Point α)
    (s : Solver α σ) (s' : Solver α τ) : Prop where
  layout : s.layout = s'.layout
  config : s.config = s'.config
  run : ∀ config, Eval.Lockstep R Eq (run minimizer s.problem config s.layout x)
    (run minimizer s'.problem config s'.layout x)

variable {R : σ → τ → Prop} {minimizer : Minimizer α} {x : Point α}

theorem lockstep_create {p : Problem α σ} {p' : Problem α τ} (n m : Nat) (b : Bounds α)
    (hnote : ∀ remark s t, R s t → R (p.note remark s).2 (p'.note remark t).2)
    (hrun : ∀ config, Eval.Lockstep R Eq (run minimizer p config (.ofBounds n b) x)
      (run minimizer p' config (.ofBounds n b) x)) (base : Config α) :
    Eval.Lockstep R (Solver.Lockstep R minimizer x) (create base n m p b)
      (create base n m p' b) := by
  refine (Eval.lockstep_ofExcept (Agree.refl _)).bindEq fun _ ↦ ?_
  refine (Eval.lockstep_ofExcept (Agree.refl _)).bindEq fun _ ↦ ?_
  refine (Eval.lockstep_ofExcept (Agree.refl _)).bindEq fun _ ↦ ?_
  refine (Eval.lockstep_ofExcept (Agree.refl _)).bindEq fun _ ↦ ?_
  refine (Eval.lockstep_lift fun s t hR ↦ ⟨hnote _ s t hR, rfl⟩).bindEq fun _ ↦ ?_
  exact Eval.lockstep_pure ⟨rfl, rfl, hrun⟩

theorem Solver.Lockstep.configure {s : Solver α σ} {s' : Solver α τ}
    (h : s.Lockstep R minimizer x s') (name : String) (value : Setting α) :
    Agree (Solver.Lockstep R minimizer x) (s.configure name value) (s'.configure name value) := by
  rw [Solver.configure, Solver.configure, ← h.config]
  cases s.config.set name value with
  | error reason => exact .fault reason
  | ok c => exact .answer ⟨h.layout, rfl, h.run⟩

theorem lockstep_configure {note : Remark α → StateM σ Unit} {note' : Remark α → StateM τ Unit}
    (hnote : ∀ r s t, R s t → R (note r s).2 (note' r t).2) (base : Config α)
    (settings : Settings α) {s : Solver α σ} {s' : Solver α τ} (h : s.Lockstep R minimizer x s') :
    Eval.Lockstep R (Solver.Lockstep R minimizer x)
      ((backendWith minimizer base).configureAll note settings s)
      ((backendWith minimizer base).configureAll note' settings s') := by
  refine Backend.lockstep_configureAll (b := backendWith minimizer base) hnote ?_ settings h
  exact fun _ _ name value _ _ h hR ↦ ⟨hR, Solver.Lockstep.configure h name value⟩

theorem lockstep_solve {s : Solver α σ} {s' : Solver α τ} (h : s.Lockstep R minimizer x s') :
    Eval.Lockstep R Eq (s.solve minimizer x) (s'.solve minimizer x) := by
  rw [Solver.solve, Solver.solve, ← h.config, ← h.layout]
  refine (Eval.lockstep_ofExcept (Agree.refl _)).bindEq fun _ ↦ ?_
  have hrun := h.run s.config
  rwa [← h.layout] at hrun

end MultiplierMethod

/-! ## Requests

Results are compared in all that they say. Whether the counters agree as well is a matter of the
relation of the states in which the runs end. -/

/-- Results that say the same, beside their counters. -/
structure Result.Alike (K : Counters → Counters → Prop) (a b : Result α) : Prop where
  solution : a.solution = b.solution
  success : a.success = b.success
  status : a.status = b.status
  message : a.message = b.message
  objective : a.objective = b.objective
  summary : a.summary = b.summary
  counters : K a.counters b.counters

omit [Scalar α] in
/-- Results that also count the same are the same. -/
theorem Result.Alike.eq {a b : Result α} (h : a.Alike Eq b) : a = b := by
  cases a
  cases b
  obtain ⟨rfl, rfl, rfl, rfl, rfl, rfl, rfl⟩ := h
  rfl

namespace Request

open MultiplierMethod

/-- Requests with the same start, bounds and settings. -/
structure Alongside (r : Request α σ) (c : Checked α σ) (r' : Request α τ) (c' : Checked α τ) :
    Prop where
  start : r.start = r'.start
  settings : r.settings = r'.settings
  second : r.second.supplied = r'.second.supplied
  tolerance : c.tolerance = c'.tolerance
  lower : c.lower = c'.lower
  upper : c.upper = c'.upper

variable {R : Session α σ → Session α τ → Prop} {r : Request α σ} {c : Checked α σ}
  {r' : Request α τ} {c' : Checked α τ} {K : Counters → Counters → Prop}
  (h : r.Alongside c r' c')
  (hremarks : ∀ s t rs rs', R s t → R { s with remarks := rs } { t with remarks := rs' })
  (hcounters : ∀ s t, R s t → K s.counters t.counters)

include h hremarks hcounters

theorem lockstep_settle {rows rows' : RowBounds α}
    (hrows : rows.lower = rows'.lower ∧ rows.upper = rows'.upper) {minimizer : Minimizer α}
    (hrun : ∀ config, Eval.Lockstep R Eq
      (run minimizer c.model.problem config
        (.ofBounds r.start.size ⟨c.lower, c.upper, rows.lower, rows.upper⟩) r.start.toPoint)
      (run minimizer c'.model.problem config
        (.ofBounds r.start.size ⟨c.lower, c.upper, rows.lower, rows.upper⟩) r.start.toPoint))
    (base : Config α) :
    Eval.Lockstep R (Result.Alike K) (r.settle c (backendWith minimizer base) rows)
      (r'.settle c' (backendWith minimizer base) rows') := by
  have hremark : ∀ remark : Remark α, Eval.Lockstep R Eq
      (Session.remark remark : Eval α (Session α σ) Unit) (Session.remark remark) :=
    fun remark ↦ Eval.lockstep_lift fun s t hR ↦ ⟨hremarks s t _ _ hR, rfl⟩
  have hnote : ∀ (remark : Remark α) s t, R s t →
      R (Session.note remark s).2 (Session.note remark t).2 :=
    fun _ s t hR ↦ hremarks s t _ _ hR
  have hsettings : r.solverSettings c.tolerance = r'.solverSettings c'.tolerance := by
    rw [solverSettings, solverSettings, h.settings, h.second, h.tolerance]
  -- with the bounds of rows equal both solvers are made from the same data
  have hsize : rows.size = rows'.size := congrArg List.length hrows.1
  rw [settle, settle, ← h.start, ← h.lower, ← h.upper, ← hrows.1, ← hrows.2, ← hsize]
  refine (lockstep_create _ _ _ hnote hrun base).bind fun solver solver' hsolver ↦ ?_
  have hnames : Eval.Lockstep R Eq (ExceptT.lift r.noteNames : Eval α (Session α σ) Unit)
      (ExceptT.lift r'.noteNames) := Eval.lockstep_modify fun s t hR ↦ hremarks s t _ _ hR
  simp only [useSolver, ← hsettings, ← h.start]
  refine hnames.bindEq fun _ ↦ ?_
  refine (lockstep_configure hnote base _ hsolver).bind fun solver solver' hsolver ↦ ?_
  refine (hremark _).bindEq fun _ ↦ ?_
  refine (lockstep_solve hsolver).bindEq fun outcome ↦ ?_
  refine (hremark _).bindEq fun _ ↦ ?_
  refine Eval.lockstep_get.bind fun s t hR ↦ ?_
  exact Eval.lockstep_pure ⟨rfl, rfl, rfl, rfl, rfl, rfl, hcounters s t hR⟩

/-- Requests whose models are in lockstep have the same results, up to the counters of their
sessions. -/
theorem lockstep_runChecked
    (hprobe : Eval.Lockstep R (fun b b' ↦ b.lower = b'.lower ∧ b.upper = b'.upper)
      (c.model.probe r.start.toPoint) (c'.model.probe r'.start.toPoint))
    (hproblem : c.model.problem.Lockstep R c'.model.problem) (minimizer : Minimizer α)
    (base : Config α) :
    Eval.Lockstep R (Result.Alike K) (r.runChecked c (backendWith minimizer base))
      (r'.runChecked c' (backendWith minimizer base)) := by
  rw [runChecked_eq, runChecked_eq]
  exact hprobe.bind fun rows rows' hrows ↦ lockstep_settle h hremarks hcounters hrows
    (fun config ↦ lockstep_run hproblem minimizer config _ _) base

end Request

end NonlinearProgram
