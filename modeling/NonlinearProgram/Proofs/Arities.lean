import NonlinearProgram.Proofs.Stacking

/-!
# Probes after the first one

The first successful probe fixes how many values each constraint has. Values and derivatives are
held to these numbers; a later probe is not. It counts the values anew, and where a constraint has
come to have another number of them it returns bounds for as many rows as it found, while the
session goes on to know the number of rows of the first probe.

What a later probe does is said in `Model.Reprobed`, beside what a request for the values at the
same point does: the two make the same calls, and the probe returns the bounds that were fixed
exactly where that request answers. Where it does not, that request names the constraint that
changed (`Model.reprobed_serve`).
-/

namespace NonlinearProgram

variable {α σ β : Type}

/-! ## Values against their numbers

A probe and a request for values make the same calls. What the request adds is the comparison with
the numbers that are fixed, after each constraint, so it is the probe with one more reason to stop.
-/

namespace Placed

theorem values_eq_counted (p : Placed α σ) : p.values
    = Forward.counted (fun x ↦ Session.callUser (p.constraint.eval x)) p.index p.arity := rfl

theorem values_of_ok {p : Placed α σ} {x : Point α} {s : Session α σ} {values : Point α} {u : σ}
    (h : p.constraint.eval x s.user = (.ok values, u)) :
    p.values x s = if values.length = p.arity then (.ok values, { s with user := u })
      else (.error (.arityChanged p.index p.arity values.length), { s with user := u }) :=
  Forward.counted_of_ok (c := fun x ↦ Session.callUser (p.constraint.eval x))
    (Session.callUser_of_eq h)

/-- Constraints that answered in a row pass as values if they did so with the right numbers, and
otherwise the first one with another number is at fault. Induction on the row. -/
theorem values_of_answered {x : Point α} {ps : List (Placed α σ)} {s : Session α σ}
    {values : List (Point α)} {u : σ}
    (h : Eval.Answered (fun p : Placed α σ ↦ p.constraint.eval x) ps s.user values u) :
    (values.map List.length = ps.map arity ∧
      Eval.Answered (fun p : Placed α σ ↦ p.values x) ps s values { s with user := u }) ∨
    ∃ before p after k s', ps = before ++ p :: after ∧
      (values.map List.length).take before.length = before.map arity ∧
      (values.map List.length)[before.length]? = some k ∧ k ≠ p.arity ∧
      ps.mapM (fun p : Placed α σ ↦ p.values x) s
        = (.error (.arityChanged p.index p.arity k), s') := by
  generalize hs : s.user = u₀ at h
  induction h generalizing s with
  | nil u₀ =>
    subst hs
    exact Or.inl ⟨rfl, .nil s⟩
  | @cons p ps v values u₀ u₁ u₂ first _ ih =>
    subst hs
    have hfirst := values_of_ok first
    by_cases hlength : v.length = p.arity
    · rw [if_pos hlength] at hfirst
      rcases ih (s := { s with user := u₁ }) rfl with ⟨hmap, hrest⟩ |
        ⟨before, q, after, k, s', rfl, htake, hk, hne, hrest⟩
      · refine Or.inl ⟨?_, .cons hfirst hrest⟩
        rw [List.map_cons, List.map_cons, hmap, hlength]
      · refine Or.inr ⟨p :: before, q, after, k, s', rfl, ?_, hk, hne, ?_⟩
        · rw [List.length_cons, List.map_cons, List.take_succ_cons, htake, hlength, List.map_cons]
        · rw [List.mapM_cons, Eval.bind_of_ok hfirst, Eval.bind_of_error hrest]
    · rw [if_neg hlength] at hfirst
      refine Or.inr ⟨[], p, ps, v.length, { s with user := u₁ }, rfl, rfl, rfl, hlength, ?_⟩
      rw [List.mapM_cons, Eval.bind_of_error hfirst]

end Placed

namespace Model

variable {m : Model α σ} {a : List ℕ}

/-! ## The calls of a probe

The constraints of a model as parts, each at its index and with the arity that is given for it; the
arities of the session enter only here. -/

theorem map_constraint_placed (m : Model α σ) (a : List ℕ) :
    (m.placed a).map Placed.constraint = m.constraints := by
  rw [placed, List.map_map]
  exact List.zipIdx_map_fst 0 m.constraints

theorem placed_split {before after : List (Placed α σ)} {p : Placed α σ}
    (h : m.placed a = before ++ p :: after) :
    p.index = before.length ∧ p.arity = a.getD before.length 0 ∧
      before.map Placed.arity = ((m.placed a).map Placed.arity).take before.length := by
  have hp : (m.placed a)[before.length]? = some p := by
    rw [h, List.getElem?_append_right (Nat.le_refl _), Nat.sub_self, List.getElem?_cons_zero]
  rw [placed, List.getElem?_map, List.getElem?_zipIdx, Nat.zero_add] at hp
  obtain ⟨q, hq, rfl⟩ := Option.map_eq_some_iff.mp hp
  obtain ⟨c, -, rfl⟩ := Option.map_eq_some_iff.mp hq
  refine ⟨rfl, rfl, ?_⟩
  rw [h, ← List.map_take, List.take_left]

theorem probe_apply [Scalar α] (m : Model α σ) (x : Point α) (s : Session α σ) :
    m.probe x s = match m.constraints.mapM (fun c ↦ c.eval x) s.user with
      | (.ok values, u) =>
        let b : RowBounds α :=
          .ofArities (m.constraints.map Constraint.kind) (values.map List.length)
        (.ok b, { s with user := u, arities := s.arities <|> some b.arities })
      | (.error fault, u) => (.error fault, { s with user := u }) := by
  rw [probe, Constraint.probe_eq]
  rcases hrow : m.constraints.mapM (fun c ↦ c.eval x) s.user with ⟨fault | values, u⟩
  · rw [Eval.bind_of_error (Session.callUser_of_eq (Eval.bind_of_error hrow _))]
  · rw [Eval.bind_of_ok (Session.callUser_of_eq (Eval.bind_of_ok hrow _))]
    rfl

theorem stackedValues_of_probe (harities : a.length = m.constraints.length) {s : Session α σ}
    (hs : s.arities = some a) {x : Point α} {values : List (Point α)} {u : σ}
    (h : Eval.Answered (fun c : Constraint α σ ↦ c.eval x) m.constraints s.user values u) :
    (values.map List.length = a ∧
      m.stackedValues x s = (.ok values.flatten, { s with user := u })) ∨
    ∃ i expected found, a[i]? = some expected ∧ (values.map List.length)[i]? = some found ∧
      found ≠ expected ∧ (values.map List.length).take i = a.take i ∧
      (m.stackedValues x s).1 = .error (.arityChanged i expected found) := by
  have hstacks := stacks_values harities hs x
  have hplaced : Eval.Answered (fun p : Placed α σ ↦ p.constraint.eval x) (m.placed a) s.user
      values u := by
    rw [← map_constraint_placed m a, ← Eval.mapM_eq_ok, List.mapM_map] at h
    exact Eval.mapM_eq_ok.mp h
  rcases Placed.values_of_answered hplaced with ⟨hmap, hvalues⟩ |
    ⟨before, p, after, k, s', hsplit, htake, hk, hne, hfault⟩
  · rw [placed_map_arity harities] at hmap
    exact Or.inl ⟨hmap, (hstacks.ok _ _).mpr ⟨values, hvalues, rfl⟩⟩
  · obtain ⟨hindex, harity, hbefore⟩ := placed_split hsplit
    rw [placed_map_arity harities] at hbefore
    have hlt : before.length < a.length := by
      rw [← placed_map_arity harities, List.length_map, hsplit, List.length_append,
        List.length_cons]
      omega
    rw [List.getD_eq_getElem _ _ hlt] at harity
    rw [hindex, harity] at hfault
    refine Or.inr ⟨before.length, a[before.length], k, List.getElem?_eq_getElem hlt, hk,
      harity ▸ hne, htake.trans hbefore, ?_⟩
    obtain ⟨front, q, back, parts, s₁, hq, hfront, hlast⟩ := Eval.mapM_eq_error.mp hfault
    rw [(hstacks.error _ _).mpr ⟨front, q, back, parts, s₁, hq, hfront, hlast⟩]

variable [Scalar α]

/-! ## A probe behind another one

The three results of a further probe, namely a fault, the bounds of before and other bounds,
correspond to three results of a request for values at the same point: the same fault, an answer,
and the fault that names the constraint that changed. -/

/-- What a probe comes to in a session whose arities are fixed. -/
structure Reprobed (m : Model α σ) (a : List ℕ) (x : Point α) (s : Session α σ) : Prop where
  /-- The session knows the number of all rows, and keeps it. -/
  fixed : s.rowCount? = some a.sum ∧ (m.probe x s).2.rowCount? = some a.sum
  /-- The probe is at fault only where a constraint is, and with its fault. -/
  faults : ∀ fault s', m.probe x s = (.error fault, s') ↔ ∃ before c after values u u',
    m.constraints = before ++ c :: after ∧
      Eval.Answered (fun c : Constraint α σ ↦ c.eval x) before s.user values u ∧
      c.eval x u = (.error fault, u') ∧ s' = { s with user := u' }
  /-- Otherwise it counts the values of each constraint. -/
  counts : ∀ b s', m.probe x s = (.ok b, s') ↔ ∃ values u,
    Eval.Answered (fun c : Constraint α σ ↦ c.eval x) m.constraints s.user values u ∧
      b = .ofArities (m.constraints.map Constraint.kind) (values.map List.length) ∧
      s' = { s with user := u }
  /-- There are bounds for the rows that the session knows exactly where the same calls pass as
  values. -/
  kept : ∀ b s', m.probe x s = (.ok b, s') →
    ((b.arities = a ∧ b.lower.length = a.sum ∧ b.upper.length = a.sum) ↔
      ∃ rows, m.stackedValues x s = (.ok rows, s'))
  /-- Where they do not, the first constraint with another number of values is at fault there. -/
  changed : ∀ b s', m.probe x s = (.ok b, s') → b.arities ≠ a → ∃ i expected found,
    a[i]? = some expected ∧ b.arities[i]? = some found ∧ found ≠ expected ∧
      b.arities.take i = a.take i ∧
      (m.stackedValues x s).1 = .error (.arityChanged i expected found)

theorem probe_of_arities {s : Session α σ} (hs : s.arities = some a) (x : Point α) :
    m.probe x s = match m.constraints.mapM (fun c ↦ c.eval x) s.user with
      | (.ok values, u) => (.ok (.ofArities (m.constraints.map Constraint.kind)
          (values.map List.length)), { s with user := u })
      | (.error fault, u) => (.error fault, { s with user := u }) := by
  rw [probe_apply, hs]
  rfl

theorem probe_eq_error_iff {s s' : Session α σ} (hs : s.arities = some a) {x : Point α}
    {fault : Fault α} :
    m.probe x s = (.error fault, s') ↔ ∃ before c after values u u',
      m.constraints = before ++ c :: after ∧
        Eval.Answered (fun c : Constraint α σ ↦ c.eval x) before s.user values u ∧
        c.eval x u = (.error fault, u') ∧ s' = { s with user := u' } := by
  rw [probe_of_arities hs]
  constructor
  · intro h
    rcases hrow : m.constraints.mapM (fun c ↦ c.eval x) s.user with ⟨fault' | values, u'⟩
    · rw [hrow] at h
      cases h
      obtain ⟨before, c, after, values, u, hsplit, hbefore, hc⟩ := Eval.mapM_eq_error.mp hrow
      exact ⟨before, c, after, values, u, u', hsplit, hbefore, hc, rfl⟩
    · rw [hrow] at h
      cases h
  · rintro ⟨before, c, after, values, u, u', hsplit, hbefore, hc, rfl⟩
    rw [Eval.mapM_eq_error.mpr ⟨before, c, after, values, u, hsplit, hbefore, hc⟩]

theorem probe_eq_ok_iff {s s' : Session α σ} (hs : s.arities = some a) {x : Point α}
    {b : RowBounds α} :
    m.probe x s = (.ok b, s') ↔ ∃ values u,
      Eval.Answered (fun c : Constraint α σ ↦ c.eval x) m.constraints s.user values u ∧
        b = .ofArities (m.constraints.map Constraint.kind) (values.map List.length) ∧
        s' = { s with user := u } := by
  rw [probe_of_arities hs]
  constructor
  · intro h
    rcases hrow : m.constraints.mapM (fun c ↦ c.eval x) s.user with ⟨fault | values, u⟩
    · rw [hrow] at h
      cases h
    · rw [hrow] at h
      cases h
      exact ⟨values, u, Eval.mapM_eq_ok.mp hrow, rfl, rfl⟩
  · rintro ⟨values, u, hanswered, rfl, rfl⟩
    rw [Eval.mapM_eq_ok.mpr hanswered]

theorem reprobed_of_arities (harities : a.length = m.constraints.length) {s : Session α σ}
    (hs : s.arities = some a) (x : Point α) : m.Reprobed a x s where
  fixed := by
    have hkept := (keeps_probe (Session.stable_arities m.n a) x s hs).1
    rw [Session.rowCount?, Session.rowCount?, hs, hkept]
    exact ⟨rfl, rfl⟩
  faults _ _ := probe_eq_error_iff hs
  counts _ _ := probe_eq_ok_iff hs
  kept b s' h := by
    obtain ⟨values, u, hanswered, rfl, rfl⟩ := (probe_eq_ok_iff hs).mp h
    have hcount : (m.constraints.map Constraint.kind).length = (values.map List.length).length := by
      rw [List.length_map, List.length_map, hanswered.length_eq]
    obtain ⟨hlower, hupper⟩ := RowBounds.length_ofArities (α := α) hcount
    rw [hlower, hupper]
    rcases stackedValues_of_probe harities hs hanswered with ⟨hmap, hvalues⟩ |
      ⟨i, expected, found, hi, hi', hne, -, hfault⟩
    · exact iff_of_true ⟨hmap, congrArg List.sum hmap, congrArg List.sum hmap⟩ ⟨_, hvalues⟩
    · refine iff_of_false (fun hmap ↦ hne ?_) ?_
      · rw [← Option.some_inj, ← hi', ← hi, ← hmap.1]
        rfl
      · rintro ⟨rows, hrows⟩
        rw [hrows] at hfault
        cases hfault
  changed b s' h hne := by
    obtain ⟨values, u, hanswered, rfl, rfl⟩ := (probe_eq_ok_iff hs).mp h
    exact (stackedValues_of_probe harities hs hanswered).resolve_left fun hkept ↦ hne hkept.1

/-- **What a probe keeps of the first one.** Whatever is asked of a model after the first successful
probe, the session knows the number of rows that it found, and a further probe faults only where a
constraint does. It returns the bounds of these rows exactly where the constraints still have as
many values as then; where one has not, the probe answers with the bounds of other rows, while a
request for the values at the same point names that constraint. -/
theorem reprobed_serve {x₀ : Point α} {s₀ s₁ : Session α σ} {b : RowBounds α}
    (hfresh : s₀.arities = none) (hprobe : m.probe x₀ s₀ = (.ok b, s₁)) (asks : List (Ask α))
    (x : Point α) : m.Reprobed b.arities x (m.serve asks s₁) := by
  obtain ⟨-, harities, hs₁⟩ := probe_eq_ok hprobe
  rw [hfresh] at hs₁
  exact reprobed_of_arities harities
    (stable_serve (Session.stable_arities m.n b.arities) asks hs₁) x

/-- One equality row up to zero, and two beyond. -/
def widening : Model Float Unit where
  evaluator := .differences fun x _ ↦ pure (x.coord 0)
  parameters := ∅
  constraints :=
    [{ kind := .equality
       value := fun x _ ↦ pure (if 0.0 < x.coord 0 then [x.coord 0, 1.0] else [x.coord 0]) }]
  step := .auto
  n := 1

theorem reprobed_serve_widening : ∃ b s₁,
    widening.probe [-1.0] { user := () } = (.ok b, s₁) ∧ b.arities = [1] ∧
      widening.Reprobed b.arities [-2.0] (widening.serve [.constraints [-1.0]] s₁) ∧
      (widening.probe [-2.0] (widening.serve [.constraints [-1.0]] s₁)).1.toOption.map
        RowBounds.arities = some [1] :=
  ⟨_, _, rfl, rfl, reprobed_serve rfl rfl [.constraints [-1.0]] [-2.0], rfl⟩

/-- A probe beyond zero, after one before it, answers with the bounds of two rows, of which the
session knows one; a request for the values there is at fault. -/
theorem probe_widening : ∃ b s₁ b' s₂,
    widening.probe [-1.0] { user := () } = (.ok b, s₁) ∧
      widening.probe [1.0] (widening.serve [] s₁) = (.ok b', s₂) ∧
      b.arities = [1] ∧ b'.arities = [2] ∧ b'.lower.length = 2 ∧ s₂.rowCount? = some 1 ∧
      (widening.stackedValues [1.0] s₁).1 = .error (.arityChanged 0 1 2) :=
  ⟨_, _, _, _, rfl, rfl, rfl, rfl, rfl, rfl, rfl⟩

end Model

end NonlinearProgram
