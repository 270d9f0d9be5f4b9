import NonlinearProgram.Proofs.Account
import NonlinearProgram.Proofs.Lockstep
import NonlinearProgram.Proofs.Prepared
import NonlinearProgram.Proofs.Recorded
import NonlinearProgram.Proofs.Sequence

/-!
# Reports of iterations

A problem hears of an iteration once, when everything of it has been evaluated: what a run leaves in
the record of a problem is, for each iteration, the calls of its descent, that of the rows, that of
the objective, and the report (`Iteration.Logged`). Around these blocks there are calls and no
reports, also where a run breaks off. So the reports of a run are its iterations, and their numbers
count them, at every moment of the run (`MultiplierMethod.Protocol`).

The descents, the start and the finish never report because they are the same for a problem that
cannot hear of iterations (`Problem.silenced`).

A model counts iterations by the number in the last report. So the count in a result is the number
of iterations of the run.
-/

namespace NonlinearProgram

open MultiplierMethod

variable {α σ β : Type}

/-! ## Events that are reports -/

/-- The report of an event, with the answer to it. -/
def Event.report? : Event α → Option (Report α × Bool)
  | .called _ _ _ => none
  | .reported report agreed => some (report, agreed)

/-- The reports among events, with the answers to them. -/
def reports (events : List (Event α)) : List (Report α × Bool) := events.filterMap Event.report?

@[simp] theorem reports_nil : reports ([] : List (Event α)) = [] := rfl

@[simp] theorem reports_append (before after : List (Event α)) :
    reports (before ++ after) = reports before ++ reports after :=
  List.filterMap_append

@[simp] theorem reports_called (operation : Operation) (x : Point α) (fault : Option (Fault α))
    (events : List (Event α)) :
    reports (.called operation x fault :: events) = reports events := rfl

@[simp] theorem reports_reported (report : Report α) (agreed : Bool) (events : List (Event α)) :
    reports (.reported report agreed :: events) = (report, agreed) :: reports events := rfl

/-! ## Calls without reports

A problem that is silenced answers as the recorded one and never reports. Whatever a computation
does without asking for a report, it does on the silenced problem too, and there is nothing but
calls in its record. -/

namespace Recorded

/-- Between two states of a recorded problem there were calls and no reports. -/
def Quiet (r r' : Recorded α σ) : Prop :=
  ∃ calls, r'.events = r.events ++ calls ∧ reports calls = []

theorem Quiet.refl (r : Recorded α σ) : r.Quiet r := ⟨[], (List.append_nil _).symm, rfl⟩

theorem Quiet.trans {r r₁ r' : Recorded α σ} (h : r.Quiet r₁) (h' : r₁.Quiet r') :
    r.Quiet r' := by
  obtain ⟨calls, heq, hcalls⟩ := h
  obtain ⟨calls', heq', hcalls'⟩ := h'
  refine ⟨calls ++ calls', ?_, ?_⟩
  · rw [heq', heq, List.append_assoc]
  · rw [reports_append, hcalls, hcalls', List.append_nil]

theorem quiet_call (operation : Operation) (x : Point α) (act : Eval α σ β) (r : Recorded α σ) :
    r.Quiet (Recorded.call operation x act r).2 :=
  ⟨_, rfl, rfl⟩

theorem events_of_call {operation : Operation} {x : Point α} {act : Eval α σ β}
    {r r' : Recorded α σ} {b : β} (h : Recorded.call operation x act r = (.ok b, r')) :
    r'.events = r.events ++ [.called operation x none] := by
  obtain ⟨hanswer, rfl⟩ := Prod.mk.inj h
  show r.events ++ [.called operation x (Fault.ofResult? (act r.problem).1)] = _
  rw [hanswer]
  rfl

end Recorded

/-- The recorded problem, which hears of no iterations. -/
def Problem.silenced (p : Problem α σ) : Problem α (Recorded α σ) :=
  { p.recorded with intermediate := fun _ ↦ pure true }

theorem Problem.lockstep_silenced (p : Problem α σ) (r₀ : Recorded α σ) :
    p.silenced.Lockstep (fun r r' ↦ r = r' ∧ r₀.Quiet r) p.silenced := by
  have hcall : ∀ {β : Type} (operation : Operation) (x : Point α) (act : Eval α σ β),
      Eval.Lockstep (fun r r' ↦ r = r' ∧ r₀.Quiet r) Eq (Recorded.call operation x act)
        (Recorded.call operation x act) := by
    rintro β operation x act r _ ⟨rfl, hquiet⟩
    exact ⟨⟨rfl, hquiet.trans (Recorded.quiet_call operation x act r)⟩, Agree.refl _⟩
  refine ⟨fun x ↦ hcall _ x _, fun x ↦ hcall _ x _, fun x ↦ hcall _ x _, fun x ↦ hcall _ x _,
    ?_, ?_⟩
  · rintro _ r _ ⟨rfl, hquiet⟩
    exact ⟨⟨rfl, hquiet⟩, rfl⟩
  · rintro _ r _ ⟨rfl, hquiet⟩
    exact ⟨rfl, hquiet.trans ⟨[], (List.append_nil _).symm, rfl⟩⟩

/-- A problem and its record answer alike. -/
theorem Problem.lockstep_recorded (p : Problem α σ) :
    p.recorded.Lockstep (fun r s ↦ r.problem = s) p := by
  have hcall : ∀ {β : Type} (operation : Operation) (x : Point α) (act : Eval α σ β),
      Eval.Lockstep (fun (r : Recorded α σ) s ↦ r.problem = s) Eq (Recorded.call operation x act)
        act := by
    rintro β operation x act r _ rfl
    exact ⟨rfl, Agree.refl _⟩
  refine ⟨fun x ↦ hcall _ x _, fun x ↦ hcall _ x _, fun x ↦ hcall _ x _, fun x ↦ hcall _ x _,
    ?_, ?_⟩
  · rintro _ r _ rfl
    exact ⟨rfl, rfl⟩
  · rintro _ r _ rfl
    rfl

variable [Scalar α]

section Quiet

variable {minimizer : Minimizer α} {p : Problem α σ} {c : Config α} {l : Layout α}
  {r r' : Recorded α σ}

theorem quiet_descend {merit : Merit α} {x : Point α} {outcome : Except (Fault α) (Inner α)}
    (h : descend minimizer p.recorded c merit x r = (outcome, r')) : r.Quiet r' := by
  have hkept := (lockstep_descend (p.lockstep_silenced r) minimizer c merit x r r
    ⟨rfl, .refl r⟩).1.2
  rwa [show descend minimizer p.silenced c merit x r = (outcome, r') from h] at hkept

theorem quiet_start {x : Point α} {outcome : Except (Fault α) (Iterate α)}
    (h : start p.recorded c l x r = (outcome, r')) : r.Quiet r' := by
  have hkept := (lockstep_start (p.lockstep_silenced r) c l x r r ⟨rfl, .refl r⟩).1.2
  rwa [show start p.silenced c l x r = (outcome, r') from h] at hkept

theorem quiet_finish {last : Iterate α} {t : Termination}
    {outcome : Except (Fault α) (Point α × Summary α)}
    (h : finish p.recorded c l last t r = (outcome, r')) : r.Quiet r' := by
  have hkept := (lockstep_finish (p.lockstep_silenced r) c l last t r r ⟨rfl, .refl r⟩).1.2
  rwa [show finish p.silenced c l last t r = (outcome, r') from h] at hkept

omit [Scalar α] in
theorem quiet_rows {x : Point α} {outcome : Except (Fault α) (Point α)}
    (h : l.rows p.recorded x r = (outcome, r')) : r.Quiet r' := by
  have hkept := ((p.lockstep_silenced r).rows l x r r ⟨rfl, .refl r⟩).1.2
  rwa [show l.rows p.silenced x r = (outcome, r') from h] at hkept

theorem quiet_of_fault {index : ℕ} {start : Iterate α} {fault : Fault α}
    (h : iterate minimizer p.recorded c l index start r = (.error fault, r')) : r.Quiet r' := by
  rcases Eval.bind_eq_error.mp h with h | ⟨inner, r₁, hinner, h⟩
  · exact quiet_descend h
  rcases Eval.bind_eq_error.mp h with h | ⟨rows, r₂, hrows, h⟩
  · exact (quiet_descend hinner).trans (quiet_rows h)
  rcases Eval.bind_eq_error.mp h with h | ⟨objective, r₃, hobjective, h⟩
  · have hquiet := Recorded.quiet_call .objective inner.point (p.objective inner.point) r₂
    rw [show Recorded.call .objective inner.point (p.objective inner.point) r₂ = _ from h]
      at hquiet
    exact ((quiet_descend hinner).trans (quiet_rows hrows)).trans hquiet
  -- remarks and the report cannot fault
  rcases Eval.bind_eq_error.mp h with h | ⟨_, r₄, -, h⟩
  · rw [progress] at h
    split at h
    · cases h
    · cases h
  · rcases Eval.bind_eq_error.mp h with h | ⟨_, r₅, -, h⟩ <;> cases h

omit [Scalar α] in
theorem events_progress {remark : Remark α} (h : progress c p.recorded remark r = (.ok (), r')) :
    r'.events = r.events := by
  rw [progress] at h
  split at h <;> cases h <;> rfl

end Quiet

/-! ## Iterations in the record

An iteration that has come to its end has left a block of events. The block is a function of the
record of the iteration, up to the calls of the descent, of which only the operations are known. -/

/-- The call of the rows at a point, where there are any. -/
def Layout.rowsCalls (l : Layout α) (x : Point α) : List (Event α) :=
  if l.m = 0 then [] else [.called .constraints x none]

/-- What the problem hears of an iteration: its number, the objective and the violation where its
descent ended, and the inverse of the penalty of the descent. -/
def Iteration.told (i : Iteration α) : Report α :=
  Iteration.report i.index i.start.rho i.objective i.violation i.step i.inner

section Record

variable {minimizer : Minimizer α} {p : Problem α σ} {c : Config α} {l : Layout α}
  {r r' : Recorded α σ}

/-- The events of an iteration: the calls of its descent, with none but these, then that of the rows
and that of the objective at the point where the descent ended, and the report. -/
def Iteration.Logged (minimizer : Minimizer α) (p : Problem α σ) (c : Config α) (l : Layout α)
    (i : Iteration α) (events : List (Event α)) : Prop :=
  ∃ (r r₁ r' : Recorded α σ) (calls : List (Event α)),
    i.Performed minimizer p.recorded c l r r' ∧
    descend minimizer p.recorded c ⟨l, i.start.lambda, i.start.rho⟩ i.start.point r
      = (.ok i.inner, r₁) ∧
    r₁.events = r.events ++ calls ∧ reports calls = [] ∧
    events = calls ++ l.rowsCalls i.inner.point ++
      [.called .objective i.inner.point none, .reported i.told i.agreed] ∧
    r'.events = r.events ++ events

omit [Scalar α] in
theorem events_rows {x rows : Point α} (h : l.rows p.recorded x r = (.ok rows, r')) :
    r'.events = r.events ++ l.rowsCalls x := by
  rw [Layout.rows] at h
  rw [Layout.rowsCalls]
  split at h
  · rw [if_pos ‹l.m = 0›, List.append_nil]
    cases h
    rfl
  · rw [if_neg ‹¬l.m = 0›]
    exact Recorded.events_of_call h

omit [Scalar α] in
@[simp] theorem reports_rowsCalls (l : Layout α) (x : Point α) : reports (l.rowsCalls x) = [] := by
  rw [Layout.rowsCalls]
  split <;> rfl

theorem Iteration.Performed.logged {i : Iteration α}
    (h : i.Performed minimizer p.recorded c l r r') :
    ∃ events, i.Logged minimizer p c l events ∧ r'.events = r.events ++ events := by
  obtain ⟨r₁, r₂, r₃, r₄, hinner, hrows, hobjective, hprogress, hagreed⟩ := h.asked
  obtain ⟨calls, hcalls, hquiet⟩ := quiet_descend hinner
  have hr' : r'.events = r₄.events ++ [.reported i.told i.agreed] := by
    obtain ⟨hanswer, rfl⟩ := Prod.mk.inj hagreed
    rw [← hanswer]
    rfl
  have hevents : r'.events = r.events ++ (calls ++ l.rowsCalls i.inner.point ++
      [.called .objective i.inner.point none, .reported i.told i.agreed]) := by
    rw [hr', events_progress hprogress, Recorded.events_of_call hobjective, events_rows hrows,
      hcalls]
    simp only [List.append_assoc, List.cons_append, List.nil_append]
  exact ⟨_, ⟨r, r₁, r', calls, h, hinner, hcalls, hquiet, rfl, hevents⟩, hevents⟩

theorem Iteration.Logged.reports_eq {i : Iteration α} {events : List (Event α)}
    (h : i.Logged minimizer p c l events) : reports events = [(i.told, i.agreed)] := by
  obtain ⟨_, _, _, calls, -, -, -, hquiet, rfl, -⟩ := h
  simp [hquiet]

theorem Course.logged {index : ℕ} {start : Iterate α} {its : List (Iteration α)}
    (h : Course minimizer p.recorded c l index start r its r') :
    ∃ blocks, List.Forall₂ (Iteration.Logged minimizer p c l) its blocks ∧
      r'.events = r.events ++ blocks.flatten := by
  induction h with
  | done => exact ⟨[], .nil, (List.append_nil _).symm⟩
  | step performed _ ih =>
    obtain ⟨block, hblock, hfirst⟩ := performed.logged
    obtain ⟨blocks, hblocks, hrest⟩ := ih
    exact ⟨block :: blocks, .cons hblock hblocks, by
      rw [hrest, hfirst, List.flatten_cons, List.append_assoc]⟩

theorem reports_flatten {its : List (Iteration α)} {blocks : List (List (Event α))}
    (h : List.Forall₂ (Iteration.Logged minimizer p c l) its blocks) :
    reports blocks.flatten = its.map fun i ↦ (i.told, i.agreed) := by
  induction h with
  | nil => rfl
  | cons hblock _ ih =>
    rw [List.flatten_cons, reports_append, hblock.reports_eq, ih]
    rfl

theorem Course.map_index {τ : Type} {q : Problem α τ} {s s' : τ} {index : ℕ} {start : Iterate α}
    {its : List (Iteration α)} (h : Course minimizer q c l index start s its s') :
    its.map Iteration.index = List.range' index its.length := by
  induction h with
  | done => rfl
  | step _ _ ih => rw [List.map_cons, ih, List.length_cons, List.range'_succ]

end Record

/-! ## Runs in the record

The history of a run gives its blocks, one for each iteration. A fault can come before the first
block or behind the last one; in both cases what is there besides the blocks are calls. -/

namespace MultiplierMethod

/-- What a problem hears of a run. -/
structure Protocol (minimizer : Minimizer α) (p : Problem α σ) (c : Config α) (l : Layout α)
    (starts : List (Iterate α)) (its : List (Iteration α)) (events : List (Event α)) : Prop where
  /-- Around the events of the iterations there are no reports. -/
  log : ∃ opening blocks closing, events = opening ++ blocks.flatten ++ closing ∧
    reports opening = [] ∧ List.Forall₂ (Iteration.Logged minimizer p c l) its blocks ∧
    reports closing = []
  reports_eq : reports events = its.map fun i ↦ (i.told, i.agreed)
  /-- The report of an iteration has its number, the objective and the violation where its descent
  ended, and the inverse of the penalty of the descent. -/
  carried : ∀ (k : ℕ) (i : Iteration α), its[k]? = some i → ∃ report,
    (reports events)[k]? = some (report, i.agreed) ∧ report.iteration = k + 1 ∧
      report.objective = i.objective ∧ report.violation = i.violation ∧
      report.barrier = 1.0 / i.start.rho
  /-- At every moment the reports are numbered from one on. -/
  numbered : ∀ front, front <+: events →
    ((reports front).map fun e ↦ e.1.iteration) = List.range' 1 (reports front).length
  /-- Without agreement there is no further descent. -/
  stopped : ∀ (k : ℕ) (i : Iteration α), its[k]? = some i → i.agreed = false →
    starts.length = k + 1 ∧ its.length = k + 1

variable {minimizer : Minimizer α} {p : Problem α σ} {c : Config α} {l : Layout α} {x : Point α}

/-- With a report to which the answer was no, the run is over. -/
theorem Protocol.lengths_of_disagreed {starts : List (Iterate α)} {its : List (Iteration α)}
    {events : List (Event α)} (h : Protocol minimizer p c l starts its events) (k : ℕ)
    (hk : ((reports events).map Prod.snd)[k]? = some false) :
    starts.length = k + 1 ∧ its.length = k + 1 := by
  rw [h.reports_eq, List.map_map, List.getElem?_map, Option.map_eq_some_iff] at hk
  obtain ⟨i, hi, hagreed⟩ := hk
  exact h.stopped k i hi hagreed

namespace Account

variable {r r' : Recorded α σ} {starts : List (Iterate α)} {its : List (Iteration α)}
  {outcome : Except (Fault α) (Point α × Summary α)}

/-- However a run on a recorded problem ends, there are its iterations in the record, and around
them no reports. -/
theorem log (h : Account minimizer p.recorded c l x r starts its outcome r') :
    ∃ opening blocks closing, r'.events = r.events ++ (opening ++ blocks.flatten ++ closing) ∧
      reports opening = [] ∧ List.Forall₂ (Iteration.Logged minimizer p c l) its blocks ∧
      reports closing = [] := by
  have hparts : ∀ {first : Iterate α} {r₁ r₂ : Recorded α σ},
      start p.recorded c l x r = (.ok first, r₁) →
      Course minimizer p.recorded c l 1 first r₁ its r₂ → r₂.Quiet r' →
      ∃ opening blocks closing, r'.events = r.events ++ (opening ++ blocks.flatten ++ closing) ∧
        reports opening = [] ∧ List.Forall₂ (Iteration.Logged minimizer p c l) its blocks ∧
        reports closing = [] := by
    intro first r₁ r₂ started course hquiet
    obtain ⟨opening, hopening, hreports⟩ := quiet_start started
    obtain ⟨blocks, hblocks, hcourse⟩ := course.logged
    obtain ⟨closing, hclosing, hreports'⟩ := hquiet
    refine ⟨opening, blocks, closing, ?_, hreports, hblocks, hreports'⟩
    simp only [hclosing, hcourse, hopening, List.append_assoc]
  cases h with
  | unstarted faulted =>
    obtain ⟨opening, hopening, hreports⟩ := quiet_start faulted
    exact ⟨opening, [], [], by simpa using hopening, hreports, .nil, rfl⟩
  | broken started course _ _ faulted => exact hparts started course (quiet_of_fault faulted)
  | finished started course _ finished => exact hparts started course (quiet_finish finished)

theorem protocol {s : σ}
    (h : Account minimizer p.recorded c l x ⟨[], s⟩ starts its outcome r') :
    Protocol minimizer p c l starts its r'.events := by
  obtain ⟨opening, blocks, closing, hevents, hopening, hblocks, hclosing⟩ := h.log
  rw [List.nil_append] at hevents
  have hreports : reports r'.events = its.map fun i ↦ (i.told, i.agreed) := by
    rw [hevents, reports_append, reports_append, hopening, hclosing, reports_flatten hblocks,
      List.nil_append, List.append_nil]
  have hindex : its.map Iteration.index = List.range' 1 its.length := by
    rcases h.course with rfl | ⟨_, _, _, -, hcourse⟩
    · rfl
    · exact hcourse.map_index
  refine ⟨⟨opening, blocks, closing, hevents, hopening, hblocks, hclosing⟩, hreports, ?_, ?_, ?_⟩
  · intro k i hi
    have hnumber := congrArg (fun numbers ↦ numbers[k]?) hindex
    simp only [List.getElem?_map, hi, Option.map_some,
      List.getElem?_range' (List.getElem?_eq_some_iff.mp hi).1, Option.some_inj] at hnumber
    refine ⟨i.told, ?_, ?_, rfl, rfl, rfl⟩
    · rw [hreports, List.getElem?_map, hi, Option.map_some]
    · show i.index = k + 1
      omega
  · intro front hfront
    have hall : ((reports r'.events).map fun e ↦ e.1.iteration) = List.range' 1 its.length := by
      rw [hreports, List.map_map, ← hindex]
      rfl
    -- the reports of a prefix are the first ones of all
    obtain ⟨rest, hrest⟩ := (hfront.filterMap Event.report?).map fun e ↦ e.1.iteration
    obtain ⟨k, -, hk, -⟩ := List.range'_eq_append_iff.mp (hall.symm.trans hrest.symm)
    have hlength := congrArg List.length hk
    rw [List.length_map, List.length_range'] at hlength
    rw [reports, hk, hlength]
  · intro k i hi hagreed
    exact h.length_of_stops hi (Or.inl hagreed)

end Account

end MultiplierMethod

/-! ## Iterations of a request

The session of a model takes the number of an iteration from its report and keeps it through all
other operations. Numbers begin at one and go up by one, so the number that is kept at the end is
that of the last iteration and counts them all; without an iteration it is still zero. -/

namespace Model

variable {minimizer : Minimizer α} {m : Model α σ} {c : Config α} {l : Layout α} {k : ℕ}
  {s s' : Session α σ}

theorem keeps_iterations_rows (x : Point α) :
    Eval.Keeps (fun s : Session α σ ↦ s.iterations = k) (l.rows m.problem x) fun _ ↦ True := by
  rw [Layout.rows]
  split
  · exact Eval.keeps_pure trivial
  · exact keeps_stackedValues (Session.steady_iterations m.n k).user x

theorem keeps_iterations_progress (remark : Remark α) :
    Eval.Keeps (fun s : Session α σ ↦ s.iterations = k) (progress c m.problem remark)
      fun _ ↦ True := by
  rw [progress]
  split
  · exact Eval.keeps_lift fun s hs ↦ (Session.steady_iterations m.n k).remarks s _ hs
  · exact Eval.keeps_pure trivial

theorem keeps_iterations_start (x : Point α) :
    Eval.Keeps (fun s : Session α σ ↦ s.iterations = k) (start m.problem c l x) fun _ ↦ True :=
  (keeps_iterations_rows _).bind fun _ _ ↦ (keeps_iterations_progress _).bind fun _ _ ↦
    Eval.keeps_pure trivial

theorem keeps_iterations_finish (last : Iterate α) (t : Termination) :
    Eval.Keeps (fun s : Session α σ ↦ s.iterations = k) (finish m.problem c l last t)
      fun _ ↦ True :=
  (keeps_objective (Session.steady_iterations m.n k) _).bind fun _ _ ↦
    (keeps_iterations_rows _).bind fun _ _ ↦ (keeps_iterations_progress _).bind fun _ _ ↦
    Eval.keeps_pure trivial

theorem keeps_iterations_probe (x : Point α) :
    Eval.Keeps (fun s : Session α σ ↦ s.iterations = k) (m.probe x) fun _ ↦ True :=
  (Session.keeps_call (Session.steady_iterations m.n k).user _).bind fun _ _ ↦
    (Eval.keeps_modify fun _ ht ↦ ht).bind fun _ _ ↦ Eval.keeps_pure trivial

/-- A model takes note of the number of an iteration, and agrees to go on. -/
theorem iterations_of_performed {i : Iteration α}
    (h : i.Performed minimizer m.problem c l s s') : i.agreed = true ∧ s'.iterations = i.index := by
  obtain ⟨_, _, _, s₄, -, -, -, -, hagreed⟩ := h.asked
  obtain ⟨hanswer, rfl⟩ := Prod.mk.inj hagreed
  exact ⟨hanswer.symm, rfl⟩

/-- Induction on the course; before an iteration the number of the last one is one less than its
own. -/
theorem iterations_of_course {index : ℕ} {start : Iterate α} {its : List (Iteration α)}
    (h : Course minimizer m.problem c l index start s its s') (hs : s.iterations + 1 = index) :
    s'.iterations + 1 = index + its.length ∧ ∀ i ∈ its, i.agreed = true := by
  induction h with
  | done => exact ⟨hs, fun _ hi ↦ absurd hi List.not_mem_nil⟩
  | step performed _ ih =>
    obtain ⟨hagreed, hindex⟩ := iterations_of_performed performed
    obtain ⟨hlength, hits⟩ := ih (congrArg (· + 1) hindex)
    refine ⟨?_, List.forall_mem_cons.mpr ⟨hagreed, hits⟩⟩
    rw [hlength, List.length_cons]
    omega

end Model

/-- What the count of iterations in a result says about the run that the result is of. -/
structure Request.Counts (minimizer : Minimizer α) (base : Config α) (r : Request α σ) (u : σ)
    (result : Result α) : Prop where
  /-- The run is that of the method on the problem of the checked request, with the rows that were
  probed, in the session that the probe left, with the base configuration under the settings of the
  request. The result is put together from what it returned and what was counted. -/
  account : ∃ (checked : Request.Checked α σ) (rows : RowBounds α) (s s' : Session α σ)
    (remarks : Array (Remark α)) (starts : List (Iterate α)) (its : List (Iteration α))
    (x : Point α) (summary : Summary α),
    r.Checks checked ∧
    checked.model.probe r.start.toPoint { user := u } = (.ok rows, s) ∧
    Account minimizer checked.model.problem
      (base.overlay (r.solverSettings checked.tolerance).get?) (checked.layout rows)
      r.start.toPoint { s with remarks := remarks } starts its (.ok (x, summary)) s' ∧
    result = .assemble r.start x summary s'.counters ∧
    result.status = summary.status ∧
    result.counters.iterations = its.length ∧
    its.length ≤ (base.overlay (r.solverSettings checked.tolerance).get?).iterationLimit ∧
    (result.status = -1 →
      its.length = (base.overlay (r.solverSettings checked.tolerance).get?).iterationLimit)
  status_ne : result.status ≠ 5

theorem Request.counts_of_minimize {minimizer : Minimizer α} {base : Config α} {r : Request α σ}
    {u : σ} {result : Result α} {s' : Session α σ}
    (h : r.minimize (backendWith minimizer base) { user := u } = (.ok result, s')) :
    r.Counts minimizer base u result := by
  obtain ⟨c, rows, s₁, remarks, x, summary, s₂, hchecks, hprobe, hrun, rfl⟩ :=
    minimize_eq_ok_overlay h
  obtain ⟨starts, its, haccount⟩ := exists_account minimizer c.model.problem
    (base.overlay (r.solverSettings c.tolerance).get?) (c.layout rows) r.start.toPoint
    { s₁ with remarks := remarks }
  rw [hrun] at haccount
  obtain ⟨first, s₃, s₄, hstart, hcourse, -, hlength, hcertificate, hfinish⟩ := haccount.finish_eq
  have hprobed : s₁.iterations = 0 := (Model.keeps_iterations_probe _).of_eq hprobe rfl
  have hstarted : s₃.iterations = 0 := (Model.keeps_iterations_start _).of_eq hstart hprobed
  obtain ⟨hcount, hagreed⟩ := Model.iterations_of_course hcourse (congrArg (· + 1) hstarted)
  have hiterations : s₂.iterations = its.length :=
    (Model.keeps_iterations_finish _ _).of_eq hfinish (by omega)
  refine ⟨⟨c, rows, s₁, s₂, remarks, starts, its, x, summary, hchecks, hprobe, haccount, rfl, rfl,
    hiterations, hlength,
    fun hstatus ↦ (hcertificate.iterationLimit.mp hstatus).1.length_eq⟩, fun hstatus ↦ ?_⟩
  obtain ⟨i, hi, hdisagreed⟩ := hcertificate.userStop.mp hstatus
  exact Bool.false_ne_true (hdisagreed.symm.trans (hagreed i (List.mem_of_getLast? hi)))

namespace MultiplierMethod

/-- **Iterations are reported one by one.** Whatever the problem and the optimizer do, a problem
hears of each iteration once, in order, when all of it has been evaluated, and after it has not
agreed to go on there is no further descent. So a result of a request counts the iterations of its
run. -/
theorem reports_run (minimizer : Minimizer α) :
    (∀ {σ : Type} (p : Problem α σ) (c : Config α) (l : Layout α) (x : Point α) (s : σ),
      let ran := run minimizer p.recorded c l x ⟨[], s⟩
      run minimizer p c l x s = (ran.1, ran.2.problem) ∧
        ∃ starts its, Account minimizer p.recorded c l x ⟨[], s⟩ starts its ran.1 ran.2 ∧
          Protocol minimizer p c l starts its ran.2.events) ∧
      ∀ {σ : Type} (base : Config α) (r : Request α σ) (u : σ) (result : Result α)
        (s' : Session α σ),
        r.minimize (backendWith minimizer base) { user := u } = (.ok result, s') →
          r.Counts minimizer base u result := by
  constructor
  · intro σ p c l x s ran
    obtain ⟨starts, its, haccount⟩ := exists_account minimizer p.recorded c l x ⟨[], s⟩
    obtain ⟨hproblem, hanswers⟩ := lockstep_run p.lockstep_recorded minimizer c l x ⟨[], s⟩ s rfl
    exact ⟨Prod.ext hanswers.eq.symm hproblem.symm, starts, its, haccount, haccount.protocol⟩
  · intro σ base r u result s' h
    exact Request.counts_of_minimize h

/-- A parabola with a row that has to be one, which does not agree to go on after two iterations. -/
def reluctant : Problem Float Unit where
  objective x := pure (Scalar.square (x.coord 0))
  gradient x := pure [2.0 * x.coord 0]
  constraints x := pure [x.coord 0]
  jacobian _ := pure ⟨1, [[1.0]]⟩
  intermediate report := pure (decide (report.iteration < 2))
  note _ := pure ()

/-- A parabola of which one iteration is allowed. -/
def brief : Request Float Unit where
  objective := .scalar fun x _ ↦ pure (Scalar.square (x.coord 0 - 1.0))
  start := .scalar 0.0
  settings := Table.insert ∅ "maxiter" (.int 1)
  step := .auto

theorem reports_run_reluctant :
    let ran := run LimitedMemory.minimizer reluctant.recorded Config.standard
      (.ofBounds 1 ⟨none, none, [1.0], [1.0]⟩) [0.0] ⟨[], ()⟩
    (∃ starts its, starts.length = 2 ∧ its.length = 2 ∧
      Protocol LimitedMemory.minimizer reluctant Config.standard
        (.ofBounds 1 ⟨none, none, [1.0], [1.0]⟩) starts its ran.2.events) ∧
      ((reports ran.2.events).map fun e ↦ (e.1.iteration, e.2)) = [(1, true), (2, false)] ∧
      ∃ result s', brief.minimize (backendWith LimitedMemory.minimizer .standard) { user := () }
          = (.ok result, s') ∧
        brief.Counts LimitedMemory.minimizer .standard () result ∧ result.status = -1 ∧
        result.counters.iterations = 1 := by
  refine ⟨?_, by decide +kernel, ?_⟩
  · obtain ⟨-, starts, its, -, hprotocol⟩ := (reports_run LimitedMemory.minimizer).1 reluctant
      Config.standard (.ofBounds 1 ⟨none, none, [1.0], [1.0]⟩) [0.0] ()
    obtain ⟨hstarts, hits⟩ := hprotocol.lengths_of_disagreed 1 (by decide +kernel)
    exact ⟨starts, its, hstarts, hits, hprotocol⟩
  · have hok : ((brief.minimize (backendWith LimitedMemory.minimizer .standard)
        { user := () }).1.toOption.map fun r ↦ (r.status, r.counters.iterations))
          = some (-1, 1) := by
      decide +kernel
    rcases hresult : brief.minimize (backendWith LimitedMemory.minimizer .standard)
      { user := () } with ⟨outcome, s'⟩
    rw [hresult] at hok
    obtain ⟨result, rfl, hcounts⟩ := Except.map_toOption_eq_some.mp hok
    obtain ⟨hstatus, hcount⟩ := Prod.mk.inj hcounts
    exact ⟨result, s', rfl, (reports_run LimitedMemory.minimizer).2 _ brief () result s' hresult,
      hstatus, hcount⟩

end MultiplierMethod

end NonlinearProgram
