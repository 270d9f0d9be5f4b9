import NonlinearProgram.Proofs.Lockstep

/-!
# Traced computations

What a computation calls, and in which order, cannot be seen in its outcome alone. `Traced.call`
writes a computation down when it is started, in a trace beside the state. The trace is invisible
to what is called: without it the computation is the one that was traced (`Traced.lockstep_call`).

Calls in a row stop at the first fault. So the trace of a row is an initial segment of it, and the
whole of it where every call answered.
-/

namespace NonlinearProgram

variable {α σ β γ ε ι : Type}

/-- A state beside the trace of what has happened. -/
structure Traced (ε σ : Type) where
  trace : List ε
  state : σ

namespace Traced

/-- One more thing has happened. -/
def emit (e : ε) (t : Traced ε σ) : Traced ε σ := { t with trace := t.trace ++ [e] }

/-- A computation that is written down when it is started. -/
def call (e : ε) (act : Eval α σ β) : Eval α (Traced ε σ) β := fun t ↦
  let (answer, s) := act t.state
  (answer, { t.emit e with state := s })

theorem call_apply (e : ε) (act : Eval α σ β) (t : Traced ε σ) :
    call e act t = ((act t.state).1, ⟨t.trace ++ [e], (act t.state).2⟩) := rfl

theorem call_of_eq {e : ε} {act : Eval α σ β} {t : Traced ε σ} {answer : Except (Fault α) β}
    {s : σ} (h : act t.state = (answer, s)) :
    call e act t = (answer, ⟨t.trace ++ [e], s⟩) := by
  rw [call_apply, h]

theorem call_eq_iff {e : ε} {act : Eval α σ β} {t t' : Traced ε σ}
    {answer : Except (Fault α) β} : call e act t = (answer, t') ↔
      act t.state = (answer, t'.state) ∧ t'.trace = t.trace ++ [e] := by
  obtain ⟨trace', s'⟩ := t'
  rw [call_apply, Prod.mk.injEq, Traced.mk.injEq, Prod.ext_iff]
  constructor
  · rintro ⟨hanswer, htrace, hstate⟩
    exact ⟨⟨hanswer, hstate⟩, htrace.symm⟩
  · rintro ⟨⟨hanswer, hstate⟩, htrace⟩
    exact ⟨hanswer, htrace.symm, hstate⟩

theorem lockstep_call (e : ε) (act : Eval α σ β) :
    Eval.Lockstep (fun t s ↦ t.state = s) Eq (call e act) act := by
  rintro t _ rfl
  exact ⟨rfl, Agree.refl _⟩

/-- A computation that does the same without its trace, said as an equation. -/
theorem untraced {act : Eval α (Traced ε σ) β} {act' : Eval α σ β}
    (h : Eval.Lockstep (fun t s ↦ t.state = s) Eq act act') (t : Traced ε σ) :
    act' t.state = ((act t).1, (act t).2.state) := by
  obtain ⟨hstate, hanswer⟩ := h t t.state rfl
  exact Prod.ext hanswer.eq.symm hstate.symm

/-! ## Calls in a row -/

variable {e : ι → ε} {f : ι → Eval α σ β}

/-- Calls that all answered are all in the trace. Induction on the row. -/
theorem answered_call_iff {xs : List ι} {bs : List β} {t t' : Traced ε σ} :
    Eval.Answered (fun x ↦ call (e x) (f x)) xs t bs t' ↔
      Eval.Answered f xs t.state bs t'.state ∧ t'.trace = t.trace ++ xs.map e := by
  constructor
  · intro h
    induction h with
    | nil t => exact ⟨.nil t.state, (List.append_nil _).symm⟩
    | cons first _ ih =>
      obtain ⟨hrest, htrace⟩ := ih
      obtain ⟨hfirst, hcall⟩ := call_eq_iff.mp first
      refine ⟨.cons hfirst hrest, ?_⟩
      rw [htrace, hcall, List.map_cons, List.append_assoc, List.singleton_append]
  · rintro ⟨h, htrace⟩
    obtain ⟨trace, s⟩ := t
    obtain ⟨trace', s'⟩ := t'
    simp only at h htrace
    induction h generalizing trace with
    | nil s =>
      rw [htrace, List.map_nil, List.append_nil]
      exact .nil _
    | cons first _ ih =>
      refine .cons (call_eq_iff.mpr ⟨first, rfl⟩) (ih (trace ++ [e _]) ?_)
      rw [htrace, List.map_cons, List.append_assoc, List.singleton_append]

/-- Calls in a row that are at fault end with the one that is. -/
theorem mapM_call_eq_error {xs : List ι} {t t' : Traced ε σ} {fault : Fault α} :
    xs.mapM (fun x ↦ call (e x) (f x)) t = (.error fault, t') ↔
      ∃ before x after bs s, xs = before ++ x :: after ∧
        t'.trace = t.trace ++ (before ++ [x]).map e ∧ Eval.Answered f before t.state bs s ∧
        f x s = (.error fault, t'.state) := by
  rw [Eval.mapM_eq_error]
  constructor
  · rintro ⟨before, x, after, bs, t₁, hsplit, hbefore, hx⟩
    obtain ⟨hanswered, htrace⟩ := answered_call_iff.mp hbefore
    obtain ⟨hfault, hcall⟩ := call_eq_iff.mp hx
    refine ⟨before, x, after, bs, t₁.state, hsplit, ?_, hanswered, hfault⟩
    rw [hcall, htrace, List.map_append, List.append_assoc, List.map_singleton]
  · rintro ⟨before, x, after, bs, s, hsplit, htrace, hanswered, hfault⟩
    refine ⟨before, x, after, bs, ⟨t.trace ++ before.map e, s⟩, hsplit,
      answered_call_iff.mpr ⟨hanswered, rfl⟩, call_eq_iff.mpr ⟨hfault, ?_⟩⟩
    rw [htrace, List.map_append, List.append_assoc, List.map_singleton]

theorem trace_mapM_call (xs : List ι) (t : Traced ε σ) :
    ∃ k, (xs.mapM (fun x ↦ call (e x) (f x)) t).2.trace = t.trace ++ (xs.take k).map e := by
  rcases hrow : xs.mapM (fun x ↦ call (e x) (f x)) t with ⟨fault | bs, t'⟩
  · obtain ⟨before, x, after, -, -, rfl, htrace, -, -⟩ := mapM_call_eq_error.mp hrow
    have htake : (before ++ x :: after).take (before.length + 1) = before ++ [x] := by
      rw [List.take_length_add_append, List.take_succ_cons, List.take_zero]
    exact ⟨before.length + 1, by rw [htake, htrace]⟩
  · obtain ⟨-, htrace⟩ := answered_call_iff.mp (Eval.mapM_eq_ok.mp hrow)
    exact ⟨xs.length, by rw [List.take_length]; exact htrace⟩

end Traced

end NonlinearProgram
