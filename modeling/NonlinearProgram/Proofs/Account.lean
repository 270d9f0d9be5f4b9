import NonlinearProgram.Proofs.Certificate

/-!
# Accounts of runs

A run can break off: the rows at the start may fault, or any iteration, and the last evaluations
too. `MultiplierMethod.Account` says of a run what happened until then, however it ended: the
iterates at which its descents started, the iterations that it completed, the outcome, and the state
of the problem. Every run has an account (`MultiplierMethod.exists_account`).

A descent that faulted has a start but no iteration, so there is at most one start more than there
are iterations. Each start is what the iterations before it lead to (`Account.of_start`), and none
of these iterations stopped the run. So what holds of the end of every course holds at every
descent.

## Why both lists

What a run does to its penalty and its multipliers is seen by the next descent, and the last descent
may be the one that faults. A claim about every descent of every run is therefore one about the
starts, and a claim about what was reported is one about the iterations.
-/

namespace NonlinearProgram

open MultiplierMethod

variable {α σ : Type} [Scalar α]

/-! ## Where iterations lead

The next iterate is a matter of the last iteration alone, or of the start where there was none. It
is still defined by recursion from the front, as a course is, so that a course can be cut at any
iteration (`Course.append_iff`). -/

/-- The iterate that iterations lead to. -/
def Iterate.after (c : Config α) (first : Iterate α) : List (Iteration α) → Iterate α
  | [] => first
  | i :: its => (i.next c).after c its

@[simp] theorem Iterate.after_nil (c : Config α) (first : Iterate α) : first.after c [] = first :=
  rfl

@[simp] theorem Iterate.after_cons (c : Config α) (first : Iterate α) (i : Iteration α)
    (its : List (Iteration α)) : first.after c (i :: its) = (i.next c).after c its := rfl

@[simp] theorem Iterate.after_concat (c : Config α) (first : Iterate α) (its : List (Iteration α))
    (i : Iteration α) : first.after c (its ++ [i]) = i.next c := by
  induction its generalizing first with
  | nil => rfl
  | cons _ _ ih => exact ih _

theorem History.final_eq_after (h : History α) (c : Config α) (first : Iterate α) :
    h.final c first = first.after c h.iterations := by
  obtain ⟨its, fault⟩ := h
  rcases List.eq_nil_or_concat its with rfl | ⟨its, i, rfl⟩
  · rfl
  · rw [List.concat_eq_append, Iterate.after_concat, final, List.getLast?_concat]

namespace Course

variable {minimizer : Minimizer α} {p : Problem α σ} {c : Config α} {l : Layout α} {index : Nat}
  {start : Iterate α} {s s' : σ}

theorem nil_iff : Course minimizer p c l index start s [] s' ↔ s = s' := by
  constructor
  · rintro ⟨⟩
    rfl
  · rintro rfl
    exact .done index start s

theorem cons_iff {i : Iteration α} {its : List (Iteration α)} :
    Course minimizer p c l index start s (i :: its) s' ↔
      i.index = index ∧ i.start = start ∧ ∃ s₁, i.Performed minimizer p c l s s₁ ∧
        Course minimizer p c l (index + 1) (i.next c) s₁ its s' := by
  constructor
  · intro h
    cases h with
    | step performed rest => exact ⟨rfl, rfl, _, performed, rest⟩
  · rintro ⟨rfl, rfl, s₁, performed, rest⟩
    exact .step performed rest

theorem append_iff {before its : List (Iteration α)} :
    Course minimizer p c l index start s (before ++ its) s' ↔
      ∃ s₁, Course minimizer p c l index start s before s₁ ∧
        Course minimizer p c l (index + before.length) (start.after c before) s₁ its s' := by
  induction before generalizing index start s with
  | nil => simp only [List.nil_append, nil_iff, exists_eq_left', List.length_nil, Nat.add_zero,
      Iterate.after_nil]
  | cons i before ih =>
    simp only [List.cons_append, cons_iff, ih, List.length_cons, Iterate.after_cons]
    constructor
    · rintro ⟨hindex, hstart, s₁, performed, s₂, front, rest⟩
      exact ⟨s₂, ⟨hindex, hstart, s₁, performed, front⟩,
        by rwa [← Nat.add_assoc, Nat.add_right_comm]⟩
    · rintro ⟨s₂, ⟨hindex, hstart, s₁, performed, front⟩, rest⟩
      exact ⟨hindex, hstart, s₁, performed, s₂, front,
        by rwa [← Nat.add_assoc, Nat.add_right_comm] at rest⟩

theorem take {its : List (Iteration α)} (h : Course minimizer p c l index start s its s')
    (k : Nat) : ∃ s₁, Course minimizer p c l index start s (its.take k) s₁ := by
  rw [← List.take_append_drop k its] at h
  obtain ⟨s₁, front, -⟩ := append_iff.mp h
  exact ⟨s₁, front⟩

/-- Every iteration has its number, its place to start from, and a time at which it was
performed. -/
theorem of_getElem? {its : List (Iteration α)} (h : Course minimizer p c l index start s its s')
    {k : Nat} {i : Iteration α} (hi : its[k]? = some i) :
    i.index = index + k ∧ i.start = start.after c (its.take k) ∧
      ∃ s₁ s₂, i.Performed minimizer p c l s₁ s₂ := by
  obtain ⟨hk, rfl⟩ := List.getElem?_eq_some_iff.mp hi
  rw [← List.take_append_drop k its, List.drop_eq_getElem_cons hk] at h
  obtain ⟨s₁, -, rest⟩ := append_iff.mp h
  obtain ⟨hindex, hstart, s₂, performed, -⟩ := cons_iff.mp rest
  rw [List.length_take_of_le (Nat.le_of_lt hk)] at hindex
  exact ⟨hindex, hstart, s₁, s₂, performed⟩

end Course

/-! ## Runs that break off

Of the three ways in which a run can end, two are faults: before the first descent, and in an
iteration. What comes behind the last iteration may fault too; then all iterations are there and the
outcome is the fault. -/

namespace MultiplierMethod

variable {minimizer : Minimizer α} {p : Problem α σ} {c : Config α} {l : Layout α}

/-- Induction on the room. No iteration before the one that faulted had stopped the run. -/
theorem course_of_fault {fuel index : Nat} {first : Iterate α} {h : History α} {s s' : σ}
    {fault : Fault α} (hhistory : history minimizer p c l fuel index first s = (h, s'))
    (hfault : h.fault = some fault) :
    ∃ s₁, Course minimizer p c l index first s h.iterations s₁ ∧
      (∀ i ∈ h.iterations, ¬i.Stops c) ∧ h.iterations.length < fuel ∧
      iterate minimizer p c l (index + h.iterations.length) (first.after c h.iterations) s₁
        = (.error fault, s') := by
  induction fuel generalizing index first s h with
  | zero =>
    rw [history_zero, Prod.mk.injEq] at hhistory
    obtain ⟨rfl, -⟩ := hhistory
    cases hfault
  | succ fuel ih =>
    rcases hiterate : iterate minimizer p c l index first s with ⟨fault' | i, s₁⟩
    · rw [history_of_fault hiterate, Prod.mk.injEq] at hhistory
      obtain ⟨rfl, rfl⟩ := hhistory
      cases hfault
      exact ⟨s, .done _ _ _, fun _ h ↦ absurd h List.not_mem_nil, Nat.succ_pos _, hiterate⟩
    obtain ⟨rfl, rfl, hperformed⟩ := iterate_eq_ok.mp hiterate
    rcases hverdict : i.verdict? c with _ | t
    · rw [history_of_none hiterate hverdict] at hhistory
      rcases hrest : history minimizer p c l fuel (i.index + 1) (i.next c) s₁ with ⟨rest, s₂⟩
      rw [hrest, Prod.mk.injEq] at hhistory
      obtain ⟨rfl, rfl⟩ := hhistory
      obtain ⟨s₃, hcourse, hunstopped, hroom, hfaulted⟩ := ih hrest hfault
      refine ⟨s₃, .step hperformed hcourse, ?_, Nat.succ_lt_succ hroom, ?_⟩
      · exact List.forall_mem_cons.mpr ⟨Iteration.verdict?_eq_none.mp hverdict, hunstopped⟩
      · rwa [List.length_cons, Nat.add_comm rest.iterations.length, ← Nat.add_assoc]
    · rw [history_of_verdict hiterate hverdict, Prod.mk.injEq] at hhistory
      obtain ⟨rfl, -⟩ := hhistory
      cases hfault

/-- What happened in a run: the starts of its descents, the iterations that it completed, its
outcome, and the state of the problem at the end. -/
inductive Account (minimizer : Minimizer α) (p : Problem α σ) (c : Config α) (l : Layout α)
    (x : Point α) (s : σ) : List (Iterate α) → List (Iteration α) →
      Except (Fault α) (Point α × Summary α) → σ → Prop
  /-- The rows at the start fault, and there is no descent. -/
  | unstarted {fault : Fault α} {s' : σ} (faulted : start p c l x s = (.error fault, s')) :
      Account minimizer p c l x s [] [] (.error fault) s'
  /-- An iteration faults, in its descent or behind it. -/
  | broken {first : Iterate α} {its : List (Iteration α)} {s₁ s₂ s' : σ} {fault : Fault α}
      (started : start p c l x s = (.ok first, s₁))
      (course : Course minimizer p c l 1 first s₁ its s₂) (unstopped : ∀ i ∈ its, ¬i.Stops c)
      (room : its.length < c.iterationLimit)
      (faulted : iterate minimizer p c l (its.length + 1) (first.after c its) s₂
        = (.error fault, s')) :
      Account minimizer p c l x s (its.map Iteration.start ++ [first.after c its]) its
        (.error fault) s'
  /-- The iterations come to an end, and what is returned is put together, or faults. -/
  | finished {first : Iterate α} {its : List (Iteration α)} {s₁ s₂ s' : σ}
      {outcome : Except (Fault α) (Point α × Summary α)}
      (started : start p c l x s = (.ok first, s₁))
      (course : Course minimizer p c l 1 first s₁ its s₂)
      (settled : History.Settled c c.iterationLimit ⟨its, none⟩)
      (finished : finish p c l (first.after c its) (History.termination ⟨its, none⟩ c first) s₂
        = (outcome, s')) :
      Account minimizer p c l x s (its.map Iteration.start) its outcome s'

theorem exists_account (minimizer : Minimizer α) (p : Problem α σ) (c : Config α) (l : Layout α)
    (x : Point α) (s : σ) :
    ∃ starts its, Account minimizer p c l x s starts its (run minimizer p c l x s).1
      (run minimizer p c l x s).2 := by
  rcases hstart : start p c l x s with ⟨fault | first, s₁⟩
  · rw [run, Eval.bind_of_error hstart]
    exact ⟨[], [], .unstarted hstart⟩
  rw [run, Eval.bind_of_ok hstart, Eval.bind_of_ok (Eval.lift_apply _ s₁)]
  rcases hhistory : history minimizer p c l c.iterationLimit 1 first s₁ with ⟨⟨its, _ | fault⟩, s₂⟩
  · obtain ⟨hcourse, hsettled⟩ := course_of_history hhistory rfl
    simp only [History.final_eq_after]
    exact ⟨_, its, .finished hstart hcourse hsettled rfl⟩
  · obtain ⟨s₃, hcourse, hunstopped, hroom, hfaulted⟩ := course_of_fault hhistory rfl
    simp only at hfaulted
    rw [Nat.add_comm 1] at hfaulted
    exact ⟨_, its, .broken hstart hcourse hunstopped hroom hfaulted⟩

namespace Account

variable {x : Point α} {s s' : σ} {starts : List (Iterate α)} {its : List (Iteration α)}
  {outcome : Except (Fault α) (Point α × Summary α)}

/-- A descent starts where the iterations before it lead to, and these did not stop the run. -/
theorem of_start (h : Account minimizer p c l x s starts its outcome s') {k : Nat}
    {st : Iterate α} (hst : starts[k]? = some st) :
    ∃ first s₁ s₂, start p c l x s = (.ok first, s₁) ∧
      Course minimizer p c l 1 first s₁ (its.take k) s₂ ∧ (its.take k).length = k ∧
      st = first.after c (its.take k) ∧ ∀ i ∈ its.take k, ¬i.Stops c := by
  -- an iteration was performed from this start
  have hperformed : ∀ {first : Iterate α} {s₁ s₂ : σ},
      Course minimizer p c l 1 first s₁ its s₂ → (its.map Iteration.start)[k]? = some st →
      k < its.length ∧ st = first.after c (its.take k) := by
    intro first s₁ s₂ course hmap
    rw [List.getElem?_map, Option.map_eq_some_iff] at hmap
    obtain ⟨i, hi, rfl⟩ := hmap
    exact ⟨(List.getElem?_eq_some_iff.mp hi).1, (course.of_getElem? hi).2.1⟩
  cases h with
  | unstarted _ => cases hst
  | @broken first _ s₁ s₂ _ _ started course unstopped _ _ =>
    obtain ⟨s₃, front⟩ := course.take k
    have hunstopped : ∀ i ∈ its.take k, ¬i.Stops c := fun i hi ↦
      unstopped i (List.mem_of_mem_take hi)
    rcases Nat.lt_or_ge k its.length with hk | hk
    · rw [List.getElem?_append_left (by rwa [List.length_map])] at hst
      exact ⟨first, s₁, s₃, started, front, List.length_take_of_le (Nat.le_of_lt hk),
        (hperformed course hst).2, hunstopped⟩
    · -- the last descent did not lead to an iteration
      rw [List.getElem?_append_right (by rwa [List.length_map]), List.length_map,
        List.getElem?_singleton] at hst
      split at hst
      · obtain rfl : k = its.length := by omega
        cases hst
        rw [List.take_length] at front hunstopped ⊢
        exact ⟨first, s₁, s₃, started, front, rfl, rfl, hunstopped⟩
      · cases hst
  | @finished first _ s₁ s₂ _ _ started course settled _ =>
    obtain ⟨s₃, front⟩ := course.take k
    obtain ⟨hk, heq⟩ := hperformed course hst
    refine ⟨first, s₁, s₃, started, front, List.length_take_of_le (Nat.le_of_lt hk), heq, ?_⟩
    intro i hi
    refine Iteration.verdict?_eq_none.mp (settled.before i ?_)
    rw [← Nat.min_eq_left (Nat.le_sub_one_of_lt hk), ← List.take_take,
      ← List.dropLast_eq_take] at hi
    exact List.mem_of_mem_take hi

theorem course (h : Account minimizer p c l x s starts its outcome s') :
    its = [] ∨ ∃ first s₁ s₂, start p c l x s = (.ok first, s₁) ∧
      Course minimizer p c l 1 first s₁ its s₂ := by
  cases h with
  | unstarted _ => exact Or.inl rfl
  | broken started course _ _ _ => exact Or.inr ⟨_, _, _, started, course⟩
  | finished started course _ _ => exact Or.inr ⟨_, _, _, started, course⟩

theorem finish_eq {y : Point α} {info : Summary α}
    (h : Account minimizer p c l x s starts its (.ok (y, info)) s') :
    ∃ first s₁ s₂, start p c l x s = (.ok first, s₁) ∧
      Course minimizer p c l 1 first s₁ its s₂ ∧ starts = its.map Iteration.start ∧
      its.length ≤ c.iterationLimit ∧ History.Certificate c first ⟨its, none⟩ info.status ∧
      finish p c l (first.after c its) (History.termination ⟨its, none⟩ c first) s₂
        = (.ok (y, info), s') := by
  cases h with
  | @finished first _ s₁ s₂ _ _ started course settled finished =>
    obtain ⟨-, _, _, _, _, -, -, -, hinfo⟩ := finish_eq_ok.mp finished
    have hcertificate : History.Certificate c first ⟨its, none⟩ info.status := by
      rw [hinfo]
      exact settled.certificate first
    exact ⟨first, s₁, s₂, started, course, rfl, settled.length_le, hcertificate, finished⟩

theorem length_le (h : Account minimizer p c l x s starts its outcome s') :
    its.length ≤ starts.length := by
  cases h with
  | unstarted _ => exact Nat.le_refl _
  | broken _ _ _ _ _ =>
    rw [List.length_append, List.length_map]
    exact Nat.le_add_right _ _
  | finished _ _ _ _ => exact Nat.le_of_eq (List.length_map _).symm

theorem not_stops (h : Account minimizer p c l x s starts its outcome s') {k : Nat}
    (hk : k < its.length) : ∀ i ∈ its.take k, ¬i.Stops c := by
  obtain ⟨_, _, _, -, -, -, -, hunstopped⟩ :=
    h.of_start (List.getElem?_eq_getElem (Nat.lt_of_lt_of_le hk h.length_le))
  exact hunstopped

/-- Behind an iteration that stops the run there is no descent any more. -/
theorem length_of_stops (h : Account minimizer p c l x s starts its outcome s') {k : Nat}
    {i : Iteration α} (hi : its[k]? = some i) (hstops : i.Stops c) :
    starts.length = k + 1 ∧ its.length = k + 1 := by
  obtain ⟨hk, -⟩ := List.getElem?_eq_some_iff.mp hi
  have hlast : ¬k + 1 < starts.length := by
    intro hlt
    obtain ⟨_, _, _, -, -, -, -, hunstopped⟩ := h.of_start (List.getElem?_eq_getElem hlt)
    refine hunstopped i ?_ hstops
    rw [List.mem_iff_getElem?]
    exact ⟨k, by rw [List.getElem?_take_of_lt (Nat.lt_succ_self k), hi]⟩
  have hle := h.length_le
  omega

end Account

end MultiplierMethod

end NonlinearProgram
