import NonlinearProgram.Lagrangian.Merit
import NonlinearProgram.Descent.LimitedMemory

/-!
# The points of an optimizer

A merit is a function of points with a coordinate for each variable. An optimizer keeps to them
(`Minimizer.KeepsLength`) if, as long as the gradients that it is told have the length of its start,
every point that it asks for has it too, and so has the best one. This is all that is needed of an
optimizer for a run to read no coordinate that is not there.

The limited-memory descent keeps to them: directions are combinations of gradients and steps, and
trial points lie on lines along directions.
-/

namespace NonlinearProgram

variable {α β γ : Type}

/-! ## Queries

A query is a tree of questions and answers. It keeps to a length if it does so along every branch on
which the gradients had that length; about values of the merit nothing is assumed, and failed
evaluations have their own branches. -/

namespace Query

/-- Every point asked for has `n` coordinates as long as the gradients in the answers have, and the
result has a property. -/
def Keeps (n : Nat) (P : β → Prop) : Query α β → Prop
  | pure result => P result
  | cost x next => x.length = n ∧ ∀ answer, (next answer).Keeps n P
  | gradient x next =>
    x.length = n ∧ ∀ answer, (∀ g, answer = .ok g → g.length = n) → (next answer).Keeps n P

variable {n : Nat} {P : β → Prop} {Q : γ → Prop}

theorem Keeps.bind {q : Query α β} {f : β → Query α γ} (h : q.Keeps n P)
    (hf : ∀ b, P b → (f b).Keeps n Q) : (q.bind f).Keeps n Q := by
  induction q with
  | pure result => exact hf result h
  | cost x next ih => exact ⟨h.1, fun answer ↦ ih answer (h.2 answer)⟩
  | gradient x next ih => exact ⟨h.1, fun answer hanswer ↦ ih answer (h.2 answer hanswer)⟩

end Query

namespace Search

/-- A search whose points have `n` coordinates, with a property of what it finds. -/
def Keeps (n : Nat) (P : β → Prop) (search : Search α β) : Prop :=
  Query.Keeps n (fun result ↦ ∀ b, result = .ok b → P b) search.run

variable {n : Nat} {P : β → Prop} {Q : γ → Prop}

theorem keeps_pure {b : β} (h : P b) : Keeps n P (pure b : Search α β) := by
  intro c hc
  cases hc
  exact h

theorem keeps_throw (cause : Breakdown α) : Keeps n P (throw cause : Search α β) := by
  intro b hb
  cases hb

theorem Keeps.bind {search : Search α β} {f : β → Search α γ} (h : Keeps n P search)
    (hf : ∀ b, P b → Keeps n Q (f b)) : Keeps n Q (search >>= f) := by
  refine Query.Keeps.bind h fun result hresult ↦ ?_
  cases result with
  | error cause => exact keeps_throw cause
  | ok b => exact hf b (hresult b rfl)

/-- The outcome of a search, as an answer of another one. -/
theorem Keeps.lift {search : Search α β} (h : Keeps n P search) :
    Keeps n (fun result ↦ ∀ b, result = .ok b → P b)
      (ExceptT.lift search.run : Search α (Except (Breakdown α) β)) := by
  refine Query.Keeps.bind h fun result hresult ↦ ?_
  intro result' hresult'
  cases hresult'
  exact hresult

theorem keeps_cost {x : Point α} (hx : x.length = n) :
    Keeps n (fun _ ↦ True) (cost x) := ⟨hx, fun _ _ _ ↦ trivial⟩

theorem keeps_gradient {x : Point α} (hx : x.length = n) :
    Keeps n (fun g ↦ g.length = n) (gradient x) := by
  refine ⟨hx, fun answer hanswer g hg ↦ ?_⟩
  cases answer with
  | error fault => cases hg
  | ok answer =>
    cases hg
    exact hanswer g rfl

end Search

/-- An optimizer that asks for points with as many coordinates as its start, as long as the
gradients have as many, and whose best point has as many too. -/
def Minimizer.KeepsLength (minimizer : Minimizer α) : Prop :=
  ∀ stop search, minimizer stop = .ok search → ∀ x : Point α,
    Search.Keeps x.length (fun d : Descent α ↦ ∀ b, d.best = some b → b.length = x.length)
      (ExceptT.mk (search x))

variable [Scalar α] {n : Nat}

/-! ## Points of one length -/

namespace Point

variable {x y : Point α} (hx : x.length = n) (hy : y.length = n)

include hx

theorem length_scale_eq (t : α) : (x.scale t).length = n := by
  rw [scale, List.length_map, hx]

include hy

theorem length_add_eq : (x.add y).length = n := by
  rw [add, List.length_zipWith, hx, hy, Nat.min_self]

theorem length_sub_eq : (x.sub y).length = n := by
  rw [sub, List.length_zipWith, hx, hy, Nat.min_self]

theorem length_addScaled_eq (t : α) : (x.addScaled t y).length = n := by
  rw [addScaled, List.length_zipWith, hx, hy, Nat.min_self]

end Point

/-! ## Line searches

A trial point is the start plus a multiple of the direction. It is as long as both of them. -/

namespace LineSearch

/-- Induction on the trials that are left. -/
theorem keeps_loop {l : Line α} (horigin : l.origin.length = n)
    (hdirection : l.direction.length = n) (fuel : Nat) (s : State α) :
    Search.Keeps n (fun r ↦ r.1.length = n) (loop l fuel s) := by
  induction fuel generalizing s with
  | zero => exact Search.keeps_throw _
  | succ fuel ih =>
    have hpoint : (l.point s.step).length = n := Point.length_addScaled_eq horigin hdirection s.step
    refine (Search.keeps_cost hpoint).bind fun value _ ↦
      (Search.keeps_gradient hpoint).bind fun g _ ↦ ?_
    simp only
    split
    · exact Search.keeps_pure hpoint
    · split
      · exact ih _
      · exact Search.keeps_throw _

theorem keeps_run {x g d : Point α} (hx : x.length = n) (hd : d.length = n) (f : α) :
    Search.Keeps n (fun r ↦ r.1.length = n) (run x g d f) := by
  have hsearch : ∀ value : α, Search.Keeps n (fun r ↦ r.1.length = n)
      (loop ⟨x, d, value, g.dot d⟩ trials (Line.start ⟨x, d, value, g.dot d⟩)) :=
    fun value ↦ keeps_loop hx hd trials _
  have hslope : ∀ value : α, Search.Keeps n (fun r : Point α × α ↦ r.1.length = n)
      (if 0.0 ≤ g.dot d then
        throw Breakdown.ascent >>= fun _ : Unit ↦
          loop ⟨x, d, value, g.dot d⟩ trials (Line.start ⟨x, d, value, g.dot d⟩)
      else loop ⟨x, d, value, g.dot d⟩ trials (Line.start ⟨x, d, value, g.dot d⟩)) := by
    intro value
    split
    · exact (Search.keeps_throw (P := fun _ ↦ True) _).bind fun _ _ ↦ hsearch value
    · exact hsearch value
  rw [run]
  split
  · exact (Search.keeps_pure (P := fun _ ↦ True) trivial).bind fun value _ ↦ hslope value
  · exact (Search.keeps_cost hx).bind fun value _ ↦ hslope value

end LineSearch

/-! ## Directions

A direction is the gradient, changed by multiples of remembered pairs on the way down and on the way
up. -/

namespace Curvature

/-- A step and a change with `n` coordinates each. -/
def HasLength (n : Nat) (c : Curvature α) : Prop := c.step.length = n ∧ c.change.length = n

/-- The walk from the newest pair to the oldest, and the pairs that it leaves for the way back. -/
theorem length_foldl_descend {pairs : List (Curvature α)} (hpairs : ∀ c ∈ pairs, c.HasLength n)
    {q : Point α} {seen : List (Curvature α × α)} (hq : q.length = n)
    (hseen : ∀ p ∈ seen, p.1.HasLength n) :
    (pairs.foldl descend (q, seen)).1.length = n ∧
      ∀ p ∈ (pairs.foldl descend (q, seen)).2, p.1.HasLength n := by
  induction pairs generalizing q seen with
  | nil => exact ⟨hq, hseen⟩
  | cons c pairs ih =>
    rw [List.forall_mem_cons] at hpairs
    have hq' : (descend (q, seen) c).1.length = n :=
      Point.length_sub_eq hq (Point.length_scale_eq hpairs.1.2 _)
    exact ih hpairs.2 hq' (List.forall_mem_cons.mpr ⟨hpairs.1, hseen⟩)

theorem length_foldl_ascend {coefficients : List (Curvature α × α)}
    (h : ∀ p ∈ coefficients, p.1.HasLength n) {r : Point α} (hr : r.length = n) :
    (coefficients.foldl ascend r).length = n := by
  induction coefficients generalizing r with
  | nil => exact hr
  | cons p coefficients ih =>
    rw [List.forall_mem_cons] at h
    exact ih h.2 (Point.length_add_eq hr (Point.length_scale_eq h.1.1 _))

theorem length_direction {pairs : List (Curvature α)} (hpairs : ∀ c ∈ pairs, c.HasLength n)
    {g : Point α} (hg : g.length = n) : (direction pairs g).length = n := by
  have hreverse : ∀ c ∈ pairs.reverse, c.HasLength n :=
    fun c hc ↦ hpairs c (List.mem_reverse.mp hc)
  obtain ⟨hq, hcoefficients⟩ := length_foldl_descend hreverse hg
    fun p hp ↦ absurd hp List.not_mem_nil
  exact Point.length_scale_eq
    (length_foldl_ascend hcoefficients (Point.length_scale_eq hq _)) _

end Curvature

/-! ## Limited-memory descent -/

namespace LimitedMemory

/-- The points, gradients and pairs of a state have `n` coordinates. -/
structure State.HasLength (n : Nat) (s : State α) : Prop where
  point : s.point.length = n
  gradient : s.gradient.length = n
  best : ∀ b, s.best = some b → b.length = n
  pairs : ∀ c ∈ s.pairs, c.HasLength n

theorem length_improve {least : α} {best : Option (Point α)}
    (hbest : ∀ b, best = some b → b.length = n) {x : Point α} (hx : x.length = n) (f : α) :
    ∀ b, (improve least best x f).2 = some b → b.length = n := by
  rw [improve]
  split
  · rintro b ⟨⟩
    exact hx
  · exact hbest

/-- Induction on the iterations that are left; a new state has a new point, its gradient, and one
pair more than are remembered. -/
theorem keeps_loop (stop : Stopping α) (fuel iterations : Nat) {s : State α}
    (hs : s.HasLength n) :
    Search.Keeps n (fun d ↦ ∀ b, d.best = some b → b.length = n) (loop stop fuel iterations s) := by
  induction fuel generalizing iterations s with
  | zero => exact Search.keeps_pure hs.best
  | succ fuel ih =>
    rw [loop]
    split
    · exact Search.keeps_pure hs.best
    have hdirection := Curvature.length_direction hs.pairs hs.gradient
    refine (LineSearch.keeps_run hs.point hdirection s.cost).lift.bind fun searched hsearched ↦ ?_
    rcases searched with cause | ⟨x, f⟩
    · exact Search.keeps_pure hs.best
    have hx : x.length = n := hsearched _ rfl
    refine (Search.keeps_gradient hx).bind fun g hg ↦ ih (iterations + 1) ⟨hx, hg, ?_, ?_⟩
    · exact length_improve hs.best hx f
    -- a pair is one of those remembered or the new one
    · intro c hc
      rcases List.mem_append.mp hc with hc | hc
      · refine hs.pairs c ?_
        rw [remembered] at hc
        split at hc
        · exact List.mem_of_mem_drop hc
        · exact hc
      · rw [List.mem_singleton.mp hc]
        exact ⟨Point.length_sub_eq hx hs.point, Point.length_sub_eq hg hs.gradient⟩

/-- **The limited-memory descent keeps to points of the length of its start.** -/
theorem keepsLength_minimizer : (minimizer : Minimizer α).KeepsLength := by
  rintro stop search ⟨⟩ x
  have hnone : ∀ b, (none : Option (Point α)) = some b → b.length = x.length := nofun
  refine (Search.keeps_cost rfl).bind fun f _ ↦ (Search.keeps_gradient rfl).bind fun g hg ↦ ?_
  exact keeps_loop stop iterationLimit 0
    ⟨rfl, hg, length_improve hnone rfl f, fun c hc ↦ absurd hc List.not_mem_nil⟩

end LimitedMemory

end NonlinearProgram
