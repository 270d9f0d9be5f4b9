import Mathlib.Data.List.Forall2
import NonlinearProgram.Fault

/-!
# Computations in a row

What an `Eval` computation answers at a state, one constructor of the monad at a time, and what
`List.mapM` makes of a row of computations. A sequence stops at the first fault and keeps the state
reached there, so an answer of the sequence is an answer of each of its parts: `Eval.bind_eq_ok`
takes a successful run apart, `Eval.bind_eq_error` one at fault, and these two are the only way in
which later proofs open one.

## Rows

`Eval.Answered` is a row of computations that all answered, with the answers and the states at both
ends. What a `mapM` comes to is said by two equivalences: it answers where the whole row did, and it
faults where a part of the row answered and the computation behind that part did not. In the second
case the state reached is that of the faulting computation, so nothing behind it was run.

## What is kept

`Eval.Keeps` says that a computation keeps a property of the state, whether it answers or not, and
that its answers have a property of their own. The two belong together: a fault leaves a state
behind that later computations go on with, and has no answer of which anything could be said.
-/

namespace NonlinearProgram

/-! ## Faults and checks -/

/-- The fault of a result, if it is one. -/
def Fault.ofResult? {α β : Type} : Except (Fault α) β → Option (Fault α)
  | .ok _ => none
  | .error fault => some fault

@[simp] theorem Fault.ofResult?_ok {α β : Type} (b : β) :
    Fault.ofResult? (.ok b : Except (Fault α) β) = none := rfl

@[simp] theorem Fault.ofResult?_error {α β : Type} (fault : Fault α) :
    Fault.ofResult? (.error fault : Except (Fault α) β) = some fault := rfl

theorem Fault.ofResult?_eq_some {α β : Type} {result : Except (Fault α) β} {fault : Fault α} :
    Fault.ofResult? result = some fault ↔ result = .error fault := by
  cases result <;> simp

theorem Except.bind_eq_ok {ε β γ : Type} {x : Except ε β} {f : β → Except ε γ} {c : γ} :
    x >>= f = .ok c ↔ ∃ b, x = .ok b ∧ f b = .ok c := by
  cases x with
  | error fault => exact iff_of_false nofun fun ⟨_, h, _⟩ ↦ nomatch h
  | ok b =>
    constructor
    · exact fun h ↦ ⟨b, rfl, h⟩
    · rintro ⟨_, ⟨⟩, h⟩
      exact h

theorem Except.map_toOption_eq_some {ε β γ : Type} {x : Except ε β} {f : β → γ} {c : γ} :
    x.toOption.map f = some c ↔ ∃ b, x = .ok b ∧ f b = c := by
  rcases x with reason | b
  · exact iff_of_false nofun nofun
  · constructor
    · intro h
      exact ⟨b, rfl, Option.some.inj h⟩
    · rintro ⟨_, ⟨⟩, rfl⟩
      rfl

theorem Check.count_eq_ok {α : Type} {expected found : Nat} :
    (Check.count expected found : Except (Fault α) Unit) = .ok () ↔ found = expected := by
  rw [Check.count]
  split
  · exact iff_of_true rfl (Eq.symm ‹_›)
  · exact iff_of_false nofun (Ne.symm ‹_›)

/-! ## Answers and faults

Each equation is for one constructor. A sequence has three: one for an answer of its first part, one
for a fault, and one that says nothing about the first part and leaves a `match` behind. The last is
needed where two sequences are compared, the other two where the first part is known. -/

namespace Eval

variable {α σ β γ ι κ : Type}

@[simp] theorem pure_apply (b : β) (s : σ) : (pure b : Eval α σ β) s = (.ok b, s) := rfl

@[simp] theorem throw_apply (fault : Fault α) (s : σ) :
    (throw fault : Eval α σ β) s = (.error fault, s) := rfl

@[simp] theorem lift_apply (act : StateM σ β) (s : σ) :
    (ExceptT.lift act : Eval α σ β) s = (.ok (act s).1, (act s).2) := rfl

theorem state_pure_apply (b : β) (s : σ) : (pure b : StateM σ β) s = (b, s) := rfl

theorem state_bind_apply (act : StateM σ β) (f : β → StateM σ γ) (s : σ) :
    (act >>= f) s = f (act s).1 (act s).2 := rfl

/-- A sequence goes on with an answer and stops at a fault. -/
theorem bind_apply (act : Eval α σ β) (f : β → Eval α σ γ) (s : σ) :
    (act >>= f) s = match act s with
      | (.ok b, s) => f b s
      | (.error fault, s) => (.error fault, s) := by
  show ExceptT.bindCont f (act s).1 (act s).2 = _
  rcases act s with ⟨_ | _, _⟩ <;> rfl

theorem bind_of_ok {act : Eval α σ β} {s s₁ : σ} {b : β} (h : act s = (.ok b, s₁))
    (f : β → Eval α σ γ) : (act >>= f) s = f b s₁ := by
  rw [bind_apply, h]

theorem bind_of_error {act : Eval α σ β} {s s₁ : σ} {fault : Fault α}
    (h : act s = (.error fault, s₁)) (f : β → Eval α σ γ) :
    (act >>= f) s = (.error fault, s₁) := by
  rw [bind_apply, h]

/-- What is made of an answer faults where there is none. -/
theorem bind_pure_apply {act : Eval α σ β} {s s₁ : σ} {outcome : Except (Fault α) β}
    (h : act s = (outcome, s₁)) (f : β → γ) :
    (act >>= fun b ↦ pure (f b)) s = (outcome.map f, s₁) := by
  rcases outcome with fault | b
  · exact bind_of_error h _
  · exact bind_of_ok h _

/-- A sequence answers exactly when its first part does and the rest then does. -/
theorem bind_eq_ok {act : Eval α σ β} {f : β → Eval α σ γ} {s s' : σ} {c : γ} :
    (act >>= f) s = (.ok c, s') ↔ ∃ b s₁, act s = (.ok b, s₁) ∧ f b s₁ = (.ok c, s') := by
  constructor
  · intro h
    rcases hact : act s with ⟨fault | b, s₁⟩
    · rw [bind_of_error hact] at h
      cases h
    · rw [bind_of_ok hact] at h
      exact ⟨b, s₁, rfl, h⟩
  · rintro ⟨b, s₁, hact, hf⟩
    rw [bind_of_ok hact, hf]

theorem ofExcept_apply (outcome : Except (Fault α) β) (s : σ) :
    (ofExcept outcome : Eval α σ β) s = (outcome, s) := rfl

theorem get_apply (s : σ) : (get : Eval α σ σ) s = (.ok s, s) := rfl

theorem bind_eq_error {act : Eval α σ β} {f : β → Eval α σ γ} {s s' : σ} {fault : Fault α} :
    (act >>= f) s = (.error fault, s') ↔
      act s = (.error fault, s') ∨ ∃ b s₁, act s = (.ok b, s₁) ∧ f b s₁ = (.error fault, s') := by
  rcases hact : act s with ⟨fault' | b, s₁⟩
  · rw [bind_of_error hact]
    constructor
    · rintro ⟨⟩
      exact Or.inl rfl
    · rintro (h | ⟨_, _, h, -⟩)
      · cases h
        rfl
      · cases h
  · rw [bind_of_ok hact]
    constructor
    · exact fun h ↦ Or.inr ⟨b, s₁, rfl, h⟩
    · rintro (h | ⟨_, _, h, hf⟩)
      · cases h
      · cases h
        exact hf

theorem bind_pure_eq_ok {act : Eval α σ β} {f : β → γ} {s s' : σ} {c : γ} :
    (act >>= fun b ↦ pure (f b)) s = (.ok c, s') ↔ ∃ b, act s = (.ok b, s') ∧ c = f b := by
  rw [bind_eq_ok]
  constructor
  · rintro ⟨b, s₁, hact, hpure⟩
    rw [pure_apply, Prod.mk.injEq, Except.ok.injEq] at hpure
    obtain ⟨rfl, rfl⟩ := hpure
    exact ⟨b, hact, rfl⟩
  · rintro ⟨b, hact, rfl⟩
    exact ⟨b, s', hact, rfl⟩

theorem bind_pure_eq_error {act : Eval α σ β} {f : β → γ} {s s' : σ} {fault : Fault α} :
    (act >>= fun b ↦ pure (f b)) s = (.error fault, s') ↔ act s = (.error fault, s') := by
  rw [bind_eq_error]
  exact or_iff_left fun ⟨_, _, _, h⟩ ↦ nomatch h

theorem bind_pure_state (act : Eval α σ β) (f : β → γ) (s : σ) :
    ((act >>= fun b ↦ pure (f b)) s).2 = (act s).2 := by
  rcases hact : act s with ⟨fault | b, s₁⟩
  · rw [bind_of_error hact]
  · rw [bind_of_ok hact, pure_apply]

/-! ## Rows of answers -/

/-- Computations that answered, one after the other. -/
inductive Answered (f : ι → Eval α σ β) : List ι → σ → List β → σ → Prop
  | nil (s : σ) : Answered f [] s [] s
  | cons {x : ι} {xs : List ι} {b : β} {bs : List β} {s s₁ s₂ : σ} (first : f x s = (.ok b, s₁))
      (rest : Answered f xs s₁ bs s₂) : Answered f (x :: xs) s (b :: bs) s₂

variable {f : ι → Eval α σ β} {xs : List ι} {s s' : σ}

theorem Answered.length_eq {bs : List β} (h : Answered f xs s bs s') : bs.length = xs.length := by
  induction h with
  | nil => rfl
  | cons _ _ ih => rw [List.length_cons, List.length_cons, ih]

theorem mapM_eq_ok {bs : List β} : xs.mapM f s = (.ok bs, s') ↔ Answered f xs s bs s' := by
  induction xs generalizing s bs with
  | nil =>
    rw [List.mapM_nil, pure_apply, Prod.mk.injEq, Except.ok.injEq]
    constructor
    · rintro ⟨rfl, rfl⟩
      exact .nil s
    · rintro ⟨⟩
      exact ⟨rfl, rfl⟩
  | cons x xs ih =>
    rw [List.mapM_cons, bind_eq_ok]
    constructor
    · rintro ⟨b, s₁, hfirst, h⟩
      obtain ⟨rest, hrest, rfl⟩ := bind_pure_eq_ok.mp h
      exact .cons hfirst (ih.mp hrest)
    · intro h
      cases h with
      | cons hfirst hrest =>
        exact ⟨_, _, hfirst, bind_pure_eq_ok.mpr ⟨_, ih.mpr hrest, rfl⟩⟩

/-- The first fault decides, and nothing behind it is run. -/
theorem mapM_eq_error {fault : Fault α} :
    xs.mapM f s = (.error fault, s') ↔ ∃ before x after bs s₁, xs = before ++ x :: after ∧
      Answered f before s bs s₁ ∧ f x s₁ = (.error fault, s') := by
  induction xs generalizing s with
  | nil =>
    rw [List.mapM_nil, pure_apply]
    refine iff_of_false (fun h ↦ nomatch h) ?_
    rintro ⟨before, _, _, _, _, hxs, -⟩
    cases before <;> cases hxs
  | cons x xs ih =>
    rw [List.mapM_cons, bind_eq_error]
    constructor
    · rintro (hfirst | ⟨b, s₁, hfirst, hrest⟩)
      · exact ⟨[], x, xs, [], s, rfl, .nil s, hfirst⟩
      · obtain ⟨before, y, after, bs, s₂, rfl, hbefore, hy⟩ := ih.mp (bind_pure_eq_error.mp hrest)
        exact ⟨x :: before, y, after, b :: bs, s₂, rfl, .cons hfirst hbefore, hy⟩
    · rintro ⟨before, y, after, bs, s₂, hxs, hbefore, hy⟩
      cases hbefore with
      | nil =>
        rw [List.nil_append, List.cons.injEq] at hxs
        obtain ⟨rfl, rfl⟩ := hxs
        exact Or.inl hy
      | cons hfirst hrest =>
        rw [List.cons_append, List.cons.injEq] at hxs
        obtain ⟨rfl, rfl⟩ := hxs
        exact Or.inr ⟨_, _, hfirst, bind_pure_eq_error.mpr (ih.mpr ⟨_, _, _, _, _, rfl, hrest, hy⟩)⟩

theorem mapM_of_const {g : ι → β} (h : ∀ x ∈ xs, f x s = (.ok (g x), s)) :
    xs.mapM f s = (.ok (xs.map g), s) := by
  induction xs with
  | nil => rfl
  | cons x xs ih =>
    rw [List.forall_mem_cons] at h
    rw [List.mapM_cons, bind_of_ok h.1, bind_of_ok (ih h.2)]
    rfl

/-- What is done to each answer can be done to all of them at the end. -/
theorem mapM_bind_pure (f : ι → Eval α σ β) (g : β → γ) (xs : List ι) :
    (xs.mapM fun x ↦ f x >>= fun b ↦ pure (g b)) = xs.mapM f >>= fun bs ↦ pure (bs.map g) := by
  induction xs with
  | nil => rfl
  | cons x xs ih =>
    rw [List.mapM_cons, List.mapM_cons, ih]
    simp only [bind_assoc, pure_bind, List.map_cons]

/-! ## Properties that are kept -/

/-- Whatever the computation comes to, the property of the state is kept, and an answer has the
property of answers. -/
def Keeps (I : σ → Prop) (act : Eval α σ β) (P : β → Prop) : Prop :=
  ∀ s, I s → I (act s).2 ∧ ∀ b, (act s).1 = .ok b → P b

variable {I : σ → Prop} {P : β → Prop} {Q : γ → Prop} {act : Eval α σ β}

theorem keeps_pure {b : β} (h : P b) : Keeps I (pure b : Eval α σ β) P := by
  intro s hs
  refine ⟨hs, fun c hc ↦ ?_⟩
  rw [pure_apply, Except.ok.injEq] at hc
  exact hc ▸ h

theorem keeps_ofExcept {outcome : Except (Fault α) β} (h : ∀ b, outcome = .ok b → P b) :
    Keeps I (ofExcept outcome : Eval α σ β) P := fun _ hs ↦ ⟨hs, h⟩

theorem keeps_check_arity (found index expected : ℕ) :
    Keeps I (ofExcept (Check.arity found index expected) : Eval α σ Unit)
      fun _ ↦ found = expected := by
  refine keeps_ofExcept fun _ hcheck ↦ ?_
  rw [Check.arity] at hcheck
  split at hcheck
  · assumption
  · cases hcheck

theorem keeps_check_gradient (g : Point α) (n : ℕ) :
    Keeps I (ofExcept (Check.gradient g n) : Eval α σ Unit) fun _ ↦ g.length = n := by
  refine keeps_ofExcept fun _ hcheck ↦ ?_
  rw [Check.gradient] at hcheck
  split at hcheck
  · assumption
  · cases hcheck

theorem keeps_check_jacobian (block : Matrix α) (index height width : ℕ) :
    Keeps I (ofExcept (Check.jacobian block index height width) : Eval α σ Unit)
      fun _ ↦ block.shape = (height, width) := by
  refine keeps_ofExcept fun _ hcheck ↦ ?_
  rw [Check.jacobian] at hcheck
  split at hcheck
  · rename_i hshape
    exact Prod.ext hshape.1 hshape.2
  · cases hcheck

theorem keeps_check_count (expected found : ℕ) :
    Keeps I (ofExcept (Check.count expected found) : Eval α σ Unit)
      fun _ ↦ expected = found := by
  refine keeps_ofExcept fun _ hcheck ↦ ?_
  rw [Check.count] at hcheck
  split at hcheck
  · assumption
  · cases hcheck

theorem keeps_modify {f : σ → σ} (h : ∀ s, I s → I (f s)) :
    Keeps I (modify f : Eval α σ Unit) fun _ ↦ True := fun s hs ↦ ⟨h s hs, fun _ _ ↦ trivial⟩

theorem keeps_lift {act : StateM σ β} (h : ∀ s, I s → I (act s).2) :
    Keeps I (ExceptT.lift act : Eval α σ β) fun _ ↦ True :=
  fun s hs ↦ ⟨h s hs, fun _ _ ↦ trivial⟩

theorem keeps_get : Keeps I (get : Eval α σ σ) I := by
  intro s hs
  refine ⟨hs, fun b hb ↦ ?_⟩
  cases hb
  exact hs

theorem Keeps.bind {g : β → Eval α σ γ} (h : Keeps I act P) (hg : ∀ b, P b → Keeps I (g b) Q) :
    Keeps I (act >>= g) Q := by
  intro s hs
  obtain ⟨hkept, hanswer⟩ := h s hs
  rcases hact : act s with ⟨fault | b, s₁⟩
  · rw [hact] at hkept
    rw [bind_of_error hact]
    exact ⟨hkept, fun _ h ↦ nomatch h⟩
  · rw [hact] at hkept hanswer
    rw [bind_of_ok hact]
    exact hg b (hanswer b rfl) s₁ hkept

theorem Keeps.mono {P' : β → Prop} (h : Keeps I act P) (hP : ∀ b, P b → P' b) : Keeps I act P' :=
  fun s hs ↦ ⟨(h s hs).1, fun b hb ↦ hP b ((h s hs).2 b hb)⟩

theorem Keeps.of_eq {outcome : Except (Fault α) β} (h : Keeps I act P)
    (hact : act s = (outcome, s')) (hs : I s) : I s' := by
  have hkept := (h s hs).1
  rwa [hact] at hkept

theorem Answered.forall₂ {R : ι → β → Prop} {bs : List β} (h : Answered f xs s bs s')
    (hkeeps : ∀ x, Keeps I (f x) (R x)) (hs : I s) : I s' ∧ List.Forall₂ R xs bs := by
  induction h with
  | nil => exact ⟨hs, .nil⟩
  | cons hfirst _ ih =>
    obtain ⟨hkept, hanswer⟩ := hkeeps _ _ hs
    rw [hfirst] at hkept hanswer
    obtain ⟨hkept', hrest⟩ := ih hkept
    exact ⟨hkept', .cons (hanswer _ rfl) hrest⟩

theorem keeps_mapM (h : ∀ x ∈ xs, Keeps I (f x) P) :
    Keeps I (xs.mapM f) fun bs ↦ bs.length = xs.length ∧ ∀ b ∈ bs, P b := by
  induction xs with
  | nil => exact keeps_pure ⟨rfl, fun _ hb ↦ absurd hb List.not_mem_nil⟩
  | cons x xs ih =>
    rw [List.forall_mem_cons] at h
    rw [List.mapM_cons]
    refine h.1.bind fun b hb ↦ (ih h.2).bind fun bs hbs ↦ keeps_pure ⟨?_, ?_⟩
    · rw [List.length_cons, List.length_cons, hbs.1]
    · exact List.forall_mem_cons.mpr ⟨hb, hbs.2⟩

/-- Rows of computations that do the same wherever a property holds that they keep. -/
theorem mapM_congr {f' : ι → Eval α σ β} (hkeeps : ∀ x ∈ xs, Keeps I (f x) fun _ ↦ True)
    (heq : ∀ x ∈ xs, ∀ s, I s → f' x s = f x s) (hs : I s) : xs.mapM f' s = xs.mapM f s := by
  induction xs generalizing s with
  | nil => rfl
  | cons x xs ih =>
    rw [List.forall_mem_cons] at hkeeps heq
    have hkept : I (f x s).2 := (hkeeps.1 s hs).1
    have hfirst : f' x s = f x s := heq.1 s hs
    rw [List.mapM_cons, List.mapM_cons]
    rcases hx : f x s with ⟨fault | b, s₁⟩
    · rw [bind_of_error hx, bind_of_error (hfirst.trans hx)]
    · rw [hx] at hkept
      rw [bind_of_ok hx, bind_of_ok (hfirst.trans hx), bind_apply, bind_apply,
        ih hkeeps.2 heq.2 hkept]

end Eval

end NonlinearProgram
