import Mathlib.Algebra.Ring.Int.Defs
import NonlinearProgram.Proofs.Pipeline

/-!
# What becomes of an iteration cap

A cap is a count of 64 bits, and a setting holds a signed integer of 64 bits. On its way a count is
therefore taken modulo `2 ^ 64` into the signed range, without a remark, and this is what the solver
checks. Below `2 ^ 63` the solver runs with the count that the caller gave, under whichever of the
two names; from there on the count has turned into a negative one, and the solver refuses it
(`MultiplierMethod.configureEach_capped`).
-/

namespace NonlinearProgram

/-! ## Counts as settings

The conversion is a wrap into the signed range and cannot fail. On counts below `2 ^ 63` it is the
identity, and on all others it is negative. -/

namespace Setting

variable {α : Type} {count : ℕ}

theorem ofCount_of_lt (h : count < 2 ^ 63) : (ofCount count : Setting α) = .int count := by
  have hmod : Int.bmod count UInt64.size = count :=
    Int.bmod_eq_of_le (by rw [UInt64.size]; omega) (by rw [UInt64.size]; omega)
  rw [ofCount, hmod]

theorem ofCount_of_le (h : 2 ^ 63 ≤ count) (hlt : count < 2 ^ 64) :
    (ofCount count : Setting α) = .int (count - 2 ^ 64) := by
  have hmod : Int.bmod count UInt64.size = count - 2 ^ 64 := by
    rw [Int.bmod_def, UInt64.size]
    omega
  rw [ofCount, hmod]

end Setting

theorem Config.set_cap {α : Type} [Scalar α] (c : Config α) (count : ℤ) :
    c.set "max_iter" (.int count) =
      if 0 ≤ count then .ok { c with iterationLimit := count.toNat }
      else .error (.negative "max_iter" count) := rfl

/-! ## Settings with a cap

The generic name is resolved to that of the solver, so the two ways to set a cap come to the same
entry. A caller who uses both is left out here: then the generic one is dropped. -/

namespace Settings

variable {α : Type} {o capped : Settings α} {count : ℕ}

/-- Settings of a caller with an iteration cap, which may be under the generic name if there is none
under the solver's. -/
inductive Capped (o : Settings α) (count : ℕ) : Settings α → Prop where
  | solver : Capped o count (o.maxIter count)
  | generic (h : o.get? "max_iter" = none) : Capped o count (o.maxiter count)

theorem Capped.get?_eq {k : String} (h : o.Capped count capped) (hiter : k ≠ "max_iter")
    (hcap : k ≠ "maxiter") : capped.get? k = o.get? k := by
  cases h with
  | solver => rw [maxIter, Table.get?_insert, if_neg hiter]
  | generic => rw [maxiter, Table.get?_insert, if_neg hcap]

variable [Scalar α] {tolerance : Option α} {second : Bool} {k : String}

/-- The cap is handed over under the solver's name. -/
theorem Capped.get?_cap (h : o.Capped count capped) (tolerance : Option α) (second : Bool) :
    (capped.forSolver tolerance second).get? "max_iter" = some (.ofCount count) := by
  rw [get?_forSolver_eq_handed]
  show (capped.get? "max_iter").or (capped.get? "maxiter") = _
  cases h with
  | solver => rw [maxIter, Table.get?_insert, if_pos rfl, Option.some_or]
  | generic h =>
    rw [maxiter, Table.get?_insert, if_neg (by decide), h, Option.none_or, Table.get?_insert,
      if_pos rfl]

theorem Capped.get?_forSolver (h : o.Capped count capped) (hk : k ≠ "max_iter") :
    (capped.forSolver tolerance second).get? k = (o.forSolver tolerance second).get? k := by
  rw [get?_forSolver_eq_handed, get?_forSolver_eq_handed]
  unfold handed
  split
  case h_4 => exact absurd rfl hk
  case h_8 _ hmaxiter _ _ _ _ _ => exact h.get?_eq hk hmaxiter
  all_goals simp (disch := decide) only [h.get?_eq]

theorem get?_forSolver_of_second {value : Setting α}
    (h : (o.forSolver tolerance second).get? k = some value) :
    (o.forSolver tolerance false).get? k = some value := by
  by_cases hk : k = "hessian_approximation"
  · subst hk
    cases second with
    | false => exact h
    | true =>
      rw [get?_forSolver_eq_handed] at h ⊢
      have hown : o.get? "hessian_approximation" = some value := h
      show some ((o.get? "hessian_approximation").getD _) = _
      rw [hown, Option.getD_some]
  · rwa [get?_forSolver_of_ne _ _ _ hk] at h ⊢

end Settings

/-! ## Configuring a solver

What is handed over besides the cap is taken by assumption, so the outcome is that of the one
setting: the range of the limit is tested on the signed integer. -/

namespace MultiplierMethod

variable {σ : Type} {tolerance checked : Option Float} {second : Bool} {o capped : Settings Float}
  {solver : Solver Float σ}

/-- Whatever else the caller set is taken. -/
def Solver.TakesBesideCap (solver : Solver Float σ) (o : Settings Float) : Prop :=
  ∀ name value, o.Survives name value → Settings.solverName name ≠ "max_iter" →
    solver.config.Takes (Settings.solverName name) value

theorem takes_of_ne_cap (h : Check.tolerance tolerance = .ok checked)
    (hothers : solver.TakesBesideCap o) {k : String} {value : Setting Float} (hk : k ≠ "max_iter")
    (hget : (o.forSolver checked second).get? k = some value) : solver.config.Takes k value := by
  rcases Settings.forSolver_cases (Settings.get?_forSolver_of_second hget) with
    ⟨name, hsurvives, rfl⟩ | hdefault
  · exact hothers name value hsurvives hk
  · exact Config.takes_default h solver.config _ hdefault

theorem configureEach_of_le (h : Check.tolerance tolerance = .ok checked)
    (minimizer : Minimizer Float) (base : Config Float) (note : Remark Float → StateM σ Unit)
    (second : Bool) {count : ℕ} (hcapped : o.Capped count capped)
    (hothers : solver.TakesBesideCap o) (hle : 2 ^ 63 ≤ count) (hlt : count < 2 ^ 64) (s : σ) :
    ((backendWith minimizer base).configureEach note
        (capped.forSolver checked second).entries solver s).1.2
      = .error (.rejectedSetting "max_iter" (.int (count - 2 ^ 64))
          (.negative "max_iter" (count - 2 ^ 64))) := by
  have hcap := hcapped.get?_cap checked second
  rw [Setting.ofCount_of_le hle hlt] at hcap
  have hrefused : ∀ c : Config Float, c.set "max_iter" (.int (count - 2 ^ 64))
      = .error (.negative "max_iter" (count - 2 ^ 64)) := fun c ↦ by
    rw [Config.set_cap, if_neg (by omega)]
  rcases configureEach_cases minimizer base note (capped.forSolver checked second).pairwise_ne
      solver s with
    ⟨htaken, -⟩ | ⟨front, name, value, rest, reason, hsplit, -, hset, houtcome⟩
  · obtain ⟨_, htakes⟩ := htaken _ ((Table.get?_eq_some_iff _).mp hcap)
    rw [hrefused] at htakes
    cases htakes
  · have hget : (capped.forSolver checked second).get? name = some value :=
      (Table.get?_eq_some_iff _).mpr (hsplit ▸ List.mem_append_right _ List.mem_cons_self)
    by_cases hname : name = "max_iter"
    · subst hname
      obtain rfl := Option.some.inj (hget.symm.trans hcap)
      rw [houtcome, Except.error.inj ((hrefused _).symm.trans hset)]
    · rw [hcapped.get?_forSolver hname] at hget
      exact absurd (takes_of_ne_cap h hothers hname hget) (Config.not_takes_iff.mpr ⟨_, hset⟩)

theorem configureEach_of_lt (h : Check.tolerance tolerance = .ok checked)
    (minimizer : Minimizer Float) (base : Config Float) (note : Remark Float → StateM σ Unit)
    (second : Bool) {count : ℕ} (hcapped : o.Capped count capped)
    (hothers : solver.TakesBesideCap o) (hlt : count < 2 ^ 63) (s : σ) :
    ∃ last : Solver Float σ, ((backendWith minimizer base).configureEach note
        (capped.forSolver checked second).entries solver s).1 = (last, .ok ()) ∧
      last.config.iterationLimit = count := by
  have hcap := hcapped.get?_cap checked second
  rw [Setting.ofCount_of_lt hlt] at hcap
  have htaken : ∀ e ∈ (capped.forSolver checked second).entries,
      solver.config.Takes e.1 e.2 := by
    rintro ⟨k, value⟩ he
    have hget := (Table.get?_eq_some_iff _).mpr he
    by_cases hk : k = "max_iter"
    · subst hk
      obtain rfl := Option.some.inj (hget.symm.trans hcap)
      exact ⟨_, (Config.set_cap _ _).trans (if_pos (Int.natCast_nonneg count))⟩
    · rw [hcapped.get?_forSolver hk] at hget
      exact takes_of_ne_cap h hothers hk hget
  refine ⟨_, configureEach_of_takes (List.Perm.refl _) solver htaken s, ?_⟩
  show Config.field (capped.forSolver checked second).get? "max_iter" _ _ = count
  rw [Config.field, hcap]
  rfl

/-- **What becomes of an iteration cap.** Of the caps that a caller can set, beside other settings
that are taken, exactly those below `2 ^ 63` become the limit of the solver. One from there on has
become negative, and it is at fault. -/
theorem configureEach_capped (h : Check.tolerance tolerance = .ok checked)
    (minimizer : Minimizer Float) (base : Config Float) (note : Remark Float → StateM σ Unit)
    (second : Bool) {u : UInt64} (hcapped : o.Capped u.toNat capped)
    (hothers : solver.TakesBesideCap o) (s : σ) :
    let outcome := ((backendWith minimizer base).configureEach note
      (capped.forSolver checked second).entries solver s).1
    (outcome.2 = .ok () ∧ (Solver.config outcome.1).iterationLimit = u.toNat ↔ u.toNat < 2 ^ 63) ∧
      (2 ^ 63 ≤ u.toNat → outcome.2 = .error (.rejectedSetting "max_iter"
        (.int (u.toNat - 2 ^ 64)) (.negative "max_iter" (u.toNat - 2 ^ 64)))) := by
  intro outcome
  rcases lt_or_ge u.toNat (2 ^ 63) with hlt | hle
  · obtain ⟨last, houtcome, hlimit⟩ :=
      configureEach_of_lt h minimizer base note second hcapped hothers hlt s
    have hlast : outcome = (last, .ok ()) := houtcome
    rw [hlast]
    exact ⟨iff_of_true ⟨rfl, hlimit⟩ hlt, fun hle ↦ absurd hlt (not_lt.mpr hle)⟩
  · have hfault := configureEach_of_le h minimizer base note second hcapped hothers hle
      u.toNat_lt s
    refine ⟨iff_of_false (fun hok ↦ ?_) (not_lt.mpr hle), fun _ ↦ hfault⟩
    cases hfault.symm.trans hok.1

/-- The largest cap that arrives, under the generic name beside another setting, and the next one,
which does not. -/
theorem configureEach_capped_largest :
    let o : Settings Float := .ofList [("disp", .int 3)]
    let largest : UInt64 := 9223372036854775807
    let next : UInt64 := 9223372036854775808
    Check.tolerance (some 0.5 : Option Float) = .ok (some 0.5) ∧ plain.TakesBesideCap o ∧
      o.get? "max_iter" = none ∧
      (configurePlain (o.maxiter largest.toNat)).2 = .ok () ∧
      (configurePlain (o.maxiter largest.toNat)).1.config.iterationLimit = largest.toNat ∧
      (configurePlain (o.maxIter next.toNat)).2 = .error (.rejectedSetting "max_iter"
        (.int (next.toNat - 2 ^ 64)) (.negative "max_iter" (next.toNat - 2 ^ 64))) := by
  intro o largest next
  have h : Check.tolerance (some 0.5 : Option Float) = .ok (some 0.5) := by decide +kernel
  have hothers : plain.TakesBesideCap o := by
    rintro name value ⟨hget, -⟩ -
    obtain ⟨rfl, rfl⟩ : name = "disp" ∧ value = .int 3 := by
      have hmem := (Table.get?_eq_some_iff o).mp hget
      exact Prod.mk.inj (List.mem_singleton.mp hmem)
    exact ⟨_, rfl⟩
  have hnone : o.get? "max_iter" = none := by decide +kernel
  have hcapped : ∀ {u : UInt64} {capped : Settings Float}, o.Capped u.toNat capped →
      ((configurePlain capped).2 = .ok () ∧
          (configurePlain capped).1.config.iterationLimit = u.toNat ↔ u.toNat < 2 ^ 63) ∧
        (2 ^ 63 ≤ u.toNat → (configurePlain capped).2 = .error (.rejectedSetting "max_iter"
          (.int (u.toNat - 2 ^ 64)) (.negative "max_iter" (u.toNat - 2 ^ 64)))) := by
    intro u capped hu
    rw [configurePlain]
    exact configureEach_capped h LimitedMemory.minimizer .standard (fun _ ↦ pure ()) false hu
      hothers ()
  have harrives := (hcapped (u := largest) (.generic hnone)).1.mpr (by decide)
  have hrefused := (hcapped (u := next) .solver).2 (by decide)
  exact ⟨h, hothers, hnone, harrives.1, harrives.2, hrefused⟩

theorem configurePlain_halfRange :
    (configurePlain (Settings.maxIter ∅ 9223372036854775808)).2
        = .error (.rejectedSetting "max_iter" (.int (-9223372036854775808))
            (.negative "max_iter" (-9223372036854775808))) ∧
      (configurePlain (Settings.maxiter ∅ 9223372036854775808)).2
        = .error (.rejectedSetting "max_iter" (.int (-9223372036854775808))
            (.negative "max_iter" (-9223372036854775808))) :=
  ⟨by decide +kernel, by decide +kernel⟩

end MultiplierMethod

end NonlinearProgram
