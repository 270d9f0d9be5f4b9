import NonlinearProgram.Proofs.ByteOrder
import NonlinearProgram.Proofs.FloatOrder
import NonlinearProgram.Proofs.Overlay
import NonlinearProgram.Settings.ForSolver

/-!
# From a caller's settings to a configuration

A caller's setting goes to the solver under the solver's name for it, unless the caller also has a
setting of that name (`Settings.Survives`). What the solver is handed are these settings and, under
names that none of them has, the defaults (`Settings.get?_forSolver`). A checked tolerance is a
positive finite number or missing, so no default is ever refused.

`MultiplierMethod.configureEach_forSolver` puts the parts together: which callers' settings make a
solver, what its configuration is then, and otherwise which setting is at fault and how far the
configuration got.
-/

namespace NonlinearProgram

namespace Settings

variable {α : Type}

/-! ## Names

Names are resolved by renaming, one alias after the other, and renaming drops an entry whose new
name is taken. Since no alias is the solver's name of another one, the order of the renamings does
not matter. -/

/-- The solver's name for a caller's setting. -/
def solverName (name : String) : String := (aliases.lookup name).getD name

/-- A setting of the caller is handed to the solver: it has the solver's name for it, or there is no
setting of that name. -/
def Survives (s : Settings α) (name : String) (value : Setting α) : Prop :=
  s.get? name = some value ∧ ∀ current, aliases.lookup name = some current → s.get? current = none

theorem get?_rename (s : Settings α) {former current : String} (hne : former ≠ current)
    (k : String) :
    (s.rename former current).get? k =
      if k = former then none
      else if k = current then (s.get? current).or (s.get? former) else s.get? k := by
  rw [rename]
  rcases hformer : s.get? former with _ | value
  · simp only [Option.or_none]
    split
    · rw [‹k = former›, hformer]
    · split
      · rw [‹k = current›]
      · rfl
  · simp only [Table.get?_insertNew, Table.get?_erase, if_neg hne.symm]
    by_cases hk : k = former
    · rw [if_pos hk, if_pos hk, if_neg (hk ▸ hne)]
    · rw [if_neg hk, if_neg hk]
      rcases s.get? current with _ | other <;> rfl

theorem get?_resolve (s : Settings α) (k : String) :
    (resolve s).get? k =
      if k = "disp" ∨ k = "maxiter" then none
      else if k = "print_level" then (s.get? "print_level").or (s.get? "disp")
      else if k = "max_iter" then (s.get? "max_iter").or (s.get? "maxiter")
      else s.get? k := by
  have hresolve : resolve s = (s.rename "disp" "print_level").rename "maxiter" "max_iter" := rfl
  rw [hresolve, get?_rename _ (by decide), get?_rename _ (by decide), get?_rename _ (by decide),
    get?_rename _ (by decide)]
  by_cases hdisp : k = "disp"
  · simp [hdisp]
  by_cases hmaxiter : k = "maxiter"
  · simp [hmaxiter]
  by_cases hlevel : k = "print_level"
  · simp [hlevel]
  by_cases hiter : k = "max_iter"
  · simp [hiter]
  · simp [hdisp, hmaxiter, hlevel, hiter]

theorem lookup_aliases (name : String) :
    aliases.lookup name =
      if name = "disp" then some "print_level"
      else if name = "maxiter" then some "max_iter" else none := by
  simp only [aliases, Table.lookup_entry_cons, List.lookup_nil]

theorem survives_of_not_alias {s : Settings α} {name : String} {value : Setting α}
    (hname : aliases.lookup name = none) : s.Survives name value ↔ s.get? name = some value := by
  refine and_iff_left fun current hcurrent ↦ ?_
  cases hname.symm.trans hcurrent

theorem survives_of_alias {s : Settings α} {name current : String} {value : Setting α}
    (hname : aliases.lookup name = some current) :
    s.Survives name value ↔ s.get? name = some value ∧ s.get? current = none := by
  simp only [Survives, hname, Option.some_inj, forall_eq']

theorem get?_resolve_eq_some_iff {s : Settings α} {k : String} {value : Setting α} :
    (resolve s).get? k = some value ↔ ∃ name, s.Survives name value ∧ solverName name = k := by
  have hown : ∀ {name}, name ≠ "disp" → name ≠ "maxiter" → aliases.lookup name = none := by
    intro name hdisp hmaxiter
    rw [lookup_aliases, if_neg hdisp, if_neg hmaxiter]
  rw [get?_resolve]
  constructor
  · intro h
    split at h
    · cases h
    rename_i halias
    obtain ⟨hdisp, hmaxiter⟩ := not_or.mp halias
    have hk : solverName k = k := by rw [solverName, hown hdisp hmaxiter, Option.getD_none]
    split at h
    · subst k
      rcases Option.or_eq_some_iff.mp h with h | ⟨hnone, h⟩
      · exact ⟨_, (survives_of_not_alias rfl).mpr h, rfl⟩
      · exact ⟨"disp", (survives_of_alias rfl).mpr ⟨h, hnone⟩, rfl⟩
    split at h
    · subst k
      rcases Option.or_eq_some_iff.mp h with h | ⟨hnone, h⟩
      · exact ⟨_, (survives_of_not_alias rfl).mpr h, rfl⟩
      · exact ⟨"maxiter", (survives_of_alias rfl).mpr ⟨h, hnone⟩, rfl⟩
    · exact ⟨k, (survives_of_not_alias (hown hdisp hmaxiter)).mpr h, hk⟩
  · rintro ⟨name, hsurvives, rfl⟩
    by_cases hdisp : name = "disp"
    · subst hdisp
      obtain ⟨h, hnone⟩ := (survives_of_alias rfl).mp hsurvives
      have hlevel : solverName "disp" = "print_level" := rfl
      simp [hlevel, hnone, h]
    by_cases hmaxiter : name = "maxiter"
    · subst hmaxiter
      obtain ⟨h, hnone⟩ := (survives_of_alias rfl).mp hsurvives
      have hiter : solverName "maxiter" = "max_iter" := rfl
      simp [hiter, hnone, h]
    have hname := hown hdisp hmaxiter
    have h := (survives_of_not_alias hname).mp hsurvives
    rw [solverName, hname, Option.getD_none, if_neg (not_or.mpr ⟨hdisp, hmaxiter⟩)]
    split
    · subst name
      rw [h, Option.some_or]
    split
    · subst name
      rw [h, Option.some_or]
    · exact h

/-! ## Defaults

A default is filled in where its name is free, so it never replaces what the caller set, and it is
always of a kind and in a range that the solver takes. -/

/-- The settings that are filled in where the caller has none. -/
def defaults [Scalar α] (tolerance : Option α) : List (String × Setting α) :=
  [("print_level", .int 0), ("tol", .num (tolerance.getD 1e-8)), ("mu_strategy", .text "adaptive"),
    ("hessian_approximation", .text "limited-memory")]

theorem mem_defaults [Scalar α] {tolerance : Option α} {k : String} {value : Setting α}
    (h : (defaults tolerance).lookup k = some value) : (k, value) ∈ defaults tolerance := by
  refine (Table.lookup_eq_some_iff ?_).mp h
  simp [defaults]

theorem get?_insertNew_eq_or (s : Settings α) (name k : String) (value : Setting α) :
    (s.insertNew name value).get? k = (s.get? k).or ([(name, value)].lookup k) := by
  rw [Table.get?_insertNew, Table.lookup_entry_cons, List.lookup_nil]
  split
  · subst k
    rcases s.get? name with _ | _ <;> rfl
  · rw [Option.or_none]

theorem lookup_cons_cons (e e' : String × Setting α) (es : List (String × Setting α)) (k : String) :
    (e :: e' :: es).lookup k = ([e].lookup k).or ((e' :: es).lookup k) := by
  rw [Table.lookup_entry_cons, Table.lookup_entry_cons k e [], List.lookup_nil]
  split <;> rfl

/-- The settings handed to a solver without second derivatives: those that survive, and the
defaults. -/
theorem get?_forSolver [Scalar α] (s : Settings α) (tolerance : Option α) (k : String) :
    (s.forSolver tolerance false).get? k
      = ((resolve s).get? k).or ((defaults tolerance).lookup k) := by
  simp only [forSolver, defaults, Bool.false_eq_true, if_false, get?_insertNew_eq_or,
    lookup_cons_cons, Option.or_assoc]

theorem forSolver_cases [Scalar α] {s : Settings α} {tolerance : Option α} {k : String}
    {value : Setting α} (h : (s.forSolver tolerance false).get? k = some value) :
    (∃ name, s.Survives name value ∧ solverName name = k) ∨
      (k, value) ∈ defaults tolerance := by
  rw [get?_forSolver] at h
  rcases Option.or_eq_some_iff.mp h with hresolve | ⟨-, hdefault⟩
  · exact Or.inl (get?_resolve_eq_some_iff.mp hresolve)
  · exact Or.inr (mem_defaults hdefault)

end Settings

theorem Config.takes_default {tolerance checked : Option Float}
    (h : Check.tolerance tolerance = .ok checked) (c : Config Float) :
    ∀ e ∈ Settings.defaults checked, c.Takes e.1 e.2 := by
  have hpositive : ∀ t : Float, checked = some t → Scalar.isFinite t = true ∧ ¬t ≤ 0.0 := by
    rintro t rfl
    rcases tolerance with _ | t'
    · cases h
    rw [Check.tolerance] at h
    split at h
    · cases h
    rename_i hzero
    split at h
    · cases h
    rename_i hfinite
    split at h
    · cases h
    rename_i hnegative
    cases h
    refine ⟨by simpa using hfinite, fun hle ↦ ?_⟩
    rcases FloatOrder.le_iff.mp hle with hlt | heq
    · exact hnegative hlt
    · exact hzero heq
  have htol : Scalar.isFinite (checked.getD 1e-8) = true ∧ ¬checked.getD 1e-8 ≤ 0.0 := by
    rcases checked with _ | t
    · exact ⟨by decide, by decide⟩
    · exact hpositive t rfl
  have htakes : c.Takes "tol" (.num (checked.getD 1e-8)) := by
    have hread :
        Config.readPositive "tol" (.num (checked.getD 1e-8)) = .ok (checked.getD 1e-8) := by
      simp [Config.readPositive, Setting.toNum?, htol]
    refine ⟨{ c with tolerance := checked.getD 1e-8 }, ?_⟩
    show (Config.readPositive "tol" (.num (checked.getD 1e-8)) >>= fun v ↦
      pure { c with tolerance := v }) = _
    rw [hread]
    rfl
  simp only [Settings.defaults, List.forall_mem_cons]
  exact ⟨⟨_, rfl⟩, htakes, ⟨_, rfl⟩, ⟨_, rfl⟩, fun _ h ↦ absurd h List.not_mem_nil⟩

/-! ## Configuring a solver

A solver is handed the entries in the order of their names and stops at the first that it refuses.
Since settings of different names commute, all that is needed of a list of entries is which of them
are refused, and where the first of these stands. -/

namespace MultiplierMethod

variable {σ : Type}

/-- What comes of handing a solver the settings that are made from those of a caller. -/
structure Configured (o : Settings Float) (checked : Option Float) (solver : Solver Float σ)
    (outcome : Solver Float σ × Except (Fault Float) Unit) : Prop where
  succeeds_iff : outcome.2 = .ok () ↔
    ∀ name value, o.Survives name value → solver.config.Takes (Settings.solverName name) value
  /-- A setting that none of the caller's became is taken. -/
  default_taken : ∀ k value, (o.forSolver checked false).get? k = some value →
    (∀ name own, o.Survives name own → Settings.solverName name ≠ k) → solver.config.Takes k value
  solver_eq : outcome.2 = .ok () → outcome.1 = solver.overlay (o.forSolver checked false).get?
  /-- The first setting that is refused, in the order of the bytes of names, is at fault, and the
  solver reached has the settings before it. -/
  fault_eq : outcome.2 ≠ .ok () → ∃ k value reason,
    (o.forSolver checked false).get? k = some value ∧
    solver.config.set k value = .error reason ∧
    outcome.2 = .error (.rejectedSetting k value reason) ∧
    (∀ k' value', (o.forSolver checked false).get? k' = some value' →
      ¬solver.config.Takes k' value' → k' = k ∨ Table.bytes k < Table.bytes k') ∧
    outcome.1 = solver.overlay fun k' ↦
      if Table.bytes k' < Table.bytes k then (o.forSolver checked false).get? k' else none

variable {minimizer : Minimizer Float} {base : Config Float} {note : Remark Float → StateM σ Unit}
  {tolerance checked : Option Float} {o : Settings Float}

theorem takes_forSolver_iff (h : Check.tolerance tolerance = .ok checked) (c : Config Float) :
    (∀ e ∈ (o.forSolver checked false).entries, c.Takes e.1 e.2) ↔
      ∀ name value, o.Survives name value → c.Takes (Settings.solverName name) value := by
  constructor
  · intro htaken name value hsurvives
    refine htaken (Settings.solverName name, value) ((Table.get?_eq_some_iff _).mp ?_)
    rw [Settings.get?_forSolver, Settings.get?_resolve_eq_some_iff.mpr ⟨name, hsurvives, rfl⟩,
      Option.some_or]
  · rintro htaken ⟨k, value⟩ he
    rcases Settings.forSolver_cases ((Table.get?_eq_some_iff _).mpr he) with
      ⟨name, hsurvives, rfl⟩ | hdefault
    · exact htaken name value hsurvives
    · exact Config.takes_default h c _ hdefault

theorem configureEach_of_takes {entries : List (String × Setting Float)} {T : Settings Float}
    (hentries : entries.Perm T.entries) (solver : Solver Float σ)
    (htaken : ∀ e ∈ T.entries, solver.config.Takes e.1 e.2) (s : σ) :
    ((backendWith minimizer base : Backend Float σ).configureEach note entries solver s).1
      = (solver.overlay T.get?, .ok ()) := by
  have hne : entries.Pairwise fun a b ↦ a.1 ≠ b.1 :=
    T.pairwise_ne.perm hentries.symm fun hne ↦ hne.symm
  rcases configureEach_cases minimizer base note hne solver s with
    ⟨-, h⟩ | ⟨front, name, value, rest, reason, rfl, -, hset, -⟩
  · have hlookup : (fun k ↦ entries.lookup k) = T.get? :=
      funext fun k ↦ Table.lookup_perm T.pairwise_ne hentries.symm k
    rw [h, hlookup]
  · have hmem : (name, value) ∈ T.entries :=
      hentries.mem_iff.mp (List.mem_append_right _ List.mem_cons_self)
    exact absurd (htaken _ hmem) (Config.not_takes_iff.mpr ⟨reason, hset⟩)

theorem takes_of_forall_ne (h : Check.tolerance tolerance = .ok checked) (c : Config Float)
    {k : String} {value : Setting Float} (hget : (o.forSolver checked false).get? k = some value)
    (hnone : ∀ name own, o.Survives name own → Settings.solverName name ≠ k) :
    c.Takes k value := by
  rcases Settings.forSolver_cases hget with ⟨name, hsurvives, hname⟩ | hdefault
  · exact absurd hname (hnone name value hsurvives)
  · exact Config.takes_default h c _ hdefault

theorem configured_of_takes (h : Check.tolerance tolerance = .ok checked)
    {solver : Solver Float σ}
    (htaken : ∀ e ∈ (o.forSolver checked false).entries, solver.config.Takes e.1 e.2) :
    Configured o checked solver (solver.overlay (o.forSolver checked false).get?, .ok ()) where
  succeeds_iff := iff_of_true rfl ((takes_forSolver_iff h solver.config).mp htaken)
  default_taken _ _ := takes_of_forall_ne h solver.config
  solver_eq _ := rfl
  fault_eq hne := absurd rfl hne

theorem configured_of_refused (h : Check.tolerance tolerance = .ok checked)
    {solver : Solver Float σ} {front rest : List (String × Setting Float)} {k : String}
    {value : Setting Float} {reason : Rejection Float}
    (hsplit : (o.forSolver checked false).entries = front ++ (k, value) :: rest)
    (hfront : ∀ e ∈ front, solver.config.Takes e.1 e.2)
    (hset : solver.config.set k value = .error reason) :
    Configured o checked solver (solver.overlay (fun k' ↦ front.lookup k'),
      .error (.rejectedSetting k value reason)) := by
  have hrefused : ¬solver.config.Takes k value := Config.not_takes_iff.mpr ⟨reason, hset⟩
  have hmem : (k, value) ∈ (o.forSolver checked false).entries := by
    rw [hsplit]
    exact List.mem_append_right _ List.mem_cons_self
  refine ⟨iff_of_false nofun fun htaken ↦ ?_, fun _ _ ↦ takes_of_forall_ne h solver.config, nofun,
    fun _ ↦ ⟨k, value, reason, (Table.get?_eq_some_iff _).mpr hmem, hset, rfl, ?_, ?_⟩⟩
  · exact hrefused ((takes_forSolver_iff h solver.config).mpr htaken _ hmem)
  · intro k' value' hget hrefused'
    rcases Table.mem_front_or_le hsplit hget with hmem' | heq | hlt
    · exact absurd (hfront _ hmem') hrefused'
    · exact Or.inl heq
    · exact Or.inr ((Table.lt_iff_bytes_lt k k').mp hlt)
  · refine congrArg solver.overlay (funext fun k' ↦ ?_)
    rw [Table.lookup_front hsplit]
    exact if_congr (Table.lt_iff_bytes_lt k' k) rfl rfl

/-- **From a caller's settings to a configuration.** With a checked tolerance, the settings made
from those of a caller are all taken when those are that survive, and then they may come in any
order. -/
theorem configureEach_forSolver (h : Check.tolerance tolerance = .ok checked)
    (minimizer : Minimizer Float) (base : Config Float) (note : Remark Float → StateM σ Unit)
    (o : Settings Float) (solver : Solver Float σ) (s : σ) :
    let settings := o.forSolver checked false
    Configured o checked solver
        ((backendWith minimizer base).configureEach note settings.entries solver s).1 ∧
      ((∀ name value, o.Survives name value →
          solver.config.Takes (Settings.solverName name) value) →
        ∀ entries, entries.Perm settings.entries →
          ((backendWith minimizer base).configureEach note entries solver s).1
            = (solver.overlay settings.get?, .ok ())) := by
  intro settings
  constructor
  · rcases configureEach_cases minimizer base note settings.pairwise_ne solver s with
      ⟨htaken, -⟩ | ⟨front, k, value, rest, reason, hsplit, hfront, hset, houtcome⟩
    · rw [configureEach_of_takes (List.Perm.refl _) solver htaken s]
      exact configured_of_takes h htaken
    · rw [houtcome]
      exact configured_of_refused h hsplit hfront hset
  · intro htaken entries hentries
    have hall := (takes_forSolver_iff h solver.config).mpr htaken
    exact configureEach_of_takes hentries solver hall s

/-- A solver of a problem that is constant. -/
def plain : Solver Float Unit where
  problem := ⟨fun _ ↦ pure 0.0, fun _ ↦ pure [], fun _ ↦ pure [], fun _ ↦ pure ⟨0, []⟩,
    fun _ ↦ pure true, fun _ ↦ pure ()⟩
  layout := .ofBounds 1 ⟨none, none, [], []⟩
  config := .standard

/-- Hands `plain` the settings that are made from those of a caller, with a tolerance of 0.5. -/
def configurePlain (o : Settings Float) : Solver Float Unit × Except (Fault Float) Unit :=
  ((backendWith LimitedMemory.minimizer .standard).configureEach (fun _ ↦ pure ())
    (o.forSolver (some 0.5) false).entries plain ()).1

/-- The value of an alias is not looked at where the solver's name has a value. A tolerance below
zero under that name is at fault, before a name that nobody knows, and the settings in front of it
are there. -/
theorem configureEach_forSolver_clash :
    let taken : Settings Float :=
      .ofList [("disp", .text "loud"), ("print_level", .int 3), ("maxiter", .int 50)]
    let refused : Settings Float := taken.union (.ofList [("zeta", .int 1), ("tol", .num (-1.0))])
    Check.tolerance (some 0.5 : Option Float) = .ok (some 0.5) ∧
      Configured taken (some 0.5) plain (configurePlain taken) ∧
      (configurePlain taken).2 = .ok () ∧
      (configurePlain taken).1.config = ⟨3, 50, 0.5, 1e-4, 1e-6, .adaptive, 0.1, 6⟩ ∧
      Configured refused (some 0.5) plain (configurePlain refused) ∧
      (configurePlain refused).2
        = .error (.rejectedSetting "tol" (.num (-1.0)) (.notPositive "tol" (-1.0))) ∧
      (configurePlain refused).1.config = ⟨3, 50, 1e-8, 1e-4, 1e-6, .adaptive, 0.1, 6⟩ := by
  intro taken refused
  have h : Check.tolerance (some 0.5 : Option Float) = .ok (some 0.5) := by decide +kernel
  have hconfigured : ∀ o, Configured o (some 0.5) plain (configurePlain o) := fun o ↦
    (configureEach_forSolver h LimitedMemory.minimizer .standard (fun _ ↦ pure ()) o plain ()).1
  exact ⟨h, hconfigured taken, by decide +kernel, by decide +kernel, hconfigured refused,
    by decide +kernel, by decide +kernel⟩

end MultiplierMethod

namespace Settings

variable {α : Type} [Scalar α]

/-! ## What is found under a name

What a solver finds under a name is one of five things: nothing, under the generic names; the
caller's own setting; where there is none, the setting under a generic name for it; else a default,
for the names that have one; and under all other names what the caller has there
(`Settings.handed`). The walk that moves, drops and fills in entries comes to this, whatever
combination of names is present (`Settings.get?_forSolver_eq_handed`). -/

/-- What a solver is handed under a name. -/
def handed (o : Settings α) (tolerance : Option α) (second : Bool) (k : String) :
    Option (Setting α) :=
  match k with
  | "disp" => none
  | "maxiter" => none
  | "print_level" => some (((o.get? "print_level").or (o.get? "disp")).getD (.int 0))
  | "max_iter" => (o.get? "max_iter").or (o.get? "maxiter")
  | "tol" => some ((o.get? "tol").getD (.num (tolerance.getD 1e-8)))
  | "mu_strategy" => some ((o.get? "mu_strategy").getD (.text "adaptive"))
  | "hessian_approximation" =>
    if second then o.get? "hessian_approximation"
    else some ((o.get? "hessian_approximation").getD (.text "limited-memory"))
  | k => o.get? k

omit [Scalar α] in
theorem get?_insertNew_self (s : Settings α) (name : String) (value : Setting α) :
    (s.insertNew name value).get? name = some ((s.get? name).getD value) := by
  rw [Table.get?_insertNew, if_pos rfl]

omit [Scalar α] in
theorem get?_insertNew_of_ne (s : Settings α) {name k : String} (value : Setting α)
    (hne : k ≠ name) : (s.insertNew name value).get? k = s.get? k := by
  rw [Table.get?_insertNew, if_neg hne]

theorem get?_forSolver_of_ne (o : Settings α) (tolerance : Option α) (second : Bool) {k : String}
    (hne : k ≠ "hessian_approximation") :
    (o.forSolver tolerance second).get? k
      = ((((resolve o).insertNew "print_level" (.int 0)).insertNew "tol"
          (.num (tolerance.getD 1e-8))).insertNew "mu_strategy" (.text "adaptive")).get? k := by
  cases second with
  | false => exact get?_insertNew_of_ne _ _ hne
  | true => rfl

theorem get?_forSolver_eq_handed (o : Settings α) (tolerance : Option α) (second : Bool)
    (k : String) : (o.forSolver tolerance second).get? k = o.handed tolerance second k := by
  unfold handed
  split
  case h_7 =>
    cases second with
    | false =>
      simp (disch := decide) only [forSolver, Bool.false_eq_true, get?_insertNew_self,
        get?_insertNew_of_ne, get?_resolve, if_neg]
    | true =>
      simp (disch := decide) only [forSolver, if_true, get?_insertNew_of_ne, get?_resolve, if_neg]
  case h_8 hdisp hmaxiter hlevel hiter htol hstrategy happroximation =>
    -- neither the generic names nor the defaults have to do with any other name
    rw [get?_forSolver_of_ne _ _ _ happroximation, get?_insertNew_of_ne _ _ hstrategy,
      get?_insertNew_of_ne _ _ htol, get?_insertNew_of_ne _ _ hlevel, get?_resolve,
      if_neg (not_or.mpr ⟨hdisp, hmaxiter⟩), if_neg hlevel, if_neg hiter]
  all_goals
    simp (disch := decide) only [get?_forSolver_of_ne, get?_insertNew_self, get?_insertNew_of_ne,
      get?_resolve, if_pos, if_neg]

/-! ## Settings that were made for a solver

Settings that were made for a solver have no generic name and lack no default, so making settings
for a solver from them changes nothing, with whatever tolerance. -/

section Made

omit [Scalar α]

variable {s : Settings α}

theorem insertNew_of_contains {name : String} (h : s.contains name = true) (value : Setting α) :
    s.insertNew name value = s := by
  rw [Table.insertNew, if_pos h]

theorem rename_of_get? {former : String} (h : s.get? former = none) (current : String) :
    s.rename former current = s := by
  rw [rename, h]

theorem resolve_of_get? (hdisp : s.get? "disp" = none) (hmaxiter : s.get? "maxiter" = none) :
    resolve s = s := by
  have hresolve : resolve s = (s.rename "disp" "print_level").rename "maxiter" "max_iter" := rfl
  rw [hresolve, rename_of_get? hdisp, rename_of_get? hmaxiter]

end Made

theorem forSolver_of_contains {s : Settings α} {second : Bool} (hdisp : s.get? "disp" = none)
    (hmaxiter : s.get? "maxiter" = none) (hlevel : s.contains "print_level" = true)
    (htol : s.contains "tol" = true) (hstrategy : s.contains "mu_strategy" = true)
    (happroximation : second = false → s.contains "hessian_approximation" = true)
    (tolerance : Option α) : s.forSolver tolerance second = s := by
  rw [forSolver, resolve_of_get? hdisp hmaxiter, insertNew_of_contains hlevel,
    insertNew_of_contains htol, insertNew_of_contains hstrategy]
  cases second with
  | false => exact insertNew_of_contains (happroximation rfl) _
  | true => rfl

theorem forSolver_forSolver (o : Settings α) (tolerance other : Option α) (second : Bool) :
    (o.forSolver tolerance second).forSolver other second = o.forSolver tolerance second := by
  have hget := get?_forSolver_eq_handed o tolerance second
  have hcontains : ∀ {k value}, o.handed tolerance second k = some value →
      (o.forSolver tolerance second).contains k = true := fun {k value} h ↦ by
    rw [Table.contains, hget, h]
    rfl
  refine forSolver_of_contains (hget "disp") (hget "maxiter") (hcontains rfl) (hcontains rfl)
    (hcontains rfl) ?_ other
  rintro rfl
  exact hcontains rfl

/-- **What a solver is handed.** The settings that are made for a solver are, name by name, the ones
that it is to be handed, and settings that were made for a solver stay what they are. -/
theorem forSolver_handed (o : Settings α) (tolerance : Option α) (second : Bool) :
    (∀ k, (o.forSolver tolerance second).get? k = o.handed tolerance second k) ∧
      ∀ other, (o.forSolver tolerance second).forSolver other second
        = o.forSolver tolerance second :=
  ⟨get?_forSolver_eq_handed o tolerance second, fun other ↦
    forSolver_forSolver o tolerance other second⟩

end Settings

end NonlinearProgram
