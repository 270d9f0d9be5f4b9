import NonlinearProgram.Problem

/-!
# From generic settings to solver settings

Callers may write `disp` and `maxiter` for what solvers call `print_level` and `max_iter`. Where
both names are present, the value under the solver's name stays and the other is dropped. After
that the settings that every run needs are filled in where they are missing. Names that are not
known here pass through unchanged.

A solver is configured in the order of the names, and the first setting it does not take ends that.
-/

namespace NonlinearProgram

namespace Settings

variable {α : Type}

/-! ## Setters -/

/-- Sets the generic verbosity. -/
def disp (s : Settings α) (level : Int) : Settings α := s.insert "disp" (.int level)

/-- Sets the generic iteration cap. -/
def maxiter (s : Settings α) (count : Nat) : Settings α := s.insert "maxiter" (.ofCount count)

/-- Sets the solver's verbosity. -/
def printLevel (s : Settings α) (level : Int) : Settings α := s.insert "print_level" (.int level)

/-- Sets the solver's iteration cap. -/
def maxIter (s : Settings α) (count : Nat) : Settings α := s.insert "max_iter" (.ofCount count)

/-- Sets the solver's tolerance. -/
def tol (s : Settings α) (value : α) : Settings α := s.insert "tol" (.num value)

/-- Sets the solver's penalty strategy. -/
def muStrategy (s : Settings α) (name : String) : Settings α := s.insert "mu_strategy" (.text name)

/-! ## Names and defaults -/

/-- Generic names with the names that solvers use. -/
def aliases : List (String × String) := [("disp", "print_level"), ("maxiter", "max_iter")]

/-- Moves the value under `former` to `current`, or drops it where `current` has a value. -/
def rename (s : Settings α) (former current : String) : Settings α :=
  match s.get? former with
  | none => s
  | some value => (s.erase former).insertNew current value

/-- Whether renaming `former` to `current` drops a value. -/
def renameDrops (s : Settings α) (former current : String) : Bool :=
  s.contains former && (s.erase former).contains current

/-- The remark on renaming `former` to `current`, if it drops a value. -/
def renameRemarks (s : Settings α) (former current : String) : List (Remark α) :=
  if renameDrops s former current then [.aliasDropped former current] else []

/-- The settings under the names that solvers use. -/
def resolve (s : Settings α) : Settings α := aliases.foldl (fun s p ↦ rename s p.1 p.2) s

/-- The remarks on resolving the names. The two pairs of names are disjoint, so each can be looked
up in the settings as they were given. -/
def resolveRemarks (s : Settings α) : List (Remark α) :=
  aliases.flatMap fun p ↦ renameRemarks s p.1 p.2

/-- The settings handed to a solver: names resolved, and where missing a quiet print level, the
tolerance, the adaptive strategy and, unless a second derivative is supplied, the limited-memory
approximation of it. -/
def forSolver [Scalar α] (s : Settings α) (tolerance : Option α) (second : Bool) : Settings α :=
  let common := (((resolve s).insertNew "print_level" (.int 0)).insertNew "tol"
    (.num (tolerance.getD 1e-8))).insertNew "mu_strategy" (.text "adaptive")
  if second then common else common.insertNew "hessian_approximation" (.text "limited-memory")

end Settings

namespace Backend

variable {α σ : Type}

/-- Hands settings to a solver one by one, with a remark before each. The solver reached comes with
the outcome: the first setting that it does not take is at fault, and later ones are not tried. -/
def configureEach (b : Backend α σ) (note : Remark α → StateM σ Unit) :
    List (String × Setting α) → b.Solver → StateM σ (b.Solver × Except (Fault α) Unit)
  | [], solver => pure (solver, .ok ())
  | (name, value) :: settings, solver => do
    note (.applying name value)
    match ← b.configure solver name value with
    | .ok next => configureEach b note settings next
    | .error reason => pure (solver, .error (.rejectedSetting name value reason))

/-- A solver with all settings, in the order of their names. -/
def configureAll (b : Backend α σ) (note : Remark α → StateM σ Unit) (settings : Settings α)
    (solver : b.Solver) : Eval α σ b.Solver :=
  ExceptT.mk do
    let (next, outcome) ← b.configureEach note settings.entries solver
    pure (outcome.map fun _ ↦ next)

end Backend

end NonlinearProgram
