import NonlinearProgram.Decimal
import NonlinearProgram.Model.Callback
import NonlinearProgram.Text.Quoted

/-!
# Descriptions of models

What a model says of its parts where it is shown to a person: the forms of its callbacks, which
cannot be shown themselves, and the parameters that go with them. Numbers are written as data, so a
whole number keeps its point. A vector of five hundred entries or more is cut to the first and the
last five.
-/

namespace NonlinearProgram

namespace Description

/-- A number as data. -/
def number (x : Float) : String := Style.general.write x

/-- Texts with commas between them. -/
def commas (texts : List String) : String := ", ".intercalate texts

/-- The entries of a vector that are shown. -/
def shown (texts : List String) : List String :=
  if texts.length < 500 then texts
  else texts.take 5 ++ ["..."] ++ texts.drop (texts.length - 5)

/-- A vector with its storage: entries next to each other, or none. -/
def vector (x : Point Float) : String :=
  let stride := if x.isEmpty then 0 else 1
  s!"[{commas (shown (x.map number))}], shape=[{x.length}], strides=[{stride}], " ++
    "layout=CFcf (0xf), const ndim=1"

/-- A parameter. -/
def parameter : Parameter Float → String
  | .scalar value => s!"Scalar({number value})"
  | .vector values => s!"Vector({vector values})"
  | .text value => s!"Text({quoted value})"

/-- The parameters of a callback, those by position before those by name. -/
def parameters (p : Parameters Float) : String :=
  let named := p.named.entries.map fun e ↦ quoted e.1 ++ ": " ++ parameter e.2
  s!"Args \x7b positional: [{commas (p.positional.map parameter)}], " ++
    s!"keyword: \x7b{commas named}\x7d \x7d"

/-- An objective by its form. -/
def objective {σ : Type} (f : Objective Float σ) : String := s!"Objective::{f.form}"

/-- A gradient by its form. -/
def gradient {σ : Type} (g : Gradient Float σ) : String := s!"GradientSpec::{g.form}"

/-- A kind of constraint. -/
def kind : ConstraintKind → String
  | .equality => "Equality"
  | .inequality => "Inequality"

/-- A constraint: its kind, whether it has a derivative, and its parameters. -/
def constraint {σ : Type} (c : Constraint Float σ) : String :=
  s!"ConstraintSpec \x7b kind: {kind c.kind}, jac: {c.derivative.isSome}, " ++
    s!"args: {parameters c.parameters} \x7d"

end Description

end NonlinearProgram
