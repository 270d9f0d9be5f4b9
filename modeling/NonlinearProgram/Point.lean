import NonlinearProgram.Scalar

/-!
# Points and matrices

A point is the list of its coordinates; values of stacked constraints and gradients have the
same shape. Each operation rounds once a coordinate, and where two lengths differ it stops at the
shorter one.

`Point.dot` fixes the order in which products are summed: eight running sums over blocks of
eight, folded pairwise, and then the remaining products one by one. `Point.norm` and
`Point.maxNorm` run from the first coordinate to the last.

A matrix is its list of rows beside its number of columns, which a matrix without rows still has.
`Matrix.ofColumns` builds one column after the other, as a derivative is probed one variable at a
time, and `Matrix.stack` puts the rows of several blocks below one another.
-/

namespace NonlinearProgram

/-- The coordinates of a point, or the entries of any other vector. -/
abbrev Point (α : Type) : Type := List α

namespace Point

variable {α : Type}

/-- The point with `n` coordinates that `x` stands for: a single coordinate stands for all. -/
def spread (x : Point α) (n : Nat) : Point α :=
  match x with
  | [a] => List.replicate n a
  | x => x

/-- A point that has its length stands for itself. -/
@[simp] theorem spread_length (x : Point α) : x.spread x.length = x := by
  match x with
  | [] | [_] | _ :: _ :: _ => rfl

variable [Scalar α]

def add (x y : Point α) : Point α := List.zipWith (· + ·) x y

def sub (x y : Point α) : Point α := List.zipWith (· - ·) x y

/-- Every coordinate times `t`. -/
def scale (x : Point α) (t : α) : Point α := x.map (· * t)

/-- The point `x + t y`. -/
def addScaled (x : Point α) (t : α) (y : Point α) : Point α :=
  List.zipWith (fun a b ↦ a + t * b) x y

/-- The point `x` with `h` added to coordinate `j`. -/
def shift (x : Point α) (j : Nat) (h : α) : Point α := x.modify j (· + h)

/-- The coordinate `i`, and zero beyond the last one. -/
def coord (x : Point α) (i : Nat) : α := x.getD i 0.0

/-- The point of `n` zeros. -/
def zeros (n : Nat) : Point α := List.replicate n 0.0

/-- Coordinatewise equality of two points of one length. -/
def same (x y : Point α) : Bool := x == y

/-- The largest magnitude of a coordinate; undefined ones are ignored. -/
def maxNorm (x : Point α) : α := x.foldl (fun m a ↦ Scalar.max m (Scalar.abs a)) 0.0

/-- The Euclidean length. -/
def norm (x : Point α) : α := Scalar.sqrt (x.foldl (fun s a ↦ s + Scalar.square a) 0.0)

/-! ## Inner products -/

/-- Eight running sums. -/
structure Lanes (α : Type) where
  s0 : α
  s1 : α
  s2 : α
  s3 : α
  s4 : α
  s5 : α
  s6 : α
  s7 : α

/-- The running sums before the first block. -/
def Lanes.zero : Lanes α := ⟨0.0, 0.0, 0.0, 0.0, 0.0, 0.0, 0.0, 0.0⟩

/-- The total of eight running sums, lane `i` paired with lane `i + 4`. -/
def Lanes.total (l : Lanes α) : α :=
  0.0 + (l.s0 + l.s4) + (l.s1 + l.s5) + (l.s2 + l.s6) + (l.s3 + l.s7)

/-- The products of two lists, added one by one to `s`. -/
def addProducts (s : α) : List α → List α → α
  | a :: x, b :: y => addProducts (s + a * b) x y
  | _, _ => s

/-- Adds whole blocks of eight products to the lanes, then what is left to their total. -/
def dotFrom (l : Lanes α) : List α → List α → α
  | a0 :: a1 :: a2 :: a3 :: a4 :: a5 :: a6 :: a7 :: x,
    b0 :: b1 :: b2 :: b3 :: b4 :: b5 :: b6 :: b7 :: y =>
    dotFrom ⟨l.s0 + a0 * b0, l.s1 + a1 * b1, l.s2 + a2 * b2, l.s3 + a3 * b3,
      l.s4 + a4 * b4, l.s5 + a5 * b5, l.s6 + a6 * b6, l.s7 + a7 * b7⟩ x y
  | x, y => addProducts l.total x y

/-- The inner product. -/
def dot (x y : Point α) : α := dotFrom Lanes.zero x y

end Point

/-! ## Dense matrices -/

/-- The rows of a matrix, each meant to have `width` entries. -/
structure Matrix (α : Type) where
  width : Nat
  rows : List (List α)

namespace Matrix

variable {α : Type}

/-- The number of rows. -/
def height (a : Matrix α) : Nat := a.rows.length

/-- The number of rows and of columns. -/
def shape (a : Matrix α) : Nat × Nat := (a.height, a.width)

/-- Row `j`, and no entries beyond the last row. -/
def row (a : Matrix α) (j : Nat) : List α := a.rows.getD j []

/-- The matrix with `height` rows whose columns are given. -/
def ofColumns [Scalar α] (height : Nat) (columns : List (Point α)) : Matrix α where
  width := columns.length
  rows := (List.range height).map fun i ↦ columns.map fun c ↦ c.coord i

/-- The matrix with the rows of `a` as its columns. -/
def transpose [Scalar α] (a : Matrix α) : Matrix α := .ofColumns a.width a.rows

/-- The matrix of zeros. -/
def zeros [Scalar α] (height width : Nat) : Matrix α where
  width := width
  rows := List.replicate height (Point.zeros width)

/-- The blocks below one another, each of the given width. -/
def stack (width : Nat) (blocks : List (Matrix α)) : Matrix α where
  width := width
  rows := blocks.flatMap Matrix.rows

end Matrix

end NonlinearProgram
