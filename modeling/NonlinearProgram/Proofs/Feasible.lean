import Mathlib.Data.List.Forall2
import NonlinearProgram.Proofs.Projection
import NonlinearProgram.Proofs.Stacking

/-!
# Feasible points

A request states its constraints as kinds of rows and as pairs of bounds; a solver works with terms.
In between, pairs are cut off at `Box.limit`, kinds become bounds of as many rows as were counted,
and bounds become terms, where those of the size of the limit are dropped and those of an equality
row collapse into one. In exact arithmetic nothing is lost on the way: below the limit the points at
which all terms hold are those that the request allows (`Layout.holds_ofBounds_iff`).
-/

namespace NonlinearProgram

/-! ## Cut off bounds

The pairs are taken one by one, and the first that is not accepted refuses them all. Of an accepted
pair each side is cut on its own. -/

namespace Box

variable {α : Type} [Scalar α]

/-- A pair of bounds, cut off at the limit. -/
def cut (pair : α × α) : α × α := (Scalar.max pair.1 (-limit), Scalar.min pair.2 limit)

/-- A pair of bounds is accepted if both are defined and the upper one is not the lesser one. -/
def Accepts (pair : α × α) : Prop :=
  Scalar.isUndefined pair.1 = false ∧ Scalar.isUndefined pair.2 = false ∧ ¬pair.2 < pair.1

theorem side_eq_ok {index : ℕ} {pair first : α × α} :
    side index pair = .ok first ↔ Accepts pair ∧ cut pair = first := by
  have hrefuse : (Scalar.isUndefined pair.1 || Scalar.isUndefined pair.2 || pair.2 < pair.1) = true
      ↔ ¬Accepts pair := by
    rw [Accepts]
    cases Scalar.isUndefined pair.1 <;> cases Scalar.isUndefined pair.2 <;> simp
  rw [side]
  split
  · rename_i h
    exact ⟨nofun, fun hok ↦ absurd hok.1 (hrefuse.mp h)⟩
  · rename_i h
    rw [Except.ok.injEq]
    exact (and_iff_right (not_not.mp fun hnot ↦ h (hrefuse.mpr hnot))).symm

theorem sides_eq_ok {index : ℕ} {pairs cuts : List (α × α)} :
    sides index pairs = .ok cuts ↔ (∀ p ∈ pairs, Accepts p) ∧ pairs.map cut = cuts := by
  induction pairs generalizing index cuts with
  | nil => simp [sides]
  | cons pair pairs ih =>
    rw [List.forall_mem_cons, List.map_cons]
    constructor
    · intro h
      obtain ⟨first, hfirst, h⟩ := Except.bind_eq_ok.mp h
      obtain ⟨rest, hrest, h⟩ := Except.bind_eq_ok.mp h
      obtain ⟨hpair, rfl⟩ := side_eq_ok.mp hfirst
      obtain ⟨hpairs, rfl⟩ := ih.mp hrest
      cases h
      exact ⟨⟨hpair, hpairs⟩, rfl⟩
    · rintro ⟨⟨hpair, hpairs⟩, rfl⟩
      exact Except.bind_eq_ok.mpr ⟨_, side_eq_ok.mpr ⟨hpair, rfl⟩,
        Except.bind_eq_ok.mpr ⟨_, ih.mpr ⟨hpairs, rfl⟩, rfl⟩⟩

theorem ofPairs_eq_ok_iff {pairs : List (α × α)} {n : ℕ} {lower upper : Option (Point α)} :
    ofPairs (some pairs) n = .ok (lower, upper) ↔ pairs.length = n ∧ (∀ p ∈ pairs, Accepts p) ∧
      lower = some (pairs.map fun p ↦ (cut p).1) ∧ upper = some (pairs.map fun p ↦ (cut p).2) := by
  constructor
  · intro h
    obtain ⟨_, hcount, h⟩ := Except.bind_eq_ok.mp h
    obtain ⟨cuts, hcuts, h⟩ := Except.bind_eq_ok.mp h
    obtain ⟨hpairs, rfl⟩ := sides_eq_ok.mp hcuts
    cases h
    rw [List.map_map, List.map_map]
    exact ⟨Check.count_eq_ok.mp hcount, hpairs, rfl, rfl⟩
  · rintro ⟨hcount, hpairs, rfl, rfl⟩
    refine Except.bind_eq_ok.mpr ⟨(), Check.count_eq_ok.mpr hcount, ?_⟩
    refine Except.bind_eq_ok.mpr ⟨_, sides_eq_ok.mpr ⟨hpairs, rfl⟩, ?_⟩
    rw [List.map_map, List.map_map]
    rfl

theorem ofPairs_eq_ok {pairs : List (α × α)} {n : ℕ} {lower upper : Option (Point α)}
    (h : ofPairs (some pairs) n = .ok (lower, upper)) :
    pairs.length = n ∧ lower = some (pairs.map fun p ↦ (cut p).1) ∧
      upper = some (pairs.map fun p ↦ (cut p).2) :=
  ⟨(ofPairs_eq_ok_iff.mp h).1, (ofPairs_eq_ok_iff.mp h).2.2⟩

theorem accepts_of_ofPairs {pairs : List (α × α)} {n : ℕ} {lower upper : Option (Point α)}
    (h : ofPairs (some pairs) n = .ok (lower, upper)) : ∀ p ∈ pairs, Accepts p :=
  (ofPairs_eq_ok_iff.mp h).2.1

end Box

/-! ## Rows and their kinds

A constraint has one kind and any number of rows. Stacking repeats its kind that many times, so that
a block without rows leaves no trace. -/

section Rows

variable {β : Type}

namespace Stack

theorem forall₂_append_iff {κ : Type} {R : κ → β → Prop} {l l' : List κ} {c : List β} :
    List.Forall₂ R (l ++ l') c ↔
      List.Forall₂ R l (c.take l.length) ∧ List.Forall₂ R l' (c.drop l.length) := by
  constructor
  · intro h
    have hfront := List.forall₂_take l.length h
    have hback := List.forall₂_drop l.length h
    rw [List.take_left] at hfront
    rw [List.drop_left] at hback
    exact ⟨hfront, hback⟩
  · rintro ⟨hfront, hback⟩
    rw [← List.take_append_drop l.length c]
    exact List.rel_append hfront hback

end Stack

/-- The kinds of stacked rows. -/
def ConstraintKind.rows (blocks : List (ConstraintKind × ℕ)) : List ConstraintKind :=
  blocks.flatMap fun p ↦ List.replicate p.2 p.1

theorem ConstraintKind.length_rows (blocks : List (ConstraintKind × ℕ)) :
    (rows blocks).length = (blocks.map Prod.snd).sum := by
  rw [rows, List.length_flatMap]
  simp

theorem RowBounds.ofArities_eq {α : Type} [Scalar α] {kinds : List ConstraintKind}
    {arities : List ℕ} (h : kinds.length = arities.length) :
    (ofArities kinds arities : RowBounds α)
      = ⟨(ConstraintKind.rows (kinds.zip arities)).map fun _ ↦ 0.0,
          (ConstraintKind.rows (kinds.zip arities)).map ConstraintKind.upper, arities⟩ := by
  have hmap : ∀ bound : ConstraintKind → α,
      (ConstraintKind.rows (kinds.zip arities)).map bound
        = (kinds.zip arities).flatMap fun p ↦ List.replicate p.2 (bound p.1) := by
    intro bound
    rw [ConstraintKind.rows, List.map_flatMap]
    exact List.flatMap_congr fun p _ ↦ List.map_replicate
  rw [hmap, hmap, ← lower_ofArities h]
  rfl

theorem ConstraintKind.forall₂_rows {P : ConstraintKind → β → Prop}
    {blocks : List (ConstraintKind × ℕ)} {c : List β}
    (hc : c.length = (blocks.map Prod.snd).sum) :
    List.Forall₂ P (rows blocks) c ↔
      ∀ (i : ℕ) (kind : ConstraintKind) (m : ℕ), blocks[i]? = some (kind, m) →
        ∀ y ∈ Stack.part (blocks.map Prod.snd) i c, P kind y := by
  induction blocks generalizing c with
  | nil =>
    rw [List.map_nil, List.sum_nil, List.length_eq_zero_iff] at hc
    subst hc
    exact iff_of_true .nil fun i kind m hi ↦ nomatch hi
  | cons block blocks ih =>
    obtain ⟨kind, m⟩ := block
    rw [List.map_cons, List.sum_cons] at hc
    -- the rows of the first block are those taken, and all others are those dropped
    have htake : (c.take m).length = m := by rw [List.length_take]; omega
    have hdrop : (c.drop m).length = (blocks.map Prod.snd).sum := by rw [List.length_drop]; omega
    have hfirst : List.Forall₂ P (List.replicate m kind) (c.take m) ↔ ∀ y ∈ c.take m, P kind y := by
      have hmap : (c.take m).map (fun _ ↦ kind) = List.replicate m kind := by
        rw [List.map_const', htake]
      rw [← hmap, List.forall₂_map_left_iff, List.forall₂_same]
    rw [rows, List.flatMap_cons, Stack.forall₂_append_iff, List.length_replicate, hfirst, ← rows,
      ih hdrop]
    constructor
    · rintro ⟨hfront, hback⟩ i kind' m' hi
      rcases i with _ | i
      · cases hi
        rwa [List.map_cons, Stack.part_cons_zero]
      · rw [List.map_cons, Stack.part_cons_succ]
        exact hback i kind' m' hi
    · intro h
      refine ⟨?_, fun i kind' m' hi ↦ ?_⟩
      · have hfront := h 0 kind m rfl
        rwa [List.map_cons, Stack.part_cons_zero] at hfront
      · have hback := h (i + 1) kind' m' hi
        rwa [List.map_cons, Stack.part_cons_succ] at hback

end Rows

variable {K : Type} [ExactScalar K]

theorem Box.limit_pos : (0 : K) < Box.limit := by
  rw [Box.limit]
  norm_num

/-! ## Terms that hold

A term is an equation or an inequality on the distance from its bound. For a row this is its kind: a
row that has to be zero has one term, and a row that must not be negative has one, because its upper
bound is infinite. For a variable it is the pair of bounds, and here a bound of the size of the
limit was dropped; a point below the limit satisfies it all the same. -/

/-- Whether a kind of constraint allows a value. -/
def ConstraintKind.Holds : ConstraintKind → K → Prop
  | equality, y => y = 0
  | inequality, y => 0 ≤ y

namespace Term

/-- Whether a term holds at a distance from its bound. -/
def Holds (t : Term K) (s : K) : Prop := if t.equality then s = 0 else 0 ≤ s

theorem bounded_iff {v : K} : bounded v = true ↔ |v| < Box.limit := decide_eq_true_iff

theorem forall_mem_ofBounds {source : ℕ → Source} {equalities : Bool} {index : ℕ}
    {lower upper : Point K} {P : Term K → Prop} :
    (∀ t ∈ ofBounds source equalities index lower upper, P t) ↔
      ∀ (k : ℕ) (lo hi : K), lower[k]? = some lo → upper[k]? = some hi →
        ∀ t ∈ sides (source (index + k)) lo hi equalities, P t := by
  simp only [mem_ofBounds]
  constructor
  · exact fun h k lo hi hlo hhi t ht ↦ h t ⟨k, lo, hi, hlo, hhi, ht⟩
  · rintro h t ⟨k, lo, hi, hlo, hhi, ht⟩
    exact h k lo hi hlo hhi t ht

theorem forall_mem_sides_row (j : ℕ) (kind : ConstraintKind) (y : K) :
    (∀ t ∈ sides (.row j) 0.0 kind.upper true, t.Holds (t.distance y)) ↔ kind.Holds y := by
  have hzero : bounded (0 : K) = true := bounded_iff.mpr (by rw [abs_zero]; exact Box.limit_pos)
  have hlimit : ¬bounded (Box.limit : K) = true := fun h ↦
    absurd (bounded_iff.mp h) (by rw [abs_of_pos Box.limit_pos]; exact lt_irrefl _)
  cases kind with
  | equality =>
    simp [mem_sides, ConstraintKind.upper, hzero, Holds, distance, ConstraintKind.Holds]
  | inequality =>
    simp [mem_sides, ConstraintKind.upper, hzero, hlimit, Holds, distance, ConstraintKind.Holds]

theorem forall_mem_sides_coordinate (i : ℕ) {lo hi v : K} (hlo : lo < Box.limit)
    (hhi : -Box.limit < hi) (hv : |v| < Box.limit) :
    (∀ t ∈ sides (.coordinate i) (Box.cut (lo, hi)).1 (Box.cut (lo, hi)).2 false,
        t.Holds (t.distance v)) ↔ lo ≤ v ∧ v ≤ hi := by
  obtain ⟨hbelow, habove⟩ := abs_lt.mp hv
  -- a bound beyond the limit has no term, and nothing below the limit can be beyond it
  have hlower : (bounded (Box.cut (lo, hi)).1 = true → (Box.cut (lo, hi)).1 ≤ v) ↔ lo ≤ v := by
    rw [Box.cut, Scalar.max_eq, bounded_iff]
    rcases le_or_gt lo (-Box.limit) with hle | hgt
    · rw [max_eq_right hle, abs_neg, abs_of_pos Box.limit_pos]
      exact iff_of_true (fun hlt ↦ absurd hlt (lt_irrefl _)) (hle.trans hbelow.le)
    · rw [max_eq_left hgt.le]
      exact ⟨fun h ↦ h (abs_lt.mpr ⟨hgt, hlo⟩), fun h _ ↦ h⟩
  have hupper : (bounded (Box.cut (lo, hi)).2 = true → v ≤ (Box.cut (lo, hi)).2) ↔ v ≤ hi := by
    rw [Box.cut, Scalar.min_eq, bounded_iff]
    rcases le_or_gt Box.limit hi with hle | hgt
    · rw [min_eq_right hle, abs_of_pos Box.limit_pos]
      exact iff_of_true (fun hlt ↦ absurd hlt (lt_irrefl _)) (habove.le.trans hle)
    · rw [min_eq_left hgt.le]
      exact ⟨fun h ↦ h (abs_lt.mpr ⟨hhi, hgt⟩), fun h _ ↦ h⟩
  rw [← hlower, ← hupper]
  simp only [mem_sides, Bool.false_and, Bool.false_eq_true, if_false, or_imp, and_imp,
    forall_and, forall_eq_apply_imp_iff, Scalar.one_eq, distance_lower, distance_upper]
  simp [Holds, sub_nonneg]

end Term

namespace Layout

/-- Whether all terms hold at the given distances. -/
def Holds (l : Layout K) (values : List K) : Prop := List.Forall₂ Term.Holds l.terms values

theorem holds_values_iff {l : Layout K} {x rows : Point K} :
    l.Holds (l.values x rows) ↔ ∀ t ∈ l.terms, t.Holds (t.distance (t.source.read x rows)) := by
  rw [Holds, values, List.forall₂_map_right_iff, List.forall₂_same]

/-- The terms of all bounds from a source of index zero on hold where those of each pair do at what
the source is. -/
theorem forall_ofBounds_iff {source : ℕ → Source} {equalities : Bool} {lower upper x c : Point K} :
    (∀ t ∈ Term.ofBounds source equalities 0 lower upper,
        t.Holds (t.distance (t.source.read x c))) ↔
      ∀ (k : ℕ) (lo hi : K), lower[k]? = some lo → upper[k]? = some hi →
        ∀ t ∈ Term.sides (source k) lo hi equalities,
          t.Holds (t.distance ((source k).read x c)) := by
  rw [Term.forall_mem_ofBounds]
  refine forall_congr' fun k ↦ forall₄_congr fun lo hi _ _ ↦ ?_
  rw [Nat.zero_add]
  exact forall₂_congr fun t ht ↦ by rw [Term.source_of_mem_sides ht]

theorem forall_row_iff {kinds : List ConstraintKind} {x c : Point K}
    (hc : kinds.length = c.length) :
    (∀ t ∈ Term.ofBounds .row true 0 (kinds.map fun _ ↦ (0.0 : K))
        (kinds.map ConstraintKind.upper), t.Holds (t.distance (t.source.read x c))) ↔
      List.Forall₂ ConstraintKind.Holds kinds c := by
  have hcoord : ∀ k (hk : k < c.length), c.coord k = c.get ⟨k, hk⟩ := fun k hk ↦ by
    rw [Point.coord, List.getD_eq_getElem _ _ hk, List.get_eq_getElem]
  rw [forall_ofBounds_iff]
  constructor
  · intro h
    refine List.forall₂_of_length_eq_of_get hc fun k hk hk' ↦ ?_
    have hsides := h k 0.0 (kinds.get ⟨k, hk⟩).upper (by simp [hk]) (by simp [hk])
    rw [Source.read, Term.forall_mem_sides_row, hcoord k hk'] at hsides
    exact hsides
  · intro h k lo hi hlo hhi
    rw [List.getElem?_map, Option.map_eq_some_iff] at hlo hhi
    obtain ⟨kind, hkind, rfl⟩ := hlo
    obtain ⟨kind', hkind', rfl⟩ := hhi
    rw [hkind, Option.some_inj] at hkind'
    subst hkind'
    obtain ⟨hk, rfl⟩ := List.getElem?_eq_some_iff.mp hkind
    have hk' : k < c.length := hc ▸ hk
    rw [Source.read, Term.forall_mem_sides_row, hcoord k hk']
    exact h.get hk hk'

theorem forall_coordinate_iff {pairs : List (K × K)} {x c : Point K}
    (hproper : ∀ p ∈ pairs, p.1 < Box.limit ∧ -Box.limit < p.2) (hlength : pairs.length = x.length)
    (hx : ∀ v ∈ x, |v| < Box.limit) :
    (∀ t ∈ Term.ofBounds .coordinate false 0 (pairs.map fun p ↦ (Box.cut p).1)
        (pairs.map fun p ↦ (Box.cut p).2), t.Holds (t.distance (t.source.read x c))) ↔
      ∀ (i : ℕ) (lo hi v : K), pairs[i]? = some (lo, hi) → x[i]? = some v → lo ≤ v ∧ v ≤ hi := by
  have hcoord : ∀ (i : ℕ) (v : K), x[i]? = some v → x.coord i = v := fun i v hv ↦ by
    rw [Point.coord, List.getD_eq_getElem?_getD, hv, Option.getD_some]
  rw [forall_ofBounds_iff]
  constructor
  · intro h i lo hi v hpair hv
    obtain ⟨hlo, hhi⟩ := hproper _ (List.mem_of_getElem? hpair)
    have hsides := h i (Box.cut (lo, hi)).1 (Box.cut (lo, hi)).2
      (by rw [List.getElem?_map, hpair]; rfl) (by rw [List.getElem?_map, hpair]; rfl)
    -- the pair was cut off on its way, which nothing below the limit can tell
    rw [Source.read, hcoord i v hv,
      Term.forall_mem_sides_coordinate i hlo hhi (hx v (List.mem_of_getElem? hv))] at hsides
    exact hsides
  · intro h i lo' hi' hlo' hhi'
    rw [List.getElem?_map, Option.map_eq_some_iff] at hlo' hhi'
    obtain ⟨⟨lo, hi⟩, hpair, rfl⟩ := hlo'
    obtain ⟨pair', hpair', rfl⟩ := hhi'
    rw [hpair, Option.some_inj] at hpair'
    subst hpair'
    obtain ⟨hlo, hhi⟩ := hproper _ (List.mem_of_getElem? hpair)
    have hlt : i < x.length := hlength ▸ (List.getElem?_eq_some_iff.mp hpair).1
    have hv : x[i]? = some x[i] := List.getElem?_eq_getElem hlt
    rw [Source.read, hcoord i _ hv,
      Term.forall_mem_sides_coordinate i hlo hhi (hx _ (List.getElem_mem hlt))]
    exact h i lo hi _ hpair hv

variable {σ : Type}

section Probed

variable {cs : List (Constraint K σ)} {x₀ : Point K} {s s' : σ} {rows : RowBounds K}
  (hrows : Constraint.probe cs x₀ s = (.ok rows, s'))

include hrows

/-- The terms of the rows that a probe counted hold where the rows of each constraint are as its
kind asks. -/
theorem forall_probed_iff {x c : Point K} (hc : c.length = rows.size) :
    (∀ t ∈ Term.ofBounds .row true 0 rows.lower rows.upper,
        t.Holds (t.distance (t.source.read x c))) ↔
      ∀ (i : ℕ) (constraint : Constraint K σ), cs[i]? = some constraint →
        ∀ y ∈ Stack.part rows.arities i c, constraint.kind.Holds y := by
  obtain ⟨hbounds, harities⟩ := Constraint.probe_eq_ok hrows
  have hkinds : (cs.map Constraint.kind).length = rows.arities.length := by
    rw [List.length_map, harities]
  let blocks := (cs.map Constraint.kind).zip rows.arities
  have hblocks : blocks.map Prod.snd = rows.arities := List.map_snd_zip hkinds.ge
  rw [RowBounds.ofArities_eq hkinds] at hbounds
  have hlower : rows.lower = (ConstraintKind.rows blocks).map fun _ ↦ 0.0 :=
    congrArg RowBounds.lower hbounds
  have hupper : rows.upper = (ConstraintKind.rows blocks).map ConstraintKind.upper :=
    congrArg RowBounds.upper hbounds
  have hlength : (ConstraintKind.rows blocks).length = c.length := by
    rw [hc, RowBounds.size, hlower, List.length_map]
  -- from terms to rows, and from rows to the blocks in which the probe counted them
  rw [hlower, hupper, forall_row_iff hlength,
    ConstraintKind.forall₂_rows (hlength.symm.trans (ConstraintKind.length_rows blocks)), hblocks]
  constructor
  · intro h i constraint hconstraint
    have hlt : i < rows.arities.length := harities ▸ (List.getElem?_eq_some_iff.mp hconstraint).1
    have hkind : (cs.map Constraint.kind)[i]? = some constraint.kind := by
      rw [List.getElem?_map, hconstraint]
      rfl
    exact h i constraint.kind rows.arities[i]
      (List.getElem?_zip_eq_some.mpr ⟨hkind, List.getElem?_eq_getElem hlt⟩)
  · intro h i kind m hblock
    have hkind := (List.getElem?_zip_eq_some.mp hblock).1
    rw [List.getElem?_map, Option.map_eq_some_iff] at hkind
    obtain ⟨constraint, hconstraint, rfl⟩ := hkind
    exact h i constraint hconstraint

/-- **The feasible set survives translation.** Rows of an equality have to be zero and rows of an
inequality not below zero, each in the place in which the probe counted it, and variables have to
be within their bounds, if there are any. -/
theorem holds_ofBounds_iff {pairs : Option (List (K × K))} {n : ℕ}
    {lower upper : Option (Point K)} (hpairs : Box.ofPairs pairs n = .ok (lower, upper))
    (hproper : ∀ p ∈ pairs.getD [], p.1 < Box.limit ∧ -Box.limit < p.2)
    {x c : Point K} (hlength : x.length = n) (hx : ∀ v ∈ x, |v| < Box.limit)
    (hc : c.length = rows.size) :
    let l := ofBounds n ⟨lower, upper, rows.lower, rows.upper⟩
    l.Holds (l.values x c) ↔
      (∀ (i : ℕ) (constraint : Constraint K σ), cs[i]? = some constraint →
        ∀ y ∈ Stack.part rows.arities i c, constraint.kind.Holds y) ∧
      ∀ (i : ℕ) (lo hi v : K), (pairs.getD [])[i]? = some (lo, hi) → x[i]? = some v →
        lo ≤ v ∧ v ≤ hi := by
  intro l
  rw [holds_values_iff]
  rcases pairs with _ | pairs
  · cases hpairs
    have hterms : l.terms = Term.ofBounds .row true 0 rows.lower rows.upper ++ [] := rfl
    rw [hterms, List.append_nil, forall_probed_iff hrows hc]
    exact (and_iff_left fun i lo hi v hpair ↦ nomatch hpair).symm
  · obtain ⟨hcount, rfl, rfl⟩ := Box.ofPairs_eq_ok hpairs
    have hterms : l.terms = Term.ofBounds .row true 0 rows.lower rows.upper ++
        Term.ofBounds .coordinate false 0 (pairs.map fun p ↦ (Box.cut p).1)
          (pairs.map fun p ↦ (Box.cut p).2) := rfl
    rw [hterms, List.forall_mem_append, forall_probed_iff hrows hc]
    exact and_congr_right' (forall_coordinate_iff hproper (hcount.trans hlength.symm) hx)

end Probed

/-- An equality of two rows above an inequality. -/
def twoAboveOne : List (Constraint ℚ Unit) :=
  [{ kind := .equality, value := fun x _ ↦ pure [x.coord 0 - 1, 0] },
   { kind := .inequality, value := fun x _ ↦ pure x }]

theorem holds_ofBounds_twoAboveOne : ∃ rows lower upper,
    Constraint.probe twoAboveOne [7] () = (.ok rows, ()) ∧
      Box.ofPairs (some [(-10 ^ 30, 5)]) 1 = .ok (lower, upper) ∧
      (ofBounds 1 ⟨lower, upper, rows.lower, rows.upper⟩).Holds
        ((ofBounds 1 ⟨lower, upper, rows.lower, rows.upper⟩).values [1] [0, 0, 1]) := by
  have hrows : Constraint.probe twoAboveOne [7] ()
      = (.ok (.ofArities [.equality, .inequality] [2, 1]), ()) := rfl
  have hside : Box.side 0 ((-10 ^ 30, 5) : ℚ × ℚ) = .ok (-Box.limit, 5) := by
    rw [Box.side, if_neg (by decide +kernel)]
    exact congrArg Except.ok (by decide +kernel)
  have hpairs : Box.ofPairs (some [((-10 ^ 30, 5) : ℚ × ℚ)]) 1
      = .ok (some [-Box.limit], some [5]) := by
    simp only [Box.ofPairs, Box.sides, hside]
    rfl
  have hallowed : ∀ (i : ℕ) (constraint : Constraint ℚ Unit),
      twoAboveOne[i]? = some constraint →
        ∀ y ∈ Stack.part [2, 1] i ([0, 0, 1] : Point ℚ), constraint.kind.Holds y := by
    rintro (_ | _ | i) constraint h <;> cases h <;> simp [Stack.part, ConstraintKind.Holds]
  have hbetween : ∀ (i : ℕ) (lo hi v : ℚ), [((-10 ^ 30, 5) : ℚ × ℚ)][i]? = some (lo, hi) →
      ([1] : Point ℚ)[i]? = some v → lo ≤ v ∧ v ≤ hi := by
    rintro (_ | i) lo hi v hpair hv
    · cases hpair
      cases hv
      norm_num
    · cases hpair
  refine ⟨_, _, _, hrows, hpairs, ?_⟩
  exact (holds_ofBounds_iff (x := ([1] : Point ℚ)) (c := ([0, 0, 1] : Point ℚ)) hrows hpairs
    (by decide +kernel) rfl (by decide +kernel) rfl).mpr ⟨hallowed, hbetween⟩

end Layout

end NonlinearProgram
