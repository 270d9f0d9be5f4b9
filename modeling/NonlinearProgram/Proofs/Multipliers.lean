import Mathlib.Algebra.BigOperators.Pi
import Mathlib.Algebra.BigOperators.Ring.Finset
import NonlinearProgram.Proofs.Terms

/-!
# Splitting multipliers

`Layout.splitMultipliers` sorts the multipliers of the terms by rows and variables. Multipliers of a
row are added, one of a variable overwrites what is in its place. `Layout.pairing_splitMultipliers`
says that nothing is lost by it: for all weights of rows and variables, the weighted multipliers
after the split are the weighted multipliers before, each with the sign of its term.

The invariant of the walk is that the place of every term that is still to come holds a zero, which
is kept because no two terms have the same place.

Weights are functions of the index, so that a column of a derivative, a unit vector and the values
of the rows at a point are all weights.
-/

open Finset (range)

namespace NonlinearProgram

variable {K : Type} [ExactScalar K]

/-! ## Pairings

A sum over the entries of a vector with weights. It is linear in every entry, which is all that the
walk over the terms uses: adding to an entry adds that much times its weight, and replacing an entry
that is zero does the same. -/

namespace Point

/-- The entries of a vector, each times the weight of its index, added. -/
def pairing (v : Point K) (c : ℕ → K) : K := ∑ i ∈ range v.length, v.coord i * c i

@[simp] theorem pairing_nil (c : ℕ → K) : pairing ([] : Point K) c = 0 := rfl

@[simp] theorem pairing_cons (a : K) (v : Point K) (c : ℕ → K) :
    pairing (a :: v) c = a * c 0 + v.pairing fun i ↦ c (i + 1) := by
  rw [pairing, List.length_cons, Finset.sum_range_succ', add_comm]
  rfl

@[simp] theorem pairing_zeros (n : ℕ) (c : ℕ → K) : (zeros n : Point K).pairing c = 0 := by
  simp [pairing]

@[simp] theorem pairing_zero (v : Point K) : (v.pairing fun _ ↦ 0) = 0 := by
  simp [pairing]

theorem pairing_single (v : Point K) (i : ℕ) : v.pairing (Pi.single i 1) = v.coord i := by
  induction v generalizing i with
  | nil => rw [pairing_nil, coord_nil]
  | cons a v ih =>
    rw [pairing_cons]
    rcases i with _ | i
    · simp [pairing]
    · have hshift : (fun k ↦ (Pi.single (i + 1) 1 : ℕ → K) (k + 1)) = Pi.single i 1 := by
        funext k
        simp [Pi.single_apply]
      rw [hshift, ih, Pi.single_eq_of_ne (Nat.zero_ne_add_one i), mul_zero, zero_add,
        coord_cons_succ]

/-- An entry beyond the last one cannot be changed, so it must not have a weight. -/
theorem pairing_modify (v : Point K) (a : K) {j : ℕ} {c : ℕ → K} (hc : v.length ≤ j → c j = 0) :
    pairing (v.modify j (· + a)) c = v.pairing c + a * c j := by
  induction v generalizing j c with
  | nil => rw [List.modify_nil, hc (Nat.zero_le _), mul_zero, add_zero]
  | cons b v ih =>
    rcases j with _ | j
    · rw [List.modify_zero_cons, pairing_cons, pairing_cons]
      ring
    · rw [List.modify_succ_cons, pairing_cons, pairing_cons,
        ih (c := fun i ↦ c (i + 1)) fun h ↦ hc (Nat.succ_le_succ h), add_assoc]

theorem pairing_set {v : Point K} (a : K) {i : ℕ} {c : ℕ → K} (hv : v.coord i = 0)
    (hc : v.length ≤ i → c i = 0) : pairing (v.set i a) c = v.pairing c + a * c i := by
  induction v generalizing i c with
  | nil => rw [List.set_nil, hc (Nat.zero_le _), mul_zero, add_zero]
  | cons b v ih =>
    rcases i with _ | i
    · rw [coord_cons_zero] at hv
      rw [List.set_cons_zero, pairing_cons, pairing_cons, hv]
      ring
    · rw [List.set_cons_succ, pairing_cons, pairing_cons, ih hv fun h ↦ hc (Nat.succ_le_succ h),
        add_assoc]

end Point

/-- The weight of what a term constrains, from those of the rows and of the variables. -/
def Source.pick (c x : ℕ → K) : Source → K
  | row j => c j
  | coordinate i => x i

/-! ## Lengths -/

section Length

variable {α : Type} [Scalar α]

theorem Multipliers.length_deposit (ms : Multipliers α) (t : Term α) (l : α) :
    (ms.deposit t l).rows.length = ms.rows.length ∧
      (ms.deposit t l).lower.length = ms.lower.length ∧
      (ms.deposit t l).upper.length = ms.upper.length := by
  rw [deposit]
  split
  · exact ⟨List.length_modify _ _ _, rfl, rfl⟩
  · split
    · exact ⟨rfl, List.length_set, rfl⟩
    · exact ⟨rfl, rfl, List.length_set⟩

theorem Multipliers.length_foldl_deposit (pairs : List (Term α × α)) (ms : Multipliers α) :
    let split := pairs.foldl (fun ms p ↦ ms.deposit p.1 p.2) ms
    split.rows.length = ms.rows.length ∧ split.lower.length = ms.lower.length ∧
      split.upper.length = ms.upper.length := by
  induction pairs generalizing ms with
  | nil => exact ⟨rfl, rfl, rfl⟩
  | cons p pairs ih =>
    obtain ⟨hrows, hlower, hupper⟩ := ih (ms.deposit p.1 p.2)
    obtain ⟨hrows', hlower', hupper'⟩ := ms.length_deposit p.1 p.2
    exact ⟨hrows.trans hrows', hlower.trans hlower', hupper.trans hupper'⟩

theorem Layout.length_splitMultipliers (l : Layout α) (lambda : List α) :
    (l.splitMultipliers lambda).rows.length = l.m ∧
      (l.splitMultipliers lambda).lower.length = l.n ∧
      (l.splitMultipliers lambda).upper.length = l.n := by
  obtain ⟨hrows, hlower, hupper⟩ := Multipliers.length_foldl_deposit (l.terms.zip lambda)
    ⟨.zeros l.m, .zeros l.n, .zeros l.n⟩
  exact ⟨hrows.trans (Point.length_zeros _), hlower.trans (Point.length_zeros _),
    hupper.trans (Point.length_zeros _)⟩

end Length

namespace Multipliers

/-- The pairing of split multipliers, those of upper bounds with a minus sign. -/
def pairing (ms : Multipliers K) (c x : ℕ → K) : K :=
  ms.rows.pairing c + ms.lower.pairing x - ms.upper.pairing x

/-- Only entries that exist have a weight. -/
structure Covers (ms : Multipliers K) (c x : ℕ → K) : Prop where
  rows : ∀ j, ms.rows.length ≤ j → c j = 0
  lower : ∀ i, ms.lower.length ≤ i → x i = 0
  upper : ∀ i, ms.upper.length ≤ i → x i = 0

/-- Putting the multiplier of a term in its place overwrites nothing. -/
def Fresh (ms : Multipliers K) (t : Term K) : Prop :=
  ∀ i, t.source = .coordinate i →
    if 0 < t.sign then ms.lower.coord i = 0 else ms.upper.coord i = 0

/-! ## One term

Where a multiplier goes depends on the source of its term and, for a variable, on the sign. A row
keeps what it holds and adds to it, so only the places of variables have to be fresh. -/

section Deposit

variable {ms : Multipliers K} {t u : Term K} {i j : ℕ}

theorem deposit_row (ht : t.source = .row j) (l : K) :
    ms.deposit t l = ⟨ms.rows.modify j (· + t.sign * l), ms.lower, ms.upper⟩ := by
  rw [Multipliers.deposit, ht]

theorem deposit_lower (ht : t.source = .coordinate i) (hsign : 0 < t.sign) (l : K) :
    ms.deposit t l = ⟨ms.rows, ms.lower.set i l, ms.upper⟩ := by
  simp only [Multipliers.deposit, ht, Scalar.zero_eq, if_pos hsign]

theorem deposit_upper (ht : t.source = .coordinate i) (hsign : ¬0 < t.sign) (l : K) :
    ms.deposit t l = ⟨ms.rows, ms.lower, ms.upper.set i l⟩ := by
  simp only [Multipliers.deposit, ht, Scalar.zero_eq, if_neg hsign]

theorem Covers.deposit {c x : ℕ → K} (h : ms.Covers c x) (t : Term K) (l : K) :
    (ms.deposit t l).Covers c x := by
  obtain ⟨hrows, hlower, hupper⟩ := length_deposit ms t l
  exact ⟨fun j hj ↦ h.rows j (hrows ▸ hj), fun i hi ↦ h.lower i (hlower ▸ hi),
    fun i hi ↦ h.upper i (hupper ▸ hi)⟩

/-- The multipliers of the bounds of variables whose terms have the sign. -/
def side (ms : Multipliers K) (sign : K) : Point K :=
  if 0 < sign then ms.lower else ms.upper

theorem side_deposit_self (ht : t.source = .coordinate i) (l : K) :
    (ms.deposit t l).side t.sign = (ms.side t.sign).set i l := by
  by_cases hsign : 0 < t.sign
  · rw [deposit_lower ht hsign, side, side, if_pos hsign, if_pos hsign]
  · rw [deposit_upper ht hsign, side, side, if_neg hsign, if_neg hsign]

/-- A term leaves the places of others as they are. -/
theorem coord_side_deposit_of_ne {sign : K}
    (h : t.source = .coordinate i → ¬(0 < t.sign ↔ 0 < sign)) (l : K) :
    ((ms.deposit t l).side sign).coord i = (ms.side sign).coord i := by
  rcases ht : t.source with j | k
  · rw [deposit_row ht, side, side]
  -- on the same side the variables differ
  have hne : (0 < t.sign ↔ 0 < sign) → k ≠ i := fun hside hki ↦ h (by rw [ht, hki]) hside
  by_cases htsign : 0 < t.sign
  · rw [deposit_lower ht htsign, side, side]
    by_cases hsign : 0 < sign
    · rw [if_pos hsign, if_pos hsign,
        Point.coord_set_of_ne _ _ (hne (iff_of_true htsign hsign))]
    · rw [if_neg hsign, if_neg hsign]
  · rw [deposit_upper ht htsign, side, side]
    by_cases hsign : 0 < sign
    · rw [if_pos hsign, if_pos hsign]
    · rw [if_neg hsign, if_neg hsign,
        Point.coord_set_of_ne _ _ (hne (iff_of_false htsign hsign))]

theorem fresh_iff :
    ms.Fresh t ↔ ∀ i, t.source = .coordinate i → (ms.side t.sign).coord i = 0 := by
  refine forall₂_congr fun i _ ↦ ?_
  rw [side]
  split <;> rfl

theorem Fresh.deposit (hu : ms.Fresh u) (h : ¬Term.SameSlot t u) (l : K) :
    (ms.deposit t l).Fresh u := by
  rw [fresh_iff] at hu ⊢
  intro i hi
  rw [coord_side_deposit_of_ne fun ht hside ↦ h ⟨ht.trans hi.symm, hside⟩, hu i hi]

theorem pairing_deposit {c x : ℕ → K} (hcovers : ms.Covers c x) (hfresh : ms.Fresh t)
    (hsign : t.sign = 1 ∨ t.sign = -1) (l : K) :
    (ms.deposit t l).pairing c x = ms.pairing c x + l * (t.sign * t.source.pick c x) := by
  rcases ht : t.source with j | i
  · rw [deposit_row ht, pairing, pairing, Source.pick,
      Point.pairing_modify _ _ (hcovers.rows j)]
    ring
  · have hzero := hfresh i ht
    rcases hsign with hsign | hsign
    · have hpos : 0 < t.sign := by rw [hsign]; exact one_pos
      rw [if_pos hpos] at hzero
      rw [deposit_lower ht hpos, pairing, pairing, Source.pick, hsign,
        Point.pairing_set _ hzero (hcovers.lower i)]
      ring
    · have hneg : ¬0 < t.sign := by rw [hsign]; exact not_lt.mpr (neg_nonpos.mpr zero_le_one)
      rw [if_neg hneg] at hzero
      rw [deposit_upper ht hneg, pairing, pairing, Source.pick, hsign,
        Point.pairing_set _ hzero (hcovers.upper i)]
      ring

end Deposit

/-! ## All terms

Two facts go through the walk together, each of which one term preserves: the terms that are to come
have fresh places, and only entries that exist have a weight. -/

/-- Induction on the terms; each of them finds its place empty and leaves those of the later ones
so. -/
theorem pairing_foldl_deposit {ms : Multipliers K} {c x : ℕ → K} {pairs : List (Term K × K)}
    (hcovers : ms.Covers c x) (hfresh : ∀ p ∈ pairs, ms.Fresh p.1)
    (hsign : ∀ p ∈ pairs, p.1.sign = 1 ∨ p.1.sign = -1)
    (hslots : pairs.Pairwise fun p q ↦ ¬Term.SameSlot p.1 q.1) :
    (pairs.foldl (fun ms p ↦ ms.deposit p.1 p.2) ms).pairing c x
      = ms.pairing c x + (pairs.map fun p ↦ p.2 * (p.1.sign * p.1.source.pick c x)).sum := by
  induction pairs generalizing ms with
  | nil => rw [List.foldl_nil, List.map_nil, List.sum_nil, add_zero]
  | cons p pairs ih =>
    rw [List.pairwise_cons] at hslots
    rw [List.forall_mem_cons] at hfresh hsign
    have hrest : ∀ q ∈ pairs, (ms.deposit p.1 p.2).Fresh q.1 := fun q hq ↦
      (hfresh.2 q hq).deposit (hslots.1 q hq) p.2
    rw [List.foldl_cons, ih (hcovers.deposit p.1 p.2) hrest hsign.2 hslots.2,
      pairing_deposit hcovers hfresh.1 hsign.1, List.map_cons, List.sum_cons, add_assoc]

end Multipliers

namespace Layout

theorem pairwise_zip_ofBounds (n : ℕ) (b : Bounds K) (lambda : List K) :
    ((ofBounds n b).terms.zip lambda).Pairwise fun p q ↦ ¬Term.SameSlot p.1 q.1 := by
  have hterms : List.Sublist (((ofBounds n b).terms.zip lambda).map Prod.fst)
      (ofBounds n b).terms := by
    rw [List.zip_eq_zip_take_min, List.map_fst_zip (by simp)]
    exact List.take_sublist _ _
  exact List.pairwise_map.mp ((pairwise_terms_ofBounds n b).sublist hterms)

theorem pairing_splitMultipliers (n : ℕ) (b : Bounds K) (lambda : List K) {c x : ℕ → K}
    (hc : ∀ j, b.rowLower.length ≤ j → c j = 0) (hx : ∀ i, n ≤ i → x i = 0) :
    ((ofBounds n b).splitMultipliers lambda).pairing c x
      = (((ofBounds n b).terms.zip lambda).map fun p ↦
          p.2 * (p.1.sign * p.1.source.pick c x)).sum := by
  rw [splitMultipliers, Multipliers.pairing_foldl_deposit]
  · rw [Multipliers.pairing, Point.pairing_zeros, Point.pairing_zeros, add_zero, sub_zero,
      zero_add]
  · refine ⟨fun j hj ↦ hc j ?_, fun i hi ↦ hx i ?_, fun i hi ↦ hx i ?_⟩
    · rwa [Point.length_zeros] at hj
    · rwa [Point.length_zeros] at hi
    · rwa [Point.length_zeros] at hi
  · intro p _ i _
    simp
  · intro p hp
    exact sign_of_mem_ofBounds (List.of_mem_zip hp).1
  · exact pairwise_zip_ofBounds n b lambda

end Layout

end NonlinearProgram
