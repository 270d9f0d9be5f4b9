import NonlinearProgram.Proofs.Slopes

/-!
# The entries of split multipliers

What `Layout.splitMultipliers` puts where. The entry of a variable in the lower or the upper
multipliers is the multiplier of the one term that the variable has on that side, and zero if it has
none: no later term overwrites it, since no two terms of a layout belong to the same side of the
same variable. Rows need no such care, because there multipliers are added.

Together with the pairing of the split this says that splitting loses nothing
(`Layout.splitMultipliers_lossless`). The inner products are those that the method itself computes,
in eight running sums; in exact arithmetic they are pairings (`Point.dot_eq_pairing`).
-/

namespace NonlinearProgram

variable {K : Type} [ExactScalar K]

/-! ## Inner products

Eight sums run side by side and are added at the end, followed by the products that are left over.
In exact arithmetic the grouping is of no account. -/

namespace Point

theorem pairing_nil_coord (x : Point K) : x.pairing (coord []) = 0 := by
  rw [show coord ([] : Point K) = fun _ ↦ 0 from funext coord_nil, pairing_zero]

theorem addProducts_eq (s : K) (x y : Point K) : addProducts s x y = s + x.pairing y.coord := by
  induction x generalizing s y with
  | nil => exact (add_zero s).symm
  | cons a x ih =>
    rcases y with _ | ⟨b, y⟩
    · rw [pairing_nil_coord, add_zero]
      rfl
    · rw [addProducts, ih, pairing_cons, coord_cons_zero, add_assoc]
      rfl

/-- Induction on the blocks of eight; what is left is added one by one. -/
theorem dotFrom_eq (l : Lanes K) (x y : Point K) :
    dotFrom l x y = l.total + x.pairing y.coord := by
  fun_induction dotFrom l x y with
  | case1 l a0 a1 a2 a3 a4 a5 a6 a7 x b0 b1 b2 b3 b4 b5 b6 b7 y ih =>
    rw [ih]
    simp only [Lanes.total, pairing_cons, coord_cons_zero, coord_cons_succ]
    ring
  | case2 l x y => exact addProducts_eq _ _ _

theorem dot_eq_pairing (x y : Point K) : x.dot y = x.pairing y.coord := by
  have hzero : (Lanes.zero : Lanes K).total = 0 := by simp [Lanes.zero, Lanes.total]
  rw [dot, dotFrom_eq, hzero, zero_add]

end Point

/-! ## Entries of variables

The walk is looked at from one entry. The terms in front of the one that belongs there leave it at
zero, that term puts its multiplier there, and the terms behind it leave it as it is. -/

namespace Multipliers

variable {ms : Multipliers K} {i : ℕ}

theorem side_one (ms : Multipliers K) : ms.side 1 = ms.lower := if_pos one_pos

theorem side_neg_one (ms : Multipliers K) : ms.side (-1) = ms.upper :=
  if_neg (not_lt.mpr (neg_nonpos.mpr zero_le_one))

theorem length_side_foldl_deposit (pairs : List (Term K × K)) (ms : Multipliers K) (sign : K) :
    ((pairs.foldl (fun ms p ↦ ms.deposit p.1 p.2) ms).side sign).length
      = (ms.side sign).length := by
  obtain ⟨-, hlower, hupper⟩ := length_foldl_deposit pairs ms
  rw [side, side]
  split
  · exact hlower
  · exact hupper

theorem length_side_zeros (m n : ℕ) (sign : K) :
    (side ⟨.zeros m, .zeros n, .zeros n⟩ sign).length = n := by
  rw [side, ite_self, Point.length_zeros]

theorem coord_side_zeros (m n : ℕ) (sign : K) (i : ℕ) :
    (side ⟨.zeros m, .zeros n, .zeros n⟩ sign).coord i = 0 := by
  rw [side, ite_self, Point.coord_zeros]

/-- Induction on the terms, each of which leaves the entry as it is. -/
theorem coord_side_foldl_deposit_of_forall {sign : K} {pairs : List (Term K × K)}
    (h : ∀ p ∈ pairs, p.1.source = .coordinate i → ¬(0 < p.1.sign ↔ 0 < sign)) :
    ((pairs.foldl (fun ms p ↦ ms.deposit p.1 p.2) ms).side sign).coord i
      = (ms.side sign).coord i := by
  induction pairs generalizing ms with
  | nil => rfl
  | cons p pairs ih =>
    rw [List.forall_mem_cons] at h
    rw [List.foldl_cons, ih h.2, coord_side_deposit_of_ne h.1]

theorem coord_side_foldl_deposit_of_mem {pairs : List (Term K × K)} {p : Term K × K}
    (hp : p ∈ pairs) (hslots : pairs.Pairwise fun p q ↦ ¬Term.SameSlot p.1 q.1)
    (ht : p.1.source = .coordinate i) (hi : i < (ms.side p.1.sign).length) :
    ((pairs.foldl (fun ms p ↦ ms.deposit p.1 p.2) ms).side p.1.sign).coord i = p.2 := by
  obtain ⟨before, after, rfl⟩ := List.append_of_mem hp
  obtain ⟨-, hafter, -⟩ := List.pairwise_append.mp hslots
  have hother : ∀ q ∈ after, q.1.source = .coordinate i → ¬(0 < q.1.sign ↔ 0 < p.1.sign) :=
    fun q hq hsource hside ↦
      (List.pairwise_cons.mp hafter).1 q hq ⟨ht.trans hsource.symm, hside.symm⟩
  rw [List.foldl_append, List.foldl_cons, coord_side_foldl_deposit_of_forall hother,
    side_deposit_self ht, Point.coord_set_self]
  rwa [length_side_foldl_deposit]

end Multipliers

/-- What an entry of the multipliers of one side holds: the multiplier of the only term with the
source and the sign, and zero where a layout has no such term. -/
inductive Layout.SoleMultiplier (l : Layout K) (lambda : List K) (source : Source) (sign : K) :
    K → Prop
  | held {k : ℕ} {t : Term K} {a : K} (ht : l.terms[k]? = some t) (hsource : t.source = source)
      (hsign : t.sign = sign) (ha : lambda[k]? = some a)
      (only : ∀ (k' : ℕ) (u : Term K), l.terms[k']? = some u → u.source = source →
        u.sign = sign → k' = k) : SoleMultiplier l lambda source sign a
  | absent (h : ∀ t ∈ l.terms, t.source = source → t.sign ≠ sign) :
      SoleMultiplier l lambda source sign 0

theorem Source.read_eq_pick (source : Source) (x c : Point K) :
    source.read x c = source.pick c.coord x.coord := by
  cases source <;> rfl

theorem Term.sign_eq_of_pos_iff {a b : K} (ha : a = 1 ∨ a = -1) (hb : b = 1 ∨ b = -1)
    (h : 0 < a ↔ 0 < b) : a = b := by
  have hneg : ¬(0 : K) < -1 := not_lt.mpr (neg_nonpos.mpr zero_le_one)
  rcases ha with rfl | rfl <;> rcases hb with rfl | rfl
  · rfl
  · exact absurd (h.mp one_pos) hneg
  · exact absurd (h.mpr one_pos) hneg
  · rfl

namespace Layout

variable {n : ℕ} {b : Bounds K} {lambda : List K}

theorem index_eq_of_sameSlot {k k' : ℕ} {t u : Term K} (ht : (ofBounds n b).terms[k]? = some t)
    (hu : (ofBounds n b).terms[k']? = some u) (h : Term.SameSlot t u) : k = k' := by
  obtain ⟨hk, rfl⟩ := List.getElem?_eq_some_iff.mp ht
  obtain ⟨hk', rfl⟩ := List.getElem?_eq_some_iff.mp hu
  have hslots := List.pairwise_iff_getElem.mp (pairwise_terms_ofBounds n b)
  rcases Nat.lt_trichotomy k k' with hlt | heq | hgt
  · exact absurd h (hslots k k' hk hk' hlt)
  · exact heq
  · exact absurd ⟨h.1.symm, h.2.symm⟩ (hslots k' k hk' hk hgt)

theorem soleMultiplier_side (hlambda : lambda.length = (ofBounds n b).size) {sign : K}
    (hsign : sign = 1 ∨ sign = -1) {i : ℕ} (hi : i < n) :
    (ofBounds n b).SoleMultiplier lambda (.coordinate i) sign
      ((((ofBounds n b).splitMultipliers lambda).side sign).coord i) := by
  by_cases h : ∃ t ∈ (ofBounds n b).terms, t.source = .coordinate i ∧ t.sign = sign
  · obtain ⟨t, ht, hsource, rfl⟩ := h
    obtain ⟨k, hk⟩ := List.mem_iff_getElem?.mp ht
    have hkl : k < lambda.length := by
      rw [hlambda]
      exact (List.getElem?_eq_some_iff.mp hk).1
    have ha : lambda[k]? = some lambda[k] := List.getElem?_eq_getElem hkl
    have hpair : (t, lambda[k]) ∈ (ofBounds n b).terms.zip lambda :=
      List.mem_iff_getElem?.mpr ⟨k, List.getElem?_zip_eq_some.mpr ⟨hk, ha⟩⟩
    rw [splitMultipliers, Multipliers.coord_side_foldl_deposit_of_mem hpair
      (pairwise_zip_ofBounds n b lambda) hsource (by rwa [Multipliers.length_side_zeros])]
    exact .held hk hsource rfl ha fun k' u hu husource husign ↦
      (index_eq_of_sameSlot hk hu ⟨hsource.trans husource.symm, by rw [husign]⟩).symm
  · have habsent : ∀ t ∈ (ofBounds n b).terms, t.source = .coordinate i → t.sign ≠ sign :=
      fun t ht hsource htsign ↦ h ⟨t, ht, hsource, htsign⟩
    rw [splitMultipliers, Multipliers.coord_side_foldl_deposit_of_forall,
      Multipliers.coord_side_zeros]
    · exact .absent habsent
    · intro p hp hsource hside
      have ht := (List.of_mem_zip hp).1
      exact habsent p.1 ht hsource (Term.sign_eq_of_pos_iff (sign_of_mem_ofBounds ht) hsign hside)

/-- **Splitting loses nothing.** For all values of the rows and of the variables, the multipliers of
the terms times their signs and the values of what they constrain add up to the inner products of
the split multipliers with the values; and the lower and the upper multiplier of a variable are
those of its only lower and its only upper term. -/
theorem splitMultipliers_lossless (n : ℕ) (b : Bounds K)
    (hlambda : lambda.length = (ofBounds n b).size) :
    let l := ofBounds n b
    let split := l.splitMultipliers lambda
    (∀ c x : Point K, c.length = l.m → x.length = n →
      ((l.terms.zip lambda).map fun p ↦ p.2 * p.1.sign * p.1.source.read x c).sum
        = split.rows.dot c + (split.lower.sub split.upper).dot x) ∧
    ∀ i < n, ∃ lower upper, split.lower[i]? = some lower ∧ split.upper[i]? = some upper ∧
      l.SoleMultiplier lambda (.coordinate i) 1 lower ∧
      l.SoleMultiplier lambda (.coordinate i) (-1) upper := by
  intro l split
  obtain ⟨-, hlower, hupper⟩ := l.length_splitMultipliers lambda
  refine ⟨fun c x hc hx ↦ ?_, fun i hi ↦ ?_⟩
  · have hsum := pairing_splitMultipliers n b lambda (c := c.coord) (x := x.coord)
      (fun j hj ↦ Point.coord_of_length_le (hc.le.trans hj))
      (fun i hi ↦ Point.coord_of_length_le (hx.le.trans hi))
    rw [Point.dot_eq_pairing, Point.dot_eq_pairing, Point.pairing_sub (hlower.trans hupper.symm),
      ← add_sub_assoc]
    refine Eq.trans ?_ hsum.symm
    simp only [mul_assoc, Source.read_eq_pick]
    rfl
  · have hone := soleMultiplier_side hlambda (Or.inl rfl) hi
    have hneg := soleMultiplier_side hlambda (Or.inr rfl) hi
    rw [Multipliers.side_one] at hone
    rw [Multipliers.side_neg_one] at hneg
    exact ⟨_, _, Point.getElem?_eq_coord (hi.trans_eq hlower.symm),
      Point.getElem?_eq_coord (hi.trans_eq hupper.symm), hone, hneg⟩

/-- Six terms of two rows and two variables, with the multipliers of each side apart: the equality
and the two sides of the second row are added up, the second variable has an upper bound only. -/
theorem splitMultipliers_lossless_sixTerms :
    let b : Bounds ℚ := ⟨some [0, -Box.limit], some [4, 3], [1, -2], [1, 2]⟩
    let l := ofBounds 2 b
    let lambda : List ℚ := [-3, 5, 7, 1 / 2, 2, 11]
    let split := l.splitMultipliers lambda
    lambda.length = l.size ∧ split.rows = [-3, -2] ∧ split.lower = [1 / 2, 0] ∧
      split.upper = [2, 11] ∧
      ((l.terms.zip lambda).map fun p ↦ p.2 * p.1.sign * p.1.source.read [10, 100] [1, 1000]).sum
        = split.rows.dot [1, 1000] + (split.lower.sub split.upper).dot [10, 100] ∧
      l.SoleMultiplier lambda (.coordinate 1) 1 0 ∧
      l.SoleMultiplier lambda (.coordinate 1) (-1) 11 := by
  intro b l lambda split
  have hlambda : lambda.length = l.size := by decide +kernel
  have hrows : split.rows = [-3, -2] := by decide +kernel
  have hlower : split.lower = [1 / 2, 0] := by decide +kernel
  have hupper : split.upper = [2, 11] := by decide +kernel
  obtain ⟨hsum, hentries⟩ := splitMultipliers_lossless 2 b hlambda
  obtain ⟨lower, upper, hl, hu, hsole, hsole'⟩ := hentries 1 Nat.one_lt_two
  rw [show (Layout.splitMultipliers _ lambda).lower = _ from hlower] at hl
  rw [show (Layout.splitMultipliers _ lambda).upper = _ from hupper] at hu
  cases hl
  cases hu
  exact ⟨hlambda, hrows, hlower, hupper, hsum [1, 1000] [10, 100] rfl rfl, hsole, hsole'⟩

end Layout

end NonlinearProgram
