import Mathlib.Data.List.Induction
import NonlinearProgram.Proofs.FloatOrder
import NonlinearProgram.Proofs.Overlay

/-!
# Settings offered one by one

A configuration answers every setting that it is offered, and goes on whatever the answer was. What
a setting can do to a configuration is one of nine things (`Config.Changes`), and everything here is
read off that list: a change stays within the ranges (`Config.Valid`), and a second one by a setting
of the same name covers up the first.

So the configuration after any offers is the first one under the last values that were taken, one
for each name (`Config.offerAll_eq_overlay`). Refused offers do not show in it, nor the order of
offers with different names.
-/

namespace NonlinearProgram

namespace Config

variable {α : Type} [Scalar α]

/-! ## One setting

Whether a setting is taken is decided by its name and its value alone. If it is, it replaces at most
one parameter by what was read off the value, and each parameter belongs to one name. -/

/-- A number that a setting may have. -/
def Positive (v : α) : Prop := Scalar.isFinite v = true ∧ ¬v ≤ 0.0

/-- What a setting that is taken does to a configuration. -/
inductive Changes (c : Config α) : String → Setting α → Config α → Prop where
  | printLevel {value : Setting α} {level : ℤ} (hread : value.toInt? = some level)
      (hlevel : 0 ≤ level ∧ level ≤ 12) :
      Changes c "print_level" value { c with printLevel := level }
  | iterationLimit {value : Setting α} {count : ℤ} (hread : value.toInt? = some count)
      (hcount : 0 ≤ count) :
      Changes c "max_iter" value { c with iterationLimit := count.toNat }
  | tolerance {value : Setting α} {v : α} (hread : value.toNum? = some v)
      (hv : Positive v) :
      Changes c "tol" value { c with tolerance := v }
  | violationTolerance {value : Setting α} {v : α} (hread : value.toNum? = some v)
      (hv : Positive v) :
      Changes c "constr_viol_tol" value { c with violationTolerance := v }
  | acceptableTolerance {value : Setting α} {v : α} (hread : value.toNum? = some v)
      (hv : Positive v) :
      Changes c "acceptable_tol" value { c with acceptableTolerance := v }
  | barrier {value : Setting α} {v : α} (hread : value.toNum? = some v)
      (hv : Positive v) :
      Changes c "mu_init" value { c with barrier := v }
  | strategy {value : Setting α} {s : Strategy}
      (hread : value.toText?.bind Strategy.ofName? = some s) :
      Changes c "mu_strategy" value { c with strategy := s }
  | approximation {value : Setting α} (hread : value.toText? = some "limited-memory") :
      Changes c "hessian_approximation" value c
  | memory {value : Setting α} {length : ℤ} (hread : value.toInt? = some length)
      (hlength : 1 ≤ length) :
      Changes c "limited_memory_max_history" value { c with memory := length.toNat }

variable {c d next : Config α} {name : String} {value : Setting α}

theorem positive_of_readPositive {v : α} (h : readPositive name value = .ok v) : Positive v := by
  rw [readPositive] at h
  split at h
  · cases h
  · split at h
    · cases h
    · rename_i hcond
      cases h
      simpa [Positive] using hcond

theorem changes_of_set (h : c.set name value = .ok next) : c.Changes name value next := by
  unfold set at h
  split at h
  · obtain ⟨level, hread, h⟩ := Except.bind_eq_ok.mp h
    split at h
    · cases h
      exact .printLevel (readInt_eq_ok hread) ‹_›
    · cases h
  · obtain ⟨count, hread, h⟩ := Except.bind_eq_ok.mp h
    split at h
    · cases h
      exact .iterationLimit (readInt_eq_ok hread) ‹_›
    · cases h
  · obtain ⟨v, hread, h⟩ := Except.bind_eq_ok.mp h
    cases h
    exact .tolerance (readPositive_eq_ok hread) (positive_of_readPositive hread)
  · obtain ⟨v, hread, h⟩ := Except.bind_eq_ok.mp h
    cases h
    exact .violationTolerance (readPositive_eq_ok hread) (positive_of_readPositive hread)
  · obtain ⟨v, hread, h⟩ := Except.bind_eq_ok.mp h
    cases h
    exact .acceptableTolerance (readPositive_eq_ok hread) (positive_of_readPositive hread)
  · obtain ⟨v, hread, h⟩ := Except.bind_eq_ok.mp h
    cases h
    exact .barrier (readPositive_eq_ok hread) (positive_of_readPositive hread)
  · obtain ⟨text, hread, h⟩ := Except.bind_eq_ok.mp h
    split at h
    · cases h
      refine .strategy ?_
      rw [readText_eq_ok hread, Option.bind_some]
      assumption
    · cases h
  · obtain ⟨text, hread, h⟩ := Except.bind_eq_ok.mp h
    split at h
    · rename_i htext
      cases h
      exact .approximation (htext ▸ readText_eq_ok hread)
    · cases h
  · obtain ⟨length, hread, h⟩ := Except.bind_eq_ok.mp h
    split at h
    · cases h
      exact .memory (readInt_eq_ok hread) ‹_›
    · cases h
  · cases h

section Field

omit [Scalar α]

variable {β : Type} {settings : String → Option (Setting α)} {key : String}
  {read : Setting α → Option β} {own : β}

theorem field_set_self :
    field (fun k ↦ if k = name then some value else settings k) name read own
      = (read value).getD own := by
  rw [field, if_pos rfl, Option.bind_some]

theorem field_set_of_ne (hne : key ≠ name) :
    field (fun k ↦ if k = name then some value else settings k) key read own
      = field settings key read own := by
  rw [field, if_neg hne, field]

end Field

/-- A setting that is taken covers up an earlier one of its name and leaves all others. -/
theorem overlay_only_of_changes (h : d.Changes name value next) (c : Config α)
    (settings : String → Option (Setting α)) :
    (c.overlay settings).overlay (only name value)
      = c.overlay fun k ↦ if k = name then some value else settings k := by
  cases h with
  | printLevel hread | iterationLimit hread | tolerance hread | violationTolerance hread
  | acceptableTolerance hread | barrier hread | strategy hread | approximation hread
  | memory hread =>
    simp (disch := decide) only [overlay, field_only_self, field_only_of_ne, field_set_self,
      field_set_of_ne, hread, Option.map_some, Option.getD_some]

/-! ## Offers

Offers are made one after the other, and the last one is looked at first in the induction, since it
is the last value of a name that counts. -/

/-- The answer to a setting, with the configuration after it. A setting that is refused leaves the
configuration as it was. -/
def offer (name : String) (value : Setting α) :
    StateM (Config α) (Except (Rejection α) Unit) := fun c ↦
  match c.set name value with
  | .ok next => (.ok (), next)
  | .error reason => (.error reason, c)

/-- Offers settings one after the other, whatever the answers are. -/
def offerAll (offers : List (String × Setting α)) :
    StateM (Config α) (List (Except (Rejection α) Unit)) :=
  offers.mapM fun e ↦ offer e.1 e.2

/-- Whether a setting is taken, which is the same for all configurations. -/
def taken (e : String × Setting α) : Bool := ((standard : Config α).set e.1 e.2).isOk

/-- The last value that was taken under a name. -/
def latest (offers : List (String × Setting α)) (name : String) : Option (Setting α) :=
  (offers.filter taken).reverse.lookup name

theorem set_of_taken (h : taken (name, value) = true) (c : Config α) :
    c.set name value = .ok (c.overlay (only name value)) := by
  rw [taken] at h
  rcases hset : (standard : Config α).set name value with reason | next
  · rw [hset] at h
    cases h
  · exact set_eq_ok hset c

theorem set_of_not_taken (h : taken (name, value) = false) :
    ∃ reason, ∀ c : Config α, c.set name value = .error reason := by
  rw [taken] at h
  rcases hset : (standard : Config α).set name value with reason | next
  · exact ⟨reason, set_eq_error hset⟩
  · rw [hset] at h
    cases h

/-- No answer depends on the configuration. -/
theorem offer_fst (name : String) (value : Setting α) (c d : Config α) :
    (offer name value c).1 = (offer name value d).1 := by
  rw [offer, offer]
  cases h : taken (name, value) with
  | false =>
    obtain ⟨reason, hset⟩ := set_of_not_taken h
    rw [hset c, hset d]
  | true => rw [set_of_taken h c, set_of_taken h d]

theorem offer_of_error {reason : Rejection α} (h : (offer name value c).1 = .error reason) :
    (offer name value c).2 = c := by
  rw [offer] at h ⊢
  split
  · rename_i hset
    rw [hset] at h
    cases h
  · rfl

theorem latest_concat (offers : List (String × Setting α)) (e : String × Setting α) (k : String) :
    latest (offers ++ [e]) k =
      if taken e = true ∧ k = e.1 then some e.2 else latest offers k := by
  rw [latest, List.filter_append, List.reverse_append]
  cases h : taken e with
  | false =>
    rw [List.filter_cons_of_neg (by rw [h]; decide), List.filter_nil, List.reverse_nil,
      List.nil_append, if_neg fun hnot ↦ Bool.noConfusion hnot.1, ← latest]
  | true =>
    rw [List.filter_cons_of_pos h, List.filter_nil, List.reverse_singleton, List.singleton_append,
      Table.lookup_entry_cons, ← latest]
    exact if_congr (and_iff_right rfl).symm rfl rfl

theorem offer_overlay (c : Config α) (offers : List (String × Setting α))
    (e : String × Setting α) :
    (offer e.1 e.2 (c.overlay (latest offers))).2 = c.overlay (latest (offers ++ [e])) := by
  rw [offer, funext (latest_concat offers e)]
  cases h : taken e with
  | false =>
    obtain ⟨reason, hset⟩ := set_of_not_taken h
    simp only [hset, Bool.false_eq_true, false_and, if_false]
  | true =>
    have hset := set_of_taken h
    simp only [hset, true_and, overlay_only_of_changes (changes_of_set (hset c))]

theorem offerAll_concat (offers : List (String × Setting α)) (e : String × Setting α)
    (c : Config α) :
    offerAll (offers ++ [e]) c =
      ((offerAll offers c).1 ++ [(offer e.1 e.2 (offerAll offers c).2).1],
        (offer e.1 e.2 (offerAll offers c).2).2) := by
  rw [offerAll, List.mapM_append]
  rfl

/-- **The last values that were taken.** The configuration after any offers is the first one under
the last value that was taken of each name. Induction on the offers, the last one last. -/
theorem offerAll_eq_overlay (c : Config α) (offers : List (String × Setting α)) :
    (offerAll offers c).2 = c.overlay (latest offers) := by
  induction offers using List.reverseRecOn with
  | nil => rfl
  | append_singleton offers e ih => rw [offerAll_concat, ih, offer_overlay]

theorem offerAll_fst (c d : Config α) (offers : List (String × Setting α)) :
    (offerAll offers c).1 = offers.map fun e ↦ (offer e.1 e.2 d).1 := by
  induction offers using List.reverseRecOn with
  | nil => rfl
  | append_singleton offers e ih =>
    rw [offerAll_concat, ih, List.map_append, List.map_singleton, offer_fst _ _ _ d]

theorem offerAll_swap (c : Config α) {e e' : String × Setting α} (hne : e.1 ≠ e'.1) :
    (offerAll [e', e] c).2 = (offerAll [e, e'] c).2 ∧
      (offerAll [e', e] c).1 = (offerAll [e, e'] c).1.reverse := by
  constructor
  · rw [offerAll_eq_overlay, offerAll_eq_overlay]
    refine congrArg c.overlay (funext fun k ↦ ?_)
    have hswap : latest ([] ++ [e'] ++ [e]) k = latest ([] ++ [e] ++ [e']) k := by
      simp only [latest_concat]
      by_cases hk : k = e.1
      · simp [hk, hne]
      · simp [hk]
    exact hswap
  · rw [offerAll_fst c c, offerAll_fst c c]
    rfl

/-! ## Ranges

A value is read before it is set, and reading it refuses what is out of range. So every change leads
from parameters within their ranges to such parameters. -/

/-- Every parameter is within its range. -/
structure Valid (c : Config Float) : Prop where
  level : 0 ≤ c.printLevel ∧ c.printLevel ≤ 12
  tolerance : Scalar.isFinite c.tolerance = true ∧ 0.0 < c.tolerance
  violationTolerance : Scalar.isFinite c.violationTolerance = true ∧ 0.0 < c.violationTolerance
  acceptableTolerance : Scalar.isFinite c.acceptableTolerance = true ∧ 0.0 < c.acceptableTolerance
  barrier : Scalar.isFinite c.barrier = true ∧ 0.0 < c.barrier
  memory : 1 ≤ c.memory

theorem valid_standard : (standard : Config Float).Valid := by
  refine ⟨?_, ?_, ?_, ?_, ?_, ?_⟩ <;> decide +kernel

/-- A finite number that is not at most zero is above it. -/
theorem Positive.zero_lt {v : Float} (h : Positive v) : Scalar.isFinite v = true ∧ 0.0 < v := by
  refine ⟨h.1, not_not.mp fun hnot ↦ h.2 ?_⟩
  exact (FloatOrder.not_lt_iff (FloatOrder.isUndefined_of_isFinite h.1) (by decide +kernel)).mp hnot

theorem Valid.of_changes {c next : Config Float} {name : String} {value : Setting Float}
    (hc : c.Valid) (h : c.Changes name value next) : next.Valid := by
  cases h with
  | printLevel _ hlevel => exact { hc with level := hlevel }
  | iterationLimit => exact { hc with }
  | tolerance _ hv => exact { hc with tolerance := hv.zero_lt }
  | violationTolerance _ hv => exact { hc with violationTolerance := hv.zero_lt }
  | acceptableTolerance _ hv => exact { hc with acceptableTolerance := hv.zero_lt }
  | barrier _ hv => exact { hc with barrier := hv.zero_lt }
  | strategy => exact { hc with }
  | approximation => exact hc
  | memory _ hlength => exact { hc with memory := by show 1 ≤ Int.toNat _; omega }

theorem Valid.offer {c : Config Float} (hc : c.Valid) (name : String) (value : Setting Float) :
    (Config.offer name value c).2.Valid := by
  rw [Config.offer]
  split
  · exact hc.of_changes (changes_of_set ‹_›)
  · exact hc

theorem Valid.offerAll {c : Config Float} (hc : c.Valid)
    (offers : List (String × Setting Float)) : (Config.offerAll offers c).2.Valid := by
  induction offers using List.reverseRecOn with
  | nil => exact hc
  | append_singleton offers e ih =>
    rw [offerAll_concat]
    exact ih.offer e.1 e.2

/-- **A configuration under any offers.** Whatever settings the standard configuration is offered,
every parameter stays within its range, and each has the last value that was taken under its name. A
refused setting changes nothing, no answer depends on the configuration, and settings with different
names can change places. -/
theorem offerAll_standard (offers : List (String × Setting Float)) :
    (offerAll offers standard).2.Valid ∧
      (offerAll offers standard).2 = standard.overlay (latest offers) ∧
      (∀ (c : Config Float) name value reason,
        (offer name value c).1 = .error reason → (offer name value c).2 = c) ∧
      (∀ (c d : Config Float) name value, (offer name value c).1 = (offer name value d).1) ∧
      ∀ (c : Config Float) (e e' : String × Setting Float), e.1 ≠ e'.1 →
        (offerAll [e', e] c).2 = (offerAll [e, e'] c).2 ∧
          (offerAll [e', e] c).1 = (offerAll [e, e'] c).1.reverse := by
  refine ⟨valid_standard.offerAll offers, offerAll_eq_overlay standard offers, ?_, ?_, ?_⟩
  · exact fun c name value reason hrefused ↦ offer_of_error hrefused
  · exact fun c d name value ↦ offer_fst name value c d
  · exact fun c e e' hne ↦ offerAll_swap c hne

theorem offerAll_standard_mixed :
    let offers : List (String × Setting Float) :=
      [("tol", .num 0.5), ("print_level", .int 13), ("max_iter", .num 10.0), ("mu_init", .num 0.5),
        ("tol", .int 2), ("zeta", .int 1), ("tol", .num (-1.0))]
    let final := (offerAll offers standard).2
    final.Valid ∧ final = ⟨5, 3000, 2.0, 1e-4, 1e-6, .monotone, 0.5, 6⟩ ∧
      offer "tol" (.num (-1.0)) final = (.error (.notPositive "tol" (-1.0)), final) ∧
      (offerAll [("mu_strategy", .text "adaptive"), ("tol", .int 0)] final).2
        = (offerAll [("tol", .int 0), ("mu_strategy", .text "adaptive")] final).2 := by
  intro offers final
  have hrefused : (offer "tol" (.num (-1.0)) final).1 = .error (.notPositive "tol" (-1.0)) := by
    decide +kernel
  obtain ⟨hvalid, -, hkept, -, hswap⟩ := offerAll_standard offers
  exact ⟨hvalid, by decide +kernel, Prod.ext hrefused (hkept _ _ _ _ hrefused),
    (hswap final ("tol", .int 0) ("mu_strategy", .text "adaptive") (by decide)).1⟩

end Config

end NonlinearProgram
