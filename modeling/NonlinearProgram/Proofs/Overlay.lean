import NonlinearProgram.Proofs.Checked
import NonlinearProgram.Lagrangian.Run

/-!
# Configurations under settings

A setting that is taken changes the one field that it owns, and whether it is taken does not depend
on the configuration (`Config.set_eq`). So settings with different names can be handed over in any
order. `Config.overlay` is the configuration that they lead to: each field has the value of its
setting, where there is one, and else the value that it had.

A solver that is handed settings one by one takes all of them, or those before the first one that it
does not take; in both cases its configuration is the one under the settings that it took
(`MultiplierMethod.configureEach_cases`).
-/

namespace NonlinearProgram

/-! ## Entries with different names

A table is a sorted list of entries with different names. What is found in it is a matter of
membership, and so it is the same for every order of the entries; the entries in front of a given
one are those with smaller names. -/

namespace Table

variable {β : Type} {es es' : List (String × β)}

theorem lookup_eq_some_iff (hes : es.Pairwise fun a b ↦ a.1 ≠ b.1) {name : String} {value : β} :
    es.lookup name = some value ↔ (name, value) ∈ es := by
  induction es with
  | nil => simp
  | cons e es ih =>
    obtain ⟨hhead, hes⟩ := List.pairwise_cons.mp hes
    rw [lookup_entry_cons, List.mem_cons]
    split
    · rename_i heq
      -- behind the first entry there is none with its name
      have hnot : (name, value) ∉ es := fun hmem ↦ hhead _ hmem heq.symm
      rw [or_iff_left hnot, Option.some_inj, Prod.ext_iff, and_iff_right heq, eq_comm]
    · rename_i hne
      rw [ih hes, or_iff_right]
      rintro rfl
      exact hne rfl

theorem lookup_perm (hes : es.Pairwise fun a b ↦ a.1 ≠ b.1) (h : es.Perm es') (name : String) :
    es'.lookup name = es.lookup name := by
  have hes' : es'.Pairwise fun a b ↦ a.1 ≠ b.1 := hes.perm h fun hne ↦ hne.symm
  refine Option.ext fun value ↦ ?_
  rw [lookup_eq_some_iff hes', lookup_eq_some_iff hes, h.mem_iff]

theorem pairwise_ne (t : Table β) : t.entries.Pairwise fun a b ↦ a.1 ≠ b.1 :=
  t.increasing.imp String.ne_of_lt

theorem get?_eq_some_iff (t : Table β) {name : String} {value : β} :
    t.get? name = some value ↔ (name, value) ∈ t.entries :=
  lookup_eq_some_iff t.pairwise_ne

theorem mem_front_or_le {t : Table β} {front rest : List (String × β)} {name k : String}
    {value v : β} (h : t.entries = front ++ (name, value) :: rest) (hget : t.get? k = some v) :
    (k, v) ∈ front ∨ k = name ∨ name < k := by
  have hincreasing := t.increasing
  rw [h, List.pairwise_append, List.pairwise_cons] at hincreasing
  have hmem := t.get?_eq_some_iff.mp hget
  rw [h, List.mem_append, List.mem_cons] at hmem
  rcases hmem with hfront | heq | hrest
  · exact Or.inl hfront
  · exact Or.inr (Or.inl (Prod.mk.inj heq).1)
  · exact Or.inr (Or.inr (hincreasing.2.1.1 _ hrest))

/-- The entries in front of one of a table are those with smaller names. -/
theorem lookup_front {t : Table β} {front rest : List (String × β)} {name : String} {value : β}
    (h : t.entries = front ++ (name, value) :: rest) (k : String) :
    front.lookup k = if k < name then t.get? k else none := by
  have hincreasing := t.increasing
  rw [h, List.pairwise_append] at hincreasing
  obtain ⟨hfront, -, hbefore⟩ := hincreasing
  refine Option.ext fun v ↦ ?_
  rw [lookup_eq_some_iff (hfront.imp String.ne_of_lt)]
  split
  · rename_i hlt
    constructor
    · intro hmem
      rw [get?_eq_some_iff, h]
      exact List.mem_append_left _ hmem
    · intro hget
      rcases mem_front_or_le h hget with hmem | rfl | hle
      · exact hmem
      · exact absurd hlt (String.lt_irrefl k)
      · exact absurd (String.lt_trans hlt hle) (String.lt_irrefl k)
  · rename_i hnot
    refine iff_of_false (fun hmem ↦ hnot ?_) nofun
    exact hbefore _ hmem _ List.mem_cons_self

end Table

variable {α σ : Type} [Scalar α]

namespace Config

/-! ## One setting

Setting a parameter reads the value, compares it with a range, and stores it. Each of the nine
settings is this with a reading and a range of its own, and an overlay looks up the same readings
one field after the other. -/

/-- What a field has under settings: what its setting reads as, or else its own value. -/
def field {β : Type} (settings : String → Option (Setting α)) (name : String)
    (read : Setting α → Option β) (own : β) : β :=
  ((settings name).bind read).getD own

/-- The configuration with each field at the value of its setting, where there is one. -/
def overlay (c : Config α) (settings : String → Option (Setting α)) : Config α where
  printLevel := field settings "print_level" Setting.toInt? c.printLevel
  iterationLimit := field settings "max_iter" (fun v ↦ v.toInt?.map Int.toNat) c.iterationLimit
  tolerance := field settings "tol" Setting.toNum? c.tolerance
  violationTolerance := field settings "constr_viol_tol" Setting.toNum? c.violationTolerance
  acceptableTolerance := field settings "acceptable_tol" Setting.toNum? c.acceptableTolerance
  strategy := field settings "mu_strategy" (fun v ↦ v.toText?.bind Strategy.ofName?) c.strategy
  barrier := field settings "mu_init" Setting.toNum? c.barrier
  memory := field settings "limited_memory_max_history" (fun v ↦ v.toInt?.map Int.toNat) c.memory

/-- A single setting. -/
def only (name : String) (value : Setting α) : String → Option (Setting α) := fun k ↦
  if k = name then some value else none

/-- The configuration takes a setting. -/
def Takes (c : Config α) (name : String) (value : Setting α) : Prop :=
  ∃ next, c.set name value = .ok next

section Reading

omit [Scalar α]

theorem readInt_eq_ok {name : String} {value : Setting α} {n : Int}
    (h : readInt name value = .ok n) : value.toInt? = some n := by
  rw [readInt] at h
  split at h
  · rwa [← Except.ok.inj h]
  · cases h

theorem readText_eq_ok {name : String} {value : Setting α} {s : String}
    (h : readText name value = .ok s) : value.toText? = some s := by
  rw [readText] at h
  split at h
  · rwa [← Except.ok.inj h]
  · cases h

theorem bind_eq_map {β : Type} {read : Except (Rejection α) β}
    {f g : β → Except (Rejection α) (Config α)} {c : Config α}
    (h : ∀ b, read = .ok b → f b = (g b).map fun _ ↦ c) :
    read >>= f = (read >>= g).map fun _ ↦ c := by
  rcases read with reason | b
  · rfl
  · exact h b rfl

theorem ite_eq_map {P : Prop} [Decidable P] {reason : Rejection α} {c d e : Config α} (h : c = e) :
    (if P then .ok c else .error reason : Except (Rejection α) (Config α)) =
      (if P then .ok d else .error reason : Except (Rejection α) (Config α)).map fun _ ↦ e := by
  subst h
  split <;> rfl

end Reading

theorem readPositive_eq_ok {name : String} {value : Setting α} {v : α}
    (h : readPositive name value = .ok v) : value.toNum? = some v := by
  rw [readPositive] at h
  split at h
  · cases h
  · split at h
    · cases h
    · rwa [← Except.ok.inj h]

section Field

omit [Scalar α]

variable {β : Type} {read : Setting α → Option β} {own : β} {name key : String} {value : Setting α}

theorem field_only_self : field (only name value) name read own = (read value).getD own := by
  rw [field, only, if_pos rfl, Option.bind_some]

theorem field_only_of_ne (hne : key ≠ name) : field (only name value) key read own = own := by
  rw [field, only, if_neg hne, Option.bind_none, Option.getD_none]

theorem field_field_only {settings : String → Option (Setting α)} (hname : settings name = none) :
    field settings key read (field (only name value) key read own)
      = field (fun k ↦ if k = name then some value else settings k) key read own := by
  by_cases hkey : key = name
  · subst hkey
    rw [field_only_self, field, field, hname, Option.bind_none, Option.getD_none, if_pos rfl,
      Option.bind_some]
  · rw [field_only_of_ne hkey, field, field, if_neg hkey]

end Field

/-- A setting is taken or refused whatever the configuration is, and one that is taken changes its
own field alone. -/
theorem set_eq (c d : Config α) (name : String) (value : Setting α) :
    c.set name value = (d.set name value).map fun _ ↦ c.overlay (only name value) := by
  unfold set
  split
  · refine bind_eq_map fun n hn ↦ ite_eq_map ?_
    simp (disch := decide) only [overlay, field_only_self, field_only_of_ne, readInt_eq_ok hn,
      Option.getD_some]
  · refine bind_eq_map fun n hn ↦ ite_eq_map ?_
    simp (disch := decide) only [overlay, field_only_self, field_only_of_ne, readInt_eq_ok hn,
      Option.map_some, Option.getD_some]
  · refine bind_eq_map fun v hv ↦ congrArg Except.ok ?_
    simp (disch := decide) only [overlay, field_only_self, field_only_of_ne, readPositive_eq_ok hv,
      Option.getD_some]
  · refine bind_eq_map fun v hv ↦ congrArg Except.ok ?_
    simp (disch := decide) only [overlay, field_only_self, field_only_of_ne, readPositive_eq_ok hv,
      Option.getD_some]
  · refine bind_eq_map fun v hv ↦ congrArg Except.ok ?_
    simp (disch := decide) only [overlay, field_only_self, field_only_of_ne, readPositive_eq_ok hv,
      Option.getD_some]
  · refine bind_eq_map fun v hv ↦ congrArg Except.ok ?_
    simp (disch := decide) only [overlay, field_only_self, field_only_of_ne, readPositive_eq_ok hv,
      Option.getD_some]
  · refine bind_eq_map fun s hs ↦ ?_
    rcases hstrategy : Strategy.ofName? s with _ | strategy
    · rfl
    · refine congrArg Except.ok ?_
      simp (disch := decide) only [overlay, field_only_self, field_only_of_ne, readText_eq_ok hs,
        Option.bind_some, hstrategy, Option.getD_some]
  · refine bind_eq_map fun s hs ↦ ite_eq_map ?_
    simp (disch := decide) only [overlay, field_only_of_ne]
  · refine bind_eq_map fun n hn ↦ ite_eq_map ?_
    simp (disch := decide) only [overlay, field_only_self, field_only_of_ne, readInt_eq_ok hn,
      Option.map_some, Option.getD_some]
  · rfl

variable {c d : Config α} {name : String} {value : Setting α}

theorem set_eq_ok {next : Config α} (h : d.set name value = .ok next) (c : Config α) :
    c.set name value = .ok (c.overlay (only name value)) := by
  rw [set_eq c d, h]
  rfl

theorem set_eq_error {reason : Rejection α} (h : d.set name value = .error reason)
    (c : Config α) : c.set name value = .error reason := by
  rw [set_eq c d, h]
  rfl

theorem Takes.of_config (h : d.Takes name value) (c : Config α) : c.Takes name value := by
  obtain ⟨_, hset⟩ := h
  exact ⟨_, set_eq_ok hset c⟩

theorem not_takes_iff : ¬c.Takes name value ↔ ∃ reason, c.set name value = .error reason := by
  rw [Takes]
  rcases c.set name value with reason | next <;> simp

/-! ## Settings in a row -/

/-- A setting and then others with other names are like all of them. -/
theorem overlay_overlay_only (c : Config α) {settings : String → Option (Setting α)}
    (hname : settings name = none) :
    (c.overlay (only name value)).overlay settings
      = c.overlay fun k ↦ if k = name then some value else settings k := by
  simp only [overlay, field_field_only hname]

end Config

/-! ## Solvers

To configure a solver is to set its configuration; problem and layout stay. -/

namespace MultiplierMethod

variable {minimizer : Minimizer α} {base : Config α} {note : Remark α → StateM σ Unit}

/-- A solver under settings. -/
def Solver.overlay (s : Solver α σ) (settings : String → Option (Setting α)) : Solver α σ :=
  { s with config := s.config.overlay settings }

theorem Solver.overlay_overlay_only (s : Solver α σ) {settings : String → Option (Setting α)}
    {name : String} {value : Setting α} (hname : settings name = none) :
    (s.overlay (Config.only name value)).overlay settings
      = s.overlay fun k ↦ if k = name then some value else settings k :=
  congrArg (fun c ↦ { s with config := c }) (Config.overlay_overlay_only s.config hname)

theorem Solver.configure_eq_ok_iff {s next : Solver α σ} {name : String} {value : Setting α} :
    s.configure name value = .ok next ↔
      s.config.Takes name value ∧ next = s.overlay (Config.only name value) := by
  rw [configure, Config.Takes]
  rcases hset : s.config.set name value with reason | c
  · exact iff_of_false nofun (by rintro ⟨⟨_, h⟩, -⟩; cases h)
  · obtain rfl := Except.ok.inj (hset.symm.trans (Config.set_eq_ok hset s.config))
    constructor
    · intro h
      exact ⟨⟨_, rfl⟩, (Except.ok.inj h).symm⟩
    · rintro ⟨-, rfl⟩
      rfl

theorem Solver.configure_eq_error_iff {s : Solver α σ} {name : String} {value : Setting α}
    {reason : Rejection α} :
    s.configure name value = .error reason ↔ s.config.set name value = .error reason := by
  rw [configure]
  rcases s.config.set name value with reason | c
  · exact ⟨fun h ↦ congrArg _ (Except.error.inj h), fun h ↦ congrArg _ (Except.error.inj h)⟩
  · exact iff_of_false nofun nofun

/-- Settings with different names that were taken one after the other are settings that the first
configuration takes, and the last one is the first one under all of them. Induction on the
settings. -/
theorem overlay_of_accepts {entries : List (String × Setting α)}
    {solver last : (backendWith minimizer base : Backend α σ).Solver} {s s' : σ}
    (h : (backendWith minimizer base).Accepts note entries solver s last s')
    (hentries : entries.Pairwise fun a b ↦ a.1 ≠ b.1) :
    last = Solver.overlay solver (fun k ↦ entries.lookup k) ∧
      ∀ e ∈ entries, (Solver.config solver).Takes e.1 e.2 := by
  induction h with
  | nil => exact ⟨rfl, fun _ he ↦ absurd he List.not_mem_nil⟩
  | @cons name value entries solver next last s s₁ s₂ first _ ih =>
    obtain ⟨hhead, hentries⟩ := List.pairwise_cons.mp hentries
    obtain ⟨rfl, htaken⟩ := ih hentries
    obtain ⟨htakes, rfl⟩ := Solver.configure_eq_ok_iff.mp (congrArg Prod.fst first)
    have hname : entries.lookup name = none := by
      refine Option.eq_none_iff_forall_ne_some.mpr fun v hv ↦ ?_
      exact hhead _ ((Table.lookup_eq_some_iff hentries).mp hv) rfl
    refine ⟨?_, List.forall_mem_cons.mpr ⟨htakes, fun e he ↦ (htaken e he).of_config _⟩⟩
    have hlookup : (fun k ↦ ((name, value) :: entries).lookup k) = fun k ↦
        if k = name then some value else entries.lookup k :=
      funext fun k ↦ Table.lookup_entry_cons k _ entries
    rw [hlookup]
    exact Solver.overlay_overlay_only _ hname

variable (minimizer base note) in
/-- A solver that is handed settings with different names takes all of them, or the first of those
that it does not take is at fault. -/
theorem configureEach_cases {entries : List (String × Setting α)}
    (hentries : entries.Pairwise fun a b ↦ a.1 ≠ b.1)
    (solver : (backendWith minimizer base : Backend α σ).Solver) (s : σ) :
    ((∀ e ∈ entries, (Solver.config solver).Takes e.1 e.2) ∧
      ((backendWith minimizer base).configureEach note entries solver s).1
        = (Solver.overlay solver (fun k ↦ entries.lookup k), .ok ())) ∨
    ∃ front name value rest reason, entries = front ++ (name, value) :: rest ∧
      (∀ e ∈ front, (Solver.config solver).Takes e.1 e.2) ∧
      (Solver.config solver).set name value = .error reason ∧
      ((backendWith minimizer base).configureEach note entries solver s).1
        = (Solver.overlay solver (fun k ↦ front.lookup k),
            .error (.rejectedSetting name value reason)) := by
  rcases (backendWith minimizer base).configureEach_cases entries solver s with
    ⟨last, s', haccepts, hall⟩ | ⟨front, name, value, rest, last, s₁, reason, s', rfl, haccepts,
      hrejects, hall⟩
  · obtain ⟨rfl, htaken⟩ := overlay_of_accepts haccepts hentries
    exact Or.inl ⟨htaken, congrArg Prod.fst hall⟩
  · obtain ⟨rfl, htaken⟩ := overlay_of_accepts haccepts (List.pairwise_append.mp hentries).1
    have hset := Solver.configure_eq_error_iff.mp (congrArg Prod.fst hrejects)
    exact Or.inr ⟨front, name, value, rest, reason, rfl, htaken, Config.set_eq_error hset _,
      congrArg Prod.fst hall⟩

end MultiplierMethod

end NonlinearProgram
