/-!
# Sorted tables

A finite map from names to values, kept as the list of its entries with strictly increasing
names. The order of names is the order of their characters, which is also the order of the bytes
of their encoding. Whoever walks a table walks it in that order, whatever order the entries came
in.
-/

namespace NonlinearProgram

/-- Entries with strictly increasing names. -/
structure Table (β : Type) where
  entries : List (String × β)
  increasing : entries.Pairwise fun a b ↦ a.1 < b.1

namespace Table

variable {β : Type}

instance [DecidableEq β] : DecidableEq (Table β) := fun s t ↦
  decidable_of_iff (s.entries = t.entries) (by cases s; cases t; simp)

/-- The table without entries. -/
def empty : Table β := ⟨[], List.Pairwise.nil⟩

instance : EmptyCollection (Table β) := ⟨empty⟩

instance : Inhabited (Table β) := ⟨empty⟩

/-! ## Insertion -/

/-- Puts an entry before the first larger name, in place of an equal one. -/
def insertEntry (name : String) (value : β) : List (String × β) → List (String × β)
  | [] => [(name, value)]
  | e :: es =>
    if name < e.1 then (name, value) :: e :: es
    else if name = e.1 then (name, value) :: es
    else e :: insertEntry name value es

theorem mem_insertEntry {name : String} {value : β} {e : String × β} {es : List (String × β)}
    (h : e ∈ insertEntry name value es) : e = (name, value) ∨ e ∈ es := by
  induction es with
  | nil => simpa [insertEntry] using h
  | cons d es ih =>
    rw [insertEntry] at h
    split at h
    · simpa using h
    · split at h
      · rcases List.mem_cons.mp h with h | h
        · exact .inl h
        · exact .inr (List.mem_cons_of_mem _ h)
      · rcases List.mem_cons.mp h with h | h
        · exact .inr (h ▸ List.mem_cons_self)
        · exact (ih h).imp_right (List.mem_cons_of_mem _)

theorem insertEntry_increasing (name : String) (value : β) {es : List (String × β)}
    (h : es.Pairwise fun a b ↦ a.1 < b.1) :
    (insertEntry name value es).Pairwise fun a b ↦ a.1 < b.1 := by
  induction es with
  | nil => simp [insertEntry]
  | cons d es ih =>
    obtain ⟨hd, hes⟩ := List.pairwise_cons.mp h
    rw [insertEntry]
    split
    · rename_i hlt
      refine List.pairwise_cons.mpr ⟨fun e he ↦ ?_, h⟩
      rcases List.mem_cons.mp he with rfl | he
      · exact hlt
      · exact String.lt_trans hlt (hd e he)
    · split
      · rename_i heq
        exact List.pairwise_cons.mpr ⟨fun e he ↦ heq ▸ hd e he, hes⟩
      · rename_i hnlt hne
        refine List.pairwise_cons.mpr ⟨fun e he ↦ ?_, ih hes⟩
        rcases mem_insertEntry he with rfl | he
        · rcases Std.le_total (a := d.1) (b := name) with hle | hle
          · exact Std.lt_of_le_of_ne hle (Ne.symm hne)
          · exact absurd (Std.lt_of_le_of_ne hle hne) hnlt
        · exact hd e he

/-- The table with `name` set to `value`, in place of any earlier value. -/
def insert (t : Table β) (name : String) (value : β) : Table β :=
  ⟨insertEntry name value t.entries, insertEntry_increasing name value t.increasing⟩

/-! ## Look-up and removal -/

/-- The value of a name. -/
def get? (t : Table β) (name : String) : Option β := t.entries.lookup name

/-- Whether a name has a value. -/
def contains (t : Table β) (name : String) : Bool := (t.get? name).isSome

/-- The table without `name`. -/
def erase (t : Table β) (name : String) : Table β :=
  ⟨t.entries.filter fun e ↦ e.1 ≠ name, t.increasing.filter _⟩

/-- The table with `name` set to `value` where it had no value. -/
def insertNew (t : Table β) (name : String) (value : β) : Table β :=
  if t.contains name then t else t.insert name value

/-! ## Entries through look-up -/

theorem lookup_entry_cons (k : String) (e : String × β) (es : List (String × β)) :
    (e :: es).lookup k = if k = e.1 then some e.2 else es.lookup k := by
  by_cases h : k = e.1
  · rw [if_pos h, h, List.lookup_cons_self]
  · rw [if_neg h, List.lookup_cons, beq_false_of_ne h]

theorem lookup_insertEntry (name : String) (value : β) (k : String) (es : List (String × β)) :
    (insertEntry name value es).lookup k = if k = name then some value else es.lookup k := by
  induction es with
  | nil => rw [insertEntry, lookup_entry_cons]
  | cons e es ih =>
    rw [insertEntry]
    split
    · rw [lookup_entry_cons]
    · split
      · rename_i heq
        by_cases h : k = name
        · rw [lookup_entry_cons, if_pos h, if_pos h]
        · rw [lookup_entry_cons, lookup_entry_cons, if_neg h, if_neg h, if_neg (heq ▸ h)]
      · rename_i hne
        by_cases h : k = name
        · rw [lookup_entry_cons, ih, if_pos h, if_pos h, if_neg (h ▸ hne)]
        · rw [lookup_entry_cons, lookup_entry_cons, ih, if_neg h, if_neg h]

theorem lookup_filter_ne (name k : String) (es : List (String × β)) :
    (es.filter fun e ↦ e.1 ≠ name).lookup k = if k = name then none else es.lookup k := by
  induction es with
  | nil => simp
  | cons e es ih =>
    by_cases he : e.1 = name
    · rw [List.filter_cons_of_neg (by simpa using he), ih, lookup_entry_cons, he]
      by_cases h : k = name
      · rw [if_pos h, if_pos h]
      · rw [if_neg h, if_neg h, if_neg h]
    · rw [List.filter_cons_of_pos (by simpa using he), lookup_entry_cons, lookup_entry_cons, ih]
      by_cases h : k = name
      · rw [if_neg (h ▸ Ne.symm he), if_pos h, if_pos h]
      · rw [if_neg h, if_neg h]

@[simp] theorem get?_insert (t : Table β) (name k : String) (value : β) :
    (t.insert name value).get? k = if k = name then some value else t.get? k :=
  lookup_insertEntry name value k t.entries

@[simp] theorem get?_erase (t : Table β) (name k : String) :
    (t.erase name).get? k = if k = name then none else t.get? k :=
  lookup_filter_ne name k t.entries

/-- A new entry shows where there was none; every other name keeps what it had. -/
theorem get?_insertNew (t : Table β) (name k : String) (value : β) :
    (t.insertNew name value).get? k =
      if k = name then some ((t.get? name).getD value) else t.get? k := by
  by_cases h : k = name
  · cases hg : t.get? name <;> simp [insertNew, contains, hg, h]
  · cases hg : t.get? name <;> simp [insertNew, contains, hg, h]

/-! ## Size, and tables from lists -/

/-- The number of entries. -/
def size (t : Table β) : Nat := t.entries.length

/-- Whether there is no entry. -/
def isEmpty (t : Table β) : Bool := t.entries.isEmpty

/-- The table of a list of entries; of two with one name the later one stays. -/
def ofList (es : List (String × β)) : Table β :=
  es.foldl (fun t e ↦ t.insert e.1 e.2) empty

/-- The table `t` with every entry of `u` set over it. -/
def union (t u : Table β) : Table β := u.entries.foldl (fun t e ↦ t.insert e.1 e.2) t

end Table

end NonlinearProgram
