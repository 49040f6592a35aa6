/-!
# Tables

A table holds values by key, in the order in which the keys came.  Nothing is ever taken
out of it.  `find?` is the view of a table; `find?_addNew` and `find?_modify` say what the
two operations do to it.  `keysWhere` lists the keys whose values have a property.
-/

namespace WakeRouter

structure Table (κ α : Type) where
  entries : List (κ × α)
  nodup : (entries.map Prod.fst).Nodup
deriving Repr

namespace Table

variable {κ α : Type}

theorem eq_of_entries {s t : Table κ α} (hentries : s.entries = t.entries) : s = t := by
  cases s
  cases t
  cases hentries
  rfl

/-- The keys whose values have the property. -/
def keysWhere (t : Table κ α) (p : α → Bool) : List κ :=
  (t.entries.filter fun entry => p entry.2).map Prod.fst

theorem nodup_keysWhere (t : Table κ α) (p : α → Bool) : (t.keysWhere p).Nodup :=
  t.nodup.sublist (List.Sublist.map Prod.fst List.filter_sublist)

theorem keysWhere_eq_toList {t : Table κ α} {p : α → Bool} {key? : Option κ}
    (hmem : ∀ key, key ∈ t.keysWhere p ↔ key? = some key) : t.keysWhere p = key?.toList := by
  cases key? with
  | none =>
      apply List.eq_nil_iff_forall_not_mem.mpr
      intro key hkey
      cases (hmem key).mp hkey
  | some key =>
      apply List.perm_singleton.mp
      apply (List.perm_ext_iff_of_nodup (t.nodup_keysWhere p) (by simp)).mpr
      intro k
      rw [hmem, List.mem_singleton, Option.some.injEq, eq_comm]

variable [DecidableEq κ]

instance [DecidableEq α] : DecidableEq (Table κ α) := fun s t =>
  decidable_of_iff (s.entries = t.entries) (by cases s; cases t; simp)

def empty : Table κ α := ⟨[], .nil⟩

def keys (t : Table κ α) : List κ :=
  t.entries.map Prod.fst

def size (t : Table κ α) : Nat :=
  t.entries.length

def find? (t : Table κ α) (key : κ) : Option α :=
  t.entries.lookup key

def has (t : Table κ α) (key : κ) : Bool :=
  (t.find? key).isSome

theorem find?_eq_none_iff {t : Table κ α} {key : κ} : t.find? key = none ↔ key ∉ t.keys := by
  simp only [find?, keys, List.lookup_eq_none_iff, List.mem_map, bne_iff_ne]
  exact ⟨fun h ⟨p, hp, same⟩ => h p hp same.symm, fun h p hp same => h ⟨p, hp, same.symm⟩⟩

/-- Add a value under a key that has none. -/
def addNew (t : Table κ α) (key : κ) (a : α) : Table κ α :=
  if h : key ∈ t.keys then t
  else
    { entries := t.entries ++ [(key, a)]
      nodup := by
        have fresh : ∀ k ∈ t.entries.map Prod.fst, k ≠ key :=
          fun k hk same => h (same ▸ hk)
        simpa [List.nodup_append, t.nodup] using fresh }

/-- Change the value of a key that has one. -/
def modify (t : Table κ α) (key : κ) (f : α → α) : Table κ α where
  entries := t.entries.map fun (k, a) => (k, if k = key then f a else a)
  nodup := by
    have same : (t.entries.map fun (k, a) => (k, if k = key then f a else a)).map Prod.fst =
        t.entries.map Prod.fst := by
      simp [List.map_map, Function.comp_def]
    exact same ▸ t.nodup

@[simp] theorem find?_empty (key : κ) : (empty : Table κ α).find? key = none := rfl

/-- The first value of a key stays; other keys do not notice. -/
theorem find?_addNew (t : Table κ α) (key k : κ) (a : α) :
    (t.addNew key a).find? k = if k = key then some ((t.find? key).getD a) else t.find? k := by
  unfold addNew
  split
  · rename_i present
    split
    · rename_i same
      subst same
      cases h : t.find? k with
      | none => exact absurd present (find?_eq_none_iff.1 h)
      | some a' => rfl
    · rfl
  · rename_i absent
    have missing : t.find? key = none := find?_eq_none_iff.2 absent
    show (t.entries ++ [(key, a)]).lookup k = _
    rw [List.lookup_append]
    split
    · rename_i same
      subst same
      have missing' : t.entries.lookup k = none := missing
      simp [missing', missing]
    · rename_i other
      simp [List.lookup_cons, beq_false_of_ne other, find?]

theorem find?_modify (t : Table κ α) (key k : κ) (f : α → α) :
    (t.modify key f).find? k = if k = key then (t.find? k).map f else t.find? k := by
  show (t.entries.map fun (k, a) => (k, if k = key then f a else a)).lookup k = _
  unfold find?
  induction t.entries with
  | nil => simp
  | cons entry rest ih =>
    obtain ⟨k', a⟩ := entry
    by_cases h : k = k'
    · subst h
      by_cases h' : k = key <;> simp [h']
    · simp [List.lookup_cons, beq_false_of_ne h, ih]

theorem mem_entries_iff {t : Table κ α} {key : κ} {a : α} :
    (key, a) ∈ t.entries ↔ t.find? key = some a := by
  rw [find?, List.lookup_eq_some_iff]
  constructor
  · intro hmem
    obtain ⟨before, after, hsplit⟩ := List.append_of_mem hmem
    refine ⟨before, after, hsplit, fun entry hentry => ?_⟩
    have hnodup := t.nodup
    rw [hsplit, List.map_append, List.nodup_append] at hnodup
    have hother := hnodup.2.2 entry.1 (List.mem_map_of_mem hentry) key (by simp)
    simpa using hother.symm
  · rintro ⟨before, after, hsplit, -⟩
    simp [hsplit]

theorem has_eq_false_iff {t : Table κ α} {key : κ} :
    t.has key = false ↔ t.find? key = none := by
  simp [has]

theorem find?_addNew_of_none {t : Table κ α} {key : κ} (hfresh : t.find? key = none)
    (k : κ) (a : α) :
    (t.addNew key a).find? k = if k = key then some a else t.find? k := by
  simp [find?_addNew, hfresh]

theorem entries_addNew_of_none {t : Table κ α} {key : κ} (hfresh : t.find? key = none) (a : α) :
    (t.addNew key a).entries = t.entries ++ [(key, a)] := by
  unfold addNew
  rw [dif_neg (find?_eq_none_iff.mp hfresh)]

theorem entries_modify (t : Table κ α) (key : κ) (f : α → α) :
    (t.modify key f).entries =
      t.entries.map fun entry => (entry.1, if entry.1 = key then f entry.2 else entry.2) := rfl

theorem modify_comm (t : Table κ α) (f : α → α) (a b : κ) :
    (t.modify a f).modify b f = (t.modify b f).modify a f := by
  apply eq_of_entries
  simp only [entries_modify, List.map_map]
  apply List.map_congr_left
  intro entry _
  simp only [Function.comp_apply]
  split <;> split <;> rfl

theorem modify_of_none {t : Table κ α} {key : κ} (hnone : t.find? key = none) (f : α → α) :
    t.modify key f = t := by
  have hsame : ∀ entry ∈ t.entries,
      (entry.1, if entry.1 = key then f entry.2 else entry.2) = entry := by
    intro entry hentry
    have hne : entry.1 ≠ key := by
      rintro rfl
      exact find?_eq_none_iff.mp hnone (List.mem_map_of_mem hentry)
    rw [if_neg hne]
  have hentries : (t.modify key f).entries = t.entries := by
    rw [entries_modify, List.map_congr_left hsame, List.map_id']
  exact eq_of_entries hentries

theorem addNew_of_some {t : Table κ α} {key : κ} {old : α} (hfound : t.find? key = some old)
    (a : α) : t.addNew key a = t := by
  have hpresent : key ∈ t.keys := by
    by_cases hmem : key ∈ t.keys
    · exact hmem
    · rw [find?_eq_none_iff.mpr hmem] at hfound
      cases hfound
  exact dif_pos hpresent

/-! ## Keys whose values have a property -/

theorem mem_keysWhere {t : Table κ α} {p : α → Bool} {key : κ} :
    key ∈ t.keysWhere p ↔ ∃ a, t.find? key = some a ∧ p a := by
  simp [keysWhere, mem_entries_iff]

theorem keysWhere_addNew {t : Table κ α} {key : κ} (hfresh : t.find? key = none) (a : α)
    (p : α → Bool) :
    (t.addNew key a).keysWhere p = t.keysWhere p ++ if p a then [key] else [] := by
  by_cases h : p a <;> simp [keysWhere, entries_addNew_of_none hfresh, h]

/-- A change that the property does not notice leaves the list as it is. -/
theorem keysWhere_modify {p : α → Bool} {f : α → α} (hsame : ∀ a, p (f a) = p a)
    (t : Table κ α) (key : κ) : (t.modify key f).keysWhere p = t.keysWhere p := by
  have hentry : ∀ entry : κ × α,
      p (if entry.1 = key then f entry.2 else entry.2) = p entry.2 := by
    intro entry
    split
    · exact hsame entry.2
    · rfl
  simp [keysWhere, entries_modify, List.filter_map, Function.comp_def, hentry]

end Table

end WakeRouter
