import CharacterSheet.Names

/-!
# Finite maps from names

A map is the list of its entries in the order of the names, so maps with the same values are the
same map, and going through a map needs no further order.

* `NameMap` — the maps;
* `NameMap.get?`, `NameMap.insert`, `NameMap.adjust`, `NameMap.ofList` — the value of a name, a map
  with one value replaced or changed, and the map of a list of which the last entry of each name
  counts;
* `NameMap.get?_insert`, `NameMap.ext` — the law of insertion, and equality by values.
-/

namespace CharacterSheet

/-- A finite map from names, as the list of its entries in the order of the names. -/
structure NameMap (α : Type) where
  entries : List (String × α)
  sorted : entries.Pairwise fun a b => a.1 < b.1
  deriving DecidableEq, Repr

namespace NameMap

variable {α : Type}

/-- The map without entries. -/
def empty : NameMap α := ⟨[], .nil⟩

instance : Inhabited (NameMap α) := ⟨empty⟩

/-- The value of a name. -/
def get? (m : NameMap α) (name : String) : Option α := m.entries.lookup name

/-- Whether a name has a value. -/
def contains (m : NameMap α) (name : String) : Bool := (m.get? name).isSome

/-- The names that have a value, in order. -/
def names (m : NameMap α) : List String := m.entries.map (·.1)

/-- The number of names that have a value. -/
def size (m : NameMap α) : Nat := m.entries.length

/-- Replaces the entry of a name in an ordered list of entries, or puts it at its place. -/
def insertEntry (name : String) (v : α) : List (String × α) → List (String × α)
  | [] => [(name, v)]
  | (k, w) :: rest =>
    if name < k then (name, v) :: (k, w) :: rest
    else if name = k then (name, v) :: rest
    else (k, w) :: insertEntry name v rest

theorem mem_insertEntry {name : String} {v : α} {l : List (String × α)} {e : String × α}
    (h : e ∈ insertEntry name v l) : e = (name, v) ∨ e ∈ l := by
  induction l with
  | nil => exact .inl (List.mem_singleton.1 h)
  | cons first rest ih =>
    simp only [insertEntry] at h
    split at h
    · exact List.mem_cons.1 h
    · split at h
      · exact (List.mem_cons.1 h).imp_right (List.mem_cons_of_mem _)
      · rcases List.mem_cons.1 h with rfl | h
        · exact .inr List.mem_cons_self
        · exact (ih h).imp_right (List.mem_cons_of_mem _)

theorem fst_mem_insertEntry {name : String} {v : α} {l : List (String × α)} {e : String × α}
    (h : e ∈ insertEntry name v l) : e.1 = name ∨ e ∈ l :=
  (mem_insertEntry h).imp_left (congrArg Prod.fst)

theorem sorted_insertEntry {name : String} {v : α} {l : List (String × α)}
    (h : l.Pairwise fun a b => a.1 < b.1) :
    (insertEntry name v l).Pairwise fun a b => a.1 < b.1 := by
  induction l with
  | nil => simp [insertEntry]
  | cons first rest ih =>
    obtain ⟨k, w⟩ := first
    rw [List.pairwise_cons] at h
    simp only [insertEntry]
    split
    · next hlt =>
      refine List.pairwise_cons.2 ⟨fun e he => ?_, List.pairwise_cons.2 h⟩
      rcases List.mem_cons.1 he with rfl | he
      · exact hlt
      · exact String.lt_trans hlt (h.1 e he)
    · split
      · next heq => exact List.pairwise_cons.2 ⟨fun e he => heq ▸ h.1 e he, h.2⟩
      · next hge hne =>
        refine List.pairwise_cons.2 ⟨fun e he => ?_, ih h.2⟩
        rcases fst_mem_insertEntry he with he | he
        · exact he ▸ Names.lt_of_not_lt hge hne
        · exact h.1 e he

/-- The map with the value of one name replaced. -/
def insert (m : NameMap α) (name : String) (v : α) : NameMap α :=
  ⟨insertEntry name v m.entries, sorted_insertEntry m.sorted⟩

/-- The map with the value of one name changed, if it has one. -/
def adjust (m : NameMap α) (name : String) (f : α → α) : NameMap α :=
  match m.get? name with
  | some v => m.insert name (f v)
  | none => m

/-- The map of a list of entries. Of several entries of a name the last counts. -/
def ofList (l : List (String × α)) : NameMap α := l.foldl (fun m e => m.insert e.1 e.2) empty

theorem lookup_cons_eq (k other : String) (w : α) (l : List (String × α)) :
    ((k, w) :: l).lookup other = if other = k then some w else l.lookup other := by
  by_cases h : other = k
  · simp [h]
  · simp [List.lookup_cons, h, beq_false_of_ne h]

theorem lookup_insertEntry (name other : String) (v : α) (l : List (String × α)) :
    (insertEntry name v l).lookup other = if other = name then some v else l.lookup other := by
  induction l with
  | nil => simp [insertEntry, lookup_cons_eq]
  | cons first rest ih =>
    obtain ⟨k, w⟩ := first
    simp only [insertEntry]
    split
    · rw [lookup_cons_eq]
    · split
      · next heq =>
        subst heq
        simp only [lookup_cons_eq]
        split <;> rfl
      · next hne =>
        rw [lookup_cons_eq, ih, lookup_cons_eq]
        by_cases h : other = name
        · subst h
          simp [hne]
        · simp [h]

theorem get?_insert (m : NameMap α) (name other : String) (v : α) :
    (m.insert name v).get? other = if other = name then some v else m.get? other :=
  lookup_insertEntry name other v m.entries

@[simp] theorem get?_insert_self (m : NameMap α) (name : String) (v : α) :
    (m.insert name v).get? name = some v := by
  simp [get?_insert]

theorem get?_adjust (m : NameMap α) (name other : String) (f : α → α) :
    (m.adjust name f).get? other = if other = name then (m.get? name).map f else m.get? other := by
  unfold adjust
  split
  · next v hv => rw [get?_insert, hv, Option.map_some]
  · next hnone =>
    split
    · next heq => rw [heq, hnone, Option.map_none]
    · rfl

theorem mem_entries_of_get? {m : NameMap α} {name : String} {v : α} (h : m.get? name = some v) :
    (name, v) ∈ m.entries := by
  obtain ⟨before, after, heq, -⟩ := List.lookup_eq_some_iff.1 h
  exact heq ▸ List.mem_append_right before List.mem_cons_self

theorem mem_names_of_get? {m : NameMap α} {name : String} {v : α} (h : m.get? name = some v) :
    name ∈ m.names :=
  List.mem_map_of_mem (mem_entries_of_get? h)

@[simp] theorem get?_empty (name : String) : (empty : NameMap α).get? name = none := rfl

theorem lookup_eq_none_of_lt {k : String} {l : List (String × α)} (h : ∀ e ∈ l, k < e.1) :
    l.lookup k = none := by
  rw [List.lookup_eq_none_iff]
  intro e he
  simpa using fun heq : k = e.1 => String.lt_irrefl e.1 (heq ▸ h e he)

theorem eq_of_lookup_eq {l₁ l₂ : List (String × α)} (h₁ : l₁.Pairwise fun a b => a.1 < b.1)
    (h₂ : l₂.Pairwise fun a b => a.1 < b.1) (h : ∀ name, l₁.lookup name = l₂.lookup name) :
    l₁ = l₂ := by
  induction l₁ generalizing l₂ with
  | nil =>
    cases l₂ with
    | nil => rfl
    | cons e l₂ =>
      obtain ⟨k, v⟩ := e
      simpa [lookup_cons_eq] using h k
  | cons e₁ l₁ ih =>
    obtain ⟨k₁, v₁⟩ := e₁
    cases l₂ with
    | nil => simpa [lookup_cons_eq] using h k₁
    | cons e₂ l₂ =>
      obtain ⟨k₂, v₂⟩ := e₂
      rw [List.pairwise_cons] at h₁ h₂
      have hk : k₁ = k₂ := by
        by_cases hlt : k₁ < k₂
        · have hnone : ((k₂, v₂) :: l₂).lookup k₁ = none :=
            lookup_eq_none_of_lt fun e he => by
              rcases List.mem_cons.1 he with rfl | he
              · exact hlt
              · exact String.lt_trans hlt (h₂.1 e he)
          simpa [lookup_cons_eq, hnone] using h k₁
        · by_cases hgt : k₂ < k₁
          · have hnone : ((k₁, v₁) :: l₁).lookup k₂ = none :=
              lookup_eq_none_of_lt fun e he => by
                rcases List.mem_cons.1 he with rfl | he
                · exact hgt
                · exact String.lt_trans hgt (h₁.1 e he)
            simpa [lookup_cons_eq, hnone] using h k₂
          · exact String.le_antisymm (String.not_lt.1 hgt) (String.not_lt.1 hlt)
      subst hk
      have hv : v₁ = v₂ := by simpa [lookup_cons_eq] using h k₁
      have hrest : l₁ = l₂ := ih h₁.2 h₂.2 fun name => by
        by_cases hn : name = k₁
        · subst hn
          rw [lookup_eq_none_of_lt h₁.1, lookup_eq_none_of_lt h₂.1]
        · simpa [lookup_cons_eq, hn] using h name
      rw [hv, hrest]

/-- Maps with the same values are the same. -/
@[ext] theorem ext {m₁ m₂ : NameMap α} (h : ∀ name, m₁.get? name = m₂.get? name) : m₁ = m₂ := by
  have := eq_of_lookup_eq m₁.sorted m₂.sorted h
  cases m₁
  cases m₂
  simp_all

end NameMap

end CharacterSheet
