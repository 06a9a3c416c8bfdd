/-!
# Lists of names in order

Names are compared by code points, which is the order of their bytes in UTF-8.

* `Names.insert`, `Names.ofList` — the names of a list, each once and in increasing order;
* `Names.mem_ofList`, `Names.sorted_ofList` — that this is what they are.
-/

namespace CharacterSheet.Names

theorem lt_of_not_lt {a b : String} (h : ¬a < b) (hne : a ≠ b) : b < a :=
  Decidable.byContradiction fun hba =>
    hne (String.le_antisymm (String.not_lt.1 hba) (String.not_lt.1 h))

/-- Adds a name to an increasing list, unless it is there already. -/
def insert (name : String) : List String → List String
  | [] => [name]
  | first :: rest =>
    if name < first then name :: first :: rest
    else if name = first then first :: rest
    else first :: insert name rest

/-- The names of a list, each once, in increasing order. -/
def ofList (names : List String) : List String := names.foldr insert []

@[simp] theorem mem_insert {x name : String} {l : List String} :
    x ∈ insert name l ↔ x = name ∨ x ∈ l := by
  induction l with
  | nil => simp [insert]
  | cons first rest ih =>
    simp only [insert]
    split
    · simp
    · split <;> simp_all [or_left_comm]

@[simp] theorem mem_ofList {x : String} {l : List String} : x ∈ ofList l ↔ x ∈ l := by
  induction l with
  | nil => simp [ofList]
  | cons first rest ih => simpa [ofList] using or_congr_right ih

theorem sorted_insert {name : String} {l : List String} (h : l.Pairwise (· < ·)) :
    (insert name l).Pairwise (· < ·) := by
  induction l with
  | nil => simp [insert]
  | cons first rest ih =>
    rw [List.pairwise_cons] at h
    simp only [insert]
    split
    · next hlt =>
      refine List.pairwise_cons.2 ⟨fun x hx => ?_, List.pairwise_cons.2 h⟩
      rcases List.mem_cons.1 hx with rfl | hx
      · exact hlt
      · exact String.lt_trans hlt (h.1 x hx)
    · split
      · exact List.pairwise_cons.2 h
      · next hge hne =>
        refine List.pairwise_cons.2 ⟨fun x hx => ?_, ih h.2⟩
        rcases mem_insert.1 hx with rfl | hx
        · exact lt_of_not_lt hge hne
        · exact h.1 x hx

theorem sorted_ofList (l : List String) : (ofList l).Pairwise (· < ·) := by
  induction l with
  | nil => exact List.Pairwise.nil
  | cons first rest ih => exact sorted_insert ih

end CharacterSheet.Names
