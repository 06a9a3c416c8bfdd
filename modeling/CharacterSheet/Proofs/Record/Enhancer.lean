import CharacterSheet.Proofs.ByteOrder
import CharacterSheet.Proofs.Record.Shape
import CharacterSheet.Record.Enhancer

/-!
# Records of enhancers

An enhancer keeps its properties in groups, and its record is a plain list of properties. Reading
puts the list in order by the names of the statistics and leaves properties for one statistic as
they stand, so an enhancer's own record, which is in order, is read as the same enhancer.

* `Property.IsStableSort`, `Property.IsStableSort.unique` — a list in order, and that there is only
  one;
* `Enhancer.Declares`, `Enhancer.ofJson?_eq_some_iff` — what a record of an enhancer declares, and
  that the enhancer is made of it;
* `Property.readsBack`, `Enhancer.readsBack` — properties and enhancers are read back;
* `Enhancer.exists_of_declares` — what becomes of a record that is read and written again.
-/

namespace CharacterSheet

open Record

theorem Factor.readsBack : ReadsBack toJson ofJson? := by
  intro f
  cases f <;> rfl

namespace Property

theorem dependsOnField_of_lookup {fields : Fields} {dependsOn : Option String}
    (h : fields.lookup "depends_on" = dependsOn.map .string)
    (halias : fields.lookup "depends_on_keyword" = none) :
    dependsOnField fields = some dependsOn := by
  unfold dependsOnField
  rw [h, halias]
  cases dependsOn <;> rfl

theorem readsBack : ReadsBack toJson ofJson? := by
  intro p
  let parts : Fields :=
    optional "depends_on" .string p.dependsOn ++ optional "formula" .string p.formula
  have hdependsOn : dependsOnField parts = some p.dependsOn :=
    dependsOnField_of_lookup (by simp [parts, List.lookup_append])
      (by rw [List.lookup_append]; simp)
  have hformula : defaulted parts "formula" none (nullable Json.toText?) = some p.formula := by
    have hlookup : parts.lookup "formula" = p.formula.map .string := by
      simp [parts, List.lookup_append]
    rw [defaulted_nullable, hlookup, getD_map_null, readsBack_nullable readsBack_toText nofun]
  show ((Factor.ofJson? p.factor.toJson).bind fun factor => (dependsOnField parts).bind fun
    dependsOn => (defaulted parts "formula" none (nullable Json.toText?)).bind fun formula =>
      some (Property.mk p.statistic p.value factor dependsOn formula)) = some p
  rw [Factor.readsBack, hdependsOn, hformula]
  rfl

/-- A list has the properties of another one, ordered by the bytes of the names of their statistics.
Properties for one statistic stand as they stood. -/
structure IsStableSort (declared sorted : List Property) : Prop where
  perm : sorted.Perm declared
  ordered : sorted.Pairwise fun p q => Names.bytes p.statistic ≤ Names.bytes q.statistic
  stable : ∀ name, (sorted.filter fun p => p.statistic == name) =
    declared.filter fun p => p.statistic == name

theorem bytes_le_bytes_iff {p q : Property} :
    Names.bytes p.statistic ≤ Names.bytes q.statistic ↔ p.groupLE q := by
  rw [← List.not_lt, Names.bytes_lt_bytes_iff, groupLE, decide_eq_true_iff, String.not_lt]

theorem mem_iff_mem_filter {p : Property} {l : List Property} :
    p ∈ l ↔ p ∈ l.filter fun q => q.statistic == p.statistic := by
  simp [List.mem_filter]

/-- Ordered lists are equal if they have the same properties for each statistic. -/
theorem eq_of_filter_eq {l₁ l₂ : List Property} (h₁ : l₁.Pairwise fun p q => p.groupLE q)
    (h₂ : l₂.Pairwise fun p q => p.groupLE q)
    (h : ∀ name, (l₁.filter fun p => p.statistic == name) =
      l₂.filter fun p => p.statistic == name) : l₁ = l₂ := by
  induction l₁ generalizing l₂ with
  | nil =>
    cases l₂ with
    | nil => rfl
    | cons q l₂ => simpa using h q.statistic
  | cons p l₁ ih =>
    cases l₂ with
    | nil => simpa using h p.statistic
    | cons q l₂ =>
      have hmem (r : Property) : r ∈ p :: l₁ ↔ r ∈ q :: l₂ := by
        rw [mem_iff_mem_filter, h, ← mem_iff_mem_filter]
      have hle {p q : Property} {l : List Property}
          (hl : (p :: l).Pairwise fun p q => p.groupLE q) (hq : q ∈ p :: l) :
          p.statistic ≤ q.statistic := by
        rcases List.mem_cons.1 hq with rfl | hq
        · exact String.le_refl _
        · exact of_decide_eq_true (List.rel_of_pairwise_cons hl hq)
      -- each list has the first property of the other one
      have hstatistic : p.statistic = q.statistic :=
        String.le_antisymm (hle h₁ ((hmem q).2 List.mem_cons_self))
          (hle h₂ ((hmem p).1 List.mem_cons_self))
      obtain rfl : p = q := by
        have hgroup := h q.statistic
        simp only [List.filter_cons, hstatistic, beq_self_eq_true, if_true] at hgroup
        exact (List.cons.inj hgroup).1
      rw [ih h₁.of_cons h₂.of_cons fun name => ?_]
      have hname := h name
      rw [List.filter_cons, List.filter_cons] at hname
      split at hname
      · exact (List.cons.inj hname).2
      · exact hname

/-- There is only one way to sort a list so. -/
theorem IsStableSort.unique {declared l₁ l₂ : List Property} (h₁ : IsStableSort declared l₁)
    (h₂ : IsStableSort declared l₂) : l₁ = l₂ :=
  eq_of_filter_eq (h₁.ordered.imp bytes_le_bytes_iff.1) (h₂.ordered.imp bytes_le_bytes_iff.1)
    fun name => (h₁.stable name).trans (h₂.stable name).symm

end Property

namespace Enhancer

/-- What a record of an enhancer declares. A description that is null is as good as none, and so is
a list of properties that is left out as one that is empty. -/
def Declares (record : Json) (name : String) (description : Option String)
    (properties : List Property) : Prop :=
  ∃ fields, fields? ["name", "description", "properties"] record = some fields ∧
    fields.lookup "name" = some (.string name) ∧
    (fields.lookup "description").getD .null = orNull .string description ∧
    ∃ items, (fields.lookup "properties").getD (.array []) = .array items ∧
      List.Forall₂ (fun item p => Property.ofJson? item = some p) items properties

theorem ofJson?_eq_some_iff {record : Json} {e : Enhancer} :
    ofJson? record = some e ↔
      ∃ name description properties, Declares record name description properties ∧
        e = ofProperties name properties description := by
  simp only [ofJson?, Option.bind_eq_bind, Option.bind_eq_some_iff, Option.pure_def,
    Option.some.injEq, required_toText?_eq_some_iff, defaulted_nullable,
    nullable_toText?_eq_some_iff, defaulted_listOf, listOf_eq_some_iff]
  constructor
  · rintro ⟨fields, hfields, name, hname, description, hdescription, properties, hproperties, rfl⟩
    exact ⟨name, description, properties, ⟨fields, hfields, hname, hdescription, hproperties⟩, rfl⟩
  · rintro ⟨name, description, properties, ⟨fields, hfields, hname, hdescription, hproperties⟩, rfl⟩
    exact ⟨fields, hfields, name, hname, description, hdescription, properties, hproperties, rfl⟩

theorem declares_toJson (e : Enhancer) : Declares e.toJson e.name e.description e.properties := by
  refine ⟨_, rfl, rfl, ?_, e.properties.map Property.toJson, ?_, ?_⟩
  · simp [List.lookup_append, NameMap.lookup_cons_eq]
  · simp [List.lookup_append, NameMap.lookup_cons_eq]
  · rw [List.forall₂_map_left_iff, List.forall₂_same]
    exact fun p _ => Property.readsBack p

theorem ofProperties_properties (e : Enhancer) :
    ofProperties e.name e.properties e.description = e := by
  unfold ofProperties
  congr 1
  exact List.mergeSort_of_pairwise e.grouped

theorem isStableSort_ofProperties (name : String) (properties : List Property)
    (description : Option String) :
    Property.IsStableSort properties (ofProperties name properties description).properties where
  perm := List.mergeSort_perm _ _
  ordered := (ofProperties name properties description).grouped.imp Property.bytes_le_bytes_iff.2
  stable statistic := propertiesFor_ofProperties name statistic properties description

theorem readsBack : ReadsBack toJson ofJson? := fun e =>
  ofJson?_eq_some_iff.2 ⟨_, _, _, declares_toJson e, (ofProperties_properties e).symm⟩

/-- An enhancer's record, read and written again, declares the same name and description and the
same properties in order. A second time changes nothing. -/
theorem exists_of_declares {record : Json} {name : String} {description : Option String}
    {properties : List Property} (h : Declares record name description properties) :
    ∃ e sorted, ofJson? record = some e ∧ Property.IsStableSort properties sorted ∧
      Declares e.toJson name description sorted ∧ ofJson? e.toJson = some e :=
  ⟨ofProperties name properties description, _,
    ofJson?_eq_some_iff.2 ⟨name, description, properties, h, rfl⟩,
    isStableSort_ofProperties name properties description, declares_toJson _, readsBack _⟩

end Enhancer

end CharacterSheet
