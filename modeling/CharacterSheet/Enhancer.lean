import CharacterSheet.Property

/-!
# Enhancers

An enhancer is a named bundle of properties: a piece of equipment, a perk, a card. Its properties
are kept in groups, one for each statistic in the order of the names, and in a group they stand as
they were declared.

* `Enhancer`, `Enhancer.ofProperties` — a bundle, and the bundle of a list of declared properties;
* `Enhancer.propertiesFor`, `Enhancer.statistics` — the group of a statistic, and the statistics;
* `Enhancer.validateFormulas` — reads every custom formula, to find bad content early;
* `Enhancer.propertiesFor_ofProperties` — a group holds the properties declared for its statistic,
  in the order of their declaration.
-/

namespace CharacterSheet

/-- Whether a property's group comes no later than another's. -/
def Property.groupLE (p q : Property) : Bool := decide (p.statistic ≤ q.statistic)

/-- A named bundle of properties, in groups. -/
structure Enhancer where
  name : String
  description : Option String
  properties : List Property
  grouped : properties.Pairwise fun p q => p.groupLE q
  deriving DecidableEq, Repr

namespace Property

theorem groupLE_trans (p q r : Property) (hpq : p.groupLE q) (hqr : q.groupLE r) :
    p.groupLE r := by
  simp only [groupLE, decide_eq_true_eq] at *
  exact String.le_trans hpq hqr

theorem groupLE_total (p q : Property) : p.groupLE q || q.groupLE p := by
  simp only [groupLE, Bool.or_eq_true, decide_eq_true_eq]
  exact String.le_total _ _

end Property

namespace Enhancer

/-- The bundle of a list of properties. -/
def ofProperties (name : String) (properties : List Property)
    (description : Option String := none) : Enhancer :=
  ⟨name, description, properties.mergeSort Property.groupLE,
    List.pairwise_mergeSort Property.groupLE_trans Property.groupLE_total properties⟩

/-- The properties for a statistic, as they were declared. -/
def propertiesFor (e : Enhancer) (statistic : String) : List Property :=
  e.properties.filter fun p => p.statistic == statistic

/-- The statistics that a bundle modifies, in order. -/
def statistics (e : Enhancer) : List String := Names.ofList (e.properties.map (·.statistic))

/-- Reads every custom formula, group by group, and gives the first error. -/
def validateFormulas (e : Enhancer) (limits : ParseLimits) : Except AggregationError Unit :=
  (e.properties.filter Property.isCustom).forM fun p => (p.compile limits).map fun _ => ()

theorem propertiesFor_ofProperties (name statistic : String) (properties : List Property)
    (description : Option String) :
    (ofProperties name properties description).propertiesFor statistic =
      properties.filter fun p => p.statistic == statistic := by
  have hsub : (properties.filter fun p => p.statistic == statistic).Sublist
      (properties.mergeSort Property.groupLE) := by
    apply List.sublist_mergeSort Property.groupLE_trans Property.groupLE_total
    · rw [List.pairwise_iff_forall_sublist]
      intro p q hpq
      have hp := List.mem_filter.1 (hpq.subset List.mem_cons_self)
      have hq := List.mem_filter.1 (hpq.subset (List.mem_cons_of_mem _ List.mem_cons_self))
      have heq : p.statistic = q.statistic := by
        rw [eq_of_beq hp.2, eq_of_beq hq.2]
      simp [Property.groupLE, heq]
    · exact List.filter_sublist
  have hfilter := hsub.filter fun p => p.statistic == statistic
  rw [List.filter_filter] at hfilter
  simp only [Bool.and_self] at hfilter
  exact (hfilter.eq_of_length (((List.mergeSort_perm properties _).filter _).length_eq.symm)).symm

end Enhancer

end CharacterSheet
