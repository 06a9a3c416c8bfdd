import CharacterSheet.Enhancer
import CharacterSheet.NameMap

/-!
# Properties in groups

The properties of an enhancer are declared one after the other, for whatever statistics, and each is
put at the end of the group of its statistic. The groups are a map, so they come in the order of the
names, and a group is found by its name.

* `Enhancer.Groups`, `Enhancer.Groups.push`, `Enhancer.Groups.ofList` — the groups, one property
  more, and the groups of a list of declared properties;
* `Enhancer.Groups.propertiesFor`, `Enhancer.Groups.properties` — the group of a statistic, and all
  properties group by group;
* `Enhancer.declared` — the enhancer whose properties were put in groups one by one.
-/

namespace CharacterSheet.Enhancer

/-- Properties by the statistics that they are for. -/
structure Groups where
  byStatistic : NameMap (List Property)
  keyed : ∀ group ∈ byStatistic.entries, ∀ p ∈ group.2, p.statistic = group.1
  deriving DecidableEq, Repr

namespace Groups

/-- No properties. -/
def empty : Groups := ⟨.empty, nofun⟩

/-- The properties for a statistic, as they were put there. -/
def propertiesFor (g : Groups) (statistic : String) : List Property :=
  (g.byStatistic.get? statistic).getD []

theorem statistic_of_mem_propertiesFor {g : Groups} {statistic : String} {p : Property}
    (h : p ∈ g.propertiesFor statistic) : p.statistic = statistic := by
  unfold propertiesFor at h
  cases hgroup : g.byStatistic.get? statistic with
  | none =>
    rw [hgroup] at h
    cases h
  | some group =>
    rw [hgroup] at h
    exact g.keyed (statistic, group) (NameMap.mem_entries_of_get? hgroup) p h

/-- Puts a property at the end of its group. -/
def push (g : Groups) (p : Property) : Groups where
  byStatistic := g.byStatistic.insert p.statistic (g.propertiesFor p.statistic ++ [p])
  keyed := by
    intro group hgroup q hq
    rcases NameMap.mem_insertEntry hgroup with rfl | hgroup
    · rcases List.mem_append.1 hq with hq | hq
      · exact statistic_of_mem_propertiesFor hq
      · rw [List.mem_singleton.1 hq]
    · exact g.keyed group hgroup q hq

/-- The groups of a list of properties. -/
def ofList (properties : List Property) : Groups := properties.foldl push empty

/-- All properties, group by group. -/
def properties (g : Groups) : List Property := g.byStatistic.entries.flatMap (·.2)

theorem grouped (g : Groups) : g.properties.Pairwise fun p q => p.groupLE q := by
  have hle {p q : Property} (h : p.statistic ≤ q.statistic) : p.groupLE q := decide_eq_true h
  refine List.pairwise_flatMap.2 ⟨fun group hgroup => ?_, ?_⟩
  · refine List.pairwise_iff_forall_sublist.2 fun {p q} hpq => hle ?_
    have hp := g.keyed group hgroup p (hpq.subset List.mem_cons_self)
    have hq := g.keyed group hgroup q (hpq.subset (List.mem_cons_of_mem p List.mem_cons_self))
    exact hp.trans hq.symm ▸ String.le_refl p.statistic
  · refine g.byStatistic.sorted.imp_of_mem fun {a b} ha hb hlt p hp q hq => hle ?_
    rw [g.keyed a ha p hp, g.keyed b hb q hq]
    exact String.not_lt.1 (String.lt_asymm hlt)

end Groups

/-- The enhancer of a list of properties, which are put in groups one by one. -/
def declared (name : String) (properties : List Property) (description : Option String := none) :
    Enhancer :=
  ⟨name, description, (Groups.ofList properties).properties, Groups.grouped _⟩

end CharacterSheet.Enhancer
