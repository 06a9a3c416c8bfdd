import CharacterSheet.Enhancer.Groups
import CharacterSheet.Proofs.Record.Enhancer

/-!
# Groups hold what was declared

A property that is put in its group leaves all other groups as they are, so a group holds the
properties declared for its statistic, in the order of their declaration, and all groups together
hold each property once.

* `Enhancer.Groups.propertiesFor_push`, `Enhancer.Groups.propertiesFor_ofList` — one property more,
  and all declared properties;
* `Enhancer.Groups.filter_properties` — a group among all properties;
* `Enhancer.declared_eq_ofProperties` — groups filled one by one are the sorted list of the
  properties.
-/

namespace CharacterSheet.Enhancer

variable {statistic : String}

namespace Groups

theorem propertiesFor_push (g : Groups) (p : Property) (statistic : String) :
    (g.push p).propertiesFor statistic =
      g.propertiesFor statistic ++ if p.statistic == statistic then [p] else [] := by
  show ((g.byStatistic.insert p.statistic _).get? statistic).getD [] = _
  rw [NameMap.get?_insert]
  by_cases h : p.statistic = statistic
  · subst h
    rw [if_pos rfl, Option.getD_some, if_pos (beq_self_eq_true p.statistic)]
  · rw [if_neg (Ne.symm h), if_neg (by simpa using h), List.append_nil]
    rfl

/-- Each group has grown by the properties declared for its statistic. -/
theorem propertiesFor_foldl (g : Groups) (properties : List Property) (statistic : String) :
    (properties.foldl push g).propertiesFor statistic =
      g.propertiesFor statistic ++ properties.filter fun p => p.statistic == statistic := by
  induction properties generalizing g with
  | nil => exact (List.append_nil _).symm
  | cons p properties ih =>
    rw [List.foldl_cons, ih, propertiesFor_push, List.append_assoc, List.filter_cons]
    split
    · rfl
    · rfl

theorem propertiesFor_ofList (properties : List Property) (statistic : String) :
    (ofList properties).propertiesFor statistic =
      properties.filter fun p => p.statistic == statistic :=
  propertiesFor_foldl empty properties statistic

/-- Among the properties of ordered groups, those for a statistic are its group. -/
theorem filter_flatMap_groups {groups : List (String × List Property)}
    (hsorted : groups.Pairwise fun a b => a.1 < b.1)
    (hkeyed : ∀ group ∈ groups, ∀ p ∈ group.2, p.statistic = group.1) (statistic : String) :
    (groups.flatMap (·.2)).filter (fun p => p.statistic == statistic) =
      (groups.lookup statistic).getD [] := by
  induction groups with
  | nil => rfl
  | cons group groups ih =>
    obtain ⟨name, properties⟩ := group
    obtain ⟨hfirst, hkeyed⟩ := List.forall_mem_cons.1 hkeyed
    obtain ⟨hlt, hsorted⟩ := List.pairwise_cons.1 hsorted
    rw [List.flatMap_cons, List.filter_append, ih hsorted hkeyed, NameMap.lookup_cons_eq]
    split
    · next heq =>
      have hnone : groups.lookup statistic = none := by
        rw [heq]
        exact NameMap.lookup_eq_none_of_lt hlt
      have hself : properties.filter (fun p => p.statistic == statistic) = properties :=
        List.filter_eq_self.2 fun p hp => beq_iff_eq.2 ((hfirst p hp).trans heq.symm)
      rw [hself, hnone, Option.getD_none, List.append_nil, Option.getD_some]
    · next hne =>
      have hnone : properties.filter (fun p => p.statistic == statistic) = [] :=
        List.filter_eq_nil_iff.2 fun p hp hbeq =>
          hne ((eq_of_beq hbeq).symm.trans (hfirst p hp))
      rw [hnone, List.nil_append]

theorem filter_properties (g : Groups) (statistic : String) :
    g.properties.filter (fun p => p.statistic == statistic) = g.propertiesFor statistic :=
  filter_flatMap_groups g.byStatistic.sorted g.keyed statistic

end Groups

theorem propertiesFor_declared (name : String) (properties : List Property)
    (description : Option String) (statistic : String) :
    (declared name properties description).propertiesFor statistic =
      (Groups.ofList properties).propertiesFor statistic :=
  Groups.filter_properties (Groups.ofList properties) statistic

theorem declared_eq_ofProperties (name : String) (properties : List Property)
    (description : Option String) :
    declared name properties description = ofProperties name properties description := by
  unfold declared ofProperties
  congr 1
  refine Property.eq_of_filter_eq (Groups.grouped _) (ofProperties name properties).grouped
    fun statistic => ?_
  rw [Groups.filter_properties, Groups.propertiesFor_ofList]
  exact (propertiesFor_ofProperties name statistic properties none).symm

end CharacterSheet.Enhancer
