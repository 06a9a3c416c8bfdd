import Mathlib.Data.List.Forall2
import CharacterSheet.Record.Shape

/-!
# Records that read back

A way of writing values and a way of reading them belong together if every value is read back from
what is written of it. Here this is carried from the parts of a record to the record: through lists
and maps, and through parts that may be left out or null.

* `Record.ReadsBack` — every value is read back;
* `Record.listOf_eq_some_iff`, `Record.readsBack_listOf` — a list is read item by item;
* `NameMap.ofList_entries`, `Record.readsBack_mapOf` — a map is the map of its entries;
* `Record.lookup_optional`, `Record.readsBack_nullable`, `Record.defaulted_eq` — parts that are left
  out, and what is read for them.
-/

namespace CharacterSheet

/-! ### Maps -/

namespace NameMap

variable {α : Type}

theorem insertEntry_eq_append {name : String} {v : α} {l : List (String × α)}
    (h : ∀ e ∈ l, e.1 < name) : insertEntry name v l = l ++ [(name, v)] := by
  induction l with
  | nil => rfl
  | cons first rest ih =>
    obtain ⟨hfirst, hrest⟩ := List.forall_mem_cons.1 h
    have hnot : ¬name < first.1 := String.lt_asymm hfirst
    have hne : name ≠ first.1 := fun heq => String.lt_irrefl name (heq ▸ hfirst)
    rw [insertEntry, if_neg hnot, if_neg hne, ih hrest, List.cons_append]

/-- Entries in order are put in one behind the other. -/
theorem entries_foldl_insert {l : List (String × α)} {m : NameMap α}
    (h : (m.entries ++ l).Pairwise fun a b => a.1 < b.1) :
    (l.foldl (fun m e => m.insert e.1 e.2) m).entries = m.entries ++ l := by
  induction l generalizing m with
  | nil => exact (List.append_nil _).symm
  | cons e l ih =>
    have hlast : (m.insert e.1 e.2).entries = m.entries ++ [e] :=
      insertEntry_eq_append fun a ha =>
        (List.pairwise_append.1 h).2.2 a ha e List.mem_cons_self
    have hnext : ((m.insert e.1 e.2).entries ++ l).Pairwise fun a b => a.1 < b.1 := by
      rwa [hlast, List.append_assoc]
    rw [List.foldl_cons, ih hnext, hlast, List.append_assoc, List.singleton_append]

theorem ofList_entries (m : NameMap α) : ofList m.entries = m := by
  have h : (ofList m.entries).entries = m.entries := entries_foldl_insert (m := empty) m.sorted
  cases m
  cases hm : ofList _
  simp_all

end NameMap

namespace Record

variable {α : Type} {write : α → Json} {read : Json → Option α} {fields : Fields} {name : String}

/-- Every value is read back from what is written of it. -/
def ReadsBack (write : α → Json) (read : Json → Option α) : Prop := ∀ v, read (write v) = some v

/-! ### Plain values -/

theorem readsBack_toText : ReadsBack .string Json.toText? := fun _ => rfl

theorem readsBack_toFloat : ReadsBack .real Json.toFloat? := fun _ => rfl

theorem readsBack_toChar : ReadsBack (fun c : Char => .string c.toString) Json.toChar? := by
  intro c
  have hchars : c.toString.toList = [c] := by simp [Char.toString]
  simp only [Json.toChar?, hchars]

/-! ### Lists and maps of values -/

theorem mapM_eq_some_iff {β γ : Type} {f : β → Option γ} {l : List β} {vs : List γ} :
    l.mapM f = some vs ↔ List.Forall₂ (fun a v => f a = some v) l vs := by
  induction l generalizing vs with
  | nil => simp [eq_comm]
  | cons a l ih =>
    rw [List.mapM_cons, List.forall₂_cons_left_iff]
    simp only [Option.bind_eq_bind, Option.bind_eq_some_iff, Option.pure_def, Option.some.injEq]
    constructor
    · rintro ⟨v, hv, rest, hrest, rfl⟩
      exact ⟨v, rest, hv, ih.1 hrest, rfl⟩
    · rintro ⟨v, rest, hv, hrest, rfl⟩
      exact ⟨v, hv, rest, ih.2 hrest, rfl⟩

theorem listOf_eq_some_iff {record : Json} {vs : List α} :
    listOf read record = some vs ↔ ∃ items, record = .array items ∧
      List.Forall₂ (fun item v => read item = some v) items vs := by
  unfold listOf
  rw [Option.bind_eq_some_iff]
  simp only [mapM_eq_some_iff]
  refine exists_congr fun items => and_congr_left fun _ => ?_
  cases record <;> simp [Json.toList?]

theorem readsBack_listOf (h : ReadsBack write read) :
    ReadsBack (fun vs => .array (vs.map write)) (listOf read) := by
  intro vs
  refine listOf_eq_some_iff.2 ⟨_, rfl, ?_⟩
  rw [List.forall₂_map_left_iff, List.forall₂_same]
  exact fun v _ => h v

theorem readsBack_mapOf (h : ReadsBack write read) :
    ReadsBack (mapToJson write) (mapOf read) := by
  intro m
  have hentries : (m.entries.map fun e => (e.1, write e.2)).mapM
      (fun f => (read f.2).map fun v => (f.1, v)) = some m.entries := by
    rw [mapM_eq_some_iff, List.forall₂_map_left_iff, List.forall₂_same]
    intro e _
    rw [h e.2, Option.map_some]
  show Option.map NameMap.ofList _ = some m
  rw [hentries, Option.map_some, NameMap.ofList_entries]

/-! ### Parts -/

theorem toText?_eq_some_iff {record : Json} {s : String} :
    record.toText? = some s ↔ record = .string s := by
  cases record <;> simp [Json.toText?]

theorem nullable_toText?_eq_some_iff {record : Json} {s : Option String} :
    nullable Json.toText? record = some s ↔ record = orNull .string s := by
  cases record <;> cases s <;> simp [nullable, Json.toText?, orNull]

theorem required_toText?_eq_some_iff {s : String} :
    required fields name Json.toText? = some s ↔ fields.lookup name = some (.string s) := by
  rw [required, Option.bind_eq_some_iff]
  simp only [toText?_eq_some_iff, exists_eq_right]

@[simp] theorem lookup_optional (write : α → Json) (v : Option α) (name other : String) :
    (optional name write v).lookup other = if other = name then v.map write else none := by
  cases v with
  | none => simp [optional]
  | some v =>
    show ((name, write v) :: []).lookup other = _
    rw [NameMap.lookup_cons_eq]
    rfl

@[simp] theorem lookup_ite (c : Prop) [Decidable c] (name other : String) (record : Json) :
    (if c then [] else [(name, record)] : Fields).lookup other =
      if other = name then if c then none else some record else none := by
  split
  · simp
  · rw [NameMap.lookup_cons_eq, List.lookup_nil]

@[simp] theorem getD_map_null (write : α → Json) (v : Option α) :
    (v.map write).getD .null = orNull write v := by
  cases v <;> rfl

theorem readsBack_nullable (h : ReadsBack write read) (hnull : ∀ v, write v ≠ .null) :
    ReadsBack (orNull write) (nullable read) := by
  intro v
  cases v with
  | none => rfl
  | some v =>
    have hread {record : Json} (hne : record ≠ .null) :
        nullable read record = (read record).map some := by
      cases record <;> first | rfl | exact absurd rfl hne
    rw [orNull, hread (hnull v), h, Option.map_some]

/-- A part that may be left out is read as if its default stood there. -/
theorem defaulted_eq {default : α} {absent : Json} (habsent : read absent = some default) :
    defaulted fields name default read = read ((fields.lookup name).getD absent) := by
  rw [defaulted]
  cases fields.lookup name with
  | none => exact habsent.symm
  | some record => rfl

theorem defaulted_nullable :
    defaulted fields name none (nullable read) =
      nullable read ((fields.lookup name).getD .null) :=
  defaulted_eq rfl

theorem defaulted_listOf :
    defaulted fields name [] (listOf read) =
      listOf read ((fields.lookup name).getD (.array [])) :=
  defaulted_eq rfl

end Record

end CharacterSheet
