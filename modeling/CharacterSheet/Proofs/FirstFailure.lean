import Mathlib.Data.List.Forall2
import CharacterSheet.Proofs.Except

/-!
# Going through a list until something fails

A computation that may fail is done for each element of a list, from left to right, and stops at
the first failure. What is done with the results makes no difference to that.

* `FailsFirst` — the first element that fails, and its error;
* `failsFirst_filter_iff` — the same among the elements with a property;
* `mapM_eq_ok_iff`, `mapM_eq_error_iff` — all results of a list, or the error of its first failure;
* `forM_eq_mapM`, `foldlM_eq_mapM` — the same where results are dropped or overwrite each other;
* `exists_mapM_eq_ok_iff`, `exists_failsFirst_iff` — either all elements have a result, or one of
  them is the first to fail.
-/

namespace CharacterSheet

variable {ε α β : Type} {f : α → Except ε β} {l : List α} {a : α} {bs : List β} {error : ε}

/-- The computation has a result at all elements of a list before one, and fails there. -/
def FailsFirst (f : α → Except ε β) (l : List α) (error : ε) : Prop :=
  ∃ before a after, l = before ++ a :: after ∧ (∀ x ∈ before, ∃ b, f x = .ok b) ∧
    f a = .error error

theorem not_failsFirst_nil : ¬FailsFirst f [] error := by
  rintro ⟨before, a, after, heq, -⟩
  simp at heq

theorem failsFirst_cons :
    FailsFirst f (a :: l) error ↔
      f a = .error error ∨ (∃ b, f a = .ok b) ∧ FailsFirst f l error := by
  constructor
  · rintro ⟨before, x, after, heq, hbefore, hx⟩
    cases before with
    | nil =>
      obtain ⟨rfl, -⟩ := List.cons.inj heq
      exact .inl hx
    | cons first before =>
      obtain ⟨rfl, rfl⟩ := List.cons.inj heq
      obtain ⟨hfirst, hbefore⟩ := List.forall_mem_cons.1 hbefore
      exact .inr ⟨hfirst, before, x, after, rfl, hbefore, hx⟩
  · rintro (ha | ⟨ha, before, x, after, rfl, hbefore, hx⟩)
    · exact ⟨[], a, l, rfl, nofun, ha⟩
    · exact ⟨a :: before, x, after, rfl, List.forall_mem_cons.2 ⟨ha, hbefore⟩, hx⟩

theorem FailsFirst.exists_mem (h : FailsFirst f l error) : ∃ a ∈ l, f a = .error error := by
  obtain ⟨before, a, after, rfl, -, ha⟩ := h
  exact ⟨a, List.mem_append_right before List.mem_cons_self, ha⟩

/-- The first element that fails among those with a property. -/
theorem failsFirst_filter_iff {q : α → Bool} :
    FailsFirst f (l.filter q) error ↔ ∃ before a after, l = before ++ a :: after ∧ q a ∧
      (∀ x ∈ before, q x → ∃ b, f x = .ok b) ∧ f a = .error error := by
  constructor
  · rintro ⟨before, a, after, heq, hbefore, ha⟩
    obtain ⟨l₁, l₂, rfl, rfl, h₂⟩ := List.filter_eq_append_iff.1 heq
    obtain ⟨between, rest, rfl, hbetween, hq, -⟩ := List.filter_eq_cons_iff.1 h₂
    refine ⟨l₁ ++ between, a, rest, (List.append_assoc ..).symm, hq, fun x hx hqx => ?_, ha⟩
    rcases List.mem_append.1 hx with hx | hx
    · exact hbefore x (List.mem_filter.2 ⟨hx, hqx⟩)
    · exact absurd hqx (hbetween x hx)
  · rintro ⟨before, a, after, rfl, hq, hbefore, ha⟩
    refine ⟨before.filter q, a, after.filter q, ?_, fun x hx => ?_, ha⟩
    · rw [List.filter_append, List.filter_cons_of_pos hq]
    · obtain ⟨hx, hqx⟩ := List.mem_filter.1 hx
      exact hbefore x hx hqx

/-! ### All results -/

theorem mapM_eq_ok_iff :
    l.mapM f = .ok bs ↔ List.Forall₂ (fun a b => f a = .ok b) l bs := by
  induction l generalizing bs with
  | nil => simp [pure, Except.pure, eq_comm]
  | cons a l ih =>
    rw [List.mapM_cons, List.forall₂_cons_left_iff, bind_eq_ok]
    constructor
    · rintro ⟨b, hb, h⟩
      obtain ⟨rest, hrest, h⟩ := bind_eq_ok.1 h
      cases h
      exact ⟨b, rest, hb, ih.1 hrest, rfl⟩
    · rintro ⟨b, rest, hb, hrest, rfl⟩
      exact ⟨b, hb, bind_eq_ok.2 ⟨rest, ih.2 hrest, rfl⟩⟩

theorem mapM_eq_error_iff : l.mapM f = .error error ↔ FailsFirst f l error := by
  induction l with
  | nil => exact iff_of_false nofun not_failsFirst_nil
  | cons a l ih =>
    rw [List.mapM_cons, failsFirst_cons, bind_eq_error]
    refine or_congr_right ?_
    constructor
    · rintro ⟨b, hb, h⟩
      rcases bind_eq_error.1 h with hrest | ⟨rest, -, h⟩
      · exact ⟨⟨b, hb⟩, ih.1 hrest⟩
      · cases h
    · rintro ⟨⟨b, hb⟩, h⟩
      exact ⟨b, hb, bind_eq_error.2 (.inl (ih.2 h))⟩

theorem mapM_concat_eq_ok_iff :
    (l ++ [a]).mapM f = .ok bs ↔
      ∃ bs' b, l.mapM f = .ok bs' ∧ f a = .ok b ∧ bs = bs' ++ [b] := by
  rw [List.mapM_append, bind_eq_ok]
  refine exists_congr fun bs' => ?_
  constructor
  · rintro ⟨hbs', h⟩
    obtain ⟨last, hlast, h⟩ := bind_eq_ok.1 h
    rw [mapM_eq_ok_iff, List.forall₂_cons_left_iff] at hlast
    obtain ⟨b, rest, hb, hrest, rfl⟩ := hlast
    cases hrest
    cases h
    exact ⟨b, hbs', hb, rfl⟩
  · rintro ⟨b, hbs', hb, rfl⟩
    exact ⟨hbs', bind_eq_ok.2 ⟨[b], mapM_eq_ok_iff.2 (.cons hb .nil), rfl⟩⟩

theorem mapM_congr {g : α → Except ε β} (h : ∀ a ∈ l, f a = g a) : l.mapM f = l.mapM g := by
  induction l with
  | nil => rfl
  | cons a l ih =>
    obtain ⟨ha, hl⟩ := List.forall_mem_cons.1 h
    rw [List.mapM_cons, List.mapM_cons, ha, ih hl]

theorem exists_mapM_eq_ok_iff : (∃ bs, l.mapM f = .ok bs) ↔ ∀ a ∈ l, ∃ b, f a = .ok b := by
  induction l with
  | nil => exact iff_of_true ⟨[], rfl⟩ nofun
  | cons a l ih =>
    rw [List.forall_mem_cons, ← ih]
    constructor
    · rintro ⟨bs, h⟩
      rw [mapM_eq_ok_iff, List.forall₂_cons_left_iff] at h
      obtain ⟨b, rest, hb, hrest, rfl⟩ := h
      exact ⟨⟨b, hb⟩, rest, mapM_eq_ok_iff.2 hrest⟩
    · rintro ⟨⟨b, hb⟩, rest, hrest⟩
      exact ⟨b :: rest, mapM_eq_ok_iff.2 (.cons hb (mapM_eq_ok_iff.1 hrest))⟩

/-- Where something fails, something fails first. -/
theorem exists_failsFirst_iff :
    (∃ error, FailsFirst f l error) ↔ ∃ a ∈ l, ∃ error, f a = .error error := by
  constructor
  · rintro ⟨error, h⟩
    obtain ⟨a, ha, hf⟩ := h.exists_mem
    exact ⟨a, ha, error, hf⟩
  · rintro ⟨a, ha, error, hf⟩
    cases h : l.mapM f with
    | error error => exact ⟨error, mapM_eq_error_iff.1 h⟩
    | ok bs =>
      obtain ⟨b, hb⟩ := exists_mapM_eq_ok_iff.1 ⟨bs, h⟩ a ha
      cases hb.symm.trans hf

/-! ### Results that are not kept -/

theorem forM_eq_mapM {f : α → Except ε PUnit} : l.forM f = (l.mapM f).map fun _ => ⟨⟩ := by
  induction l with
  | nil => rfl
  | cons a l ih =>
    show (f a >>= fun _ => l.forM f) = _
    rw [List.mapM_cons, ih]
    cases f a with
    | error error => rfl
    | ok b => cases l.mapM f <;> rfl

/-- Of results that overwrite each other, and what was there before them, the last one stays. -/
theorem foldlM_eq_mapM {init : β} :
    l.foldlM (fun _ a => f a) init = (l.mapM f).map fun bs => bs.getLast?.getD init := by
  induction l generalizing init with
  | nil => rfl
  | cons a l ih =>
    rw [List.mapM_cons, List.foldlM_cons]
    cases f a with
    | error error => rfl
    | ok b =>
      show l.foldlM (fun _ a => f a) b = _
      rw [ih]
      cases l.mapM f with
      | error error => rfl
      | ok bs =>
        show Except.ok (bs.getLast?.getD b) = .ok ((b :: bs).getLast?.getD init)
        rw [List.getLast?_cons, Option.getD_some]

end CharacterSheet
