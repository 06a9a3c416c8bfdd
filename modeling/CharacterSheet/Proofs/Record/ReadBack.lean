import CharacterSheet.Proofs.Record.Enhancer
import CharacterSheet.Record.Bonus
import CharacterSheet.Record.Config
import CharacterSheet.Record.Statistic

/-!
# Every value is read back from its record

Names of operators and constructs, limits and configurations, errors, statistics, keyword counts,
bonuses and enhancers: for each of these types `X.readsBack` says that the value is read back from
the record that is written of it. Numbers stand in records as they are, so nothing is asked of them.

* `BonusMetadata.readsBack` — parts that are not written have the values that are read for them;
* `Record.readsBack_all` — all the types together, and what becomes of the record of an enhancer
  that is read and written again.
-/

namespace CharacterSheet

open Record

/-! ### Formulas -/

theorem BinaryOp.readsBack : ReadsBack toJson ofJson? := by
  intro op
  cases op <;> rfl

theorem Construct.readsBack : ReadsBack toJson ofJson? := by
  intro construct
  cases construct <;> rfl

theorem ParseLimits.readsBack : ReadsBack toJson ofJson? := fun _ => rfl

theorem ParseError.readsBack : ReadsBack toJson ofJson? := by
  intro e
  cases e with
  | disallowed construct position =>
    show (Construct.ofJson? construct.toJson).bind _ = _
    rw [Construct.readsBack]
    rfl
  | unexpectedCharacter ch position =>
    show (Json.toChar? (.string ch.toString)).bind _ = _
    rw [readsBack_toChar ch]
    rfl
  | _ => rfl

theorem EvalError.readsBack : ReadsBack toJson ofJson? := by
  intro e
  cases e with
  | divisionByZero operator | invalidShift operator =>
    show (BinaryOp.ofJson? operator.toJson).bind _ = _
    rw [BinaryOp.readsBack]
    rfl
  | _ => rfl

theorem FormulaError.readsBack : ReadsBack toJson ofJson? := by
  intro e
  cases e with
  | parseRejected expression reason =>
    show (ParseError.ofJson? reason.toJson).bind _ = _
    rw [ParseError.readsBack]
    rfl
  | evalFailed expression subExpression reason =>
    show (EvalError.ofJson? reason.toJson).bind _ = _
    rw [EvalError.readsBack]
    rfl

/-! ### Configurations, statistics and keyword counts -/

theorem EngineConfig.readsBack : ReadsBack toJson ofJson? := fun _ => rfl

theorem Rounding.readsBack : ReadsBack toJson ofJson? := by
  intro r
  cases r <;> rfl

theorem Statistic.readsBack : ReadsBack toJson ofJson? := by
  intro s
  show (Rounding.ofJson? s.rounding.toJson).bind (fun rounding =>
    (nullable Json.toText? (orNull .string s.description)).bind fun description =>
      some (Statistic.mk s.name s.baseValue rounding description)) = some s
  rw [Rounding.readsBack, readsBack_nullable readsBack_toText nofun]
  rfl

theorem ActualStatistic.readsBack : ReadsBack toJson ofJson? := fun _ => rfl

theorem KeywordCounter.readsBack : ReadsBack toJson ofJson? := by
  intro c
  show (mapOf Json.toFloat? (mapToJson .real c.counts)).map _ = _
  rw [readsBack_mapOf readsBack_toFloat]
  rfl

/-! ### Bonuses -/

theorem BonusModifier.readsBack : ReadsBack toJson ofJson? := by
  intro m
  cases m <;> rfl

theorem BonusMetadata.readsBack : ReadsBack toJson ofJson? := by
  intro m
  have henhances : (if m.enhances = [] then none else some (Json.ofTexts m.enhances)).getD
      (.array []) = .array (m.enhances.map .string) := by
    cases m.enhances <;> rfl
  have htexts : ReadsBack _ _ := readsBack_listOf readsBack_toText
  have htext : ReadsBack _ _ := readsBack_nullable readsBack_toText nofun
  have hnumber : ReadsBack _ _ := readsBack_nullable readsBack_toFloat nofun
  simp [ofJson?, toJson, fields?, defaulted_listOf, defaulted_nullable, List.lookup_append,
    henhances, htexts m.enhances, htext m.enhancedBy, htext m.multipliedBy, hnumber m.value]

theorem BonusCatalog.readsBack : ReadsBack toJson ofJson? := readsBack_mapOf BonusMetadata.readsBack

/-! ### All records -/

/-- Every value is read back from its record. A record of an enhancer is readable if it declares a
name, a description and properties. Read and written again, it declares the same name and
description, and the same properties ordered by the bytes of the names of their statistics. A second
time changes nothing. -/
theorem Record.readsBack_all :
    (ReadsBack Property.toJson Property.ofJson? ∧ ReadsBack Enhancer.toJson Enhancer.ofJson? ∧
      ReadsBack Statistic.toJson Statistic.ofJson? ∧
      ReadsBack ActualStatistic.toJson ActualStatistic.ofJson? ∧
      ReadsBack KeywordCounter.toJson KeywordCounter.ofJson? ∧
      ReadsBack BonusMetadata.toJson BonusMetadata.ofJson? ∧
      ReadsBack BonusCatalog.toJson BonusCatalog.ofJson? ∧
      ReadsBack BonusModifier.toJson BonusModifier.ofJson? ∧
      ReadsBack EngineConfig.toJson EngineConfig.ofJson? ∧
      ReadsBack ParseLimits.toJson ParseLimits.ofJson? ∧
      ReadsBack ParseError.toJson ParseError.ofJson? ∧
      ReadsBack EvalError.toJson EvalError.ofJson? ∧
      ReadsBack FormulaError.toJson FormulaError.ofJson?) ∧
    ∀ record,
      ((∃ e, Enhancer.ofJson? record = some e) ↔
        ∃ name description declared, Enhancer.Declares record name description declared) ∧
      ∀ name description declared, Enhancer.Declares record name description declared →
        ∃ e sorted, Enhancer.ofJson? record = some e ∧ Property.IsStableSort declared sorted ∧
          Enhancer.Declares e.toJson name description sorted ∧
          Enhancer.ofJson? e.toJson = some e := by
  refine ⟨⟨Property.readsBack, Enhancer.readsBack, Statistic.readsBack, ActualStatistic.readsBack,
    KeywordCounter.readsBack, BonusMetadata.readsBack, BonusCatalog.readsBack,
    BonusModifier.readsBack, EngineConfig.readsBack, ParseLimits.readsBack, ParseError.readsBack,
    EvalError.readsBack, FormulaError.readsBack⟩,
    fun record => ⟨?_, fun _ _ _ h => Enhancer.exists_of_declares h⟩⟩
  constructor
  · rintro ⟨e, he⟩
    obtain ⟨name, description, declared, h, -⟩ := Enhancer.ofJson?_eq_some_iff.1 he
    exact ⟨name, description, declared, h⟩
  · rintro ⟨name, description, declared, h⟩
    obtain ⟨e, -, he, -⟩ := Enhancer.exists_of_declares h
    exact ⟨e, he⟩

namespace Record

/-- A property that depends on a keyword. -/
def pockets : Property where
  statistic := "MIGHT"
  value := 1.5
  factor := .additive
  dependsOn := some "POCKET"

/-- A property with a formula. -/
def agility : Property where
  statistic := "DODGE"
  factor := .custom
  formula := some "base_value + 1"

/-- A property with a value only. -/
def muscles : Property where
  statistic := "MIGHT"
  value := 2
  factor := .additive

/-- A record that declares the three properties without order, one of them with the keyword under
its other name. -/
def card : Json :=
  .object [
    ("name", .string "Pocket master"),
    ("description", .null),
    ("properties", .array [
      .object [("statistic", .string "MIGHT"), ("factor", .string "additive"), ("value", .real 1.5),
        ("depends_on_keyword", .string "POCKET")],
      .object [("factor", .string "custom"), ("statistic", .string "DODGE"),
        ("formula", .string "base_value + 1")],
      .array [.string "MIGHT", .real 2, .string "additive"]])]

theorem isStableSort_card :
    Property.IsStableSort [pockets, agility, muscles] [agility, pockets, muscles] where
  perm := .swap _ _ _
  ordered := List.Pairwise.imp Property.bytes_le_bytes_iff.2 (by decide)
  stable name := by
    by_cases hmight : "MIGHT" = name
    · subst hmight
      rfl
    · simp [List.filter_cons, pockets, muscles, hmight]

theorem readsBack_card :
    Enhancer.Declares card "Pocket master" none [pockets, agility, muscles] ∧
      ∃ e, Enhancer.ofJson? card = some e ∧
        Enhancer.Declares e.toJson "Pocket master" none [agility, pockets, muscles] ∧
        Enhancer.ofJson? e.toJson = some e := by
  have hcard : Enhancer.Declares card "Pocket master" none [pockets, agility, muscles] :=
    ⟨_, rfl, rfl, rfl, _, rfl, .cons rfl (.cons rfl (.cons rfl .nil))⟩
  obtain ⟨e, sorted, he, hsorted, hdeclares, hagain⟩ := (readsBack_all.2 card).2 _ _ _ hcard
  rw [hsorted.unique isStableSort_card] at hdeclares
  exact ⟨hcard, e, he, hdeclares, hagain⟩

end Record

end CharacterSheet
