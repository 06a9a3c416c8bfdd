import CharacterSheet.Proofs.FormulaText
import CharacterSheet.Record.Formula

/-!
# Records of formulas

A formula is recorded as its text, and the limits under which the text was read are not part of the
record. When the record is read the default limits apply. So what comes back is the formula that was
recorded, if anything does, and it does unless the text is longer or nests deeper than the default
allows.

* `Formula.exists_derivation_of_parse` — under which limits the text of a formula can be read;
* `Formula.read_back_of_parse` — which formulas are read back from their records;
* `Formula.not_read_back_manyMinus` — one that is not.
-/

namespace CharacterSheet.Formula

open Phrase

variable {source : String} {limits : ParseLimits} {f : Formula}

/-- The text of a formula has a derivation, whose nesting and the length of the text decide under
which limits the text is read. Under all of these it is read as the same formula. -/
theorem exists_derivation_of_parse (h : parse source limits = .ok f) :
    ∃ d : Derivation expression, Scans source.toList d.tokens ∧ d.expr = f.expr ∧
      ∀ limits' f', parse source limits' = .ok f' ↔
        f' = f ∧ byteLength source.toList ≤ limits'.maxLength ∧ d.nesting ≤ limits'.maxDepth := by
  obtain ⟨e, hread, rfl⟩ := parse_eq_ok_iff.1 h
  obtain ⟨-, d, hscans, rfl, -⟩ := readExpr_eq_ok_iff.1 hread
  refine ⟨d, hscans, rfl, fun limits' f' => ?_⟩
  rw [parse_eq_ok_iff]
  constructor
  · rintro ⟨e', hread', rfl⟩
    obtain ⟨hlength, d', hscans', rfl, hnesting⟩ := readExpr_eq_ok_iff.1 hread'
    -- the text has no other tokens, and these have no other derivation
    obtain rfl := d'.eq_of_tokens_eq d (hscans'.tokens_unique hscans)
    exact ⟨rfl, hlength, hnesting⟩
  · rintro ⟨rfl, hlength, hnesting⟩
    exact ⟨d.expr, readExpr_eq_ok_iff.2 ⟨hlength, d, hscans, rfl, hnesting⟩, rfl⟩

theorem ofJson?_toJson_eq_some_iff {f' : Formula} :
    ofJson? f.toJson = some f' ↔ parse f.source = .ok f' := by
  show (parse f.source).toOption = some f' ↔ _
  cases parse f.source <;> simp [Except.toOption]

/-- What is read back from the record of a formula is the formula itself: its text, its tree and its
variables. It is read back exactly if its text is no longer, and nests no deeper, than the default
limits allow, and so always if it was read under no larger ones. -/
theorem read_back_of_parse (h : parse source limits = .ok f) :
    (∀ f', ofJson? f.toJson = some f' → f' = f) ∧
    (∃ d : Derivation expression, Scans f.source.toList d.tokens ∧ d.expr = f.expr ∧
      (ofJson? f.toJson = some f ↔ byteLength f.source.toList ≤ 1024 ∧ d.nesting ≤ 64)) ∧
    (limits.maxLength ≤ 1024 → limits.maxDepth ≤ 64 → ofJson? f.toJson = some f) := by
  obtain ⟨d, hscans, hexpr, hread⟩ := exists_derivation_of_parse h
  obtain rfl : f.source = source := by
    obtain ⟨e, -, rfl⟩ := parse_eq_ok_iff.1 h
    rfl
  have hback (f' : Formula) : ofJson? f.toJson = some f' ↔
      f' = f ∧ byteLength f.source.toList ≤ 1024 ∧ d.nesting ≤ 64 :=
    ofJson?_toJson_eq_some_iff.trans (hread {} f')
  refine ⟨fun f' hf' => ((hback f').1 hf').1, ⟨d, hscans, hexpr, ?_⟩, fun hlength hdepth => ?_⟩
  · rw [hback, eq_self_iff_true, true_and]
  · obtain ⟨-, hlength', hnesting⟩ := (hread limits f).1 h
    exact (hback f).2 ⟨rfl, hlength'.trans hlength, hnesting.trans hdepth⟩

/-- A formula with a sign in its exponent. -/
def halving : Formula where
  source := "2 ** -TURNS"
  expr := .binary .pow (.number 2) (.unary .minus (.var "TURNS"))
  variableNames := ["TURNS"]

theorem read_back_halving : parse "2 ** -TURNS" { maxDepth := 3 } = .ok halving ∧
    ofJson? halving.toJson = some halving := by
  have hparse : parse "2 ** -TURNS" { maxDepth := 3 } = .ok halving := by decide +kernel
  exact ⟨hparse, (read_back_of_parse hparse).2.2 (by decide) (by decide)⟩

/-- A number with sixty-four signs. -/
def manyMinus : String := String.ofList (List.replicate 64 '-' ++ ['1'])

/-- A formula that was read under larger limits than the default, and cannot be read back. -/
theorem not_read_back_manyMinus : ∃ f, parse manyMinus { maxDepth := 65 } = .ok f ∧
    ofJson? f.toJson = none := by
  have hok : (parse manyMinus { maxDepth := 65 }).isOk := by decide +kernel
  have hnone : (parse manyMinus).toOption = none := by decide +kernel
  cases h : parse manyMinus { maxDepth := 65 } with
  | error error =>
    rw [h] at hok
    cases hok
  | ok f =>
    obtain ⟨e, -, rfl⟩ := parse_eq_ok_iff.1 h
    exact ⟨_, rfl, hnone⟩

end CharacterSheet.Formula
