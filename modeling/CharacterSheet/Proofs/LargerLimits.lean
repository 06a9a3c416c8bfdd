import Mathlib.Control.Monad.Basic
import CharacterSheet.Formula

/-!
# Reading under larger limits

A limit on the length or the nesting of formulas decides how far reading goes, and nothing else. The
reader that may nest deeper takes the same tokens in the same way as the one that may not, up to the
place where the latter gives up. So raising the limits changes an answer only where it was that a
limit is exceeded.

* `SameUnless` — two results are the same, unless the first is an error of some kind;
* `Reader.Cuts` — a reader does the same as another, unless it gives up for the nesting;
* `Expr.cuts_operand`, `Expr.ofTokens_sameUnless_tooDeep` — shallower readers and deeper ones;
* `Formula.parse_under_larger_limits` — what larger limits change for a text.
-/

namespace CharacterSheet

variable {ε α β : Type}

/-! ### Results that an error stands in for -/

/-- A result is the same as another, unless it is an error with a property. -/
def SameUnless (P : ε → Prop) (x y : Except ε α) : Prop :=
  (∃ error, P error ∧ x = .error error) ∨ x = y

namespace SameUnless

variable {P : ε → Prop} {x y : Except ε α}

theorem refl (x : Except ε α) : SameUnless P x x := .inr rfl

theorem of_error {error : ε} (h : P error) : SameUnless P (.error error) y :=
  .inl ⟨error, h, rfl⟩

theorem bind {f g : α → Except ε β} (h : SameUnless P x y)
    (hfg : ∀ a, SameUnless P (f a) (g a)) : SameUnless P (x >>= f) (y >>= g) := by
  rcases h with ⟨error, herror, rfl⟩ | rfl
  · exact .of_error herror
  · cases x with
    | error error => exact .inr rfl
    | ok a => exact hfg a

/-- What is done with a result is the same on both sides. -/
theorem bind_right (h : SameUnless P x y) (f : α → Except ε β) :
    SameUnless P (x >>= f) (y >>= f) :=
  h.bind fun a => .refl (f a)

theorem eq_of_ok {a : α} (h : SameUnless P x y) (ha : x = .ok a) : y = .ok a := by
  rcases h with ⟨error, -, herror⟩ | rfl
  · rw [ha] at herror
    cases herror
  · exact ha

end SameUnless

/-- A reader does the same as another, unless it gives up since the text nests too deep. -/
def Reader.Cuts (r r' : Reader α) : Prop := ∀ ts, SameUnless (· = .tooDeep) (r ts) (r' ts)

namespace Reader.Cuts

variable {r r' : Reader Expr}

/-! ### Operators of one level -/

theorem continued (h : r.Cuts r') (l : Level) (lhs : Expr) (ts : List PlacedToken) :
    SameUnless (· = .tooDeep) (l.continued r lhs ts) (l.continued r' lhs ts) := by
  match ts with
  | [] =>
    rw [Level.continued, Level.continued]
    exact .refl _
  | t :: ts =>
    rw [Level.continued, Level.continued]
    cases l.operator? t with
    | none => exact .refl _
    | some op =>
      refine (h ts).bind fun rhs => ?_
      have hlt := rhs.length_rest
      exact (continued h l (.binary op lhs rhs.value) rhs.rest).bind_right _
termination_by ts.length

theorem level (h : r.Cuts r') (l : Level) : (l.reader r).Cuts (l.reader r') := by
  intro ts
  refine (h ts).bind fun lhs => ?_
  exact (h.continued l lhs.value lhs.rest).bind_right _

theorem levels (h : r.Cuts r') :
    (ls : List Level) → Cuts (ls.foldr Level.reader r) (ls.foldr Level.reader r')
  | [] => h
  | l :: ls => (h.levels ls).level l

theorem operation (h : r.Cuts r') : (Expr.operation r).Cuts (Expr.operation r') :=
  h.levels Level.all

/-! ### Operands -/

theorem arguments (h : r.Cuts r') (ts : List PlacedToken) :
    SameUnless (· = .tooDeep) (Expr.arguments r ts) (Expr.arguments r' ts) := by
  rw [Expr.arguments.eq_def, Expr.arguments.eq_def]
  split
  · exact .refl _
  · refine (h _).bind fun first => ?_
    split
    · next rest hrest =>
      have hlt := first.length_lt_of_rest_eq hrest
      exact (arguments h rest).bind_right _
    · exact .refl _
    · exact .refl _
    · exact .refl _
termination_by ts.length

theorem primary (h : r.Cuts r') : Cuts (Expr.primary r) (Expr.primary r') := by
  intro ts
  unfold Expr.primary
  split
  · exact .refl _
  · -- a call
    exact (h.arguments _).bind_right _
  · exact .refl _
  · -- parentheses
    exact (h _).bind_right _
  · exact .refl _
  · exact .refl _

theorem power (h : r.Cuts r') : Cuts (Expr.power r) (Expr.power r') := by
  intro ts
  refine (h.operation.primary ts).bind fun base => ?_
  split
  · exact (h _).bind_right _
  · exact .refl _

theorem signed (h : r.Cuts r') : Cuts (Expr.signed r) (Expr.signed r') := by
  intro ts
  unfold Expr.signed
  split
  · split
    · exact (h _).bind_right _
    · exact h.power _
  · exact h.power _

end Reader.Cuts

namespace Expr

/-- Where less nesting is allowed, operands are read in the same way or not at all. -/
theorem cuts_operand : {n m : Nat} → n ≤ m → (operand n).Cuts (operand m)
  | 0, _, _ => fun _ => .of_error rfl
  | _ + 1, 0, h => absurd h (Nat.not_succ_le_zero _)
  | _ + 1, _ + 1, h => (cuts_operand (Nat.le_of_succ_le_succ h)).signed

theorem cuts_expression {n m : Nat} (h : n ≤ m) : (expression n).Cuts (expression m) :=
  (cuts_operand h).operation

/-- A list of tokens has the same tree under a larger limit, or the same thing wrong with it, unless
it nests too deep for the smaller one. -/
theorem ofTokens_sameUnless_tooDeep {n m : Nat} (h : n ≤ m) (ts : List PlacedToken) :
    SameUnless (· = .tooDeep) (ofTokens n ts) (ofTokens m ts) :=
  (cuts_expression h ts).bind_right _

end Expr

/-! ### Limits on texts -/

namespace Formula

/-- What is wrong with a text of a length in bytes is that it exceeds a limit. -/
def ExceedsLimit (limits : ParseLimits) (length : Nat) (reason : ParseError) : Prop :=
  reason = .tooLong length limits.maxLength ∨ reason = .tooDeep limits.maxDepth

variable {limits limits' : ParseLimits}

theorem screen_sameUnless (source : String) (h : limits.maxLength ≤ limits'.maxLength) :
    SameUnless (ExceedsLimit limits (byteLength source.toList)) (screen source limits)
      (screen source limits') := by
  unfold screen
  dsimp only
  split
  · exact .refl _
  split
  · exact .refl _
  by_cases hlong : limits.maxLength < byteLength source.toList
  · rw [if_pos hlong]
    exact .of_error (.inl rfl)
  · have hlong' : ¬limits'.maxLength < byteLength source.toList := by omega
    rw [if_neg hlong, if_neg hlong']
    exact .refl _

theorem rejected_sameUnless (ts : List PlacedToken) (length : Nat)
    (h : limits.maxDepth ≤ limits'.maxDepth) :
    SameUnless (ExceedsLimit limits length)
      ((Expr.ofTokens limits.maxDepth ts).mapError (syntaxRejection limits))
      ((Expr.ofTokens limits'.maxDepth ts).mapError (syntaxRejection limits')) := by
  rcases Expr.ofTokens_sameUnless_tooDeep h ts with ⟨_, rfl, hread⟩ | hread
  · rw [hread]
    exact .of_error (.inr rfl)
  · rw [hread]
    cases Expr.ofTokens limits'.maxDepth ts with
    | ok e => exact .inr rfl
    | error error =>
      cases error with
      | tooDeep => exact .of_error (.inr rfl)
      | unexpectedToken t => exact .inr rfl
      | unexpectedEnd => exact .inr rfl

theorem readExpr_sameUnless (source : String) (hlength : limits.maxLength ≤ limits'.maxLength)
    (hdepth : limits.maxDepth ≤ limits'.maxDepth) :
    SameUnless (ExceedsLimit limits (byteLength source.toList)) (readExpr source limits)
      (readExpr source limits') :=
  (screen_sameUnless source hlength).bind fun _ =>
    (SameUnless.refl (tokenize source)).bind fun ts => rejected_sameUnless ts _ hdepth

/-- Under larger limits a text gets the same answer, be it a formula or what is wrong with the text,
unless the answer under the smaller limits is that one of them is exceeded. So what is read under
some limits is read as the same formula under larger ones. -/
theorem parse_under_larger_limits (source : String)
    (hlength : limits.maxLength ≤ limits'.maxLength)
    (hdepth : limits.maxDepth ≤ limits'.maxDepth) :
    (parse source limits = parse source limits' ∨
      parse source limits = .error (.parseRejected source
        (.tooLong (byteLength source.toList) limits.maxLength)) ∨
      parse source limits = .error (.parseRejected source (.tooDeep limits.maxDepth))) ∧
    ∀ f, parse source limits = .ok f → parse source limits' = .ok f := by
  have hread := readExpr_sameUnless source hlength hdepth
  constructor
  · unfold parse
    rcases hread with ⟨_, rfl | rfl, hread⟩ | hread
    · rw [hread]
      exact .inr (.inl rfl)
    · rw [hread]
      exact .inr (.inr rfl)
    · rw [hread]
      exact .inl rfl
  · intro f hf
    obtain ⟨e, he, rfl⟩ := parse_eq_ok_iff.1 hf
    exact parse_eq_ok_iff.2 ⟨e, hread.eq_of_ok he, rfl⟩

/-- A number with two signs, the second one in parentheses. -/
def twiceNegated : Formula := ⟨"-(-1)", .unary .minus (.unary .minus (.number 1)), []⟩

/-- The number in the middle stands on the fourth level: three levels do not do, and with four the
formula is the one that is read under the default limits. -/
theorem parse_twiceNegated_under_larger_limits :
    parse "-(-1)" { maxDepth := 3 } = .error (.parseRejected "-(-1)" (.tooDeep 3)) ∧
    parse "-(-1)" { maxLength := 5, maxDepth := 4 } = .ok twiceNegated ∧
    (5 ≤ 1024 ∧ 4 ≤ 64) ∧ parse "-(-1)" = .ok twiceNegated := by
  have hdeep : parse "-(-1)" { maxDepth := 3 } =
      .error (.parseRejected "-(-1)" (.tooDeep 3)) := by decide +kernel
  have hparse : parse "-(-1)" { maxLength := 5, maxDepth := 4 } = .ok twiceNegated := by
    decide +kernel
  exact ⟨hdeep, hparse, by decide,
    (parse_under_larger_limits "-(-1)" (by decide) (by decide)).2 twiceNegated hparse⟩

end Formula

end CharacterSheet
