import CharacterSheet.Formula.MathFunction
import CharacterSheet.Proofs.Binary64.Levels
import CharacterSheet.Proofs.Except

/-!
# Calls of functions

A call is checked against a table of arities before the function looks at its arguments, and the
function relies on the table: it reads an argument by its position as if it were there. The table
asks of every function for as many arguments as it reads, so that none is ever missing.

* `Suffices` — so many arguments are enough for what is read by position, with one lemma for each
  way to read;
* `MathFunction.suffices_plainValueWith` — every function reads what its arity asks for, and no more;
* `Picks.foldl` — a fold that keeps one of two numbers keeps one of all;
* `MathFunction.AnswersCall`, `MathFunction.PicksExtremes`, `MathFunction.call_answers` — what a
  call gives, for any function and any arguments.
-/

namespace CharacterSheet

open Binary64

/-! ### Reading by position -/

/-- Nothing is missing in any list of at least so many arguments. -/
def Suffices {α : Type} (count : Nat) (r : FromArguments α) : Prop :=
  ∀ args : List Float, count ≤ args.length → ∀ position, r args ≠ .error (.missing position)

namespace Suffices

open FromArguments

variable {α β : Type} {count position : Nat}

theorem pure (a : α) : Suffices count (Pure.pure a) := fun _ _ _ h => nomatch h

theorem inDomain (value : Option Float) : Suffices count (inDomain value) := by
  intro args _ position h
  cases value <;> cases h

theorem argument? (position : Nat) : Suffices count (argument? position) :=
  fun _ _ _ h => nomatch h

theorem read : Suffices count (MonadReader.read : FromArguments (List Float)) :=
  fun _ _ _ h => nomatch h

theorem argument (h : position < count) : Suffices count (argument position) := by
  intro args hcount other hmissing
  rw [FromArguments.argument, List.getElem?_eq_getElem (h.trans_le hcount)] at hmissing
  cases hmissing

theorem bind {r : FromArguments α} {f : α → FromArguments β} (hr : Suffices count r)
    (hf : ∀ a, Suffices count (f a)) : Suffices count (r >>= f) := by
  intro args hcount position h
  have hrun : (r args >>= fun a => f a args) = .error (.missing position) := h
  rcases bind_eq_error.1 hrun with hmissing | ⟨a, -, hmissing⟩
  · exact hr args hcount position hmissing
  · exact hf a args hcount position hmissing

end Suffices

namespace Arity

/-- The smallest number of arguments that is accepted. -/
def least : Arity → Nat
  | exact n => n
  | between min _ => min
  | atLeast min => min

theorem least_le {a : Arity} {count : Nat} (h : a.accepts count = true) : a.least ≤ count := by
  cases a <;> simp_all [accepts, least]

end Arity

namespace MathFunction

variable {powerOfTen : Float → Float} {f : MathFunction} {args : List Float}

/-- No function reads an argument behind those that its arity asks for. -/
theorem suffices_plainValueWith (powerOfTen : Float → Float) (f : MathFunction) :
    Suffices f.arity.least (f.plainValueWith powerOfTen) := by
  have hfirst : 0 < f.arity.least := by cases f <;> decide
  refine (Suffices.argument hfirst).bind fun x => ?_
  cases f with
  | log =>
    refine (Suffices.argument? 1).bind fun base => ?_
    cases base with
    | none => exact .pure _
    | some base => exact .inDomain _
  | round =>
    refine (Suffices.argument? 1).bind fun places => ?_
    cases places with
    | none => exact .pure _
    | some places => exact .inDomain _
  | pow | fmod => exact (Suffices.argument (by decide)).bind fun y => .inDomain _
  | atan2 | hypot | copysign => exact (Suffices.argument (by decide)).bind fun y => .pure _
  | min | max => exact Suffices.read.bind fun args => .pure _
  | _ => exact .pure _

theorem plainValueWith_ne_missing (h : f.arity.accepts args.length = true) (position : Nat) :
    f.plainValueWith powerOfTen args ≠ .error (.missing position) :=
  f.suffices_plainValueWith powerOfTen args (Arity.least_le h) position

/-! ### Checked calls -/

theorem callWith_of_accepts (h : f.arity.accepts args.length = true) :
    f.callWith powerOfTen args =
    match f.plainValueWith powerOfTen args with
    | .ok v => if v.isFinite then .ok v else .error (.domain f.name)
    | .error _ => .error (.domain f.name) := if_pos h

theorem callWith_of_not_accepts (h : f.arity.accepts args.length = false) :
    f.callWith powerOfTen args = .error (.arity f.name f.arity.describe args.length) := by
  rw [callWith, h]
  rfl

/-- A call of a function with a domain gives the value inside of it, where that is finite. -/
theorem callWith_of_inDomain {value : Option Float} (h : f.arity.accepts args.length = true) :
    f.plainValueWith powerOfTen args = FromArguments.inDomain value args →
      f.callWith powerOfTen args =
      match value with
      | some v => if v.isFinite then .ok v else .error (.domain f.name)
      | none => .error (.domain f.name) := by
  intro hplain
  rw [callWith_of_accepts h, hplain]
  cases value <;> rfl

/-- A call with as many arguments as its function takes gives a finite number, or is outside the
domain. -/
theorem callWith_of_accepts_cases (powerOfTen : Float → Float)
    (h : f.arity.accepts args.length = true) :
    (∃ v, f.plainValueWith powerOfTen args = .ok v ∧ v.isFinite ∧
        f.callWith powerOfTen args = .ok v) ∨
      f.callWith powerOfTen args = .error (.domain f.name) := by
  rw [callWith_of_accepts h]
  cases f.plainValueWith powerOfTen args with
  | error obstacle => exact .inr rfl
  | ok v =>
    by_cases hv : v.isFinite
    · exact .inl ⟨v, rfl, hv, if_pos hv⟩
    · exact .inr (if_neg hv)

theorem callWith_eq_arity_iff {name expected : String} {found : Nat} :
    f.callWith powerOfTen args = .error (.arity name expected found) ↔
      f.arity.accepts args.length = false ∧
        name = f.name ∧ expected = f.arity.describe ∧ found = args.length := by
  cases h : f.arity.accepts args.length with
  | false => simp [callWith_of_not_accepts h, eq_comm]
  | true =>
    rcases callWith_of_accepts_cases powerOfTen h with ⟨v, -, -, hcall⟩ | hcall <;> simp [hcall]

end MathFunction

/-! ### The least and the greatest -/

section Pick

variable {α : Type} {P : α → Prop} {r : α → α → Prop} {pick : α → α → α}

/-- One of two elements is kept, and it is on the right side of both. -/
def Picks (P : α → Prop) (r : α → α → Prop) (pick : α → α → α) : Prop :=
  ∀ x y, P x → P y → (pick x y = x ∨ pick x y = y) ∧ r (pick x y) x ∧ r (pick x y) y

/-- Where one of two elements is kept again and again, one of all is kept, and it is on the right
side of all. -/
theorem Picks.foldl (hpick : Picks P r pick) (htrans : ∀ x y z, r x y → r y z → r x z) {x : α}
    {xs : List α} (hx : P x) (hself : r x x) (hxs : ∀ a ∈ xs, P a) :
    xs.foldl pick x ∈ x :: xs ∧ ∀ a ∈ x :: xs, r (xs.foldl pick x) a := by
  induction xs generalizing x with
  | nil => simpa using hself
  | cons y ys ih =>
    obtain ⟨hy, hys⟩ := List.forall_mem_cons.1 hxs
    obtain ⟨heq, hleft, hright⟩ := hpick x y hx hy
    have hkept : P (pick x y) ∧ r (pick x y) (pick x y) := by
      rcases heq with heq | heq <;> rw [heq] at hleft hright ⊢ <;> constructor <;> assumption
    obtain ⟨hmem, hall⟩ := ih hkept.1 hkept.2 hys
    obtain ⟨hlast, hrest⟩ := List.forall_mem_cons.1 hall
    rw [List.foldl_cons]
    constructor
    · rcases List.mem_cons.1 hmem with h | h
      · rcases heq with heq | heq <;> rw [h, heq] <;> simp
      · simp [h]
    · simp only [List.forall_mem_cons]
      exact ⟨htrans _ _ _ hlast hleft, htrans _ _ _ hlast hright, hrest⟩

end Pick

namespace Binary64

variable {x y : Float}

theorem le_of_not_lt (hx : x.isNaN = false) (hy : y.isNaN = false) (h : ¬x < y) : y ≤ x := by
  rw [lt_iff_level hx hy] at h
  exact (le_iff_level hy hx).2 (not_lt.1 h)

theorem picks_lesser : Picks (fun x : Float => x.isFinite) (· ≤ ·) lesser := by
  intro x y hx hy
  have hx := isNaN_of_isFinite hx
  have hy := isNaN_of_isFinite hy
  by_cases h : y < x
  · have hkept : lesser x y = y := by simp [lesser, h]
    rw [hkept]
    exact ⟨.inr rfl, le_of_lt h, le_self hy⟩
  · have hkept : lesser x y = x := by simp only [lesser, h, hx]; rfl
    rw [hkept]
    exact ⟨.inl rfl, le_self hx, le_of_not_lt hy hx h⟩

theorem picks_greater : Picks (fun x : Float => x.isFinite) (fun x y => y ≤ x) greater := by
  intro x y hx hy
  have hx := isNaN_of_isFinite hx
  have hy := isNaN_of_isFinite hy
  by_cases h : x < y
  · have hkept : greater x y = y := by simp [greater, h]
    rw [hkept]
    exact ⟨.inr rfl, le_of_lt h, le_self hy⟩
  · have hkept : greater x y = x := by simp only [greater, h, hx]; rfl
    rw [hkept]
    exact ⟨.inl rfl, le_self hx, le_of_not_lt hx hy h⟩

end Binary64

namespace MathFunction

/-- A function that keeps one of two numbers again and again, from the first argument on. -/
theorem callWith_of_picks {powerOfTen : Float → Float} {f : MathFunction}
    {r : Float → Float → Prop} {pick : Float → Float → Float}
    (hpick : Picks (fun x : Float => x.isFinite) r pick)
    (htrans : ∀ x y z, r x y → r y z → r x z) (hself : ∀ x : Float, x.isFinite → r x x)
    (harity : f.arity = .atLeast 1)
    (hplain : ∀ x others,
      f.plainValueWith powerOfTen (x :: others) = .ok ((x :: others).foldl pick x))
    {args : List Float} (hne : args ≠ []) (hargs : ∀ a ∈ args, a.isFinite) :
    ∃ m ∈ args, f.callWith powerOfTen args = .ok m ∧ ∀ a ∈ args, r m a := by
  obtain ⟨x, others, rfl⟩ := List.exists_cons_of_ne_nil hne
  have hx : x.isFinite := hargs x List.mem_cons_self
  obtain ⟨hmem, hall⟩ := hpick.foldl htrans hx (hself x hx) hargs
  have hkept : (x :: others).foldl pick x ∈ x :: others := by simpa using hmem
  have haccepts : f.arity.accepts (x :: others).length = true := by
    simp [harity, Arity.accepts]
  refine ⟨_, hkept, ?_, (List.forall_mem_cons.1 hall).2⟩
  rw [callWith_of_accepts haccepts, hplain]
  exact if_pos (hargs _ hkept)

/-- What a call gives. -/
structure AnswersCall (f : MathFunction) (args : List Float) : Prop where
  /-- The number of arguments is reported, under the name of the function, where it is wrong. -/
  arity_iff : ∀ name expected found, f.call args = .error (.arity name expected found) ↔
    f.arity.accepts args.length = false ∧
      name = f.name ∧ expected = f.arity.describe ∧ found = args.length
  /-- Otherwise no argument is read behind the last one. -/
  never_missing : f.arity.accepts args.length = true →
    ∀ position, f.plainValue args ≠ .error (.missing position)
  finite_or_domain : f.arity.accepts args.length = true →
    (∃ v, v.isFinite ∧ f.call args = .ok v) ∨ f.call args = .error (.domain f.name)

/-- The least and the greatest of some numbers are among them. -/
structure PicksExtremes (args : List Float) : Prop where
  least : ∃ m ∈ args, min.call args = .ok m ∧ ∀ a ∈ args, m ≤ a
  greatest : ∃ m ∈ args, max.call args = .ok m ∧ ∀ a ∈ args, a ≤ m

/-- Every call is answered, whatever the function and the arguments, and the least and the greatest
of some finite numbers are found. -/
theorem call_answers : (∀ f args, AnswersCall f args) ∧
    ∀ args : List Float, args ≠ [] → (∀ a ∈ args, a.isFinite) → PicksExtremes args := by
  refine ⟨fun f args => ?_, fun args hne hargs => ?_⟩
  · refine ⟨fun _ _ _ => callWith_eq_arity_iff, plainValueWith_ne_missing, fun h => ?_⟩
    rcases callWith_of_accepts_cases (power 10) h with ⟨v, -, hv, hcall⟩ | hcall
    · exact .inl ⟨v, hv, hcall⟩
    · exact .inr hcall
  · have hself (x : Float) (hx : x.isFinite) : x ≤ x := le_self (isNaN_of_isFinite hx)
    constructor
    · exact callWith_of_picks picks_lesser (fun _ _ _ => le_of_le_of_le) hself rfl
        (fun _ _ => rfl) hne hargs
    · exact callWith_of_picks picks_greater (fun _ _ _ h h' => le_of_le_of_le h' h) hself rfl
        (fun _ _ => rfl) hne hargs

theorem call_answers_three_numbers :
    ([2, -1, 7] ≠ ([] : List Float) ∧ ∀ a ∈ ([2, -1, 7] : List Float), a.isFinite) ∧
      PicksExtremes [2, -1, 7] := by
  have hne : [2, -1, 7] ≠ ([] : List Float) := List.cons_ne_nil _ _
  have hfinite : ∀ a ∈ ([2, -1, 7] : List Float), a.isFinite := by
    simp only [List.forall_mem_cons]
    exact ⟨by decide +kernel, by decide +kernel, by decide +kernel, fun _ h => nomatch h⟩
  exact ⟨⟨hne, hfinite⟩, call_answers.2 _ hne hfinite⟩

end MathFunction

end CharacterSheet
