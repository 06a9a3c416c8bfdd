import CharacterSheet.Proofs.Binary64.Range
import CharacterSheet.Proofs.Calls

/-!
# Rounding to decimal places

A number is scaled up by a power of ten, rounded to a whole number, and scaled back. Neither the
rounding nor the way back leaves the range of doubles. The way up may leave it, although the number
that all of this is for would be inside: then there is an error, as there is for a number of places
that is not whole. Power functions differ in the last digits of a power, and none of this depends on
them.

* `isFinite_roundHalfEven_iff` — rounding to a whole number stays in the range;
* `isFinite_roundScaled_iff` — scaling up, rounding and scaling back leaves it on the way up only;
* `ScalesUp`, `scalesUp_nearestPowerOfTen` — powers of ten that do scale up, as the nearest ones do;
* `ScalesWithin`, `MathFunction.call_round` — when a number is rounded to decimal places, and when
  there is an error.
-/

namespace CharacterSheet

open Binary64

namespace Binary64

variable {num den : Nat} {x scale places : Float}

theorem divHalfEven_le_divUp (hden : 0 < den) (num : Nat) :
    divHalfEven num den ≤ divUp num den := by
  rcases divHalfEven_cases num den with ⟨hr, -, -⟩ | ⟨hr, hrem, -⟩ <;> rw [hr, divUp]
  · exact Nat.div_le_div_right (Nat.le_add_right _ _)
  · have hdivision := Nat.div_add_mod' num den
    rw [Nat.le_div_iff_mul_le hden, Nat.succ_mul]
    omega

theorem isFinite_roundHalfEven_iff : (roundHalfEven x).isFinite ↔ x.isFinite := by
  constructor
  · intro h
    by_contra hx
    rw [roundHalfEven, roundBy, if_neg hx] at h
    exact hx h
  · intro hx
    exact (toRat_roundBy (f := fun _ k => divHalfEven k unity) hx (div_le_divHalfEven _ _)
      (divHalfEven_le_divUp unity_pos _)).1

/-- A rounded number can be scaled back wherever it could be scaled up. -/
theorem isFinite_roundScaled_iff (h1 : scale.isFinite → 1 ≤ toRat scale) :
    (roundHalfEven (x * scale) / scale).isFinite ↔ scale.isFinite ∧ (x * scale).isFinite := by
  constructor
  · intro h
    have hscaled := isFinite_roundHalfEven_iff.1 (isFinite_of_div h)
    exact ⟨isFinite_of_mul hscaled, hscaled⟩
  · rintro ⟨hscale, hscaled⟩
    exact isFinite_div_of_one_le (isFinite_roundHalfEven_iff.2 hscaled) hscale (h1 hscale)

/-- A scale is in the range of doubles, and so is a number that is scaled by it. -/
structure ScalesWithin (x scale : Float) : Prop where
  isFinite : scale.isFinite
  lt_overflowBound : |toRat x * toRat scale| < overflowBound

theorem scalesWithin_iff (hx : x.isFinite) :
    ScalesWithin x scale ↔ scale.isFinite ∧ (x * scale).isFinite := by
  constructor
  · rintro ⟨hscale, hbound⟩
    exact ⟨hscale, (isFinite_mul_iff hx hscale).2 hbound⟩
  · rintro ⟨hscale, hscaled⟩
    exact ⟨hscale, (isFinite_mul_iff hx hscale).1 hscaled⟩

/-! ### Powers of ten -/

/-- What is relied on of the powers of ten: to a natural number, ten is at least one, as far as it is
in the range of doubles. -/
structure ScalesUp (powerOfTen : Float → Float) : Prop where
  one_le : ∀ (places : Float) (n : Nat), places.isFinite → toRat places = n →
    (powerOfTen places).isFinite → 1 ≤ toRat (powerOfTen places)

/-- The double nearest to ten to a natural number, as a power function without any error gives it.
Other exponents are not taken. -/
def nearestPowerOfTen (places : Float) : Float :=
  match toInt? places with
  | some n => ofRatio false (10 ^ n.toNat * unity) 1
  | none => 0 / 0

theorem isNearest_nearestPowerOfTen (h : (nearestPowerOfTen places).isFinite) :
    ∃ n, toInt? places = some n ∧ IsNearest (10 ^ n.toNat) (nearestPowerOfTen places) := by
  cases hwhole : toInt? places with
  | none =>
    rw [nearestPowerOfTen, hwhole] at h
    exact absurd h (by decide +kernel)
  | some n =>
    have hratio : nearestPowerOfTen places = ofRatio false (10 ^ n.toNat * unity) 1 := by
      rw [nearestPowerOfTen, hwhole]
    rw [hratio] at h ⊢
    have hnearest := isNearest_ofRatio Nat.one_pos h
    rw [Nat.cast_one, one_mul, natCast_mul_unity_div, Nat.cast_pow] at hnearest
    exact ⟨n, rfl, hnearest⟩

theorem scalesUp_nearestPowerOfTen : ScalesUp nearestPowerOfTen where
  one_le places _ _ _ hfinite := by
    obtain ⟨n, -, hnearest⟩ := isNearest_nearestPowerOfTen hfinite
    have hone : toRat 1 = 1 := toRat_eq_intCast_iff.2 (by decide +kernel)
    have hle := hnearest.ge_of_ge (y := 1) (by decide +kernel)
      (hone.trans_le (one_le_pow₀ (by norm_num)))
    rwa [hone] at hle

end Binary64

namespace MathFunction

variable {powerOfTen : Float → Float} {x places : Float}

theorem callWith_round_eq (powerOfTen : Float → Float) (x places : Float) :
    round.callWith powerOfTen [x, places] =
      match roundToPlaces powerOfTen x places with
      | some v => if v.isFinite then .ok v else .error (.domain round.name)
      | none => .error (.domain round.name) := callWith_of_inDomain rfl rfl

theorem callWith_round_of_not_integral (h : isIntegral places = false) :
    round.callWith powerOfTen [x, places] = .error (.domain round.name) := by
  rw [callWith_round_eq, roundToPlaces, h]
  rfl

theorem callWith_round_of_integral (h : isIntegral places = true) :
    round.callWith powerOfTen [x, places] =
      if (roundHalfEven (x * powerOfTen places) / powerOfTen places).isFinite then
        .ok (roundHalfEven (x * powerOfTen places) / powerOfTen places)
      else .error (.domain round.name) := by
  rw [callWith_round_eq, roundToPlaces, if_pos h]

/-- Whatever the powers of ten are that scale a number up, rounding a finite number to decimal places
gives a finite number, unless the number of places has a fractional part, or the power or the scaled
number is out of range. For those of `power` this is `call`. -/
theorem call_round (hpower : ScalesUp powerOfTen) (hx : x.isFinite) (hplaces : places.isFinite)
    (h0 : 0 ≤ toRat places) :
    (round.callWith powerOfTen [x, places] = .error (.domain round.name) ↔
        (∀ n : Int, toRat places ≠ n) ∨ ¬ScalesWithin x (powerOfTen places)) ∧
      ((∃ n : Int, toRat places = n) → ScalesWithin x (powerOfTen places) →
        ∃ v, v.isFinite ∧ round.callWith powerOfTen [x, places] = .ok v) := by
  by_cases hwhole : isIntegral places = true
  · obtain ⟨-, n, hn⟩ := isIntegral_iff.1 hwhole
    have hnonneg : 0 ≤ n := by exact_mod_cast hn ▸ h0
    lift n to Nat using hnonneg
    have hscale := hpower.one_le places n hplaces (hn.trans (Int.cast_natCast n))
    have hfinite : (roundHalfEven (x * powerOfTen places) / powerOfTen places).isFinite ↔
        ScalesWithin x (powerOfTen places) := by
      rw [isFinite_roundScaled_iff hscale, scalesWithin_iff hx]
    rw [callWith_round_of_integral hwhole]
    by_cases hwithin : ScalesWithin x (powerOfTen places)
    · rw [if_pos (hfinite.2 hwithin)]
      refine ⟨iff_of_false nofun ?_, fun _ _ => ⟨_, hfinite.2 hwithin, rfl⟩⟩
      rintro (hfraction | hnot)
      · exact hfraction n hn
      · exact hnot hwithin
    · rw [if_neg (mt hfinite.1 hwithin)]
      exact ⟨iff_of_true rfl (.inr hwithin), fun _ h => absurd h hwithin⟩
  · have hfraction (n : Int) : toRat places ≠ n :=
      fun hn => hwhole (isIntegral_iff.2 ⟨hplaces, n, hn⟩)
    rw [callWith_round_of_not_integral (Bool.eq_false_of_not_eq_true hwhole)]
    exact ⟨iff_of_true rfl (.inl hfraction), fun ⟨n, hn⟩ => absurd hn (hfraction n)⟩

theorem call_round_five_quarters :
    (ScalesUp nearestPowerOfTen ∧ (1.25 : Float).isFinite ∧ (1 : Float).isFinite ∧ 0 ≤ toRat 1) ∧
      ScalesWithin 1.25 (nearestPowerOfTen 1) ∧
      ∃ v, v.isFinite ∧ round.callWith nearestPowerOfTen [1.25, 1] = .ok v := by
  have hx : (1.25 : Float).isFinite := by decide +kernel
  have hplaces : (1 : Float).isFinite := by decide +kernel
  have hone : toRat 1 = (1 : Int) := toRat_eq_intCast_iff.2 (by decide +kernel)
  have h0 : 0 ≤ toRat 1 := by
    rw [hone]
    exact_mod_cast Int.one_nonneg
  have hscale : ScalesWithin 1.25 (nearestPowerOfTen 1) :=
    (scalesWithin_iff hx).2 ⟨by decide +kernel, by decide +kernel⟩
  exact ⟨⟨scalesUp_nearestPowerOfTen, hx, hplaces, h0⟩, hscale,
    (call_round scalesUp_nearestPowerOfTen hx hplaces h0).2 ⟨1, hone⟩ hscale⟩

/-- Zero is not rounded to 1024 decimal places, and with the nearest power of ten three is not
rounded to 308. -/
theorem call_round_out_of_range :
    ((0 : Float).isFinite ∧ (1024 : Float).isFinite ∧ toRat 1024 = (1024 : Int) ∧
      round.call [0, 1024] = .error (.domain "round")) ∧
    ((3 : Float).isFinite ∧ (308 : Float).isFinite ∧ toRat 308 = (308 : Int) ∧
      round.callWith nearestPowerOfTen [3, 308] = .error (.domain "round")) := by
  have hplaces : toRat 1024 = (1024 : Int) := toRat_eq_intCast_iff.2 (by decide +kernel)
  have hplaces' : toRat 308 = (308 : Int) := toRat_eq_intCast_iff.2 (by decide +kernel)
  refine ⟨⟨?_, ?_, hplaces, ?_⟩, ?_, ?_, hplaces', ?_⟩ <;> decide +kernel

end MathFunction

end CharacterSheet
