import Mathlib
import ClusterConfig.Decimal.Shortest

/-!
# Rounding to a number and back

Rounding looks at the value of a quotient only, not at how it is written, and the value of a finite
number rounds to that number. So does every decimal of the same value, and the shortest decimal that
was picked.
-/

set_option autoImplicit false

namespace ClusterConfig

namespace Binary64

/-! ## Quotients of one value -/

theorem roundHalfEven_mul (num den k : Nat) (hk : 0 < k) :
    roundHalfEven (num * k) (den * k) = roundHalfEven num den := by
  have hmod : 2 * (num * k % (den * k)) = 2 * (num % den) * k := by
    rw [Nat.mul_mod_mul_right, Nat.mul_assoc]
  simp only [roundHalfEven, hmod, Nat.mul_div_mul_right _ _ hk, Nat.mul_lt_mul_right hk]

theorem ofRatio_mul (negative : Bool) (num den k : Nat) (hk : 0 < k) :
    ofRatio negative (num * k) (den * k) = ofRatio negative num den := by
  have hnum (n : Nat) : num * k * n = num * n * k := Nat.mul_right_comm num k n
  have hden (n : Nat) : den * k * n = den * n * k := Nat.mul_right_comm den k n
  have hzero : num * k = 0 ↔ num = 0 := by simp [hk.ne']
  simp only [ofRatio, hnum, hden, hzero, Nat.mul_div_mul_right _ _ hk, roundHalfEven_mul _ _ _ hk]

/-- Quotients of the same value round to the same number. -/
theorem ofRatio_congr (negative : Bool) {a b c d : Nat} (hb : 0 < b) (hd : 0 < d)
    (h : a * d = c * b) : ofRatio negative a b = ofRatio negative c d := by
  rw [← ofRatio_mul negative a b d hd, h, Nat.mul_comm b d, ofRatio_mul negative c d b hb]

theorem ofRatio_zero (negative : Bool) (den : Nat) :
    ofRatio negative 0 den = ofMagnitude negative 0 := if_pos rfl

/-! ## Values of numbers -/

theorem roundHalfEven_mul_self (n k : Nat) (hk : 0 < k) : roundHalfEven (n * k) k = n := by
  simp [roundHalfEven, hk]

theorem two_pow_pos (n : Nat) : 0 < Nat.pow 2 n := Nat.two_pow_pos n

/-- The scale that is picked for a count of units. -/
theorem scale_eq {mantissa scale : Nat} (hm : mantissa < 2 ^ 53)
    (hs : 2 ^ 52 ≤ mantissa ∨ scale = 0) {least : Nat}
    (hleast : least = Nat.log2 (mantissa * 2 ^ scale + 1) - 53) :
    (if mantissa * 2 ^ scale / 2 ^ least < 2 ^ 53 then least else least + 1) = scale := by
  have hpos : 0 < 2 ^ scale := Nat.two_pow_pos scale
  have hupper : Nat.log2 (mantissa * 2 ^ scale + 1) < 54 + scale := by
    have hle : mantissa * 2 ^ scale + 1 ≤ 2 ^ (53 + scale) := by
      rw [Nat.pow_add]
      exact Nat.mul_lt_mul_of_pos_right hm hpos
    rw [Nat.log2_lt (Nat.succ_ne_zero _)]
    exact hle.trans_lt (Nat.pow_lt_pow_right (by decide) (by omega))
  have hlower : 52 + scale ≤ Nat.log2 (mantissa * 2 ^ scale + 1) ∨ scale = 0 := by
    refine hs.imp_left fun hm => ?_
    rw [Nat.le_log2 (Nat.succ_ne_zero _), Nat.pow_add]
    exact (Nat.mul_le_mul_right _ hm).trans (Nat.le_succ _)
  obtain rfl | ⟨rfl, hm⟩ : least = scale ∨ (scale = least + 1 ∧ 2 ^ 52 ≤ mantissa) := by omega
  · rw [Nat.mul_div_cancel _ hpos, if_pos hm]
  · have htwice : mantissa * 2 ^ (least + 1) / 2 ^ least = 2 * mantissa := by
      rw [Nat.pow_succ', ← Nat.mul_assoc, Nat.mul_div_cancel _ (Nat.two_pow_pos least),
        Nat.mul_comm]
    rw [htwice, if_neg (by omega)]

/-- The unit in which values are counted, `2 ^ -1074`, is never computed. -/
theorem ofRatio_units (negative : Bool) {units : Nat} (hu : units ≠ 0) :
    ofRatio negative units (Nat.pow 2 1074) =
      let least := Nat.log2 (units + 1) - 53
      let scale := if units / 2 ^ least < 2 ^ 53 then least else least + 1
      ofMagnitude negative
        (min (scale * 2 ^ 52 + roundHalfEven units (2 ^ scale)) infiniteMagnitude) := by
  have hpos := two_pow_pos 1074
  rw [ofRatio, if_neg hu]
  generalize Nat.pow 2 1074 = unit at hpos
  simp only [Nat.mul_comm unit, Nat.mul_div_mul_right _ _ hpos, Nat.mul_div_cancel _ hpos,
    roundHalfEven_mul _ _ _ hpos]
  rfl

/-- A count of units with at most 53 significant bits is held exactly. -/
theorem ofRatio_exact (negative : Bool) {mantissa scale : Nat} (hm : mantissa < 2 ^ 53)
    (hs : 2 ^ 52 ≤ mantissa ∨ scale = 0) (hne : mantissa ≠ 0) :
    ofRatio negative (mantissa * 2 ^ scale) (Nat.pow 2 1074) =
      ofMagnitude negative (min (scale * 2 ^ 52 + mantissa) infiniteMagnitude) := by
  have hpos : 0 < 2 ^ scale := Nat.two_pow_pos scale
  rw [ofRatio_units negative (Nat.mul_ne_zero hne hpos.ne')]
  simp only [scale_eq hm hs rfl, roundHalfEven_mul_self mantissa _ hpos]

theorem ofMagnitude_magnitude (x : Binary64) : ofMagnitude x.isNegative x.magnitude = x := by
  obtain ⟨bits⟩ := x
  have hlt : bits.toNat < 2 ^ 64 := bits.toNat_lt
  have hnat : (if (2 : Nat) ^ 63 ≤ bits.toNat then 2 ^ 63 + bits.toNat % 2 ^ 63
      else bits.toNat % 2 ^ 63) = bits.toNat := by
    split <;> omega
  simp only [ofMagnitude, isNegative, magnitude, decide_eq_true_eq, Nat.pow_eq, hnat]
  rw [UInt64.ofNat_toNat]

variable {x : Binary64}

theorem magnitude_eq (x : Binary64) : x.magnitude = x.biasedExponent * 2 ^ 52 + x.fraction := by
  rw [biasedExponent, fraction, Nat.pow_eq, Nat.div_add_mod']

/-- The bits of a finite number are its scale and its mantissa. -/
theorem magnitude_eq_scale (x : Binary64) : x.magnitude = x.scale * 2 ^ 52 + x.mantissa := by
  rw [magnitude_eq, mantissa, scale, Nat.pow_eq]
  generalize x.biasedExponent = e, x.fraction = f
  cases e with
  | zero => simp
  | succ e =>
    rw [if_neg e.succ_ne_zero, Nat.add_sub_cancel, Nat.succ_mul, Nat.add_assoc]

theorem mantissa_lt (x : Binary64) : x.mantissa < 2 ^ 53 := by
  have hf : x.fraction < 2 ^ 52 := Nat.mod_lt _ (by decide)
  rw [mantissa, Nat.pow_eq]
  split <;> omega

theorem mantissa_ge_or_scale (x : Binary64) : 2 ^ 52 ≤ x.mantissa ∨ x.scale = 0 := by
  rw [mantissa, scale, Nat.pow_eq]
  split
  · exact .inr (by omega)
  · exact .inl (Nat.le_add_right _ _)

/-- The value of a finite number rounds to the number. -/
theorem ofRatio_ratio (h : x.isFinite = true) :
    ofRatio x.isNegative x.ratio.1 x.ratio.2 = x := by
  have hm : x.scale * 2 ^ 52 + x.mantissa = x.magnitude := (magnitude_eq_scale x).symm
  have hfinite : x.magnitude < infiniteMagnitude := of_decide_eq_true h
  have hvalue : ofRatio x.isNegative x.ratio.1 x.ratio.2 =
      ofMagnitude x.isNegative x.magnitude := by
    by_cases hzero : x.mantissa = 0
    · have hscale : x.scale = 0 := (mantissa_ge_or_scale x).resolve_left (by omega)
      simp [ratio, ofRatio, hzero, ← hm, hscale]
    · rw [ratio, Nat.pow_eq, ofRatio_exact _ (mantissa_lt x) (mantissa_ge_or_scale x) hzero, hm,
        Nat.min_eq_left hfinite.le]
  rw [hvalue, ofMagnitude_magnitude]

/-! ## Decimals -/

/-- A number past the largest exponent is infinite. -/
theorem ofRatio_huge (negative : Bool) {num e : Nat} (he : 1100 ≤ e) (h : 2 ^ e ≤ num) :
    ofRatio negative num 1 = infinity negative := by
  have hpos : 0 < num := (Nat.two_pow_pos e).trans_le h
  have hlog : e + 1074 ≤ Nat.log2 (num * Nat.pow 2 1074 / 1 + 1) := by
    rw [Nat.le_log2 (Nat.succ_ne_zero _), Nat.div_one, Nat.pow_add]
    exact (Nat.mul_le_mul_right _ h).trans (Nat.le_succ _)
  rw [ofRatio, if_neg hpos.ne']
  generalize num * Nat.pow 2 1074 = units at hlog
  have hscale (p : Prop) [Decidable p] : 2047 ≤
      if p then Nat.log2 (units / 1 + 1) - 53 else Nat.log2 (units / 1 + 1) - 53 + 1 := by
    split <;> omega
  exact congrArg (ofMagnitude negative) (Nat.min_eq_right
    ((Nat.mul_le_mul_right _ (hscale _)).trans (Nat.le_add_right _ _)))

/-- A number below half a unit is zero. -/
theorem ofRatio_tiny (negative : Bool) {num den : Nat} (h : 2 * (num * Nat.pow 2 1074) < den) :
    ofRatio negative num den = ofMagnitude negative 0 := by
  rw [ofRatio]
  generalize num * Nat.pow 2 1074 = units at h ⊢
  split
  · rfl
  · have hlt : units < den := by omega
    have hlog : Nat.log2 1 - 53 = 0 := by decide
    simp [Nat.div_eq_of_lt hlt, roundHalfEven, hlog, Nat.mod_eq_of_lt hlt, h]

/-- The shortcuts for powers far outside the range of the format answer what rounding would. -/
theorem ofDecimal_eq (negative : Bool) (digits : Nat) (power : Int) :
    ofDecimal negative digits power =
      ofRatio negative (digits * 10 ^ power.toNat) (10 ^ (-power).toNat) := by
  rw [ofDecimal]
  split_ifs with hzero hlarge hsmall hsign
  · rw [hzero, Nat.zero_mul, ofRatio_zero]
  · have hden : (-power).toNat = 0 := by omega
    rw [hden]
    refine (ofRatio_huge negative (e := 3 * power.toNat) (by omega) ?_).symm
    calc 2 ^ (3 * power.toNat) = 8 ^ power.toNat := by rw [Nat.pow_mul]
      _ ≤ 10 ^ power.toNat := Nat.pow_le_pow_left (by decide) _
      _ ≤ digits * 10 ^ power.toNat := Nat.le_mul_of_pos_left _ (Nat.pos_of_ne_zero hzero)
  · have hnum : power.toNat = 0 := by omega
    have hexp : Nat.log2 digits + 1076 ≤ (-power).toNat := by omega
    rw [hnum, Nat.pow_zero, Nat.mul_one]
    refine (ofRatio_tiny negative ?_).symm
    calc 2 * (digits * Nat.pow 2 1074)
        < 2 * (2 ^ (Nat.log2 digits + 1) * 2 ^ 1074) := by
          have hlt : digits < 2 ^ (Nat.log2 digits + 1) := Nat.lt_log2_self
          have hunits := Nat.mul_lt_mul_of_pos_right hlt (two_pow_pos 1074)
          exact Nat.mul_lt_mul_of_pos_left hunits (by decide)
      _ = 2 ^ (Nat.log2 digits + 1076) := by rw [← Nat.pow_add, ← Nat.pow_succ']
      _ ≤ 2 ^ (-power).toNat := Nat.pow_le_pow_right (by decide) hexp
      _ ≤ 10 ^ (-power).toNat := Nat.pow_le_pow_left (by decide) _
  · have hden : (-power).toNat = 0 := by omega
    rw [hden]
    rfl
  · have hnum : power.toNat = 0 := by omega
    rw [hnum, Nat.pow_zero, Nat.mul_one]
    rfl

theorem ofDecimal_zero (negative : Bool) (power : Int) :
    ofDecimal negative 0 power = ofMagnitude negative 0 := if_pos rfl

/-- Decimals of the same value are read as the same number. -/
theorem ofDecimal_shift (negative : Bool) (digits : Nat) (power : Int) (k : Nat) :
    ofDecimal negative (digits * 10 ^ k) (power - k) = ofDecimal negative digits power := by
  have hexp : k + (power - k).toNat + (-power).toNat = power.toNat + (-(power - k)).toNat := by
    omega
  simp only [ofDecimal_eq]
  apply ofRatio_congr _ (Nat.pow_pos (by decide)) (Nat.pow_pos (by decide))
  simp only [Nat.mul_assoc, ← Nat.pow_add, hexp]

end Binary64

namespace Decimal

variable {x : Binary64}

theorem ofDecimal_of_readsAs {d : Decimal} (h : readsAs x d = true) :
    Binary64.ofDecimal x.isNegative d.digits d.power = x := of_decide_eq_true h

/-- A binary fraction is a decimal one. -/
theorem ofDecimal_binary (negative : Bool) (num places : Nat) :
    Binary64.ofDecimal negative (num * Nat.pow 5 places) (-(places : Int)) =
      Binary64.ofRatio negative num (Nat.pow 2 places) := by
  have hpower : (-(places : Int)).toNat = 0 ∧ (- -(places : Int)).toNat = places := by omega
  have hten : 10 ^ places = Nat.pow 2 places * Nat.pow 5 places := Nat.mul_pow 2 5 places
  have hfive : 0 < Nat.pow 5 places := Nat.pow_pos (by decide)
  rw [Binary64.ofDecimal_eq, hpower.1, hpower.2, Nat.pow_zero, Nat.mul_one, hten,
    Binary64.ofRatio_mul negative num _ _ hfive]

/-- The exact value of a number is read as the number. -/
theorem readsAs_exact (h : x.isFinite = true) : readsAs x (exact x) = true := by
  have hvalue := ofDecimal_binary x.isNegative (x.mantissa * Nat.pow 2 x.scale)
  have hratio := Binary64.ofRatio_ratio h
  simp only [Binary64.ratio] at hratio
  rw [readsAs, decide_eq_true_eq, exact]
  exact (hvalue 1074).trans hratio

theorem readsAs_trimZeros (fuel : Nat) {d : Decimal} (h : readsAs x d = true) :
    readsAs x (trimZeros fuel d) = true := by
  induction fuel generalizing d with
  | zero => exact h
  | succ fuel ih =>
    rw [trimZeros]
    split
    · rename_i hzero
      have hmod : d.digits % 10 = 0 := by simpa using (Bool.and_eq_true_iff.mp hzero).2
      have hdigits : d.digits / 10 * 10 ^ 1 = d.digits := by omega
      have hshift := Binary64.ofDecimal_shift x.isNegative (d.digits / 10) (d.power + 1) 1
      apply ih
      rw [readsAs, decide_eq_true_eq, ← hshift, hdigits]
      simpa [readsAs] using h
    · exact h

theorem readsAs_of_mem_onGrid {num den : Nat} {power : Int} {d : Decimal}
    (h : d ∈ onGrid x num den power) : readsAs x d = true := (List.mem_filter.mp h).2

/-- The shortest decimal is read as the number. -/
theorem readsAs_shortest (h : x.isFinite = true) : readsAs x (shortest x) = true := by
  rw [shortest]
  split
  · rename_i hzero
    have hratio := Binary64.ofRatio_ratio h
    rw [hzero, Binary64.ofRatio_zero] at hratio
    rw [readsAs, decide_eq_true_eq, Binary64.ofDecimal_zero, hratio]
  · apply readsAs_trimZeros
    generalize hc : (List.range 17).flatMap _ = candidates
    cases candidates with
    | nil => exact readsAs_exact h
    | cons d rest =>
      obtain ⟨n, -, hd⟩ := List.mem_flatMap.mp (hc ▸ List.mem_cons_self : d ∈ _)
      exact readsAs_of_mem_onGrid hd

end Decimal

end ClusterConfig
