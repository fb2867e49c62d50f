import LegalEntity.Proofs.Doubles.Maximum
/-!
Doubles as rationals, and rounding: between a rational and the double that it is rounded to lies no
rational that fits a double. Only what is too large for all doubles becomes infinite.
-/

namespace LegalEntity.Doubles

open Float.Model Float.Model.UnpackedFloat

def dyadic (m : Nat) (e : Int) : Rat := m * 2 ^ e

section

variable {m n : Nat} {e d : Int}

theorem dyadic_nonneg (m : Nat) (e : Int) : 0 ≤ dyadic m e := by
  rw [dyadic]
  positivity

theorem dyadic_le_dyadic : dyadic m e ≤ dyadic n e ↔ m ≤ n := by
  rw [dyadic, dyadic, mul_le_mul_iff_left₀ (by positivity), Nat.cast_le]

theorem dyadic_mul_pow (m k : Nat) (e : Int) : dyadic (m * 2 ^ k) e = dyadic m (e + k) := by
  rw [dyadic, dyadic, zpow_add₀ (by norm_num), zpow_natCast]
  push_cast
  ring

theorem dyadic_mul_dyadic (m n : Nat) (e d : Int) :
    dyadic m e * dyadic n d = dyadic (m * n) (e + d) := by
  rw [dyadic, dyadic, dyadic, zpow_add₀ (by norm_num)]
  push_cast
  ring

theorem pow_le_dyadic {i : Nat} (h : 2 ^ i ≤ m) (e : Int) : (2 : Rat) ^ (i + e) ≤ dyadic m e := by
  have hone : dyadic 1 (e + i) = 2 ^ (i + e) := by
    rw [dyadic, Nat.cast_one, one_mul, add_comm]
  rw [← hone, ← dyadic_mul_pow, dyadic_le_dyadic]
  omega

theorem dyadic_lt_pow {i : Nat} (h : m < 2 ^ i) (e : Int) : dyadic m e < (2 : Rat) ^ (i + e) := by
  have hone : dyadic 1 (e + i) = 2 ^ (i + e) := by
    rw [dyadic, Nat.cast_one, one_mul, add_comm]
  rw [← hone, ← dyadic_mul_pow, ← not_le, dyadic_le_dyadic]
  omega

theorem dyadic_lt_dyadic (hm : m < 2 ^ 53) (hn : 2 ^ 52 ≤ n) (h : e < d) :
    dyadic m e < dyadic n d := by
  refine (dyadic_lt_pow hm e).trans_le (le_trans ?_ (pow_le_dyadic hn d))
  exact zpow_le_zpow_right₀ (by norm_num) (by omega)

end

/-- A rational that a double could be if its exponent were not bounded from above. -/
def Fits (q : Rat) : Prop := ∃ m e, m < 2 ^ 53 ∧ -1074 ≤ e ∧ |q| = dyadic m e

theorem Fits.neg {q : Rat} (h : Fits q) : Fits (-q) := by
  obtain ⟨m, e, hm, he, h⟩ := h
  exact ⟨m, e, hm, he, by rw [abs_neg, h]⟩

theorem fits_dyadic {m : Nat} {e : Int} (hm : m < 2 ^ 53) (he : -1074 ≤ e) : Fits (dyadic m e) :=
  ⟨m, e, hm, he, abs_of_nonneg (dyadic_nonneg m e)⟩

/-- `v` is next to `q` among the rationals that fit. -/
structure Rounds (q v : Rat) : Prop where
  fits : Fits v
  le : ∀ r, Fits r → q ≤ r → v ≤ r
  ge : ∀ r, Fits r → r ≤ q → r ≤ v

theorem Rounds.refl {q : Rat} (h : Fits q) : Rounds q q := ⟨h, fun _ _ => id, fun _ _ => id⟩

theorem Rounds.eq {q v : Rat} (h : Rounds q v) (hq : Fits q) : v = q :=
  le_antisymm (h.le q hq le_rfl) (h.ge q hq le_rfl)

theorem Rounds.neg {q v : Rat} (h : Rounds q v) : Rounds (-q) (-v) where
  fits := h.fits.neg
  le r hr hle := neg_le.1 (h.ge (-r) hr.neg (neg_le.1 hle))
  ge r hr hle := le_neg.1 (h.le (-r) hr.neg (le_neg.1 hle))

theorem Rounds.of_nonneg {q v : Rat} (hq : 0 ≤ q) (hv : Fits v) (hv' : 0 ≤ v)
    (hle : ∀ m e, m < 2 ^ 53 → -1074 ≤ e → q ≤ dyadic m e → v ≤ dyadic m e)
    (hge : ∀ m e, m < 2 ^ 53 → -1074 ≤ e → dyadic m e ≤ q → dyadic m e ≤ v) : Rounds q v where
  fits := hv
  le r hr h := by
    obtain ⟨m, e, hm, he, hr⟩ := hr
    rw [abs_of_nonneg (hq.trans h)] at hr
    subst hr
    exact hle m e hm he h
  ge r hr h := by
    rcases le_total 0 r with hpos | hneg
    · obtain ⟨m, e, hm, he, hr⟩ := hr
      rw [abs_of_nonneg hpos] at hr
      subst hr
      exact hge m e hm he h
    · exact hneg.trans hv'

theorem shiftRight_mul_pow (m k : Nat) : ExtendedMantissa.ofMantissaAndAccuracy (m * 2 ^ k) .exact >>> k =
    ExtendedMantissa.ofMantissaAndAccuracy m .exact := by
  induction k generalizing m with
  | zero => rw [pow_zero, mul_one]; rfl
  | succ k ih =>
    have hsucc : m * 2 ^ (k + 1) = m * 2 * 2 ^ k := by ring
    change ExtendedMantissa.shiftRightOne (ExtendedMantissa.ofMantissaAndAccuracy _ .exact >>> k) = _
    rw [hsucc, ih]
    simp [ExtendedMantissa.shiftRightOne, ExtendedMantissa.ofMantissaAndAccuracy]

theorem roundedMantissa_le_succ (em : ExtendedMantissa) : em.roundedMantissa ≤ em.mantissa + 1 := by
  rw [ExtendedMantissa.roundedMantissa]
  cases em.accuracy with
  | exact => exact Nat.le_succ _
  | inexact o =>
    cases o with
    | eq => exact Nat.add_le_add_left (Nat.le_of_lt_succ (Nat.mod_lt _ (by decide))) _
    | _ => simp [Accuracy.roundToNearestEven]

theorem roundedMantissa_le_of_lt {m n k : Nat} (h : m < n * 2 ^ k) (a : Accuracy) :
    (ExtendedMantissa.ofMantissaAndAccuracy m a >>> k).roundedMantissa ≤ n := by
  have hdiv := (Nat.div_lt_iff_lt_mul (Nat.two_pow_pos k)).2 h
  refine (roundedMantissa_le_succ _).trans ?_
  rwa [mantissa_shiftRight, mantissa_ofMantissaAndAccuracy]

theorem le_roundedMantissa_shiftRight {m n k : Nat} (h : n * 2 ^ k ≤ m) (a : Accuracy) :
    n ≤ (ExtendedMantissa.ofMantissaAndAccuracy m a >>> k).roundedMantissa := by
  refine Nat.le_trans ?_ (le_roundedMantissa _)
  rw [mantissa_shiftRight, mantissa_ofMantissaAndAccuracy]
  exact (Nat.le_div_iff_mul_le (Nat.two_pow_pos k)).2 h

inductive Cut (m : Nat) (e : Int) : Accuracy → Rat → Prop
  | exact : Cut m e .exact (dyadic m e)
  | inexact {o : Ordering} {q : Rat} (hlow : dyadic m e < q) (hhigh : q < dyadic (m + 1) e) :
      Cut m e (.inexact o) q

section

variable {m k : Nat} {e : Int} {a : Accuracy} {q : Rat}

theorem Cut.le (h : Cut m e a q) : dyadic m e ≤ q := by
  cases h with
  | exact => exact le_rfl
  | inexact hlow => exact hlow.le

theorem Cut.nonneg (h : Cut m e a q) : 0 ≤ q := (dyadic_nonneg m e).trans h.le

theorem Cut.roundedMantissa_le (h : Cut m e a q) {n : Nat} (hle : q ≤ dyadic n (e + k)) :
    (ExtendedMantissa.ofMantissaAndAccuracy m a >>> k).roundedMantissa ≤ n := by
  rw [← dyadic_mul_pow] at hle
  cases h with
  | exact =>
    rcases (dyadic_le_dyadic.1 hle).eq_or_lt with rfl | hlt
    · rw [shiftRight_mul_pow]
      exact Nat.le_refl n
    · exact roundedMantissa_le_of_lt hlt _
  | inexact hlow =>
    refine roundedMantissa_le_of_lt (not_le.1 fun hn => ?_) _
    exact absurd (dyadic_le_dyadic.2 hn) (not_le.2 (hlow.trans_le hle))

theorem Cut.le_roundedMantissa (h : Cut m e a q) {n : Nat} (hle : dyadic n (e + k) ≤ q) :
    n ≤ (ExtendedMantissa.ofMantissaAndAccuracy m a >>> k).roundedMantissa := by
  rw [← dyadic_mul_pow] at hle
  refine le_roundedMantissa_shiftRight (Nat.le_of_lt_succ (not_le.1 fun hn => ?_)) a
  cases h with
  | exact => exact absurd (dyadic_le_dyadic.1 hle) (not_le.2 hn)
  | inexact _ hhigh => exact absurd (dyadic_le_dyadic.2 hn) (not_le.2 (hle.trans_lt hhigh))

theorem two_pow_log2_le (h : 52 ≤ m.log2) : 2 ^ m.log2 ≤ m := by
  apply Nat.log2_self_le
  rintro rfl
  exact absurd h (by decide)

theorem rounds_roundedMantissa (h : Cut m e a q)
    (hk : e + k = max ((m.log2 : Int) + e - 52) (-1074))
    (hfits : Fits (dyadic
      (ExtendedMantissa.ofMantissaAndAccuracy m a >>> k).roundedMantissa (e + k))) :
    Rounds q (dyadic (ExtendedMantissa.ofMantissaAndAccuracy m a >>> k).roundedMantissa (e + k)) := by
  have hraise {n : Nat} {d : Int} (hd : e + k ≤ d) :
      dyadic n d = dyadic (n * 2 ^ (d - (e + k)).toNat) (e + k) := by
    rw [dyadic_mul_pow]
    congr 1
    omega
  refine .of_nonneg h.nonneg hfits (dyadic_nonneg _ _) ?_ ?_
  · intro n d hn hd hle
    by_cases hexponent : e + k ≤ d
    · rw [hraise hexponent, dyadic_le_dyadic]
      rw [hraise hexponent] at hle
      exact h.roundedMantissa_le hle
    · -- A rational of a lower exponent is too small.
      have hlow : (2 : Rat) ^ (m.log2 + e) ≤ dyadic m e :=
        pow_le_dyadic (two_pow_log2_le (by omega)) e
      have hhigh : dyadic n d < 2 ^ (m.log2 + e) := (dyadic_lt_pow hn d).trans_le
        (zpow_le_zpow_right₀ (by norm_num) (by omega))
      exact absurd hle (not_le.2 (hhigh.trans_le (hlow.trans h.le)))
  · intro n d hn hd hle
    by_cases hexponent : e + k ≤ d
    · rw [hraise hexponent, dyadic_le_dyadic]
      rw [hraise hexponent] at hle
      exact h.le_roundedMantissa hle
    · have hlog : m.log2 = 52 + k := by omega
      have hfull : 2 ^ 52 ≤ (ExtendedMantissa.ofMantissaAndAccuracy m a >>> k).roundedMantissa := by
        apply le_roundedMantissa_shiftRight
        rw [← pow_add, ← hlog]
        exact two_pow_log2_le (by omega)
      exact (dyadic_lt_dyadic hn hfull (not_le.1 hexponent)).le

end

structure IsReduced (m : Nat) (e : Int) : Prop where
  lt : m < 2 ^ 53
  exponent : -1074 ≤ e
  full : 2 ^ 52 ≤ m ∨ e = -1074

theorem IsReduced.fits {m : Nat} {e : Int} (h : IsReduced m e) : Fits (dyadic m e) :=
  fits_dyadic h.lt h.exponent

theorem excess_of_lt {m : Nat} {e : Int} (hm : m < 2 ^ 53) (he : -1074 ≤ e) : excess m e = 0 := by
  have hlog : m.log2 < 53 := by
    by_cases hzero : m = 0
    · subst hzero
      decide
    · exact (Nat.log2_lt hzero).2 hm
  rw [excess_eq]
  omega

theorem cut_rounded {m : Nat} {e : Int} (hm : m ≤ 2 ^ 53) (he : -1074 ≤ e)
    (hfull : 2 ^ 52 ≤ m ∨ e = -1074) : IsReduced (m / 2 ^ excess m e) (e + excess m e) ∧
      dyadic (m / 2 ^ excess m e) (e + excess m e) = dyadic m e := by
  rcases hm.eq_or_lt with rfl | hlt
  · have hone : excess (2 ^ 53) e = 1 := by
      rw [excess_eq, Nat.log2_two_pow]
      omega
    rw [hone, ← dyadic_mul_pow]
    exact ⟨⟨by decide, by omega, .inl (by decide)⟩, rfl⟩
  · rw [excess_of_lt hlt he, pow_zero, Nat.div_one, Nat.cast_zero, add_zero]
    exact ⟨⟨hlt, he, hfull⟩, rfl⟩

theorem Cut.exists_rounds {m : Nat} {e : Int} {a : Accuracy} {q : Rat} (hcut : Cut m e a q)
    (h : e ≤ max ((m.log2 : Int) + e - 52) (-1074)) (s : Sign) :
    ∃ n d, IsReduced n d ∧ Rounds q (dyadic n d) ∧
      roundWithAccuracy Format.binary64 s m e a =
        if h : n = 0 then .zero s else .finite s n d (Nat.pos_of_ne_zero h) := by
  have hexcess := excess_eq m e
  generalize hk : excess m e = k at hexcess
  have hexponent : e + k = max ((m.log2 : Int) + e - 52) (-1074) := by omega
  have hrounds := rounds_roundedMantissa hcut hexponent
  have hle : (ExtendedMantissa.ofMantissaAndAccuracy m a >>> k).roundedMantissa ≤ 2 ^ 53 := by
    apply roundedMantissa_le_of_lt
    rw [← pow_add]
    exact Nat.lt_log2_self.trans_le (Nat.pow_le_pow_right (by decide) (by omega))
  have hfull : 2 ^ 52 ≤ (ExtendedMantissa.ofMantissaAndAccuracy m a >>> k).roundedMantissa ∨
      e + k = -1074 := by
    by_cases hlog : m.log2 = 52 + k
    · left
      apply le_roundedMantissa_shiftRight
      rw [← pow_add, ← hlog]
      exact two_pow_log2_le (by omega)
    · right
      omega
  generalize hr : (ExtendedMantissa.ofMantissaAndAccuracy m a >>> k).roundedMantissa = r at *
  have hround : roundWithAccuracy Format.binary64 s m e a =
      if h : (ExtendedMantissa.ofMantissaAndAccuracy r .exact >>> excess r (e + k)).mantissa = 0
      then .zero s
      else .finite s _ (e + k + excess r (e + k)) (Nat.pos_of_ne_zero h) := by
    subst hr hk
    rfl
  obtain ⟨hreduced, hvalue⟩ := cut_rounded hle (by omega) hfull
  refine ⟨_, _, ?_, ?_, hround⟩ <;> rw [mantissa_shiftRight, mantissa_ofMantissaAndAccuracy]
  · exact hreduced
  · rw [hvalue]
    exact hrounds (hvalue ▸ hreduced.fits)

def signed (s : Sign) (q : Rat) : Rat :=
  match s with
  | .negative => -q
  | .positive => q

theorem signed_mul_signed (s t : Sign) (p q : Rat) : signed s p * signed t q = signed (s * t) (p * q) := by
  cases s <;> cases t <;> simp [signed]

theorem abs_signed_dyadic (s : Sign) (m : Nat) (e : Int) :
    |signed s (dyadic m e)| = dyadic m e := by
  cases s <;> simp [signed, abs_of_nonneg, dyadic_nonneg]

theorem signed_dyadic (s : Sign) (m : Nat) (e : Int) :
    signed s (dyadic m e) = s.apply (m : Int) * 2 ^ e := by
  cases s <;> simp [signed, dyadic, Sign.apply]

theorem Fits.signed {q : Rat} (h : Fits q) (s : Sign) : Fits (signed s q) := by
  cases s with
  | negative => exact h.neg
  | positive => exact h

theorem Rounds.signed {q v : Rat} (h : Rounds q v) (s : Sign) :
    Rounds (signed s q) (signed s v) := by
  cases s with
  | negative => exact h.neg
  | positive => exact h

inductive Values : UnpackedFloat → Rat → Prop
  | zero (s : Sign) : Values (.zero s) 0
  | finite (s : Sign) {m : Nat} {e : Int} (hm : 0 < m) (h : IsReduced m e) (he : e ≤ 971) :
      Values (.finite s m e hm) (signed s (dyadic m e))

def HasValue (x : Float) (q : Rat) : Prop := Values x.toModel.unpack q

theorem hasValue_of_unpack {x : Float} {s : Sign} {m : Nat} {e : Int} (hm : 0 < m)
    (hx : x.toModel.unpack = .finite s m e hm) (h : IsReduced m e) (he : e ≤ 971) :
    HasValue x (signed s (dyadic m e)) := by
  rw [HasValue, hx]
  exact .finite s hm h he

theorem hasValue_pow {x : Float} {e : Int} (hx : x.toModel.unpack = .finite .positive (2 ^ 52) e (by decide))
    (he : -1074 ≤ e) (he' : e ≤ 971) : HasValue x (2 ^ (52 + e)) := by
  have hvalue : signed .positive (dyadic (2 ^ 52) e) = 2 ^ (52 + e) := by
    have hpow := dyadic_mul_pow 1 52 e
    rw [one_mul, add_comm, Nat.cast_ofNat] at hpow
    rw [signed, hpow, dyadic, Nat.cast_one, one_mul]
  rw [← hvalue]
  exact hasValue_of_unpack (by decide) hx ⟨by decide, he, .inl le_rfl⟩ he'

theorem hasValue_zero : HasValue 0.0 0 := .zero .positive

theorem hasValue_one : HasValue 1.0 1 := hasValue_pow (e := -52) rfl (by decide) (by decide)

theorem hasValue_two : HasValue 2.0 2 := by
  have h : HasValue 2.0 (2 ^ (1 : Int)) := hasValue_pow (e := -51) rfl (by decide) (by decide)
  rwa [zpow_one] at h

theorem Values.fits {f : UnpackedFloat} {q : Rat} (h : Values f q) : Fits q := by
  cases h with
  | zero s => exact ⟨0, 0, by decide, by decide, by simp [dyadic]⟩
  | finite s hm h he => exact h.fits.signed s

theorem Values.abs_lt {f : UnpackedFloat} {q : Rat} (h : Values f q) : |q| < 2 ^ 1024 := by
  cases h with
  | zero s => rw [abs_zero]; positivity
  | @finite s m e hm h he =>
    have hlt : dyadic m e < 2 ^ ((1024 : Nat) : Int) := (dyadic_lt_pow h.lt e).trans_le
      (zpow_le_zpow_right₀ (by norm_num) (by omega))
    rw [zpow_natCast] at hlt
    rwa [abs_signed_dyadic]

theorem nan_or_infinite_or_hasValue (x : Float) :
    x = Float.nan ∨ (∃ s, x.toModel.unpack = .infinity s) ∨ ∃ q, HasValue x q := by
  rw [eq_nan_iff]
  refine (notANumber_or_stands x).imp_right fun h => ?_
  simp only [HasValue]
  generalize x.toModel.unpack = f at *
  generalize place x = z at h
  cases h with
  | infinity s => exact .inl ⟨s, rfl⟩
  | zero s => exact .inr ⟨_, .zero s⟩
  | finite s m e hm hm' he he' h => exact .inr ⟨_, .finite s hm ⟨hm', he, h⟩ he'⟩

theorem Values.ne_notANumber {f : UnpackedFloat} {q : Rat} (h : Values f q) : f ≠ .notANumber := by
  cases h <;> exact nofun

theorem HasValue.ne_nan {x : Float} {q : Rat} (h : HasValue x q) : x ≠ Float.nan := by
  rw [ne_eq, eq_nan_iff]
  exact h.ne_notANumber

/-- What a rational that fits is stored as: itself, or infinite if it is too large. -/
inductive Packs (v : Rat) (x : Float) : Prop
  | value (h : HasValue x v)
  | large (h : 2 ^ 1024 ≤ v) (hx : x.toModel.unpack = .infinity .positive)
  | small (h : v ≤ -2 ^ 1024) (hx : x.toModel.unpack = .infinity .negative)

theorem packs_zero (s : Sign) : Packs 0 (.ofModel (.pack (.zero s))) := by
  apply Packs.value
  change Values (Float.Model.pack (.zero s)).unpack 0
  rw [unpack_pack_zero]
  exact .zero s

theorem Unpacks.eq_normal {s : Sign} {e m : Nat} {f : UnpackedFloat} (h : Unpacks s e m f)
    (he : 0 < e) (he' : e < 2047) {n : Nat} {d : Int} (hn : 0 < n) (hm : n = 2 ^ 52 + m)
    (hd : d = e - 1075) : f = .finite s n d hn := by
  subst hm hd
  cases h with
  | infinity => omega
  | notANumber => omega
  | zero => omega
  | subnormal => omega
  | normal => rfl

theorem Unpacks.eq_subnormal {s : Sign} {m : Nat} {f : UnpackedFloat} (h : Unpacks s 0 m f)
    (hm : 0 < m) : f = .finite s m (-1074) hm := by
  cases h with
  | zero => omega
  | subnormal => rfl
  | normal he => omega

theorem unpack_pack_reduced (s : Sign) {m : Nat} {e : Int} (hm : 0 < m) (h : IsReduced m e)
    (he : e ≤ 971) : (Float.Model.pack (.finite s m e hm)).unpack = .finite s m e hm := by
  have hlt := h.lt
  have hexponent := h.exponent
  rw [unpack_pack, pack_finite, if_neg (by omega)]
  by_cases hfull : 2 ^ 52 ≤ m
  · have hlog : m.log2 + 1 = 53 := congrArg (· + 1) ((Nat.log2_eq_iff hm.ne').2 ⟨hfull, h.lt⟩)
    rw [if_pos hlog]
    refine (unpacks_packComponents s _ _).eq_normal ?_ ?_ hm ?_ ?_ <;> rw [BitVec.toNat_ofNat] <;> omega
  · have hlog : m.log2 < 52 := (Nat.log2_lt hm.ne').2 (not_le.1 hfull)
    obtain rfl := h.full.resolve_left hfull
    rw [if_neg (by omega)]
    have hsub := unpacks_packComponents s 0#11 (BitVec.ofNat 52 m)
    rw [BitVec.toNat_ofNat, BitVec.toNat_ofNat, Nat.zero_mod, Nat.mod_eq_of_lt (not_le.1 hfull)] at hsub
    exact hsub.eq_subnormal hm

theorem packs_finite (s : Sign) {m : Nat} {e : Int} (hm : 0 < m) (h : IsReduced m e) :
    Packs (signed s (dyadic m e)) (.ofModel (.pack (.finite s m e hm))) := by
  by_cases he : e ≤ 971
  · apply Packs.value
    change Values (Float.Model.pack (.finite s m e hm)).unpack _
    rw [unpack_pack_reduced s hm h he]
    exact .finite s hm h he
  · have hexponent := not_le.1 he
    have hlarge : (2 : Rat) ^ ((1024 : Nat) : Int) ≤ dyadic m e :=
      (zpow_le_zpow_right₀ (by norm_num) (by omega)).trans
        (pow_le_dyadic (h.full.resolve_right (by omega)) e)
    rw [zpow_natCast] at hlarge
    have hinfinity : (Float.Model.pack (.finite s m e hm)).unpack = .infinity s := by
      rw [unpack_pack, pack_finite, if_pos (by omega)]
      exact unpack_pack_infinity s
    cases s with
    | positive => exact .large hlarge hinfinity
    | negative => exact .small (neg_le_neg hlarge) hinfinity

def IsRounded (q : Rat) (x : Float) : Prop := ∃ v, Rounds q v ∧ Packs v x

theorem HasValue.isRounded {x : Float} {q : Rat} (h : HasValue x q) : IsRounded q x :=
  ⟨q, .refl h.fits, .value h⟩

theorem isRounded_zero (s : Sign) : IsRounded 0 (.ofModel (.pack (.zero s))) :=
  ⟨0, .refl (Values.zero s).fits, packs_zero s⟩

theorem Cut.isRounded {m : Nat} {e : Int} {a : Accuracy} {q : Rat} (hcut : Cut m e a q)
    (h : e ≤ max ((m.log2 : Int) + e - 52) (-1074)) (s : Sign) : IsRounded (signed s q)
      (.ofModel (.pack (roundWithAccuracy Format.binary64 s m e a))) := by
  obtain ⟨n, d, hreduced, hrounds, hround⟩ := hcut.exists_rounds h s
  rw [hround]
  refine ⟨_, hrounds.signed s, ?_⟩
  split
  · rename_i hzero
    subst hzero
    have hsigned : signed s (dyadic 0 d) = 0 := by cases s <;> simp [signed, dyadic]
    rw [hsigned]
    exact packs_zero s
  · exact packs_finite s _ hreduced

theorem isRounded_round (s : Sign) {m : Nat} (hm : 0 < m) (e : Int) : IsRounded (signed s (dyadic m e))
    (.ofModel (.pack (UnpackedFloat.round Format.binary64 s m e))) := by
  obtain ⟨k, hk⟩ :
      ∃ k, k = (e - Format.binary64.targetExponent (totalExponent m e)).toNat := ⟨_, rfl⟩
  have htarget : Format.binary64.targetExponent (totalExponent m e) =
      max ((m.log2 : Int) + 1 + e - 53) (-1074) := rfl
  have hround : UnpackedFloat.round Format.binary64 s m e =
      roundWithAccuracy Format.binary64 s (m <<< k) (e - k) .exact := by
    rw [hk]
    rfl
  have hpos : 0 < m * 2 ^ k := Nat.mul_pos hm (Nat.two_pow_pos k)
  have hlog : m.log2 + k ≤ (m * 2 ^ k).log2 := by
    rw [Nat.le_log2 hpos.ne', pow_add]
    exact Nat.mul_le_mul_right _ (Nat.log2_self_le hm.ne')
  have hvalue : dyadic (m * 2 ^ k) (e - k) = dyadic m e := by
    rw [dyadic_mul_pow, sub_add_cancel]
  rw [hround, Nat.shiftLeft_eq, ← hvalue]
  exact Cut.exact.isRounded (by omega) s

theorem isRounded_normalize (m e : Int) : IsRounded (m * 2 ^ e)
    (.ofModel (.pack (UnpackedFloat.normalize Format.binary64 m e .positive))) := by
  have hround (s : Sign) {n : Nat} (hn : 0 < n) (hm : s.apply (n : Int) = m) :
      IsRounded (m * 2 ^ e) (.ofModel (.pack (UnpackedFloat.round Format.binary64 s n e))) := by
    rw [← hm, ← signed_dyadic]
    exact isRounded_round s hn e
  rw [UnpackedFloat.normalize]
  split
  · rename_i hlt
    have hlt := Int.compare_eq_lt.1 hlt
    exact hround .negative (by omega) (by change -((-m).toNat : Int) = m; omega)
  · rename_i heq
    rw [Int.compare_eq_eq.1 heq, Int.cast_zero, zero_mul]
    exact isRounded_zero _
  · rename_i hgt
    have hgt := Int.compare_eq_gt.1 hgt
    exact hround .positive (by omega) (by change (m.toNat : Int) = m; omega)

section

variable {x y : Float} {p q : Rat}

theorem isRounded_mul (hx : HasValue x p) (hy : HasValue y q) : IsRounded (p * q) (x * y) := by
  change IsRounded _
    (.ofModel (.pack (UnpackedFloat.mul Format.binary64 x.toModel.unpack y.toModel.unpack)))
  rw [HasValue] at hx hy
  generalize x.toModel.unpack = f at hx
  generalize y.toModel.unpack = g at hy
  cases hx with
  | zero s =>
    rw [zero_mul]
    cases hy <;> exact isRounded_zero _
  | @finite s m e hm h he =>
    cases hy with
    | zero t =>
      rw [mul_zero]
      exact isRounded_zero _
    | @finite t n d hn h' hd =>
      rw [signed_mul_signed, dyadic_mul_dyadic]
      refine Cut.exact.isRounded ?_ (s * t)
      -- Only a product of two subnormal numbers may be short, and its exponent is low enough.
      by_cases hfull : 2 ^ 52 ≤ m * n
      · have hlog := (Nat.le_log2 (Nat.mul_pos hm hn).ne').2 hfull
        omega
      · have hfirst := h.full.resolve_left fun hle => hfull (hle.trans (Nat.le_mul_of_pos_right m hn))
        have hsecond := h'.full.resolve_left fun hle => hfull (hle.trans (Nat.le_mul_of_pos_left n hm))
        omega

theorem apply_shiftLeft (s : Sign) (m : Nat) {e d : Int} (h : d ≤ e) :
    ((s.apply ((m <<< (e - d).toNat : Nat) : Int) : Int) : Rat) * 2 ^ d = signed s (dyadic m e) := by
  rw [← signed_dyadic, Nat.shiftLeft_eq, dyadic_mul_pow]
  congr 2
  omega

theorem isRounded_add (hx : HasValue x p) (hy : HasValue y q) : IsRounded (p + q) (x + y) := by
  change IsRounded _
    (.ofModel (.pack (UnpackedFloat.add Format.binary64 x.toModel.unpack y.toModel.unpack)))
  have hx' := ofModel_pack_unpack x
  have hy' := ofModel_pack_unpack y
  have hroundx := hx.isRounded
  have hroundy := hy.isRounded
  rw [HasValue] at hx hy
  generalize x.toModel.unpack = f at hx hx'
  generalize y.toModel.unpack = g at hy hy'
  cases hx with
  | zero s =>
    rw [zero_add]
    cases hy with
    | zero t => cases s <;> cases t <;> exact isRounded_zero _
    | finite => rwa [← hy'] at hroundy
  | @finite s m e hm h he =>
    cases hy with
    | zero t =>
      rw [add_zero]
      rwa [← hx'] at hroundx
    | @finite t n d hn h' hd =>
      rw [← apply_shiftLeft s m (min_le_left e d), ← apply_shiftLeft t n (min_le_right e d), ← add_mul,
        ← Int.cast_add]
      exact isRounded_normalize _ _

theorem unpack_neg (hy : HasValue y q) :
    (-y).toModel.unpack = UnpackedFloat.neg y.toModel.unpack := by
  change (Float.Model.pack (UnpackedFloat.neg y.toModel.unpack)).unpack = _
  rw [HasValue] at hy
  generalize y.toModel.unpack = g at hy
  cases hy with
  | zero s => exact unpack_pack_zero _
  | finite s hm h he => exact unpack_pack_reduced _ hm h he

theorem HasValue.neg (hy : HasValue y q) : HasValue (-y) (-q) := by
  have hunpack := unpack_neg hy
  rw [HasValue] at hy ⊢
  rw [hunpack]
  generalize y.toModel.unpack = g at hy
  cases hy with
  | zero s =>
    rw [neg_zero]
    exact .zero _
  | @finite s m e hm h he =>
    have hsigned : -signed s (dyadic m e) = signed (-s) (dyadic m e) := by
      cases s
      · exact neg_neg _
      · rfl
    rw [hsigned]
    exact .finite _ hm h he

theorem HasValue.sub_eq (hy : HasValue y q) (x : Float) : x - y = x + -y := by
  have hunpacked (f g : UnpackedFloat) : UnpackedFloat.sub Format.binary64 f g =
      UnpackedFloat.add Format.binary64 f (UnpackedFloat.neg g) := by
    cases f with
    | finite s m e hm =>
      cases g with
      | finite t n d hn =>
        have hsigns (k l : Int) : s.apply k - t.apply l = s.apply k + (-t).apply l := by
          cases t with
          | negative => exact sub_neg_eq_add _ _
          | positive => rfl
        simp only [UnpackedFloat.sub, UnpackedFloat.add, UnpackedFloat.neg, hsigns]
      | _ => rfl
    | _ => cases g <;> rfl
  change Float.ofModel (.pack (UnpackedFloat.sub Format.binary64 x.toModel.unpack y.toModel.unpack)) =
    .ofModel (.pack (UnpackedFloat.add Format.binary64 x.toModel.unpack (-y).toModel.unpack))
  rw [hunpacked, unpack_neg hy]

theorem isRounded_sub (hx : HasValue x p) (hy : HasValue y q) : IsRounded (p - q) (x - y) := by
  rw [hy.sub_eq x, sub_eq_add_neg]
  exact isRounded_add hx hy.neg

end

section

variable {x y : Float} {a b p q : Rat}

theorem IsRounded.between {z : Float} (h : IsRounded q x) (hy : HasValue y a) (hz : HasValue z b)
    (ha : a ≤ q) (hb : q ≤ b) : ∃ v, HasValue x v ∧ a ≤ v ∧ v ≤ b := by
  obtain ⟨v, hv, hx⟩ := h
  have hav := hv.ge a hy.fits ha
  have hvb := hv.le b hz.fits hb
  cases hx with
  | value hx => exact ⟨v, hx, hav, hvb⟩
  | large hlarge => exact absurd (hlarge.trans hvb) (not_le.2 (abs_lt.1 hz.abs_lt).2)
  | small hsmall => exact absurd (hav.trans hsmall) (not_le.2 (abs_lt.1 hy.abs_lt).1)

theorem IsRounded.ne_nan (h : IsRounded q x) : x ≠ Float.nan := by
  obtain ⟨v, -, hx⟩ := h
  cases hx with
  | value hx => exact hx.ne_nan
  | large _ hx | small _ hx =>
    rw [ne_eq, eq_nan_iff, hx]
    exact nofun

theorem HasValue.exists_place (h : HasValue x q) : ∃ s m e, IsReduced m e ∧ e ≤ 971 ∧
    q = signed s (dyadic m e) ∧ place x = s.apply ((e + 1074) * 2 ^ 52 + m) := by
  have hstands := stands h.ne_nan
  rw [HasValue] at h
  generalize x.toModel.unpack = f at h hstands
  generalize place x = z at *
  cases h with
  | zero s =>
    cases hstands
    exact ⟨.positive, 0, -1074, ⟨by decide, by decide, .inr rfl⟩, by decide, by simp [signed, dyadic],
      rfl⟩
  | finite s hm hreduced he =>
    cases hstands
    exact ⟨s, _, _, hreduced, he, rfl, rfl⟩

theorem IsReduced.le_iff {m n : Nat} {e d : Int} (hm : IsReduced m e) (hn : IsReduced n d) :
    (e + 1074) * 2 ^ 52 + m ≤ (d + 1074) * 2 ^ 52 + (n : Int) ↔ dyadic m e ≤ dyadic n d := by
  have hmlt := hm.lt
  have hnlt := hn.lt
  have hme := hm.exponent
  have hne := hn.exponent
  rcases lt_trichotomy e d with hlt | rfl | hgt
  · have hfull := hn.full.resolve_right (by omega)
    exact iff_of_true (by omega) (dyadic_lt_dyadic hmlt hfull hlt).le
  · rw [dyadic_le_dyadic]
    omega
  · have hfull := hm.full.resolve_right (by omega)
    exact iff_of_false (by omega) (not_le.2 (dyadic_lt_dyadic hnlt hfull hgt))

theorem IsReduced.le_zero_iff {m : Nat} {e : Int} (hm : IsReduced m e) :
    (e + 1074) * 2 ^ 52 + (m : Int) ≤ 0 ↔ dyadic m e ≤ 0 := by
  have hzero : IsReduced 0 (-1074) := ⟨by decide, by decide, .inr rfl⟩
  have hvalue : dyadic 0 (-1074) = 0 := by simp [dyadic]
  rw [← hvalue, ← hm.le_iff hzero]
  rfl

theorem HasValue.le_iff (hx : HasValue x p) (hy : HasValue y q) : x ≤ y ↔ p ≤ q := by
  rw [Doubles.le_iff, and_iff_right hx.ne_nan, and_iff_right hy.ne_nan]
  obtain ⟨s, m, e, hm, -, rfl, hplacex⟩ := hx.exists_place
  obtain ⟨t, n, d, hn, -, rfl, hplacey⟩ := hy.exists_place
  rw [hplacex, hplacey]
  have hme := hm.exponent
  have hne := hn.exponent
  have hmpos := dyadic_nonneg m e
  have hnpos := dyadic_nonneg n d
  cases s <;> cases t <;> simp only [Sign.apply, signed]
  · rw [neg_le_neg_iff, neg_le_neg_iff, hn.le_iff hm]
  · exact iff_of_true (by omega) (by linarith)
  · have hinteger : (e + 1074) * 2 ^ 52 + (m : Int) ≤ -((d + 1074) * 2 ^ 52 + n) ↔
        (e + 1074) * 2 ^ 52 + (m : Int) ≤ 0 ∧ (d + 1074) * 2 ^ 52 + (n : Int) ≤ 0 := by omega
    have hvalue : dyadic m e ≤ -dyadic n d ↔ dyadic m e ≤ 0 ∧ dyadic n d ≤ 0 :=
      ⟨fun h => ⟨by linarith, by linarith⟩, fun h => by linarith⟩
    rw [hinteger, hvalue, hm.le_zero_iff, hn.le_zero_iff]
  · exact hm.le_iff hn

theorem HasValue.lt_iff (hx : HasValue x p) (hy : HasValue y q) : x < y ↔ p < q := by
  rw [← not_le, ← hy.le_iff hx, ← not_lt_iff hx.ne_nan hy.ne_nan, not_not]

theorem HasValue.abs_place_lt (h : HasValue x q) : |place x| < infinite := by
  obtain ⟨s, m, e, hm, he, -, hplace⟩ := h.exists_place
  have hlt := hm.lt
  have hle := hm.exponent
  rw [hplace, abs_lt, infinite]
  cases s <;> simp only [Sign.apply] <;> omega

theorem exists_hasValue_between {z : Float} (hx : HasValue x p) (hz : HasValue z q) (hxy : x ≤ y)
    (hyz : y ≤ z) : ∃ v, HasValue y v ∧ p ≤ v ∧ v ≤ q := by
  obtain ⟨-, hne, hplacexy⟩ := Doubles.le_iff.1 hxy
  obtain ⟨-, -, hplaceyz⟩ := Doubles.le_iff.1 hyz
  have hlow := abs_lt.1 hx.abs_place_lt
  have hhigh := abs_lt.1 hz.abs_place_lt
  rcases nan_or_infinite_or_hasValue y with hy | ⟨s, hy⟩ | ⟨v, hy⟩
  · exact absurd hy hne
  · -- Beyond the place of an infinite number there is none with a value.
    have hstands := stands hne
    rw [hy] at hstands
    generalize place y = k at *
    cases hstands
    cases s <;> simp only [Sign.apply] at * <;> omega
  · exact ⟨v, hy, (hx.le_iff hy).1 hxy, (hy.le_iff hz).1 hyz⟩

end

end LegalEntity.Doubles
