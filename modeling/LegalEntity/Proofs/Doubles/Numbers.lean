import LegalEntity.Proofs.Doubles.Order

namespace LegalEntity.Doubles

open Float.Model Float.Model.UnpackedFloat

theorem unpacks_packComponents (s : Sign) (e : BitVec 11) (m : BitVec 52) :
    Unpacks s e.toNat m.toNat
      (UnpackedFloat.unpack Format.binary64 (packComponents Format.binary64 s e m)) := by
  have h := unpacks (packComponents Format.binary64 s e m)
  simp only [unpackSign_packComponents, Sign.ofBitVec_toBitVec, unpackExponent_packComponents,
    unpackMantissa_packComponents] at h
  exact h

def excess (m : Nat) (e : Int) : Nat :=
  (Format.binary64.targetExponent (totalExponent m e) - e).toNat

theorem excess_eq (m : Nat) (e : Int) :
    excess m e = (max ((m.log2 : Int) + 1 + e - 53) (-1074) - e).toNat := rfl

theorem cut_bounds {m : Nat} {e : Int} (hm : 0 < m) (h : -1074 ≤ m.log2 + e) :
    0 < m / 2 ^ excess m e ∧ m / 2 ^ excess m e < 2 ^ 53 ∧ -1074 ≤ e + excess m e := by
  have hlow : 2 ^ m.log2 ≤ m := Nat.log2_self_le hm.ne'
  have hhigh : m < 2 ^ (m.log2 + 1) := Nat.lt_log2_self
  have hexcess := excess_eq m e
  generalize excess m e = k at *
  have hk1 : k ≤ m.log2 := by omega
  have hk2 : m.log2 + 1 ≤ 53 + k := by omega
  refine ⟨Nat.div_pos ?_ (Nat.two_pow_pos k), ?_, by omega⟩
  · exact (Nat.pow_le_pow_right (by decide) hk1).trans hlow
  · rw [Nat.div_lt_iff_lt_mul (Nat.two_pow_pos k), ← Nat.pow_add]
    exact hhigh.trans_le (Nat.pow_le_pow_right (by decide) hk2)

theorem mantissa_shiftRight (em : ExtendedMantissa) (k : Nat) :
    (em >>> k).mantissa = em.mantissa / 2 ^ k := by
  induction k with
  | zero => exact (Nat.div_one _).symm
  | succ k ih =>
    change (em >>> k).mantissa / 2 = _
    rw [ih, Nat.div_div_eq_div_mul, Nat.pow_succ]

theorem mantissa_ofMantissaAndAccuracy (m : Nat) (a : Accuracy) :
    (ExtendedMantissa.ofMantissaAndAccuracy m a).mantissa = m := by
  cases a with
  | exact => rfl
  | inexact o => cases o <;> rfl

theorem le_roundedMantissa (em : ExtendedMantissa) : em.mantissa ≤ em.roundedMantissa := by
  rw [ExtendedMantissa.roundedMantissa]
  cases em.accuracy with
  | exact => exact Nat.le_refl _
  | inexact o => cases o <;> simp [Accuracy.roundToNearestEven]

theorem roundWithAccuracy_eq_finite (s : Sign) {m : Nat} {e : Int} (hm : 0 < m)
    (h : -1074 ≤ m.log2 + e) (a : Accuracy) : ∃ n d hn,
      roundWithAccuracy Format.binary64 s m e a = .finite s n d hn ∧ n < 2 ^ 53 ∧ -1074 ≤ d := by
  obtain ⟨hpos, -, hexponent⟩ := cut_bounds hm h
  generalize hk : excess m e = k at hpos hexponent
  generalize hr : (ExtendedMantissa.ofMantissaAndAccuracy m a >>> k).roundedMantissa = r
  have hrounded : 0 < r := by
    rw [← hr]
    refine Nat.lt_of_lt_of_le ?_ (le_roundedMantissa _)
    rwa [mantissa_shiftRight, mantissa_ofMantissaAndAccuracy]
  -- Rounding up may have made the significand one bit longer, so that it is cut once more.
  obtain ⟨hpos', hlt, hexponent'⟩ := cut_bounds (e := e + k) hrounded (by omega)
  generalize hk' : excess r (e + k) = k' at *
  have hshift : roundWithAccuracy Format.binary64 s m e a =
      if h : (ExtendedMantissa.ofMantissaAndAccuracy r .exact >>> k').mantissa = 0 then .zero s
      else .finite s _ (e + k + k') (Nat.pos_of_ne_zero h) := by
    subst hk' hr hk
    rfl
  have hmantissa :
      (ExtendedMantissa.ofMantissaAndAccuracy r .exact >>> k').mantissa = r / 2 ^ k' := by
    rw [mantissa_shiftRight, mantissa_ofMantissaAndAccuracy]
  rw [hshift, dif_neg (by omega)]
  exact ⟨_, _, _, rfl, by omega, hexponent'⟩

theorem unpack_pack (f : UnpackedFloat) : (Float.Model.pack f).unpack =
    UnpackedFloat.unpack Format.binary64 (UnpackedFloat.pack Format.binary64 f) := rfl

theorem Unpacks.eq_infinity {s : Sign} {f : UnpackedFloat} (h : Unpacks s 2047 0 f) :
    f = .infinity s := by
  cases h with
  | infinity => rfl
  | notANumber hm => cases hm
  | normal he he' hm => omega

theorem Unpacks.exists_finite {s : Sign} {e m : Nat} {f : UnpackedFloat} (h : Unpacks s e m f)
    (he : e < 2047) (hpos : 0 < e ∨ 0 < m) : ∃ n d hn, f = .finite s n d hn := by
  cases h with
  | infinity => omega
  | notANumber hm => omega
  | zero => omega
  | subnormal hm => exact ⟨_, _, _, rfl⟩
  | normal he he' hm => exact ⟨_, _, _, rfl⟩

theorem pack_finite (s : Sign) {m : Nat} (e : Int) (hm : 0 < m) :
    UnpackedFloat.pack Format.binary64 (.finite s m e hm) =
      if 2 ^ 11 ≤ (e + 1075).toNat + 1 then packedInfinity Format.binary64 s
      else if m.log2 + 1 = 53 then
        packComponents Format.binary64 s (BitVec.ofNat 11 (e + 1075).toNat) (BitVec.ofNat 52 m)
      else packComponents Format.binary64 s 0#11 (BitVec.ofNat 52 m) := by
  have hbias :
      (e + (Format.binary64.exponentBias : Int) + (52 : Nat)).toNat = (e + 1075).toNat := by
    change (e + 1023 + 52).toNat = _
    omega
  rw [← hbias]
  rfl

theorem unpack_pack_finite (s : Sign) {m : Nat} {e : Int} (hm : 0 < m) (hm' : m < 2 ^ 53)
    (he : -1074 ≤ e) :
    (Float.Model.pack (.finite s m e hm)).unpack = .infinity s ∨
      ∃ n d hn, (Float.Model.pack (.finite s m e hm)).unpack = .finite s n d hn := by
  have hlog : m.log2 < 53 := (Nat.log2_lt hm.ne').2 hm'
  rw [unpack_pack, pack_finite]
  split
  · exact .inl (unpacks_packComponents s (-1#11) 0#52).eq_infinity
  · right
    split
    · refine (unpacks_packComponents s _ _).exists_finite ?_ (.inl ?_) <;>
        rw [BitVec.toNat_ofNat] <;> omega
    · have hlt : m < 2 ^ 52 := (Nat.log2_lt hm.ne').1 (by omega)
      refine (unpacks_packComponents s _ _).exists_finite (by decide) (.inr ?_)
      rw [BitVec.toNat_ofNat]
      omega

theorem Unpacks.ne_notANumber {s : Sign} {e m : Nat} {f : UnpackedFloat} (h : Unpacks s e m f)
    (he : e < 2047 ∨ m = 0) : f ≠ .notANumber := by
  cases h with
  | notANumber hm => omega
  | _ => exact nofun

theorem unpack_pack_ne_notANumber {f : UnpackedFloat} (h : f ≠ .notANumber) :
    (Float.Model.pack f).unpack ≠ .notANumber := by
  rw [unpack_pack]
  fun_cases UnpackedFloat.pack Format.binary64 f with
  | case1 => exact absurd rfl h
  | case2 s => exact (unpacks_packComponents s (-1#11) 0#52).ne_notANumber (.inr rfl)
  | case3 s => exact (unpacks_packComponents s 0#11 0#52).ne_notANumber (.inr rfl)
  | case4 s m e hm biased hle =>
    exact (unpacks_packComponents s (-1#11) 0#52).ne_notANumber (.inr rfl)
  | case5 s m e hm bits biased hlt hbits =>
    have hbiased : biased + 1 < 2 ^ 11 := Nat.not_le.1 hlt
    have hexponent : (BitVec.ofNat 11 biased).toNat < 2047 := by
      rw [BitVec.toNat_ofNat]
      omega
    exact (unpacks_packComponents s _ (BitVec.ofNat 52 m)).ne_notANumber (.inl hexponent)
  | case6 s m e hm bits biased hlt hbits =>
    exact (unpacks_packComponents s 0#11 (BitVec.ofNat 52 m)).ne_notANumber (.inl (by decide))

theorem roundWithAccuracy_ne_notANumber (s : Sign) (m : Nat) (e : Int) (a : Accuracy) :
    roundWithAccuracy Format.binary64 s m e a ≠ .notANumber := by
  rw [roundWithAccuracy]
  dsimp only
  split <;> exact nofun

theorem normalize_ne_notANumber (m e : Int) (s : Sign) :
    UnpackedFloat.normalize Format.binary64 m e s ≠ .notANumber := by
  rw [UnpackedFloat.normalize]
  split
  · exact roundWithAccuracy_ne_notANumber _ _ _ _
  · exact nofun
  · exact roundWithAccuracy_ne_notANumber _ _ _ _

def IsOrdinary (x : Float) : Prop := ∃ s m e hm, x.toModel.unpack = .finite s m e hm

theorem ofModel_pack_ne_nan (f : UnpackedFloat → UnpackedFloat) {x : Float} (hx : x ≠ Float.nan)
    (hinfinity : ∀ s, f (.infinity s) ≠ .notANumber) (hzero : ∀ s, f (.zero s) ≠ .notANumber)
    (hfinite : ∀ s m e hm, f (.finite s m e hm) ≠ .notANumber) :
    Float.ofModel (.pack (f x.toModel.unpack)) ≠ Float.nan := by
  rw [ne_eq, eq_nan_iff]
  apply unpack_pack_ne_notANumber
  cases hunpack : x.toModel.unpack with
  | notANumber => exact absurd (eq_nan_iff.2 hunpack) hx
  | infinity s => exact hinfinity s
  | zero s => exact hzero s
  | finite s m e hm => exact hfinite s m e hm

theorem mul_ne_nan {x y : Float} (hx : x ≠ Float.nan) (hy : IsOrdinary y) : x * y ≠ Float.nan := by
  obtain ⟨s, m, e, hm, hy⟩ := hy
  have hmul := ofModel_pack_ne_nan (.mul .binary64 · (.finite s m e hm)) hx nofun nofun
    fun _ _ _ _ => roundWithAccuracy_ne_notANumber _ _ _ _
  rw [← hy] at hmul
  exact hmul

theorem div_ne_nan {x y : Float} (hx : x ≠ Float.nan) (hy : IsOrdinary y) : x / y ≠ Float.nan := by
  obtain ⟨s, m, e, hm, hy⟩ := hy
  have hdiv := ofModel_pack_ne_nan (.div .binary64 · (.finite s m e hm)) hx nofun nofun
    fun _ _ _ _ => roundWithAccuracy_ne_notANumber _ _ _ _
  rw [← hy] at hdiv
  exact hdiv

theorem sub_ne_nan {x y : Float} (hx : IsOrdinary x) (hy : y ≠ Float.nan) : x - y ≠ Float.nan := by
  obtain ⟨s, m, e, hm, hx⟩ := hx
  have hsub := ofModel_pack_ne_nan (.sub .binary64 (.finite s m e hm) ·) hy nofun nofun
    fun _ _ _ _ => normalize_ne_notANumber _ _ _
  rw [← hx] at hsub
  exact hsub

/-- A positive number, perhaps infinite. -/
def IsPositive (x : Float) : Prop :=
  x.toModel.unpack = .infinity .positive ∨ ∃ m e hm, x.toModel.unpack = .finite .positive m e hm

theorem IsPositive.ne_nan {x : Float} (h : IsPositive x) : x ≠ Float.nan := by
  rw [ne_eq, eq_nan_iff]
  rcases h with h | ⟨m, e, hm, h⟩ <;> rw [h] <;> exact nofun

theorem unpack_pack_infinity (s : Sign) : (Float.Model.pack (.infinity s)).unpack = .infinity s :=
  (unpacks_packComponents s (-1#11) 0#52).eq_infinity

theorem Stands.le_infinite {f : UnpackedFloat} {z : Int} (h : Stands f z) : z ≤ infinite := by
  cases h with
  | infinity s => cases s <;> decide
  | zero => decide
  | finite s m e hm hm' he he' hnormal =>
    rw [infinite]
    cases s <;> simp only [Sign.apply] <;> omega

theorem Stands.exponent {s : Sign} {m : Nat} {e z : Int} {hm : 0 < m}
    (h : Stands (.finite s m e hm) z) : -1074 ≤ e := by
  generalize hf : UnpackedFloat.finite s m e hm = f at h
  cases h with
  | infinity | zero => cases hf
  | finite s m e hm hm' he he' hnormal =>
    cases hf
    exact he

theorem Stands.eq_infinite {z : Int} (h : Stands (.infinity .positive) z) : z = infinite := by
  cases h
  rfl

theorem not_lt_of_infinite {x y : Float} (hx : x.toModel.unpack = .infinity .positive)
    (hy : IsPositive y) (z : Float) : ¬x / y < z := by
  rw [lt_iff]
  rintro ⟨hnumber, hz, hlt⟩
  have hquotient : (x / y).toModel.unpack = (Float.Model.pack (UnpackedFloat.div Format.binary64
    x.toModel.unpack y.toModel.unpack)).unpack := rfl
  rw [hx] at hquotient
  rcases hy with hy | ⟨m, e, hm, hy⟩
  · apply hnumber
    rw [eq_nan_iff, hquotient, hy]
    rfl
  · have hinfinite : UnpackedFloat.div Format.binary64 (.infinity .positive)
      (.finite .positive m e hm) = .infinity .positive := rfl
    rw [hy, hinfinite, unpack_pack_infinity] at hquotient
    have hstands := stands hnumber
    rw [hquotient] at hstands
    rw [hstands.eq_infinite] at hlt
    exact absurd hlt (not_lt.2 (stands hz).le_infinite)

theorem isPositive_round {m : Nat} {e : Int} (hm : 0 < m) (h : -1074 ≤ m.log2 + e) :
    IsPositive (.ofModel (.pack (roundWithAccuracy Format.binary64 .positive m e .exact))) := by
  obtain ⟨n, d, hn, hround, hlt, hle⟩ := roundWithAccuracy_eq_finite .positive hm h .exact
  rw [hround]
  exact unpack_pack_finite .positive hn hlt hle

theorem isPositive_toFloat {n : UInt64} (hn : 0 < n.toNat) : IsPositive n.toFloat := by
  obtain ⟨k, hk⟩ :
      ∃ k, k = (0 - Format.binary64.targetExponent (totalExponent n.toNat 0)).toNat := ⟨_, rfl⟩
  have htarget : -1074 ≤ Format.binary64.targetExponent (totalExponent n.toNat 0) :=
    Int.le_max_right ..
  have hnormalize : UnpackedFloat.normalize Format.binary64 (n.toNat : Int) 0 .positive =
      roundWithAccuracy Format.binary64 .positive (n.toNat <<< k) (0 - k) .exact := by
    rw [UnpackedFloat.normalize, Int.compare_eq_gt.2 (by omega), hk]
    rfl
  have hshift : 0 < n.toNat <<< k := by
    rw [Nat.shiftLeft_eq]
    exact Nat.mul_pos hn (Nat.two_pow_pos k)
  have hround := isPositive_round (e := 0 - k) hshift (by omega)
  rw [← hnormalize] at hround
  exact hround

theorem isPositive_mul_one {x : Float} (hx : IsPositive x) :
    IsPositive (x * Float.ofBits 0x3FF0000000000000) := by
  have hone : (Float.ofBits 0x3FF0000000000000).toModel.unpack =
      .finite .positive (2 ^ 52) (-52) (by decide) := rfl
  have hmul : x * Float.ofBits 0x3FF0000000000000 = .ofModel (.pack (UnpackedFloat.mul
      Format.binary64 x.toModel.unpack (.finite .positive (2 ^ 52) (-52) (by decide)))) := rfl
  rw [hmul]
  have hstands := notANumber_or_stands x
  rcases hx with hx | ⟨m, e, hm, hx⟩
  · rw [hx]
    exact .inl (unpack_pack_infinity .positive)
  · rw [hx] at hstands ⊢
    have hlog : 52 ≤ (m * 2 ^ 52).log2 := (Nat.le_log2 (by omega)).2 (by omega)
    have hexponent : -1074 ≤ e := by
      rcases hstands with h | h
      · cases h
      · exact h.exponent
    exact isPositive_round (by omega) (by omega)

theorem isPositive_ofNat {n : Nat} (hn : 0 < n) : IsPositive (Float.ofNat n) := by
  change IsPositive (Float.ofScientific n false 0)
  rw [Float.ofScientific]
  split
  · rename_i h
    have hn' : n.toUInt64.toNat = n := by
      rw [Nat.toUInt64, UInt64.toNat_ofNat']
      omega
    exact isPositive_mul_one (isPositive_toFloat (by omega))
  · have hscientific : UnpackedFloat.ofScientific Format.binary64 n 0 =
        roundWithAccuracy Format.binary64 .positive (n <<< 53 * 1) (-53 + 0) .exact := by
      have hsmall : ¬(0 : Int) < -(2 ^ Format.binary64.exponentBits + n.log2) := by
        change ¬(0 : Int) < -(2 ^ 11 + n.log2)
        omega
      rw [UnpackedFloat.ofScientific, dif_neg hn.ne', if_neg (by decide), if_neg hsmall,
        if_pos (by decide)]
      rfl
    have hshift : 0 < n <<< 53 * 1 := by
      rw [Nat.shiftLeft_eq]
      omega
    have hpositive := isPositive_round (e := -53 + 0) hshift (by omega)
    rw [← hscientific] at hpositive
    exact hpositive

end LegalEntity.Doubles
