import LegalEntity.Scalar
import Mathlib
/-!
The order of doubles, read off their bits: a number has a place among the integers, and numbers are
compared by their places. `Float.nan` and its laws are of Batteries, which Mathlib imports only as a
whole.
-/

namespace LegalEntity.Doubles

open Float.Model Float.Model.UnpackedFloat

def magnitude (x : Float) : Nat := x.toBits.toNat % 2 ^ 63

def isNegative (x : Float) : Bool := 2 ^ 63 ≤ x.toBits.toNat

def infinite : Nat := 2047 * 2 ^ 52

/-- The place of a number among all doubles in their order, the two zeros at one place. -/
def place (x : Float) : Int := if isNegative x then -(magnitude x : Int) else magnitude x

theorem toNat_unpackMantissa (b : BitVec 64) :
    (@unpackMantissa Format.binary64 b).toNat = b.toNat % 2 ^ 52 := by
  simp [unpackMantissa]

theorem toNat_unpackExponent (b : BitVec 64) :
    (@unpackExponent Format.binary64 b).toNat = b.toNat / 2 ^ 52 % 2 ^ 11 := by
  simp [unpackExponent, Nat.shiftRight_eq_div_pow]

def signOf (n : Nat) : Sign := if 2 ^ 63 ≤ n then .negative else .positive

theorem ofBitVec_unpackSign (b : BitVec 64) :
    Sign.ofBitVec (@unpackSign Format.binary64 b) = signOf b.toNat := by
  have hlt : b.toNat < 2 ^ 64 := b.isLt
  have hsign : (@unpackSign Format.binary64 b).toNat = b.toNat / 2 ^ 63 % 2 := by
    simp [unpackSign, Nat.shiftRight_eq_div_pow]
  have hzero : @unpackSign Format.binary64 b = 0#1 ↔ ¬2 ^ 63 ≤ b.toNat := by
    rw [← BitVec.toNat_inj, hsign, BitVec.toNat_ofNat]
    omega
  rw [Sign.ofBitVec, signOf]
  simp only [hzero, ite_not]

theorem toNat_append_implicit (m : BitVec 52) : (1#1 ++ m).toNat = 2 ^ 52 + m.toNat := by
  rw [BitVec.toNat_append, ← Nat.shiftLeft_add_eq_or_of_lt m.isLt]
  rfl

inductive Stands : UnpackedFloat → Int → Prop
  | infinity (s : Sign) : Stands (.infinity s) (s.apply infinite)
  | zero (s : Sign) : Stands (.zero s) 0
  | finite (s : Sign) (m : Nat) (e : Int) (hm : 0 < m) (hm' : m < 2 ^ 53) (he : -1074 ≤ e)
      (he' : e ≤ 971) (h : 2 ^ 52 ≤ m ∨ e = -1074) :
      Stands (.finite s m e hm) (s.apply ((e + 1074) * 2 ^ 52 + m))

theorem eq_compare_of_compares {y z : Int} {o : Ordering} (h : o.Compares y z) :
    o = compare y z := by
  cases o with
  | lt => exact (Int.compare_eq_lt.2 h).symm
  | eq => exact (Int.compare_eq_eq.2 h).symm
  | gt => exact (Int.compare_eq_gt.2 h).symm

theorem compare_then_compare {m n : Nat} {e d : Int} (hm : m < 2 ^ 53) (hn : n < 2 ^ 53)
    (he : 2 ^ 52 ≤ m ∨ e = -1074) (hd : 2 ^ 52 ≤ n ∨ d = -1074)
    (he' : -1074 ≤ e) (hd' : -1074 ≤ d) :
    (compare e d).then (compare m n) =
      compare ((e + 1074) * 2 ^ 52 + (m : Int)) ((d + 1074) * 2 ^ 52 + (n : Int)) := by
  apply eq_compare_of_compares
  cases hexponent : compare e d with
  | lt =>
    have hlt := Int.compare_eq_lt.1 hexponent
    change _ < _
    omega
  | gt =>
    have hgt := Int.compare_eq_gt.1 hexponent
    change _ < _
    omega
  | eq =>
    obtain rfl := Int.compare_eq_eq.1 hexponent
    cases hsignificand : compare m n with
    | lt =>
      have hlt := Nat.compare_eq_lt.1 hsignificand
      change _ < _
      omega
    | eq =>
      obtain rfl := Nat.compare_eq_eq.1 hsignificand
      rfl
    | gt =>
      have hgt := Nat.compare_eq_gt.1 hsignificand
      change _ < _
      omega

theorem swap_compare (y z : Int) : (compare y z).swap = compare (-y) (-z) := by
  apply eq_compare_of_compares
  cases h : compare y z with
  | lt => exact Int.neg_lt_neg (Int.compare_eq_lt.1 h)
  | eq => exact congrArg _ (Int.compare_eq_eq.1 h)
  | gt => exact Int.neg_lt_neg (Int.compare_eq_gt.1 h)

theorem Stands.compare {f g : UnpackedFloat} {y z : Int} (hf : Stands f y) (hg : Stands g z) :
    f.compare g = some (compare y z) := by
  cases hf with
  | infinity s =>
    cases hg with
    | infinity t => cases s <;> cases t <;> rfl
    | zero t => cases s <;> rfl
    | finite t n d hn hn' hd hd' h =>
      cases s <;> cases t <;> refine congrArg some (eq_compare_of_compares ?_) <;>
        simp only [Ordering.Compares, Sign.apply, infinite] <;> omega
  | zero s =>
    cases hg with
    | infinity t => cases t <;> rfl
    | zero t => rfl
    | finite t n d hn hn' hd hd' h =>
      cases t <;> refine congrArg some (eq_compare_of_compares ?_) <;>
        simp only [Ordering.Compares, Sign.apply] <;> omega
  | finite s m e hm hm' he he' h =>
    cases hg with
    | infinity t =>
      cases s <;> cases t <;> refine congrArg some (eq_compare_of_compares ?_) <;>
        simp only [Ordering.Compares, Sign.apply, infinite] <;> omega
    | zero t =>
      cases s <;> refine congrArg some (eq_compare_of_compares ?_) <;>
        simp only [Ordering.Compares, Sign.apply] <;> omega
    | finite t n d hn hn' hd hd' h' =>
      have hmagnitude := compare_then_compare hm' hn' h h' he hd
      cases s <;> cases t
      · refine congrArg some ?_
        rw [hmagnitude]
        exact swap_compare _ _
      · refine congrArg some (eq_compare_of_compares ?_)
        simp only [Ordering.Compares, Sign.apply]
        omega
      · refine congrArg some (eq_compare_of_compares ?_)
        simp only [Ordering.Compares, Sign.apply]
        omega
      · exact congrArg some hmagnitude

theorem place_eq_apply (x : Float) : place x = (signOf x.toBits.toNat).apply (magnitude x) := by
  rw [place, signOf, isNegative]
  by_cases h : 2 ^ 63 ≤ x.toBits.toNat
  · simp only [h, decide_true, if_true]
    rfl
  · simp only [h, decide_false, if_false]
    rfl

inductive Unpacks (s : Sign) : Nat → Nat → UnpackedFloat → Prop
  | infinity : Unpacks s 2047 0 (.infinity s)
  | notANumber {m : Nat} (hm : 0 < m) : Unpacks s 2047 m .notANumber
  | zero : Unpacks s 0 0 (.zero s)
  | subnormal {m : Nat} (hm : 0 < m) : Unpacks s 0 m (.finite s m (-1074) hm)
  | normal {e m : Nat} (he : 0 < e) (he' : e < 2047) (hm : 0 < 2 ^ 52 + m) :
    Unpacks s e m (.finite s (2 ^ 52 + m) (e - 1075) hm)

theorem unpacks (b : BitVec Format.binary64.numBits) :
    Unpacks (Sign.ofBitVec (unpackSign b)) (unpackExponent b).toNat (unpackMantissa b).toNat
      (UnpackedFloat.unpack Format.binary64 b) := by
  have hlt : (unpackExponent b).toNat < 2048 := (unpackExponent b).isLt
  rw [UnpackedFloat.unpack]
  dsimp only
  split
  · rename_i he
    rw [he]
    split
    · rename_i hm
      rw [hm]
      exact .infinity
    · rename_i hm
      exact .notANumber (Nat.pos_of_ne_zero fun h => hm (BitVec.eq_of_toNat_eq h))
  · rename_i he
    have hne : (unpackExponent b).toNat ≠ 2047 := fun h => he (BitVec.eq_of_toNat_eq h)
    split
    · rename_i hzero
      split
      · rename_i hm
        rw [hzero, hm]
        exact .zero
      · rename_i hm
        have hpos : 0 < (unpackMantissa b).toNat :=
          Nat.pos_of_ne_zero fun h => hm (BitVec.eq_of_toNat_eq h)
        have hsub := Unpacks.subnormal (s := Sign.ofBitVec (unpackSign b)) hpos
        rw [hzero]
        exact hsub
    · rename_i hzero
      have hpos : 0 < (unpackExponent b).toNat :=
        Nat.pos_of_ne_zero fun h => hzero (BitVec.eq_of_toNat_eq h)
      have hnormal := Unpacks.normal (s := Sign.ofBitVec (unpackSign b))
        (m := (unpackMantissa b).toNat) hpos (by omega) (by omega)
      simp only [← toNat_append_implicit] at hnormal
      exact hnormal

theorem unpacks_toNat (b : BitVec Format.binary64.numBits) :
    Unpacks (signOf b.toNat) (b.toNat / 2 ^ 52 % 2 ^ 11) (b.toNat % 2 ^ 52)
      (UnpackedFloat.unpack Format.binary64 b) := by
  have h := unpacks b
  rw [show Sign.ofBitVec (@unpackSign Format.binary64 b) = signOf b.toNat from
    ofBitVec_unpackSign _] at h
  rw [show (@unpackExponent Format.binary64 b).toNat = b.toNat / 2 ^ 52 % 2 ^ 11 from
    toNat_unpackExponent _] at h
  rwa [show (@unpackMantissa Format.binary64 b).toNat = b.toNat % 2 ^ 52 from
    toNat_unpackMantissa _] at h

theorem unpacks_toBits (x : Float) : Unpacks (signOf x.toBits.toNat)
    (x.toBits.toNat / 2 ^ 52 % 2 ^ 11) (x.toBits.toNat % 2 ^ 52) x.toModel.unpack :=
  unpacks_toNat x.toModel.toBits.toBitVec

theorem notANumber_or_stands (x : Float) :
    x.toModel.unpack = .notANumber ∨ Stands x.toModel.unpack (place x) := by
  have hlt : x.toBits.toNat < 2 ^ 64 := x.toBits.toNat_lt
  have hunpacks := unpacks_toBits x
  have hmagnitude : magnitude x =
      x.toBits.toNat / 2 ^ 52 % 2 ^ 11 * 2 ^ 52 + x.toBits.toNat % 2 ^ 52 := by
    rw [magnitude]
    omega
  have hfraction : x.toBits.toNat % 2 ^ 52 < 2 ^ 52 := Nat.mod_lt _ (by decide)
  rw [place_eq_apply, hmagnitude]
  generalize x.toBits.toNat / 2 ^ 52 % 2 ^ 11 = e at *
  generalize x.toBits.toNat % 2 ^ 52 = m at *
  generalize signOf x.toBits.toNat = s at *
  generalize x.toModel.unpack = f at *
  cases hunpacks with
  | infinity => exact .inr (.infinity s)
  | notANumber hm => exact .inl rfl
  | zero =>
    have hzero : s.apply ((0 * 2 ^ 52 + 0 : Nat) : Int) = 0 := by cases s <;> rfl
    rw [hzero]
    exact .inr (.zero s)
  | subnormal hm =>
    have hstands := Stands.finite s m (-1074) hm (by omega) (by omega) (by omega) (.inr rfl)
    right
    convert hstands using 2
    omega
  | normal he he' hm =>
    have hstands := Stands.finite s (2 ^ 52 + m) (e - 1075) hm (by omega) (by omega) (by omega)
      (.inl (by omega))
    right
    convert hstands using 2
    omega

theorem eq_nan_iff {x : Float} : x = Float.nan ↔ x.toModel.unpack = .notANumber := by
  have hmodel : x.isNaN = true ↔ x.toModel.unpack = .notANumber := isNaN_iff
  rw [← hmodel, Float.isNaN_eq_decide_eq_nan, decide_eq_true_iff]

theorem stands {x : Float} (h : x ≠ Float.nan) : Stands x.toModel.unpack (place x) :=
  (notANumber_or_stands x).resolve_left fun hnot => h (eq_nan_iff.2 hnot)

theorem compare_eq (x y : Float) : x.toModel.unpack.compare y.toModel.unpack =
    if x ≠ Float.nan ∧ y ≠ Float.nan then some (compare (place x) (place y)) else none := by
  by_cases hx : x = Float.nan
  · rw [if_neg (not_and_of_not_left _ (not_not_intro hx)), eq_nan_iff.1 hx]
    cases y.toModel.unpack <;> rfl
  · by_cases hy : y = Float.nan
    · rw [if_neg (not_and_of_not_right _ (not_not_intro hy)), eq_nan_iff.1 hy]
      cases x.toModel.unpack <;> rfl
    · rw [if_pos ⟨hx, hy⟩]
      exact (stands hx).compare (stands hy)

theorem lt_iff {x y : Float} :
    x < y ↔ x ≠ Float.nan ∧ y ≠ Float.nan ∧ place x < place y := by
  have hmodel : x < y ↔ x.toModel.unpack.compare y.toModel.unpack = some .lt := by
    change decide ((x.toModel.unpack.compare y.toModel.unpack == some .lt) = true) = true ↔ _
    rw [decide_eq_true_iff, beq_iff_eq]
  rw [hmodel, compare_eq]
  split
  · rename_i h
    rw [Option.some.injEq, Int.compare_eq_lt]
    exact ⟨fun hlt => ⟨h.1, h.2, hlt⟩, fun hlt => hlt.2.2⟩
  · rename_i h
    exact ⟨nofun, fun hlt => absurd ⟨hlt.1, hlt.2.1⟩ h⟩

theorem le_iff {x y : Float} :
    x ≤ y ↔ x ≠ Float.nan ∧ y ≠ Float.nan ∧ place x ≤ place y := by
  have hmodel : x ≤ y ↔ (x.toModel.unpack.compare y.toModel.unpack).any (·.isLE) = true := by
    change decide ((x.toModel.unpack.compare y.toModel.unpack).any (·.isLE) = true) = true ↔ _
    rw [decide_eq_true_iff]
  rw [hmodel, compare_eq]
  split
  · rename_i h
    rw [Option.any_some, Int.isLE_compare]
    exact ⟨fun hle => ⟨h.1, h.2, hle⟩, fun hle => hle.2.2⟩
  · rename_i h
    exact ⟨nofun, fun hle => absurd ⟨hle.1, hle.2.1⟩ h⟩

theorem beq_iff {x y : Float} :
    (x == y) = true ↔ x ≠ Float.nan ∧ y ≠ Float.nan ∧ place x = place y := by
  have hmodel : (x == y) = true ↔ x.toModel.unpack.compare y.toModel.unpack = some .eq := by
    change (x.toModel.unpack.compare y.toModel.unpack == some .eq) = true ↔ _
    rw [beq_iff_eq]
  rw [hmodel, compare_eq]
  split
  · rename_i h
    rw [Option.some.injEq, Int.compare_eq_eq]
    exact ⟨fun heq => ⟨h.1, h.2, heq⟩, fun heq => heq.2.2⟩
  · rename_i h
    exact ⟨nofun, fun heq => absurd ⟨heq.1, heq.2.1⟩ h⟩

theorem totalKey_eq (x : Float) :
    totalKey x = if isNegative x then -1 - (magnitude x : Int) else magnitude x := by
  have hlt : x.toBits.toNat < 2 ^ 64 := x.toBits.toNat_lt
  rw [totalKey, magnitude, isNegative]
  simp only [decide_eq_true_eq]
  split <;> split <;> simp at * <;> omega

section

variable {x y z : Float}

theorem lt_of_le_of_lt (h : x ≤ y) (h' : y < z) : x < z := by
  obtain ⟨hx, -, hxy⟩ := le_iff.1 h
  obtain ⟨-, hz, hyz⟩ := lt_iff.1 h'
  exact lt_iff.2 ⟨hx, hz, Int.lt_of_le_of_lt hxy hyz⟩

theorem lt_of_lt_of_le (h : x < y) (h' : y ≤ z) : x < z := by
  obtain ⟨hx, -, hxy⟩ := lt_iff.1 h
  obtain ⟨-, hz, hyz⟩ := le_iff.1 h'
  exact lt_iff.2 ⟨hx, hz, Int.lt_of_lt_of_le hxy hyz⟩

theorem le_of_lt (h : x < y) : x ≤ y := by
  obtain ⟨hx, hy, hxy⟩ := lt_iff.1 h
  exact le_iff.2 ⟨hx, hy, Int.le_of_lt hxy⟩

theorem not_lt_iff (hx : x ≠ Float.nan) (hy : y ≠ Float.nan) : ¬x < y ↔ y ≤ x := by
  rw [lt_iff, le_iff]
  constructor
  · intro hnot
    exact ⟨hy, hx, Int.not_lt.1 fun hlt => hnot ⟨hx, hy, hlt⟩⟩
  · rintro ⟨-, -, hle⟩ ⟨-, -, hlt⟩
    exact Int.not_lt.2 hle hlt

theorem totalKey_eq_place (h : (0.0 : Float) < x) : totalKey x = place x := by
  obtain ⟨-, -, hlt⟩ := lt_iff.1 h
  have hzero : place 0.0 = 0 := by decide +kernel
  rw [hzero, place] at hlt
  rw [totalKey_eq, place]
  cases hsign : isNegative x with
  | false => rfl
  | true =>
    simp only [hsign, if_true] at hlt
    omega

end

end LegalEntity.Doubles
