import LegalEntity.Proofs.Names.Spelling
import Mathlib.Data.List.Basic

namespace LegalEntity.Text

theorem of_zero_of_ofNat {p : Nat → Prop} (hzero : p 0) {n : Nat} (h : p n) :
    p (Char.ofNat n).toNat := by
  rw [Char.ofNat]
  by_cases hn : n.isValidChar
  · rw [dif_pos hn]
    exact h
  · rw [dif_neg hn]
    exact hzero

theorem shiftIn_eq (runs : List (Nat × Nat × Nat × Int)) (n : Nat) : shiftIn runs n = 0 ∨
    ∃ r ∈ runs, r.1 ≤ n ∧ n ≤ r.2.1 ∧ (n - r.1) % r.2.2.1 = 0 ∧ shiftIn runs n = r.2.2.2 := by
  induction runs with
  | nil => exact .inl rfl
  | cons r runs ih =>
    obtain ⟨first, last, step, shift⟩ := r
    have hrest : shiftIn runs n = 0 ∨ ∃ r ∈ (first, last, step, shift) :: runs,
        r.1 ≤ n ∧ n ≤ r.2.1 ∧ (n - r.1) % r.2.2.1 = 0 ∧ shiftIn runs n = r.2.2.2 :=
      ih.imp_right fun ⟨r, hr, h⟩ => ⟨r, List.mem_cons_of_mem _ hr, h⟩
    rw [shiftIn]
    split
    · exact .inl rfl
    · rename_i hfirst
      split
      · rename_i hlast
        split
        · rename_i hstep
          exact .inr ⟨_, List.mem_cons_self, Nat.le_of_not_lt hfirst, hlast, hstep, rfl⟩
        · exact hrest
      · exact hrest

def landing (r : Nat × Nat × Nat × Int) : Nat × Nat :=
  ((r.1 + r.2.2.2).toNat, (r.2.1 + r.2.2.2).toNat)

/-- No character that `r` ends at is moved by `q`: they lie apart, or `q` moves every other
character and `r` ends at those between. -/
def misses (r q : Nat × Nat × Nat × Int) : Bool :=
  Nat.blt (landing r).2 q.1 || Nat.blt q.2.1 (landing r).1 ||
    Nat.beq q.2.2.1 2 && (Nat.beq r.2.2.1 2 || Nat.beq r.1 r.2.1) &&
      Nat.beq (((landing r).1 + q.1) % 2) 1

section

variable {r q : Nat × Nat × Nat × Int} {n m : Nat}

structure Lands (r : Nat × Nat × Nat × Int) (n m : Nat) : Prop where
  first : r.1 ≤ n
  last : n ≤ r.2.1
  step : (n - r.1) % r.2.2.1 = 0
  moved : (m : Int) = n + r.2.2.2

theorem Lands.landing_le (h : Lands r n m) : (landing r).1 ≤ m ∧ m ≤ (landing r).2 := by
  obtain ⟨hfirst, hlast, -, hmoved⟩ := h
  simp only [landing]
  omega

theorem Lands.not_of_misses (h : Lands r n m) (hmisses : misses r q = true) (hfirst : q.1 ≤ m)
    (hlast : m ≤ q.2.1) (hpositive : 0 ≤ (r.1 : Int) + r.2.2.2) : (m - q.1) % q.2.2.1 ≠ 0 := by
  obtain ⟨hle, hge⟩ := h.landing_le
  simp only [misses, Bool.or_eq_true, Bool.and_eq_true, Nat.blt_eq, Nat.beq_eq] at hmisses
  rcases hmisses with (hmisses | hmisses) | ⟨⟨hq, hr⟩, hodd⟩
  · omega
  · omega
  · have heven : (n - r.1) % 2 = 0 := by
      cases hr with
      | inl hr => exact hr ▸ h.step
      | inr hr =>
        have hfirst := h.first
        have hlast := h.last
        omega
    have hlanding : (m : Int) - (landing r).1 = n - r.1 := by
      rw [h.moved, landing]
      omega
    have hfirst' := h.first
    rw [hq]
    omega

theorem Lands.shiftIn_eq_zero {runs : List (Nat × Nat × Nat × Int)} (h : Lands r n m)
    (hruns : ∀ q ∈ runs, misses r q = true) (hpositive : 0 ≤ (r.1 : Int) + r.2.2.2) :
    shiftIn runs m = 0 := by
  refine (shiftIn_eq runs m).resolve_right fun ⟨q, hq, hfirst, hlast, hstep, _⟩ => ?_
  exact h.not_of_misses (hruns q hq) hfirst hlast hpositive hstep

theorem exists_lands {runs : List (Nat × Nat × Nat × Int)} (hmoves : shiftIn runs n ≠ 0)
    (hpositive : ∀ r ∈ runs, 0 ≤ (r.1 : Int) + r.2.2.2) :
    ∃ r ∈ runs, Lands r n (n + shiftIn runs n).toNat := by
  obtain ⟨r, hr, hfirst, hlast, hstep, hshift⟩ := (shiftIn_eq runs n).resolve_left hmoves
  have hr' := hpositive r hr
  exact ⟨r, hr, hfirst, hlast, hstep, by omega⟩

end

def isSettled (n : Nat) : Bool :=
  (upperExpansions.lookup n).isNone && shiftIn upperRuns n == 0 && !Name.blanks.contains n

def isBeyond (r : Nat × Nat × Nat × Int) (n : Nat) : Bool :=
  Nat.blt (landing r).2 n || Nat.blt n (landing r).1

def landsSettled (r : Nat × Nat × Nat × Int) : Bool :=
  decide (0 ≤ (r.1 : Int) + r.2.2.2) && upperRuns.all (misses r) &&
    upperExpansions.all (fun e => isBeyond r e.1) && Name.blanks.all (isBeyond r)

theorem upper_of_isSettled {c : Char} (h : isSettled c.toNat = true) : upper c = [c] := by
  simp only [isSettled, Bool.and_eq_true, Option.isNone_iff_eq_none, beq_iff_eq] at h
  simp [upper, shiftBy, h.1.1, h.1.2]

theorem not_isBlank_of_isSettled {c : Char} (h : isSettled c.toNat = true) : isBlank c = false := by
  simp only [isSettled, Bool.and_eq_true] at h
  by_contra hblank
  have hmem := Name.mem_blanks (Bool.not_eq_false _ ▸ hblank)
  simp [hmem] at h

theorem isSettled_ofNat {n : Nat} (h : isSettled n = true) :
    isSettled (Char.ofNat n).toNat = true :=
  of_zero_of_ofNat (p := (isSettled · = true)) (by decide +kernel) h

section

variable {r : Nat × Nat × Nat × Int} {n m : Nat}

theorem Lands.ne_of_isBeyond (h : Lands r n m) {k : Nat} (hk : isBeyond r k = true) : m ≠ k := by
  obtain ⟨hle, hge⟩ := h.landing_le
  simp only [isBeyond, Bool.or_eq_true, Nat.blt_eq] at hk
  omega

theorem Lands.isSettled (h : Lands r n m) (hr : landsSettled r = true) : isSettled m = true := by
  simp only [landsSettled, Bool.and_eq_true, decide_eq_true_eq, List.all_eq_true] at hr
  obtain ⟨⟨⟨hpositive, hruns⟩, hexpansions⟩, hblanks⟩ := hr
  have hlookup : upperExpansions.lookup m = none := by
    rw [List.lookup_eq_none_iff]
    intro e he
    exact bne_iff_ne.2 (h.ne_of_isBeyond (hexpansions e he))
  have hshift : shiftIn upperRuns m = 0 := h.shiftIn_eq_zero hruns hpositive
  have hblank : m ∉ Name.blanks := fun hm => h.ne_of_isBeyond (hblanks m hm) rfl
  simp [Text.isSettled, hlookup, hshift, hblank]

theorem landsSettled_of_mem (h : r ∈ upperRuns) : landsSettled r = true := by
  have hall : upperRuns.all landsSettled = true := by decide +kernel
  exact List.all_eq_true.1 hall r h

theorem positive_of_mem_upperRuns (h : r ∈ upperRuns) : 0 ≤ (r.1 : Int) + r.2.2.2 := by
  have hlands := landsSettled_of_mem h
  simp only [landsSettled, Bool.and_eq_true, decide_eq_true_eq] at hlands
  exact hlands.1.1.1

end

theorem eq_or_isSettled_of_mem_upper {c d : Char} (h : d ∈ upper c) :
    d = c ∧ upper c = [c] ∨ isSettled d.toNat = true := by
  rw [upper] at h ⊢
  split at h
  · rename_i ns hns
    have hall : (upperExpansions.all fun e => e.2.all isSettled) = true := by decide +kernel
    obtain ⟨n, hn, rfl⟩ := List.mem_map.1 h
    obtain ⟨before, after, heq, -⟩ := List.lookup_eq_some_iff.1 hns
    have he : (c.toNat, ns) ∈ upperExpansions := heq ▸ List.mem_append_right _ List.mem_cons_self
    exact .inr (isSettled_ofNat (List.all_eq_true.1 (List.all_eq_true.1 hall _ he) n hn))
  · rename_i hnone
    rw [List.mem_singleton.1 h, shiftBy]
    split
    · rename_i hstays
      exact .inl ⟨rfl, rfl⟩
    · rename_i hmoves
      obtain ⟨r, hr, hlands⟩ := exists_lands hmoves fun r => positive_of_mem_upperRuns
      exact .inr (isSettled_ofNat (hlands.isSettled (landsSettled_of_mem hr)))

theorem upper_of_mem_upper {c d : Char} (h : d ∈ upper c) : upper d = [d] := by
  rcases eq_or_isSettled_of_mem_upper h with ⟨rfl, hd⟩ | hd
  · exact hd
  · exact upper_of_isSettled hd

theorem not_isBlank_of_mem_upper {c d : Char} (hc : isBlank c = false) (h : d ∈ upper c) :
    isBlank d = false := by
  rcases eq_or_isSettled_of_mem_upper h with ⟨rfl, -⟩ | hd
  · exact hc
  · exact not_isBlank_of_isSettled hd

@[simp] theorem uppercase_uppercase (s : List Char) : uppercase (uppercase s) = uppercase s := by
  rw [uppercase, uppercase, List.flatMap_assoc]
  refine List.flatMap_congr fun c _ => ?_
  calc (upper c).flatMap upper = (upper c).flatMap ([·]) :=
        List.flatMap_congr fun d hd => upper_of_mem_upper hd
    _ = upper c := List.flatMap_singleton' _

def covers : List (Nat × Nat) → Nat → Nat → Bool
  | [], _, _ => false
  | (first, last) :: rest, low, high =>
    Nat.ble first low && (Nat.ble high last || covers rest low high)

theorem inRanges_of_covers {ranges : List (Nat × Nat)} {low high n : Nat}
    (h : covers ranges low high = true) (hlow : low ≤ n) (hhigh : n ≤ high) :
    inRanges ranges n = true := by
  induction ranges with
  | nil => cases h
  | cons range ranges ih =>
    obtain ⟨first, last⟩ := range
    simp only [covers, Bool.and_eq_true, Bool.or_eq_true, Nat.ble_eq] at h
    obtain ⟨hfirst, hlast | hrest⟩ := h
    · rw [inRanges, if_neg (by omega), if_pos (by omega)]
    · rw [inRanges, if_neg (by omega), ih hrest]
      exact ite_self true

def charRanges : List (Nat × Nat) := [(0, 0xD7FF), (0xE000, 0x10FFFF)]

theorem toNat_ofNat {n : Nat} (h : inRanges charRanges n = true) : (Char.ofNat n).toNat = n := by
  have hvalid : n.isValidChar := by
    simp only [inRanges, charRanges, Bool.if_false_left, Bool.if_true_left] at h
    simp only [Nat.isValidChar]
    grind
  rw [Char.ofNat, dif_pos hvalid]
  rfl

def landsLower (r : Nat × Nat × Nat × Int) : Bool :=
  decide (0 ≤ (r.1 : Int) + r.2.2.2) && lowerRuns.all (misses r) &&
    covers charRanges (landing r).1 (landing r).2 &&
    covers alphanumericRanges (landing r).1 (landing r).2

section

variable {r : Nat × Nat × Nat × Int}

theorem landsLower_of_mem (h : r ∈ lowerRuns) : landsLower r = true := by
  have hall : lowerRuns.all landsLower = true := by decide +kernel
  exact List.all_eq_true.1 hall r h

theorem positive_of_mem_lowerRuns (h : r ∈ lowerRuns) : 0 ≤ (r.1 : Int) + r.2.2.2 := by
  have hlands := landsLower_of_mem h
  simp only [landsLower, Bool.and_eq_true, decide_eq_true_eq] at hlands
  exact hlands.1.1.1

theorem Lands.lower {n m : Nat} (h : Lands r n m) (hr : r ∈ lowerRuns) :
    (Char.ofNat m).toNat = m ∧ inRanges alphanumericRanges m = true ∧ shiftIn lowerRuns m = 0 := by
  have hlands := landsLower_of_mem hr
  simp only [landsLower, Bool.and_eq_true, decide_eq_true_eq, List.all_eq_true] at hlands
  obtain ⟨⟨⟨hpositive, hruns⟩, hchars⟩, halphanumeric⟩ := hlands
  obtain ⟨hle, hge⟩ := h.landing_le
  exact ⟨toNat_ofNat (inRanges_of_covers hchars hle hge), inRanges_of_covers halphanumeric hle hge,
    h.shiftIn_eq_zero hruns hpositive⟩

end

theorem lowerFirst_cases (c : Char) :
    (lowerFirst c = c ∨ isAlphanumeric (lowerFirst c) = true) ∧
      shiftIn lowerRuns (lowerFirst c).toNat = 0 := by
  rw [lowerFirst, shiftBy]
  split
  · rename_i hstays
    exact ⟨.inl rfl, hstays⟩
  · rename_i hmoves
    obtain ⟨r, hr, hlands⟩ := exists_lands hmoves fun r => positive_of_mem_lowerRuns
    obtain ⟨hchar, halphanumeric, hstays⟩ := hlands.lower hr
    rw [isAlphanumeric, hchar]
    exact ⟨.inr halphanumeric, hstays⟩

@[simp] theorem lowerFirst_lowerFirst (c : Char) : lowerFirst (lowerFirst c) = lowerFirst c := by
  have hstays := (lowerFirst_cases c).2
  generalize lowerFirst c = d at hstays
  simp [lowerFirst, shiftBy, hstays]

theorem isAlphanumeric_lowerFirst {c : Char} (h : isAlphanumeric c = true) :
    isAlphanumeric (lowerFirst c) = true := by
  rcases (lowerFirst_cases c).1 with hstays | halphanumeric
  · rwa [hstays]
  · exact halphanumeric

end LegalEntity.Text
