import LegalEntity.Timestamp

namespace LegalEntity.Timestamp

section

variable {width places n : Nat} {ds s : List Char} {c : Char}

theorem isDigit_of_mem_digits (h : c ∈ digits places n) : c.isDigit = true := by
  rw [digits, List.mem_append] at h
  cases h with
  | inl h =>
    rw [List.eq_of_mem_replicate h]
    rfl
  | inr h => exact Nat.isDigit_of_mem_toDigits (by decide) (by decide) h

theorem ofDigitChars_digits (places n : Nat) : Nat.ofDigitChars 10 (digits places n) 0 = n := by
  rw [digits, Nat.ofDigitChars_append, Nat.ofDigitChars_replicate_zero, Nat.mul_zero]
  exact Nat.ofDigitChars_toDigits (by decide) (by decide)

theorem length_digits (hplaces : 0 < places) (hn : n < Nat.pow 10 places) :
    (digits places n).length = places := by
  have hle : (Nat.toDigits 10 n).length ≤ places :=
    (Nat.length_toDigits_le_iff (by decide) hplaces).2 hn
  rw [digits, List.length_append, List.length_replicate]
  omega

theorem digits_ne_nil (places n : Nat) : digits places n ≠ [] := by
  have hlength : 0 < (Nat.toDigits 10 n).length := Nat.length_toDigits_pos
  exact List.append_ne_nil_of_right_ne_nil _ (List.ne_nil_of_length_pos hlength)

theorem exists_digit (places n : Nat) : ∃ d ds, digits places n = d :: ds ∧ d.isDigit = true := by
  obtain ⟨d, ds, hds⟩ := List.exists_cons_of_ne_nil (digits_ne_nil places n)
  exact ⟨d, ds, hds, isDigit_of_mem_digits (hds ▸ List.mem_cons_self)⟩

theorem not_isBlank_of_isDigit (h : c.isDigit = true) : Text.isBlank c = false := by
  have hc : 48 ≤ c.toNat ∧ c.toNat ≤ 57 := by
    simpa [Char.isDigit, UInt32.le_iff_toNat_le] using h
  simp only [Text.isBlank, Bool.or_eq_false_iff, Bool.and_eq_false_iff, decide_eq_false_iff_not,
    beq_eq_false_iff_ne]
  omega

theorem skipBlank_cons (h : Text.isBlank c = false) : skipBlank (c :: s) = c :: s := by
  simp [skipBlank, Text.trimStart, h]

theorem skipBlank_digits (places n : Nat) (s : List Char) :
    skipBlank (digits places n ++ s) = digits places n ++ s := by
  obtain ⟨d, ds, hds, hd⟩ := exists_digit places n
  rw [hds, List.cons_append, skipBlank_cons (not_isBlank_of_isDigit hd)]

theorem takeWhile_take (hds : ∀ d ∈ ds, d.isDigit = true) (hc : c.isDigit = false)
    (h : ds.length ≤ width) : ((ds ++ c :: s).take width).takeWhile Char.isDigit = ds := by
  rw [List.take_append, List.take_of_length_le h, List.takeWhile_append_of_pos hds]
  cases width - ds.length with
  | zero => simp
  | succ n => simp [hc]

theorem number?_digits (hlength : (digits places n).length ≤ width) (hc : c.isDigit = false) :
    number? width (digits places n ++ c :: s) = some (n, c :: s) := by
  have htake := takeWhile_take (s := s) (fun d hd => isDigit_of_mem_digits hd) hc hlength
  have hvalue : (digits places n).foldl (fun n d => 10 * n + (d.toNat - 48)) 0 = n :=
    ofDigitChars_digits places n
  simp only [number?, skipBlank_digits, htake, hvalue, List.isEmpty_iff]
  rw [if_neg (digits_ne_nil places n), List.drop_left]

theorem twoDigits (hn : n < 100) (hc : c.isDigit = false) :
    number? 2 (digits 2 n ++ c :: s) = some (n, c :: s) :=
  number?_digits (Nat.le_of_eq (length_digits (by decide) hn)) hc

@[simp] theorem mark?_cons (h : Text.isBlank c = false) (s : List Char) :
    mark? c (c :: s) = some s := by
  simp [mark?, skipBlank_cons h]

theorem unsigned?_digits (hc : c.isDigit = false) :
    year?.unsigned? (digits places n ++ c :: s) = some (n, c :: s) := by
  obtain ⟨d, ds, hds, hd⟩ := exists_digit places n
  rw [year?.unsigned?, if_pos (by simp [hds, hd])]
  exact number?_digits (by simp) hc

theorem year?_yearText (year : Int) (s : List Char) :
    year? (yearText year ++ '-' :: s) = some (year, '-' :: s) := by
  simp only [yearText]
  split
  · rename_i hyear
    have hn : year.toNat < 10000 := by omega
    have hcast : (year.toNat : Int) = year := Int.toNat_of_nonneg hyear.1
    obtain ⟨d, ds, hds, hd⟩ := exists_digit 4 year.toNat
    have hplus : d ≠ '+' := by
      rintro rfl
      cases hd
    have hminus : d ≠ '-' := by
      rintro rfl
      cases hd
    have hnumber := number?_digits (s := s)
      (Nat.le_of_eq (length_digits (Nat.succ_pos 3) hn)) (rfl : ('-' : Char).isDigit = false)
    rw [hds] at hnumber ⊢
    simpa [year?, skipBlank_cons (not_isBlank_of_isDigit hd), hplus, hminus] using
      ⟨year.toNat, hnumber, hcast⟩
  · split
    · rename_i hnegative
      have hcast : -(year.natAbs : Int) = year := by omega
      simp only [List.cons_append, year?, skipBlank_cons (rfl : Text.isBlank '-' = false),
        unsigned?_digits (rfl : ('-' : Char).isDigit = false), Option.map_some, hcast]
    · have hcast : (year.natAbs : Int) = year := by omega
      simp only [List.cons_append, year?, skipBlank_cons (rfl : Text.isBlank '+' = false),
        unsigned?_digits (rfl : ('-' : Char).isDigit = false), Option.map_some, hcast]

theorem fraction?_digits (hplaces : 0 < places) (hle : places ≤ 9) (hn : n < Nat.pow 10 places) :
    fraction? ('.' :: (digits places n ++ ['Z'])) =
      some (Nat.pow 10 (9 - places) * n, ['Z']) := by
  have hdigits : ∀ d ∈ digits places n, d.isDigit = true := fun d hd => isDigit_of_mem_digits hd
  have hlength := length_digits hplaces hn
  have htake : (digits places n ++ ['Z']).takeWhile Char.isDigit = digits places n := by
    rw [List.takeWhile_append_of_pos hdigits]
    simp [show ('Z' : Char).isDigit = false from rfl]
  have hnine : (digits places n ++ List.replicate 9 '0').take 9 =
      digits places n ++ List.replicate (9 - places) '0' := by
    rw [List.take_append, hlength, List.take_of_length_le (by omega), List.take_replicate]
    simp
  have hvalue : (digits places n ++ List.replicate (9 - places) '0').foldl
      (fun n d => 10 * n + (d.toNat - 48)) 0 = Nat.pow 10 (9 - places) * n := by
    have happend := Nat.ofDigitChars_append (b := 10) (l := digits places n)
      (m := List.replicate (9 - places) '0') 0
    rw [Nat.ofDigitChars_replicate_zero, ofDigitChars_digits] at happend
    exact happend
  simp only [fraction?, htake, hnine, hvalue, List.isEmpty_iff]
  rw [if_neg (digits_ne_nil places n), List.drop_left]

theorem fraction?_fractionText (hn : n < 1000000000) :
    fraction? (fractionText n ++ ['Z']) = some (n, ['Z']) := by
  simp only [fractionText]
  split
  · rename_i hzero
    rw [hzero]
    rfl
  · split
    · have hthousands : n / 1000000 < 1000 := by omega
      have hvalue : 1000000 * (n / 1000000) = n := by omega
      rw [List.cons_append, fraction?_digits (by decide) (by decide) hthousands]
      exact congrArg (fun n => some (n, ['Z'])) hvalue
    · split
      · have hthousands : n / 1000 < 1000000 := by omega
        have hvalue : 1000 * (n / 1000) = n := by omega
        rw [List.cons_append, fraction?_digits (by decide) (by decide) hthousands]
        exact congrArg (fun n => some (n, ['Z'])) hvalue
      · rw [List.cons_append, fraction?_digits (by decide) (by decide) hn]
        exact congrArg (fun n => some (n, ['Z'])) (Nat.one_mul n)

theorem fractionText_cons (n : Nat) :
    ∃ c s, fractionText n ++ ['Z'] = c :: s ∧ c.isDigit = false := by
  simp only [fractionText]
  split
  · exact ⟨'Z', [], rfl, rfl⟩
  · split
    · exact ⟨'.', _, rfl, rfl⟩
    · split <;> exact ⟨'.', _, rfl, rfl⟩

theorem daysIn_le (year : Int) (month : Nat) : daysIn year month ≤ 31 := by
  simp only [daysIn]
  split
  · split <;> decide
  · split <;> decide

def IsUtc (t : Timestamp) : Prop := t.isValid = true ∧ t.offset = 0

instance (t : Timestamp) : Decidable t.IsUtc := inferInstanceAs (Decidable (_ ∧ _))

theorem read?_text {t : Timestamp} (h : t.IsUtc) : read? t.text = some t := by
  obtain ⟨hvalid, hoffset⟩ := h
  have hfields := hvalid
  simp only [isValid, Bool.and_eq_true, decide_eq_true_eq] at hfields
  have hday := daysIn_le t.year t.month
  have hmonth : t.month < 100 := by omega
  have hday : t.day < 100 := by omega
  have hhour : t.hour < 100 := by omega
  have hminute : t.minute < 100 := by omega
  have hsecond : t.second < 100 := by omega
  have hnanosecond : t.nanosecond < 1000000000 := by omega
  have hdash : ('-' : Char).isDigit = false ∧ Text.isBlank '-' = false := by decide
  have hcolon : (':' : Char).isDigit = false ∧ Text.isBlank ':' = false := by decide
  have htee : ('T' : Char).isDigit = false := by decide
  have hend : offset? (skipBlank ['Z']) = some (0, []) ∧ skipBlank [] = [] := by decide
  have hfraction := fraction?_fractionText hnanosecond
  obtain ⟨c, s, heq, hc⟩ := fractionText_cons t.nanosecond
  rw [heq] at hfraction
  rw [text, read?]
  simp only [List.append_assoc, List.cons_append, Option.bind_eq_bind]
  rw [heq, year?_yearText, Option.bind_some, mark?_cons hdash.2, Option.bind_some,
    twoDigits hmonth hdash.1, Option.bind_some, mark?_cons hdash.2, Option.bind_some,
    twoDigits hday htee, Option.bind_some]
  dsimp only
  rw [if_pos (.inl rfl), Option.bind_some, twoDigits hhour hcolon.1, Option.bind_some,
    mark?_cons hcolon.2, Option.bind_some, twoDigits hminute hcolon.1, Option.bind_some,
    mark?_cons hcolon.2, Option.bind_some, twoDigits hsecond hc, Option.bind_some, hfraction,
    Option.bind_some, hend.1, Option.bind_some, hend.2]
  dsimp only
  rw [← hoffset, if_pos (by rw [hvalid]; rfl)]
  rfl

theorem ofText?_render {t : Timestamp} (h : t.IsUtc) : ofText? t.render = some t := by
  rw [ofText?, render, String.toList_ofList]
  exact read?_text h

end

end LegalEntity.Timestamp
