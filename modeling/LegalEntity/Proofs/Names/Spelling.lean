import LegalEntity.Cache.Key
import LegalEntity.Name.NormalForm
import Mathlib.Data.List.TakeWhile

namespace LegalEntity.Text

section

variable {f : Char → Char}

theorem words_append_map (hf : ∀ c, isBlank c = true → isBlank (f c) = true) (u s : List Char) :
    words (u ++ s.map f) = words (u ++ ((pieces isBlank s).headD []).map f) ++
      (pieces isBlank s).tail.flatMap fun w => words (w.map f) := by
  -- `u` is the image of what has been read of the word under way.
  induction s generalizing u with
  | nil => simp [pieces]
  | cons c s ih =>
    cases hc : isBlank c with
    | true =>
      have hrest := ih []
      obtain ⟨w, ws, hws⟩ := List.exists_cons_of_ne_nil (pieces_ne_nil isBlank s)
      simp only [List.nil_append, hws, List.headD_cons, List.tail_cons] at hrest
      simp [pieces, hc, words_append_blank (hf c hc), hrest, hws]
    | false =>
      have hrest := ih (u ++ [f c])
      obtain ⟨w, ws, hws⟩ := List.exists_cons_of_ne_nil (pieces_ne_nil isBlank s)
      simp only [hws, List.headD_cons, List.tail_cons, List.append_assoc, List.singleton_append]
        at hrest
      simpa [pieces, hc, hws] using hrest

theorem flatMap_words_pieces (ps : List (List Char)) :
    (ps.filter (!·.isEmpty)).flatMap (fun w => words (w.map f)) =
      ps.flatMap fun w => words (w.map f) := by
  induction ps with
  | nil => rfl
  | cons w ws ih => cases w <;> simp [ih]

theorem words_map (hf : ∀ c, isBlank c = true → isBlank (f c) = true) (s : List Char) :
    words (s.map f) = (words s).flatMap fun w => words (w.map f) := by
  have h := words_append_map hf [] s
  obtain ⟨w, ws, hws⟩ := List.exists_cons_of_ne_nil (pieces_ne_nil isBlank s)
  have hpieces : ((words s).flatMap fun w => words (w.map f)) =
      (pieces isBlank s).flatMap fun w => words (w.map f) := flatMap_words_pieces _
  rw [hpieces, hws, List.flatMap_cons]
  simpa [hws] using h

theorem unwords_cons_cons (v w : List Char) (ws : List (List Char)) :
    unwords (v :: w :: ws) = v ++ ' ' :: unwords (w :: ws) := by
  simp [unwords, List.intercalate]

theorem words_map_unwords (hf : ∀ c, isBlank c = true → isBlank (f c) = true)
    (ws : List (List Char)) :
    words ((unwords ws).map f) = ws.flatMap fun w => words (w.map f) := by
  induction ws with
  | nil => rfl
  | cons v ws ih =>
    cases ws with
    | nil => simp [unwords, List.intercalate]
    | cons w ws =>
      rw [unwords_cons_cons, List.map_append, List.map_cons, words_append_blank (hf ' ' rfl), ih]
      rfl

theorem words_map_unwords_words (hf : ∀ c, isBlank c = true → isBlank (f c) = true)
    (s : List Char) : words ((unwords (words s)).map f) = words (s.map f) := by
  rw [words_map_unwords hf, words_map hf]

theorem mem_of_mem_pieces {p : Char → Bool} {c : Char} {w s : List Char} (hw : w ∈ pieces p s)
    (hc : c ∈ w) : c ∈ s := by
  induction s generalizing w with
  | nil =>
    rw [pieces, List.mem_singleton] at hw
    exact hw ▸ hc
  | cons d s ih =>
    rw [pieces] at hw
    split at hw
    · cases List.mem_cons.1 hw with
      | inl hw => simp [hw] at hc
      | inr hw => exact List.mem_cons_of_mem d (ih hw hc)
    · obtain ⟨v, vs, hvs⟩ := List.exists_cons_of_ne_nil (pieces_ne_nil p s)
      rw [hvs, List.modifyHead_cons] at hw
      cases List.mem_cons.1 hw with
      | inl hw =>
        subst hw
        exact (List.mem_cons.1 hc).elim (fun hc => hc ▸ List.mem_cons_self) fun hc =>
          List.mem_cons_of_mem d (ih (hvs ▸ List.mem_cons_self) hc)
      | inr hw => exact List.mem_cons_of_mem d (ih (hvs ▸ List.mem_cons_of_mem v hw) hc)

theorem mem_unwords {c : Char} {ws : List (List Char)} (hc : c ∈ unwords ws) :
    c = ' ' ∨ ∃ w ∈ ws, c ∈ w := by
  induction ws with
  | nil => simp at hc
  | cons v ws ih =>
    cases ws with
    | nil => exact .inr ⟨v, List.mem_cons_self, by simpa [unwords, List.intercalate] using hc⟩
    | cons w ws =>
      rw [unwords_cons_cons, List.mem_append, List.mem_cons] at hc
      cases hc with
      | inl hc => exact .inr ⟨v, List.mem_cons_self, hc⟩
      | inr hc =>
        cases hc with
        | inl hc => exact .inl hc
        | inr hc =>
          exact (ih hc).imp_right fun h => h.imp fun u hu => ⟨List.mem_cons_of_mem v hu.1, hu.2⟩

theorem mem_unwords_words {c : Char} {s : List Char} (hc : c ∈ unwords (words s)) : c = ' ' ∨ c ∈ s := by
  apply (mem_unwords hc).imp_right
  intro h
  obtain ⟨w, hw, hc⟩ := h
  exact mem_of_mem_pieces (List.mem_filter.1 hw).1 hc

theorem words_eq_nil {s : List Char} : words s = [] ↔ ∀ c ∈ s, isBlank c = true := by
  induction s with
  | nil => simp
  | cons c s ih =>
    obtain ⟨w, ws, hws⟩ := List.exists_cons_of_ne_nil (pieces_ne_nil isBlank s)
    cases hc : isBlank c with
    | true =>
      rw [List.forall_mem_cons, ← ih]
      simp [words, pieces, hc]
    | false => simp [words, pieces, hc, hws]

theorem trim_eq_nil {s : List Char} : trim s = [] ↔ words s = [] := by
  rw [words_eq_nil]
  simp only [trim, trimBoth, trimEnd, trimStart, List.reverse_eq_nil_iff,
    List.dropWhile_eq_nil_iff, List.mem_reverse]
  constructor
  · intro h c hc
    rw [← List.takeWhile_append_dropWhile (p := isBlank) (l := s), List.mem_append] at hc
    exact hc.elim List.mem_takeWhile_imp (h c)
  · exact fun h c hc => h c ((List.dropWhile_sublist _).subset hc)

theorem unwords_words_eq_nil {s : List Char} : unwords (words s) = [] ↔ words s = [] := by
  cases hws : words s with
  | nil => simp
  | cons w ws =>
    have hw : w ≠ [] := by
      have hmem : w ∈ words s := hws ▸ List.mem_cons_self
      simpa using (List.mem_filter.1 hmem).2
    cases ws with
    | nil => simpa [unwords, List.intercalate] using hw
    | cons v ws => simp [unwords_cons_cons]

theorem upper_ne_nil (c : Char) : upper c ≠ [] := by
  have hexpansions : ∀ e ∈ upperExpansions, e.2 ≠ [] := by decide
  rw [upper]
  split
  · rename_i ns hns
    obtain ⟨before, after, heq, -⟩ := List.lookup_eq_some_iff.1 hns
    simpa using hexpansions (c.toNat, ns) (heq ▸ List.mem_append_right _ List.mem_cons_self)
  · exact List.cons_ne_nil _ _

theorem uppercase_eq_nil {s : List Char} : uppercase s = [] ↔ s = [] := by
  cases s with
  | nil => simp [uppercase]
  | cons c s => simp [uppercase, upper_ne_nil]

end

end LegalEntity.Text

namespace LegalEntity.Name

open Text

theorem nameForm_eq_nil {s : List Char} : Cache.nameForm s = [] ↔ trim s = [] := by
  rw [Cache.nameForm, uppercase_eq_nil, unwords_words_eq_nil, trim_eq_nil]

def blanks : List Nat :=
  [9, 10, 11, 12, 13, 0x20, 0x85, 0xA0, 0x1680, 0x2000, 0x2001, 0x2002, 0x2003, 0x2004, 0x2005,
    0x2006, 0x2007, 0x2008, 0x2009, 0x200A, 0x2028, 0x2029, 0x202F, 0x205F, 0x3000]

theorem mem_blanks {c : Char} (h : isBlank c = true) : c.toNat ∈ blanks := by
  simp only [isBlank, Bool.or_eq_true, Bool.and_eq_true, decide_eq_true_eq, beq_iff_eq] at h
  simp only [blanks, List.mem_cons, List.not_mem_nil, or_false]
  omega

theorem not_isAlphanumeric_of_isBlank {c : Char} (h : isBlank c = true) :
    isAlphanumeric c = false := by
  have hnone : ∀ n ∈ blanks, inRanges alphanumericRanges n = false := by decide +kernel
  exact hnone _ (mem_blanks h)

theorem normalChar_isBlank {c : Char} (h : isBlank c = true) : isBlank (normalChar c) = true := by
  rw [normalChar, not_isAlphanumeric_of_isBlank h]
  rfl

/-- Its upper case is compared as the character itself is. -/
def isSteady (c : Char) : Bool := (upper c).map normalChar == [normalChar c]

theorem isSteady_of_lt {c : Char} (h : c.toNat < 128) : isSteady c = true := by
  have hall : ∀ n < 128, isSteady (Char.ofNat n) = true := by decide +kernel
  have hc := hall _ h
  rwa [Char.ofNat_toNat] at hc

theorem map_normalChar_uppercase {s : List Char} (h : ∀ c ∈ s, isSteady c = true) :
    (uppercase s).map normalChar = s.map normalChar := by
  induction s with
  | nil => rfl
  | cons c s ih =>
    have hc : (upper c).map normalChar = [normalChar c] := eq_of_beq (h c List.mem_cons_self)
    have hs := ih fun d hd => h d (List.mem_cons_of_mem c hd)
    simp [uppercase] at hs ⊢
    rw [hc, hs]
    rfl

theorem normalForm_nameForm {s : List Char} (h : ∀ c ∈ s, isSteady c = true) :
    normalForm (Cache.nameForm s) = normalForm s := by
  have hwords : ∀ c ∈ unwords (words s), isSteady c = true := by
    intro c hc
    cases mem_unwords_words hc with
    | inl hc => exact hc ▸ isSteady_of_lt (by decide)
    | inr hc => exact h c hc
  rw [normalForm, Cache.nameForm, map_normalChar_uppercase hwords,
    words_map_unwords_words fun _ => normalChar_isBlank, normalForm]

end LegalEntity.Name
