import LegalEntity.Name.LegalForm
import LegalEntity.Proofs.Names.Words
import Mathlib.Data.List.DropRight
import Mathlib.Data.List.Forall2
import Mathlib.Data.List.Infix

namespace LegalEntity.Text

section

variable {p : Char → Bool} {s t u v : List Char}

theorem trimEnd_append (hu : ∀ c ∈ u, p c = true) : trimEnd p (t ++ u) = trimEnd p t := by
  rw [trimEnd, trimEnd, List.reverse_append, List.dropWhile_append_of_pos (by simpa using hu)]

theorem trimEnd_eq_self (ht : ∀ c ∈ t.getLast?, p c = false) : trimEnd p t = t := by
  refine List.rdropWhile_eq_self_iff.2 fun hne => ?_
  simp [ht _ (List.getLast?_eq_some_getLast hne)]

theorem trimStart_append (hu : ∀ c ∈ u, p c = true) (ht : ∀ c ∈ t.head?, p c = false) :
    trimStart p (u ++ t) = t := by
  rw [trimStart, List.dropWhile_append_of_pos hu]
  cases t with
  | nil => rfl
  | cons c t => simp [ht c rfl]

theorem trimEnd_eq_iff (ht : ∀ c ∈ t.getLast?, p c = false) :
    trimEnd p s = t ↔ ∃ u, s = t ++ u ∧ ∀ c ∈ u, p c = true := by
  constructor
  · rintro rfl
    exact ⟨s.rtakeWhile p, List.rdropWhile_append_rtakeWhile.symm, fun _ => List.mem_rtakeWhile_imp⟩
  · rintro ⟨u, rfl, hu⟩
    rw [trimEnd_append hu, trimEnd_eq_self ht]

theorem trimBoth_eq_iff (hne : t ≠ []) (hfirst : ∀ c ∈ t.head?, p c = false)
    (hlast : ∀ c ∈ t.getLast?, p c = false) : trimBoth p s = t ↔
      ∃ u v, s = u ++ t ++ v ∧ (∀ c ∈ u, p c = true) ∧ ∀ c ∈ v, p c = true := by
  rw [trimBoth, trimEnd_eq_iff hlast]
  constructor
  · rintro ⟨v, hv, hmarks⟩
    refine ⟨s.takeWhile p, v, ?_, fun _ => List.mem_takeWhile_imp, hmarks⟩
    rw [List.append_assoc, ← hv]
    exact List.takeWhile_append_dropWhile.symm
  · rintro ⟨u, v, rfl, hu, hv⟩
    refine ⟨v, ?_, hv⟩
    rw [List.append_assoc]
    apply trimStart_append hu
    rwa [List.head?_append_of_ne_nil _ hne]

end

theorem words_append_blanks {s u : List Char} (hu : ∀ c ∈ u, isBlank c = true) :
    words (s ++ u) = words s := by
  cases u with
  | nil => rw [List.append_nil]
  | cons c u =>
    obtain ⟨hc, hu⟩ := List.forall_mem_cons.1 hu
    rw [words_append_blank hc, words_eq_nil.2 hu, List.append_nil]

theorem exists_words_append (s : List Char) : ∃ ws w, (∀ c ∈ w, isBlank c = false) ∧
    ∀ t, words (s ++ t) = ws ++ words (w ++ t) := by
  induction s using List.reverseRecOn with
  | nil => exact ⟨[], [], nofun, fun _ => rfl⟩
  | append_singleton s c ih =>
    cases hc : isBlank c with
    | true =>
      refine ⟨words s, [], nofun, fun t => ?_⟩
      rw [List.append_assoc]
      exact words_append_blank hc s t
    | false =>
      obtain ⟨ws, w, hw, ih⟩ := ih
      refine ⟨ws, w ++ [c], ?_, fun t => ?_⟩
      · rw [List.forall_mem_append]
        exact ⟨hw, List.forall_mem_singleton.2 hc⟩
      · rw [List.append_assoc, ih, List.append_assoc]

theorem unwords_append_singleton {ws : List (List Char)} (hws : ws ≠ []) (w : List Char) :
    unwords (ws ++ [w]) = unwords ws ++ ' ' :: w := by
  induction ws with
  | nil => exact absurd rfl hws
  | cons v ws ih =>
    cases ws with
    | nil => rw [List.singleton_append, unwords_cons_cons, unwords_singleton, unwords_singleton]
    | cons u ws =>
      rw [List.cons_append, List.cons_append, unwords_cons_cons, unwords_cons_cons,
        List.append_assoc, List.cons_append, ← ih (List.cons_ne_nil _ _)]
      rfl

theorem exists_unwords_append_singleton (s : List Char) (c : Char) :
    ∃ e, unwords (words (s ++ [c])) = unwords (words s) ++ e ∧
      ∀ d ∈ e, d = ' ' ∨ d = c ∧ isBlank c = false := by
  cases hc : isBlank c with
  | true => exact ⟨[], by rw [words_append_blanks (by simpa using hc), List.append_nil], nofun⟩
  | false =>
    obtain ⟨ws, w, hw, hwords⟩ := exists_words_append s
    have hs := hwords []
    rw [List.append_nil, List.append_nil] at hs
    have hlonger : words (w ++ [c]) = [w ++ [c]] :=
      words_of_word ⟨by simp, List.forall_mem_append.2 ⟨hw, List.forall_mem_singleton.2 hc⟩⟩
    rw [hwords, hs, hlonger]
    by_cases hne : w = []
    · subst hne
      by_cases hws : ws = []
      · exact ⟨[c], by simp [hws, unwords_singleton], by simp⟩
      · exact ⟨[' ', c], by simp [unwords_append_singleton hws], by simp⟩
    · rw [words_of_word ⟨hne, hw⟩]
      refine ⟨[c], ?_, by simp⟩
      by_cases hws : ws = []
      · simp [hws, unwords_singleton]
      · simp [unwords_append_singleton hws]

theorem exists_unwords_append (s t : List Char) :
    ∃ e, unwords (words (s ++ t)) = unwords (words s) ++ e ∧
      ∀ c ∈ e, c = ' ' ∨ c ∈ t ∧ isBlank c = false := by
  induction t using List.reverseRecOn with
  | nil => exact ⟨[], by simp, nofun⟩
  | append_singleton t c ih =>
    obtain ⟨e, he, hchars⟩ := ih
    obtain ⟨e', he', hchars'⟩ := exists_unwords_append_singleton (s ++ t) c
    refine ⟨e ++ e', by rw [← List.append_assoc, he', he, List.append_assoc], ?_⟩
    intro d hd
    rcases List.mem_append.1 hd with hd | hd
    · exact (hchars d hd).imp_right fun h => ⟨List.mem_append_left _ h.1, h.2⟩
    · refine (hchars' d hd).imp_right ?_
      rintro ⟨rfl, hblank⟩
      exact ⟨by simp, hblank⟩

end LegalEntity.Text

namespace LegalEntity.Name

open Text

def IsMark (c : Char) : Prop := c = '.' ∨ c = ','

def SpellsShort (w : List Char) : Prop :=
  ∃ form ∈ shortForms, ∃ commas,
    (uppercase w).filter (· != '.') = form ++ commas ∧ ∀ c ∈ commas, c = ','

def SpellsWord (form w : List Char) : Prop :=
  ∃ u v, uppercase w = u ++ form ++ v ∧ (∀ c ∈ u, IsMark c) ∧ ∀ c ∈ v, IsMark c

inductive SpellsForm : List (List Char) → Prop
  | short {w : List Char} (h : SpellsShort w) : SpellsForm [w]
  | long {form ws : List (List Char)} (hform : form ∈ longForms)
      (h : List.Forall₂ SpellsWord form ws) : SpellsForm ws

theorem not_comma_of_mem_shortForms {form : List Char} (h : form ∈ shortForms) :
    ∀ c ∈ form.getLast?, (c == ',') = false := by
  have hforms : ∀ form ∈ shortForms, form.getLast? ≠ some ',' := by decide
  intro c hc
  rw [beq_eq_false_iff_ne]
  rintro rfl
  exact hforms form h hc

theorem isShortForm_iff {w : List Char} : isShortForm w = true ↔ SpellsShort w := by
  rw [isShortForm, List.contains_iff_mem, SpellsShort]
  constructor
  · intro h
    obtain ⟨commas, heq, hcommas⟩ := (trimEnd_eq_iff (not_comma_of_mem_shortForms h)).1 rfl
    exact ⟨_, h, commas, heq, by simpa using hcommas⟩
  · rintro ⟨form, hform, commas, heq, hcommas⟩
    rwa [(trimEnd_eq_iff (not_comma_of_mem_shortForms hform)).2
      ⟨commas, heq, by simpa using hcommas⟩]

structure IsBare (form : List Char) : Prop where
  ne_nil : form ≠ []
  first : ∀ c ∈ form.head?, (c == '.' || c == ',') = false
  last : ∀ c ∈ form.getLast?, (c == '.' || c == ',') = false

theorem isBare_of_mem {form : List (List Char)} (hform : form ∈ longForms) :
    ∀ bare ∈ form, IsBare bare := by
  have hwords : ∀ form ∈ longForms, ∀ bare ∈ form, bare ≠ [] ∧
      bare.head?.all (fun c => !(c == '.' || c == ',')) = true ∧
      bare.getLast?.all (fun c => !(c == '.' || c == ',')) = true := by decide
  intro bare hbare
  obtain ⟨hne, hfirst, hlast⟩ := hwords form hform bare hbare
  rw [Option.all_eq_true] at hfirst hlast
  exact ⟨hne, by simpa using hfirst, by simpa using hlast⟩

theorem bareWord_eq_iff {bare w : List Char} (h : IsBare bare) :
    bareWord w = bare ↔ SpellsWord bare w := by
  rw [bareWord, trimBoth_eq_iff h.ne_nil h.first h.last]
  simp only [SpellsWord, IsMark, Bool.or_eq_true, beq_iff_eq]

theorem map_bareWord_eq_iff {form ws : List (List Char)} (h : ∀ bare ∈ form, IsBare bare) :
    ws.map bareWord = form ↔ List.Forall₂ SpellsWord form ws := by
  induction form generalizing ws with
  | nil => rw [List.map_eq_nil_iff, List.forall₂_nil_left_iff]
  | cons bare form ih =>
    obtain ⟨hbare, hform⟩ := List.forall_mem_cons.1 h
    cases ws with
    | nil => exact iff_of_false nofun nofun
    | cons w ws =>
      rw [List.map_cons, List.cons.injEq, bareWord_eq_iff hbare, ih hform, List.forall₂_cons]

theorem spellsForm_iff {ws : List (List Char)} : SpellsForm ws ↔
    (ws.length = 1 ∧ ∀ w ∈ ws, isShortForm w = true) ∨ ws.map bareWord ∈ longForms := by
  constructor
  · intro h
    cases h with
    | short hw => exact .inl ⟨rfl, by simpa using isShortForm_iff.2 hw⟩
    | long hform hws =>
      right
      rwa [(map_bareWord_eq_iff (isBare_of_mem hform)).2 hws]
  · rintro (⟨hlength, hw⟩ | hform)
    · obtain ⟨w, rfl⟩ := List.length_eq_one_iff.1 hlength
      exact .short (isShortForm_iff.1 (hw w (List.mem_singleton_self w)))
    · exact .long hform ((map_bareWord_eq_iff (isBare_of_mem hform)).1 rfl)

instance : DecidablePred SpellsForm := fun _ => decidable_of_iff _ spellsForm_iff.symm

theorem not_spellsShort {form : List (List Char)} {last w : List Char} (hform : form ∈ longForms)
    (hlast : form.getLast? = some last) (hw : SpellsWord last w) : ¬SpellsShort w := by
  have hends : ∀ form ∈ longForms, ∀ last ∈ form.getLast?,
      last.filter (· != '.') = last ∧ ∀ short ∈ shortForms, ¬last <:+ short := by decide
  obtain ⟨hdots, hshort⟩ := hends form hform last hlast
  have hbare := isBare_of_mem hform last (List.mem_of_getLast? hlast)
  rintro ⟨short, hmem, commas, heq, hcommas⟩
  obtain ⟨u, v, hw, hu, hv⟩ := hw
  have hafter : ∀ c ∈ v.filter (· != '.'), (c == ',') = true := by
    intro c hc
    obtain ⟨hc, hdot⟩ := List.mem_filter.1 hc
    simpa using (hv c hc).resolve_left (by simpa using hdot)
  have hend : ∀ c ∈ (u.filter (· != '.') ++ last).getLast?, (c == ',') = false := by
    rw [List.getLast?_append_of_ne_nil _ hbare.ne_nil]
    exact fun c hc => (Bool.or_eq_false_iff.1 (hbare.last c hc)).2
  -- Without the commas after them both readings of the word are the same.
  rw [hw, List.filter_append, List.filter_append, hdots] at heq
  have hsame : short = u.filter (· != '.') ++ last := by
    rw [← (trimEnd_eq_iff (not_comma_of_mem_shortForms hmem)).2 ⟨commas, heq, by simpa using hcommas⟩,
      trimEnd_append hafter,
      trimEnd_eq_self hend]
  exact hshort short hmem ⟨_, hsame.symm⟩

theorem exists_getLast?_of_forall₂ {form ws : List (List Char)} {w : List Char}
    (h : List.Forall₂ SpellsWord form ws) (hw : ws.getLast? = some w) :
    ∃ last, form.getLast? = some last ∧ SpellsWord last w := by
  obtain ⟨init, rfl⟩ := List.getLast?_eq_some_iff.1 hw
  have hreverse := List.forall₂_reverse_iff.2 h
  rw [List.reverse_append, List.reverse_singleton, List.singleton_append,
    List.forall₂_cons_right_iff] at hreverse
  obtain ⟨last, rest, hlast, -, hform⟩ := hreverse
  refine ⟨last, ?_, hlast⟩
  rw [← List.head?_reverse, hform, List.head?_cons]

theorem not_short_and_long {before before' form ws : List (List Char)} {w : List Char}
    (hw : SpellsShort w) (hform : form ∈ longForms) (hws : List.Forall₂ SpellsWord form ws) :
    before ++ [w] ≠ before' ++ ws := by
  intro heq
  have hne : ws ≠ [] := by
    have hforms : ∀ form ∈ longForms, form ≠ [] := by decide
    rintro rfl
    exact hforms form hform (List.forall₂_nil_right_iff.1 hws)
  have hlast : ws.getLast? = some w := by
    rw [← List.getLast?_append_of_ne_nil before' hne, ← heq, List.getLast?_concat]
  obtain ⟨last, hlast, hspells⟩ := exists_getLast?_of_forall₂ hws hlast
  exact not_spellsShort hform hlast hspells hw

/-- At most one ending of a text is a legal form. -/
theorem SpellsForm.ending_unique {before before' ending ending' : List (List Char)}
    (h : SpellsForm ending) (h' : SpellsForm ending')
    (heq : before ++ ending = before' ++ ending') : before = before' := by
  cases h with
  | short hw =>
    cases h' with
    | short hw' => exact (List.append_inj' heq rfl).1
    | long hform hws => exact absurd heq (not_short_and_long hw hform hws)
  | long hform hws =>
    cases h' with
    | short hw => exact absurd heq.symm (not_short_and_long hw hform hws)
    | long hform' hws' =>
      have hlengths : ∀ form ∈ longForms, ∀ form' ∈ longForms, form.length = form'.length := by
        decide
      refine (List.append_inj' heq ?_).1
      rw [← List.Forall₂.length_eq hws, ← List.Forall₂.length_eq hws', hlengths _ hform _ hform']

theorem exists_of_withoutLongForm? {ws : List (List Char)} {rest : List Char}
    (h : withoutLongForm? ws = some rest) : ∃ before ending, ws = before ++ ending ∧ before ≠ [] ∧
      SpellsForm ending ∧ rest = remainder before := by
  obtain ⟨form, hform, h⟩ := List.exists_of_findSome?_eq_some h
  simp only [Option.ite_none_right_eq_some, Bool.and_eq_true, decide_eq_true_eq, beq_iff_eq,
    Option.some.injEq] at h
  obtain ⟨⟨hlength, hspells⟩, rfl⟩ := h
  refine ⟨_, _, (List.take_append_drop (ws.length - form.length) ws).symm, ?_, ?_, rfl⟩
  · rw [ne_eq, List.take_eq_nil_iff]
    rintro (h | rfl)
    · omega
    · cases hlength
  · exact .long hform ((map_bareWord_eq_iff (isBare_of_mem hform)).1 hspells)

theorem exists_of_withoutShortForm? {ws : List (List Char)} {rest : List Char}
    (h : withoutShortForm? ws = some rest) : ∃ before ending, ws = before ++ ending ∧ before ≠ [] ∧
      SpellsForm ending ∧ rest = remainder before := by
  rw [withoutShortForm?] at h
  split at h
  · rename_i last hlast
    simp only [Option.ite_none_right_eq_some, Bool.and_eq_true, decide_eq_true_eq,
      Option.some.injEq] at h
    obtain ⟨⟨hlength, hshort⟩, rfl⟩ := h
    refine ⟨_, _, (List.dropLast_append_getLast? last hlast).symm, ?_, ?_, rfl⟩
    · rw [ne_eq, ← List.length_eq_zero_iff, List.length_dropLast]
      omega
    · exact .short (isShortForm_iff.1 hshort)
  · cases h

theorem withoutLongForm?_isSome {before form ws : List (List Char)} (hbefore : before ≠ [])
    (hform : form ∈ longForms) (hws : List.Forall₂ SpellsWord form ws) :
    (withoutLongForm? (before ++ ws)).isSome = true := by
  have hlength := List.Forall₂.length_eq hws
  have hpos := List.length_pos_of_ne_nil hbefore
  refine List.findSome?_isSome_iff.2 ⟨form, hform, ?_⟩
  have hdrop : (before ++ ws).length - form.length = before.length := by
    rw [List.length_append, hlength, Nat.add_sub_cancel]
  have hspells := (map_bareWord_eq_iff (isBare_of_mem hform)).2 hws
  have hlt : form.length < (before ++ ws).length := by
    rw [List.length_append]
    omega
  simp only [hdrop, List.drop_left, hspells, hlt, decide_true, beq_self_eq_true, Bool.and_self,
    if_true, Option.isSome_some]

theorem withoutShortForm?_isSome {before : List (List Char)} {w : List Char}
    (hbefore : before ≠ []) (hw : SpellsShort w) :
    (withoutShortForm? (before ++ [w])).isSome = true := by
  have hpos := List.length_pos_of_ne_nil hbefore
  simp [withoutShortForm?, isShortForm_iff.2 hw, hpos]

theorem withoutForm?_eq_some_iff {ws : List (List Char)} {rest : List Char} :
    (withoutLongForm? ws).or (withoutShortForm? ws) = some rest ↔
      ∃ before ending, ws = before ++ ending ∧ before ≠ [] ∧ SpellsForm ending ∧
        rest = remainder before := by
  have hfound {rest : List Char}
      (h : (withoutLongForm? ws).or (withoutShortForm? ws) = some rest) :
      ∃ before ending, ws = before ++ ending ∧ before ≠ [] ∧ SpellsForm ending ∧
        rest = remainder before := by
    rcases Option.or_eq_some_iff.1 h with h | ⟨-, h⟩
    · exact exists_of_withoutLongForm? h
    · exact exists_of_withoutShortForm? h
  refine ⟨hfound, ?_⟩
  rintro ⟨before, ending, rfl, hbefore, hending, rfl⟩
  have hsome : ((withoutLongForm? (before ++ ending)).or
      (withoutShortForm? (before ++ ending))).isSome = true := by
    rw [Option.isSome_or, Bool.or_eq_true]
    cases hending with
    | short hw => exact .inr (withoutShortForm?_isSome hbefore hw)
    | long hform hws => exact .inl (withoutLongForm?_isSome hbefore hform hws)
  obtain ⟨rest, hrest⟩ := Option.isSome_iff_exists.1 hsome
  obtain ⟨before', ending', heq, -, hending', rfl⟩ := hfound hrest
  rw [hrest, hending.ending_unique hending' heq]

theorem withoutLegalForm_of_ending {name : List Char} {before ending : List (List Char)}
    (h : words name = before ++ ending) (hending : SpellsForm ending) :
    withoutLegalForm name = if remainder before = [] then name else remainder before := by
  by_cases hbefore : before = []
  · subst hbefore
    have hnone : (withoutLongForm? (words name)).or (withoutShortForm? (words name)) = none := by
      rw [Option.eq_none_iff_forall_ne_some]
      intro rest hrest
      obtain ⟨before, ending', heq, hne, hending', -⟩ := withoutForm?_eq_some_iff.1 hrest
      exact hne (hending'.ending_unique hending (heq.symm.trans h))
    rw [withoutLegalForm, hnone, if_pos (by rfl)]
  · rw [withoutLegalForm, withoutForm?_eq_some_iff.2 ⟨before, ending, h, hbefore, hending, rfl⟩]
    simp only [List.isEmpty_iff]

theorem withoutLegalForm_eq_self {name : List Char}
    (h : ∀ ending, ending <:+ words name → ¬SpellsForm ending) : withoutLegalForm name = name := by
  have hnone : (withoutLongForm? (words name)).or (withoutShortForm? (words name)) = none := by
    rw [Option.eq_none_iff_forall_ne_some]
    intro rest hrest
    obtain ⟨before, ending, heq, -, hending, -⟩ := withoutForm?_eq_some_iff.1 hrest
    exact h ending ⟨before, heq.symm⟩ hending
  rw [withoutLegalForm, hnone]

theorem withoutLegalForm_eq_nil {name : List Char} : withoutLegalForm name = [] ↔ name = [] := by
  constructor
  · intro h
    rw [withoutLegalForm] at h
    split at h
    · split at h
      · exact h
      · rename_i hne
        exact absurd (List.isEmpty_iff.2 h) hne
    · exact h
  · rintro rfl
    rfl

theorem remainder_eq_nil {before : List (List Char)} (h : ∀ w ∈ before, ∀ c ∈ w, IsMark c) :
    remainder before = [] := by
  have hlast : ∀ c ∈ ([] : List Char).getLast?, (c == ' ' || c == ',' || c == '.') = false := by simp
  refine (trimEnd_eq_iff hlast).2 ⟨unwords before, rfl, fun c hc => ?_⟩
  rcases mem_unwords hc with rfl | ⟨w, hw, hc⟩
  · rfl
  · rcases h w hw c hc with rfl | rfl <;> rfl

/-- A name as it is written by itself: words joined by single spaces, and no mark after them. -/
structure IsPlain (name : List Char) : Prop where
  ne_nil : name ≠ []
  spaced : unwords (words name) = name
  last : ∀ c ∈ name.getLast?, c ≠ ' ' ∧ c ≠ ',' ∧ c ≠ '.'

theorem IsPlain.remainder_words_append {name gap : List Char} (hname : IsPlain name)
    (hgap : ∀ c ∈ gap, IsMark c ∨ isBlank c = true) : remainder (words (name ++ gap)) = name := by
  have hlast : ∀ c ∈ name.getLast?, (c == ' ' || c == ',' || c == '.') = false := by
    intro c hc
    simpa [and_assoc] using hname.last c hc
  obtain ⟨rest, hrest, hchars⟩ := exists_unwords_append name gap
  refine (trimEnd_eq_iff hlast).2 ⟨rest, by rw [hrest, hname.spaced], fun c hc => ?_⟩
  rcases hchars c hc with rfl | ⟨hc, hblank⟩
  · rfl
  · rcases (hgap c hc).resolve_right (by simp [hblank]) with rfl | rfl <;> rfl

/-- A legal form that is added to a plain name in any spelling is taken off again, and nothing else is
taken off any name: not where no legal form stands at the end, and not where nothing would be left. -/
theorem legal_form_taken_off :
    (∀ name gap form after : List Char, IsPlain name →
      (∀ c ∈ gap, IsMark c ∨ isBlank c = true) → (∃ c ∈ gap.getLast?, isBlank c = true) →
      SpellsForm (words form) → (∀ c ∈ after, isBlank c = true) →
      withoutLegalForm (name ++ gap ++ form ++ after) = name) ∧
    (∀ name : List Char, (∀ ending, ending <:+ words name → ¬SpellsForm ending) →
      withoutLegalForm name = name) ∧
    (∀ (name : List Char) (before ending : List (List Char)), words name = before ++ ending →
      SpellsForm ending → (∀ w ∈ before, ∀ c ∈ w, IsMark c) → withoutLegalForm name = name) ∧
    ∀ name : List Char, withoutLegalForm name = [] ↔ name = [] := by
  refine ⟨?_, fun _ => withoutLegalForm_eq_self, ?_, fun _ => withoutLegalForm_eq_nil⟩
  · intro name gap form after hname hgap hblank hform hafter
    obtain ⟨b, hb, hblank⟩ := hblank
    obtain ⟨init, rfl⟩ := List.getLast?_eq_some_iff.1 hb
    have hinit : ∀ c ∈ init, IsMark c ∨ isBlank c = true := fun c hc =>
      hgap c (List.mem_append_left _ hc)
    have hwords : words (name ++ (init ++ [b]) ++ form ++ after) =
        words (name ++ init) ++ words form := by
      rw [words_append_blanks hafter, ← List.append_assoc, List.append_assoc,
        List.singleton_append, words_append_blank hblank]
    rw [withoutLegalForm_of_ending hwords hform, hname.remainder_words_append hinit,
      if_neg hname.ne_nil]
  · intro name before ending hwords hending hbefore
    rw [withoutLegalForm_of_ending hwords hending, if_pos (remainder_eq_nil hbefore)]

/-- A short form after a name that itself ends in one, a long form, no form, and nothing else but one. -/
theorem legal_form_taken_off_bayer :
    withoutLegalForm "Bayer AG., \tS.e.,\n".toList = "Bayer AG".toList ∧
    withoutLegalForm "Irish Banks .\u00a0public  (Limited) company".toList =
      "Irish Banks .\u00a0public  (Limited) company".toList ∧
    withoutLegalForm "Irish Banks .\u00a0public  Limited, .COMPANY.".toList = "Irish Banks".toList ∧
    withoutLegalForm " , Inc.".toList = " , Inc.".toList := by
  obtain ⟨hadded, hnone, hnothing, -⟩ := legal_form_taken_off
  refine ⟨?_, ?_, ?_, ?_⟩
  · have hparts : "Bayer AG., \tS.e.,\n".toList =
        "Bayer AG".toList ++ "., \t".toList ++ "S.e.,".toList ++ "\n".toList := by simp
    rw [hparts]
    exact hadded "Bayer AG".toList "., \t".toList "S.e.,".toList "\n".toList
      ⟨by decide +kernel, by decide +kernel, by simp⟩ (by simp [IsMark]; decide) ⟨'\t', by decide⟩
      (by decide +kernel) (by simp; decide)
  · refine hnone _ fun ending hending => ?_
    rw [← List.mem_tails] at hending
    revert ending
    decide +kernel
  · have hparts : "Irish Banks .\u00a0public  Limited, .COMPANY.".toList =
        "Irish Banks".toList ++ " .\u00a0".toList ++ "public  Limited, .COMPANY.".toList ++ [] := by simp
    rw [hparts]
    exact hadded "Irish Banks".toList " .\u00a0".toList "public  Limited, .COMPANY.".toList []
      ⟨by decide +kernel, by decide +kernel, by simp⟩ (by simp [IsMark]; decide) ⟨'\u00a0', by decide⟩
      (by decide +kernel) nofun
  · exact hnothing _ [[',']] ["Inc.".toList] (by decide +kernel) (by decide +kernel) (by simp [IsMark])

end LegalEntity.Name
