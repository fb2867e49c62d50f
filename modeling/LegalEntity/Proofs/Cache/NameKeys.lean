import LegalEntity.Proofs.Names.Words
import LegalEntity.Proofs.Text.Case

namespace LegalEntity.Text

theorem uppercase_space_cons (s : List Char) : uppercase (' ' :: s) = ' ' :: uppercase s := rfl

theorem uppercase_unwords (ws : List (List Char)) :
    uppercase (unwords ws) = unwords (ws.map uppercase) := by
  induction ws with
  | nil => rfl
  | cons v ws ih =>
    cases ws with
    | nil => rw [List.map_singleton, unwords_singleton, unwords_singleton]
    | cons w ws =>
      calc uppercase (unwords (v :: w :: ws)) = uppercase v ++ ' ' :: uppercase (unwords (w :: ws)) :=
            by rw [unwords_cons_cons, uppercase_append, uppercase_space_cons]
        _ = uppercase v ++ ' ' :: unwords ((w :: ws).map uppercase) := by rw [ih]
        _ = unwords ((v :: w :: ws).map uppercase) := (unwords_cons_cons _ _ _).symm

theorem AreWords.uppercase {ws : List (List Char)} (h : AreWords ws) :
    AreWords (ws.map uppercase) := by
  intro v hv
  obtain ⟨w, hw, rfl⟩ := List.mem_map.1 hv
  obtain ⟨hne, hchars⟩ := h w hw
  refine ⟨mt uppercase_eq_nil.1 hne, fun d hd => ?_⟩
  obtain ⟨c, hc, hd⟩ := List.mem_flatMap.1 hd
  exact not_isBlank_of_mem_upper (hchars c hc) hd

end LegalEntity.Text

namespace LegalEntity.Cache

open Text

theorem words_nameForm (s : List Char) : words (nameForm s) = (words s).map uppercase := by
  rw [nameForm, uppercase_unwords, words_unwords (areWords_words s).uppercase]

theorem nameForm_eq_unwords (s : List Char) : nameForm s = unwords ((words s).map uppercase) := by
  rw [nameForm, uppercase_unwords]

theorem nameForm_eq_iff {s t : List Char} :
    nameForm s = nameForm t ↔ (words s).map uppercase = (words t).map uppercase := by
  rw [← words_nameForm, ← words_nameForm]
  constructor
  · exact congrArg words
  · intro h
    rw [nameForm_eq_unwords, nameForm_eq_unwords, ← words_nameForm, ← words_nameForm, h]

@[simp] theorem nameForm_nameForm (s : List Char) : nameForm (nameForm s) = nameForm s := by
  rw [nameForm_eq_iff, words_nameForm, List.map_map]
  exact List.map_congr_left fun w _ => uppercase_uppercase w

@[simp] theorem normalName_normalName (name : String) :
    normalName (normalName name) = normalName name := by
  rw [normalName, normalName, String.toList_ofList, nameForm_nameForm]

theorem normalName_eq_iff {a b : String} : normalName a = normalName b ↔
    (words a.toList).map uppercase = (words b.toList).map uppercase := by
  rw [normalName, normalName, String.ofList_inj, nameForm_eq_iff]

theorem nameKey_eq_iff {nameSpace a b : String} :
    nameKey nameSpace a = nameKey nameSpace b ↔ normalName a = normalName b := by
  rw [nameKey, nameKey, String.append_right_inj]

/-- Names share a key exactly if they have the same words up to case, in the same order. The name as
its key has it is a name with that key. -/
theorem keys_keep_words (nameSpace a b : String) :
    normalName (normalName a) = normalName a ∧
      (nameKey nameSpace a = nameKey nameSpace b ↔
        (words a.toList).map uppercase = (words b.toList).map uppercase) ∧
      nameKey nameSpace (normalName a) = nameKey nameSpace a := by
  refine ⟨normalName_normalName a, ?_, ?_⟩
  · rw [nameKey_eq_iff, normalName_eq_iff]
  · rw [nameKey_eq_iff, normalName_normalName]

example : nameKey "names" " weiß\u3000 ag" = "names:WEISS AG" := by decide +kernel

end LegalEntity.Cache
