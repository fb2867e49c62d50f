import LegalEntity.Proofs.IndexFile.Columns
import LegalEntity.Proofs.Text.Case
import Mathlib.Data.List.DropRight

namespace LegalEntity.Text

structure IsTrimmed (s : List Char) : Prop where
  first : ∀ c ∈ s.head?, isBlank c = false
  last : ∀ c ∈ s.getLast?, isBlank c = false

theorem IsTrimmed.trim_eq {s : List Char} (h : IsTrimmed s) : trim s = s := by
  have hstart : s.dropWhile isBlank = s := by
    cases s with
    | nil => rfl
    | cons c s => simp [h.first c rfl]
  have hend : s.rdropWhile isBlank = s := by
    refine List.rdropWhile_eq_self_iff.2 fun hs => ?_
    simp [h.last _ (List.getLast?_eq_some_getLast hs)]
  rw [trim, trimBoth, trimStart, hstart]
  exact hend

theorem trim_eq_rdropWhile (s : List Char) :
    trim s = (s.dropWhile isBlank).rdropWhile isBlank := rfl

theorem isTrimmed_trim (s : List Char) : IsTrimmed (trim s) := by
  rw [trim_eq_rdropWhile]
  constructor
  · intro c hc
    -- What is dropped at the end leaves the first character, if it leaves any.
    obtain ⟨rest, hrest⟩ := List.rdropWhile_prefix isBlank (s.dropWhile isBlank)
    have hhead : (s.dropWhile isBlank).head? = some c := by
      rw [← hrest, List.head?_append, Option.mem_def.1 hc]
      rfl
    have hnot := List.head?_dropWhile_not isBlank s
    rwa [hhead] at hnot
  · intro c hc
    obtain ⟨hne, rfl⟩ := List.mem_getLast?_eq_getLast hc
    simpa using List.rdropWhile_last_not isBlank (s.dropWhile isBlank) hne

theorem IsTrimmed.uppercase {s : List Char} (h : IsTrimmed s) : IsTrimmed (uppercase s) := by
  constructor
  · intro d hd
    cases s with
    | nil => cases hd
    | cons c s =>
      have hmem : d ∈ upper c := by
        rw [Text.uppercase, List.flatMap_cons, List.head?_append_of_ne_nil _ (upper_ne_nil c)] at hd
        exact List.mem_of_mem_head? hd
      exact not_isBlank_of_mem_upper (h.first c rfl) hmem
  · intro d hd
    cases s using List.reverseRecOn with
    | nil => cases hd
    | append_singleton s c =>
      have hmem : d ∈ upper c := by
        rw [uppercase_append, Text.uppercase, Text.uppercase, List.flatMap_singleton,
          List.getLast?_append_of_ne_nil _ (upper_ne_nil c)] at hd
        exact List.mem_of_mem_getLast? hd
      exact not_isBlank_of_mem_upper (h.last c (by simp)) hmem

end LegalEntity.Text

namespace LegalEntity

@[simp] theorem canonical_canonical (s : String) : canonical (canonical s) = canonical s := by
  rw [canonical, canonical, String.toList_ofList,
    (Text.isTrimmed_trim s.toList).uppercase.trim_eq, Text.uppercase_uppercase]

structure IsCanonical (s : String) : Prop where
  canonical_eq : canonical s = s
  ne_empty : s ≠ ""

def IsinIndex.IsCanonical (x : IsinIndex) : Prop :=
  ∀ e ∈ x.entries, LegalEntity.IsCanonical e.1 ∧ LegalEntity.IsCanonical e.2

theorem IsinIndex.isCanonical_empty : IsinIndex.IsCanonical .empty := nofun

namespace IndexFile

theorem isCanonical_of_pairOf? {header : Option (List String)} {row : Csv.Record}
    {e : String × String} (h : pairOf? header row = some e) :
    IsCanonical e.1 ∧ IsCanonical e.2 := by
  obtain ⟨isin, lei⟩ := e
  obtain ⟨cells, i, l, -, -, rfl, rfl, hisin, hlei⟩ := pairOf?_eq_some.1 h
  exact ⟨⟨canonical_canonical i, hisin⟩, ⟨canonical_canonical l, hlei⟩⟩

theorem isCanonical_index (rows : List Csv.Record) : (index rows).IsCanonical := by
  cases rows with
  | nil => exact IsinIndex.isCanonical_empty
  | cons header rows =>
    intro e he
    obtain ⟨row, -, hrow⟩ := List.mem_filterMap.1 (Table.mem_of_mem_ofList he)
    exact isCanonical_of_pairOf? hrow

theorem isCanonical_of_read {s : Stream} {x : IsinIndex} (h : read s = .ok x) : x.IsCanonical := by
  rcases read_eq_ok h with ⟨-, rfl⟩ | ⟨-, rfl⟩
  · exact IsinIndex.isCanonical_empty
  · exact isCanonical_index _

end IndexFile

end LegalEntity
