import LegalEntity.Proofs.IndexFile.Columns
import Mathlib.Data.List.Induction

namespace LegalEntity.Table

theorem ofList_append_singleton (entries : List (String × α)) (e : String × α) :
    ofList (entries ++ [e]) = (ofList entries).insert e.1 e.2 :=
  List.foldl_append

end LegalEntity.Table

namespace LegalEntity.IndexFile

/-- A row gives an LEI for an ISIN: it can be read, reaches as far as its header, and has the two
in their columns, up to canonical form and neither of them blank. -/
structure Gives (header row : Csv.Record) (isin lei : String) : Prop where
  readable : isReadable row = true
  long : header.length ≤ row.length
  isin_eq : (below? header row isinColumn).map canonical = some isin
  lei_eq : (below? header row leiColumn).map canonical = some lei
  isin_ne : isin ≠ ""
  lei_ne : lei ≠ ""

/-- The LEI that the last row for an ISIN gives. -/
def LastGives (header : Csv.Record) (rows : List Csv.Record) (isin lei : String) : Prop :=
  ∃ before row after, rows = before ++ row :: after ∧ Gives header row isin lei ∧
    ∀ r ∈ after, ∀ l, ¬Gives header r isin l

section

variable {header row : Csv.Record} {rows before after : List Csv.Record}
  {names cells : List String} {isin lei : String}

theorem Gives.unique {isin' lei' : String} (h : Gives header row isin lei)
    (h' : Gives header row isin' lei') : isin = isin' ∧ lei = lei' :=
  ⟨Option.some.inj (h.isin_eq.symm.trans h'.isin_eq), Option.some.inj (h.lei_eq.symm.trans h'.lei_eq)⟩

theorem isReadable_iff : isReadable row = true ↔ ∃ cells, cells? row = some cells :=
  Option.isSome_iff_exists

theorem below?_eq_cell {name : String} (hnames : cells? header = some names)
    (hcells : cells? row = some cells) (hname : name ∈ names)
    (hlength : header.length ≤ row.length) :
    below? header row name = some (cell names cells name) := by
  have hlt : names.idxOf name < cells.length := by
    have hidx := List.idxOf_lt_length_iff.2 hname
    rw [length_of_cells hnames] at hidx
    rw [length_of_cells hcells]
    exact Nat.lt_of_lt_of_le hidx hlength
  rw [below?_eq hnames hcells, cell, lookup_zip_of_mem hname, List.getElem?_eq_getElem hlt]
  rfl

theorem pair?_eq_some (hnames : cells? header = some names) (hcells : cells? row = some cells)
    (htitled : Titled header) {pair : String × String} :
    pair? (some names) cells = some pair ↔ header.length ≤ row.length ∧
      (cell names cells leiColumn, cell names cells isinColumn) = pair := by
  have hlei := (countP_reads hnames leiColumn).symm.trans htitled.lei
  have hisin := (countP_reads hnames isinColumn).symm.trans htitled.isin
  simp [pair?, hlei, hisin, length_of_cells hnames, length_of_cells hcells]

theorem pairOf?_iff_gives (hheader : isReadable header = true) (htitled : Titled header) :
    pairOf? (cells? header) row = some (isin, lei) ↔ Gives header row isin lei := by
  obtain ⟨names, hnames⟩ := isReadable_iff.1 hheader
  have hmem {name : String} (h : header.countP (reads name) = 1) : name ∈ names := by
    apply List.count_pos_iff.1
    rw [← countP_reads hnames, h]
    exact Nat.one_pos
  rw [pairOf?_eq_some, hnames]
  constructor
  · rintro ⟨cells, i, l, hcells, hpair, rfl, rfl, hi, hl⟩
    obtain ⟨hlength, hpair⟩ := (pair?_eq_some hnames hcells htitled).1 hpair
    cases hpair
    refine ⟨isReadable_iff.2 ⟨cells, hcells⟩, hlength, ?_, ?_, hi, hl⟩
    · rw [below?_eq_cell hnames hcells (hmem htitled.isin) hlength]
      rfl
    · rw [below?_eq_cell hnames hcells (hmem htitled.lei) hlength]
      rfl
  · intro h
    obtain ⟨cells, hcells⟩ := isReadable_iff.1 h.readable
    have hisin := h.isin_eq
    have hlei := h.lei_eq
    rw [below?_eq_cell hnames hcells (hmem htitled.isin) h.long] at hisin
    rw [below?_eq_cell hnames hcells (hmem htitled.lei) h.long] at hlei
    exact ⟨cells, _, _, hcells, (pair?_eq_some hnames hcells htitled).2 ⟨h.long, rfl⟩,
      Option.some.inj hisin, Option.some.inj hlei, h.isin_ne, h.lei_ne⟩

@[simp] theorem not_lastGives_nil : ¬LastGives header [] isin lei := by
  rintro ⟨before, row, after, h, -⟩
  exact List.append_ne_nil_of_right_ne_nil before (List.cons_ne_nil row after) h.symm

theorem lastGives_append_singleton : LastGives header (rows ++ [row]) isin lei ↔
    Gives header row isin lei ∨
      (∀ l, ¬Gives header row isin l) ∧ LastGives header rows isin lei := by
  constructor
  · rintro ⟨before, r, after, h, hr, hafter⟩
    cases after using List.reverseRecOn with
    | nil =>
      obtain ⟨-, hlast⟩ := List.append_inj' h rfl
      cases hlast
      exact .inl hr
    | append_singleton after d =>
      rw [← List.cons_append, ← List.append_assoc] at h
      obtain ⟨hrows, hlast⟩ := List.append_inj' h rfl
      cases hlast
      exact .inr ⟨hafter row (List.mem_append_right _ List.mem_cons_self), before, r, after, hrows, hr,
        fun r' hr' => hafter r' (List.mem_append_left _ hr')⟩
  · rintro (hr | ⟨hrow, before, r, after, rfl, hr, hafter⟩)
    · exact ⟨rows, row, [], rfl, hr, nofun⟩
    · refine ⟨before, r, after ++ [row], by simp, hr, fun r' hr' => ?_⟩
      cases List.mem_append.1 hr' with
      | inl hr' => exact hafter r' hr'
      | inr hr' => exact List.mem_singleton.1 hr' ▸ hrow

theorem lastGives_append_of_not_gives (h : ∀ l, ¬Gives header row isin l) :
    LastGives header (rows ++ [row]) isin lei ↔ LastGives header rows isin lei := by
  simp [lastGives_append_singleton, h]

theorem lastGives_append_of_gives {last : String} (h : Gives header row isin last) :
    LastGives header (rows ++ [row]) isin lei ↔ last = lei := by
  rw [lastGives_append_singleton]
  constructor
  · rintro (hr | ⟨hrow, -⟩)
    · exact (h.unique hr).2
    · exact absurd h (hrow last)
  · rintro rfl
    exact .inl h

theorem exists_lastGives_iff :
    (∃ lei, LastGives header rows isin lei) ↔ ∃ row ∈ rows, ∃ lei, Gives header row isin lei := by
  induction rows using List.reverseRecOn with
  | nil => simp
  | append_singleton rows row ih =>
    by_cases hrow : ∃ lei, Gives header row isin lei
    · obtain ⟨lei, hlei⟩ := hrow
      exact iff_of_true ⟨lei, lastGives_append_singleton.2 (.inl hlei)⟩ ⟨row, by simp, lei, hlei⟩
    · simp only [lastGives_append_of_not_gives (not_exists.1 hrow), ih, List.mem_append,
        List.mem_singleton]
      constructor
      · rintro ⟨r, hr, h⟩
        exact ⟨r, .inl hr, h⟩
      · rintro ⟨r, hr | rfl, h⟩
        · exact ⟨r, hr, h⟩
        · exact absurd h hrow

theorem get?_index_iff (hheader : isReadable header = true) (htitled : Titled header) :
    (index (header :: rows)).get? isin = some lei ↔ LastGives header rows isin lei := by
  rw [index]
  induction rows using List.reverseRecOn with
  | nil => simp [Table.ofList]
  | append_singleton rows row ih =>
    rw [List.filterMap_append]
    cases hpair : pairOf? (cells? header) row with
    | none =>
      have hrow : ∀ l, ¬Gives header row isin l := fun l h => by
        rw [(pairOf?_iff_gives hheader htitled).2 h] at hpair
        cases hpair
      rw [lastGives_append_of_not_gives hrow, ← ih]
      simp [hpair]
    | some e =>
      have hgives : Gives header row e.1 e.2 := (pairOf?_iff_gives hheader htitled).1 hpair
      rw [List.filterMap_cons_some hpair, List.filterMap_nil, Table.ofList_append_singleton]
      by_cases he : isin = e.1
      · subst he
        rw [Table.get?_insert_self, lastGives_append_of_gives hgives, Option.some.injEq]
      · rw [Table.get?_insert_of_ne _ he, ih]
        exact (lastGives_append_of_not_gives fun l h => he (h.unique hgives).1).symm

theorem LastGives.unique {lei' : String} (h : LastGives header rows isin lei)
    (h' : LastGives header rows isin lei') : lei = lei' := by
  induction rows using List.reverseRecOn with
  | nil => exact absurd h not_lastGives_nil
  | append_singleton rows row ih =>
    rcases lastGives_append_singleton.1 h with hrow | ⟨hnot, hlast⟩
    · exact (lastGives_append_of_gives hrow).1 h'
    · exact ih hlast ((lastGives_append_of_not_gives hnot).1 h')

/-- A row that gives nothing may as well be missing. -/
theorem index_without (hheader : isReadable header = true) (htitled : Titled header)
    (hrow : ∀ isin lei, ¬Gives header row isin lei) :
    index (header :: (before ++ row :: after)) = index (header :: (before ++ after)) := by
  have hpair : pairOf? (cells? header) row = none :=
    Option.eq_none_iff_forall_ne_some.2 fun e h =>
      hrow e.1 e.2 ((pairOf?_iff_gives hheader htitled).1 h)
  simp [index, hpair]

end

end LegalEntity.IndexFile
