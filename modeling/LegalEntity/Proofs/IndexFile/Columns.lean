import LegalEntity.IndexFile
import LegalEntity.Proofs.IndexFile.Written

namespace LegalEntity.Table

theorem mem_of_mem_foldl_insert {t : Table α} {entries : List (String × α)} {e : String × α}
    (h : e ∈ (entries.foldl (fun t e => t.insert e.1 e.2) t).entries) :
    e ∈ t.entries ∨ e ∈ entries := by
  induction entries generalizing t with
  | nil => exact .inl h
  | cons d rest ih =>
    cases ih h with
    | inl h => exact (mem_insertEntry h).elim (fun h => .inr (h ▸ List.mem_cons_self)) .inl
    | inr h => exact .inr (List.mem_cons_of_mem d h)

theorem mem_of_mem_ofList {entries : List (String × α)} {e : String × α}
    (h : e ∈ (ofList entries).entries) : e ∈ entries :=
  (mem_of_mem_foldl_insert h).resolve_left nofun

end LegalEntity.Table

namespace LegalEntity.IndexFile

def records (s : Stream) : List Csv.Record :=
  (Csv.read (withoutMark s.bytes)).records ++ (Csv.read (withoutMark s.bytes)).rest.toList

def reads (name : String) (cell : List UInt8) : Bool := Text.ofUtf8? cell == some name

def text? (row : Csv.Record) (place : Nat) : Option String := row[place]?.bind Text.ofUtf8?

def below? (header row : Csv.Record) (name : String) : Option String :=
  text? row (header.findIdx (reads name))

def isReadable (record : Csv.Record) : Bool := (cells? record).isSome

def leiText? (header row : Csv.Record) : Option String :=
  if isReadable header then below? header row leiColumn else text? row 0

def isinText? (header row : Csv.Record) : Option String :=
  if isReadable header then below? header row isinColumn else text? row 1

structure Titled (header : Csv.Record) : Prop where
  lei : header.countP (reads leiColumn) = 1
  isin : header.countP (reads isinColumn) = 1

section

variable {header row : Csv.Record} {names cells : List String} {name text isin lei : String}

theorem cells?_cons (cell : List UInt8) (row : Csv.Record) :
    cells? (cell :: row) = (Text.ofUtf8? cell).bind fun text => (cells? row).map (text :: ·) := by
  simp only [cells?, List.mapM_cons, Option.bind_eq_bind, Option.pure_def]
  cases Text.ofUtf8? cell with
  | none => rfl
  | some text => cases row.mapM Text.ofUtf8? <;> rfl

theorem cells?_cons_eq_some {cell : List UInt8} :
    cells? (cell :: row) = some cells ↔
      ∃ text rest, Text.ofUtf8? cell = some text ∧ cells? row = some rest ∧ text :: rest = cells := by
  simp [cells?_cons, Option.bind_eq_some_iff]

theorem text?_of_cells (h : cells? row = some cells) (place : Nat) : text? row place = cells[place]? := by
  induction row generalizing cells place with
  | nil =>
    cases h
    rfl
  | cons cell row ih =>
    obtain ⟨text, rest, htext, hrest, rfl⟩ := cells?_cons_eq_some.1 h
    cases place with
    | zero => simpa [text?] using htext
    | succ place => simpa [text?] using ih hrest place

theorem length_of_cells (h : cells? row = some cells) : cells.length = row.length := by
  induction row generalizing cells with
  | nil =>
    cases h
    rfl
  | cons cell row ih =>
    obtain ⟨text, rest, -, hrest, rfl⟩ := cells?_cons_eq_some.1 h
    simp [ih hrest]

theorem countP_reads (h : cells? header = some names) (name : String) :
    header.countP (reads name) = names.count name := by
  induction header generalizing names with
  | nil =>
    cases h
    rfl
  | cons cell header ih =>
    obtain ⟨text, rest, htext, hrest, rfl⟩ := cells?_cons_eq_some.1 h
    simp [List.countP_cons, List.count_cons, reads, htext, ih hrest]

theorem findIdx_reads (h : cells? header = some names) (name : String) :
    header.findIdx (reads name) = names.idxOf name := by
  induction header generalizing names with
  | nil =>
    cases h
    rfl
  | cons cell header ih =>
    obtain ⟨text, rest, htext, hrest, rfl⟩ := cells?_cons_eq_some.1 h
    simp [List.findIdx_cons, List.idxOf_cons, reads, htext, ih hrest]

theorem lookup_zip_eq_some (h : (names.zip cells).lookup name = some text) :
    cells[names.idxOf name]? = some text := by
  induction names generalizing cells with
  | nil => cases h
  | cons n names ih =>
    cases cells with
    | nil => cases h
    | cons c cells =>
      rw [List.zip_cons_cons, List.lookup_cons] at h
      by_cases hn : name = n
      · subst hn
        simpa using h
      · rw [beq_eq_false_iff_ne.2 hn] at h
        simpa [List.idxOf_cons, beq_eq_false_iff_ne.2 (Ne.symm hn)] using ih h

theorem lookup_zip_of_mem (hname : name ∈ names) (cells : List String) :
    (names.zip cells).lookup name = cells[names.idxOf name]? := by
  induction names generalizing cells with
  | nil => cases hname
  | cons n names ih =>
    cases cells with
    | nil => rfl
    | cons c cells =>
      rw [List.zip_cons_cons, List.lookup_cons]
      by_cases hn : name = n
      · subst hn
        simp
      · rw [beq_eq_false_iff_ne.2 hn]
        have hrest := ih ((List.mem_cons.1 hname).resolve_left hn) cells
        simpa [List.idxOf_cons, beq_eq_false_iff_ne.2 (Ne.symm hn)] using hrest

theorem pairOf?_eq_some {header : Option (List String)} {isin lei : String} :
    pairOf? header row = some (isin, lei) ↔
      ∃ cells i l, cells? row = some cells ∧ pair? header cells = some (l, i) ∧
        canonical i = isin ∧ canonical l = lei ∧ isin ≠ "" ∧ lei ≠ "" := by
  simp only [pairOf?, Option.bind_eq_bind, Option.bind_eq_some_iff, Prod.exists]
  constructor
  · rintro ⟨cells, hcells, l, i, hpair, h⟩
    split at h
    · cases h
    · rename_i hempty
      cases h
      simp only [Bool.or_eq_true, String.isEmpty_iff, not_or] at hempty
      exact ⟨cells, i, l, hcells, hpair, rfl, rfl, hempty⟩
  · rintro ⟨cells, i, l, hcells, hpair, rfl, rfl, hisin, hlei⟩
    refine ⟨cells, hcells, l, i, hpair, ?_⟩
    simp [hisin, hlei]

structure Taken (header row : Csv.Record) (isin lei : String) : Prop where
  isin_eq : (isinText? header row).map canonical = some isin
  lei_eq : (leiText? header row).map canonical = some lei
  isin_ne : isin ≠ ""
  lei_ne : lei ≠ ""

@[simp] theorem canonical_empty : canonical "" = "" := rfl

theorem below?_eq (hnames : cells? header = some names) (hcells : cells? row = some cells)
    (name : String) : below? header row name = cells[names.idxOf name]? := by
  rw [below?, findIdx_reads hnames, text?_of_cells hcells]

theorem below?_of_cell (hnames : cells? header = some names) (hcells : cells? row = some cells)
    (h : canonical (cell names cells name) ≠ "") :
    below? header row name = some (cell names cells name) := by
  rw [below?_eq hnames hcells]
  cases hlookup : (names.zip cells).lookup name with
  | none => simp [cell, hlookup] at h
  | some text =>
    rw [lookup_zip_eq_some hlookup]
    simp [cell, hlookup]

theorem taken_of_pairOf? (h : pairOf? (cells? header) row = some (isin, lei)) :
    Taken header row isin lei := by
  obtain ⟨cells, i, l, hcells, hpair, rfl, rfl, hisin, hlei⟩ := pairOf?_eq_some.1 h
  cases hnames : cells? header with
  | none =>
    rw [hnames] at hpair
    cases hpair
    have hplace (n : Nat) (hn : canonical (cells.getD n "") ≠ "") :
        text? row n = some (cells.getD n "") := by
      rw [text?_of_cells hcells]
      cases hcell : cells[n]? with
      | none => simp [List.getD_eq_getElem?_getD, hcell] at hn
      | some text => simp [List.getD_eq_getElem?_getD, hcell]
    constructor <;> simp_all [isinText?, leiText?, isReadable]
  | some names =>
    rw [hnames] at hpair
    simp only [pair?] at hpair
    split at hpair
    · cases hpair
    · cases hpair
      have hi := below?_of_cell hnames hcells hisin
      have hl := below?_of_cell hnames hcells hlei
      constructor <;> simp_all [isinText?, leiText?, isReadable]

theorem taken_of_mem_index {rows : List Csv.Record} {e : String × String}
    (h : e ∈ (index (header :: rows)).entries) : ∃ row ∈ rows, Taken header row e.1 e.2 := by
  obtain ⟨row, hrow, hpair⟩ := List.mem_filterMap.1 (Table.mem_of_mem_ofList h)
  exact ⟨row, hrow, taken_of_pairOf? hpair⟩

theorem mem_index_of_pairOf? {e : String × String} (h : pairOf? (cells? header) row = some e) :
    e ∈ (index [header, row]).entries := by
  simp [index, h, Table.ofList, Table.insert, Table.empty, insertEntry]

theorem read_eq_ok {s : Stream} {x : IsinIndex} (h : read s = .ok x) :
    (s.broken = true ∧ x = .empty) ∨ (s.broken = false ∧ x = index (records s)) := by
  rw [read] at h
  split at h
  · rename_i hbroken
    split at h
    · cases h
      exact .inl ⟨hbroken, rfl⟩
    · cases h
  · rename_i hbroken
    cases h
    exact .inr ⟨Bool.eq_false_iff.2 hbroken, rfl⟩

theorem read_error {s : Stream} {e : Error} (h : read s = .error e) : e = .csv := by
  rw [read] at h
  split at h
  · split at h <;> cases h
    rfl
  · cases h

theorem index_of_read {s : Stream} {x : IsinIndex} (h : read s = .ok x) (hx : x.isEmpty = false) :
    s.broken = false ∧ x = index (records s) := by
  rcases read_eq_ok h with ⟨-, rfl⟩ | h
  · cases hx
  · exact h

theorem taken_of_read {s : Stream} {rows : List Csv.Record} {x : IsinIndex} {e : String × String}
    (hrecords : records s = header :: rows) (hread : read s = .ok x) (he : e ∈ x.entries) :
    ∃ row ∈ rows, Taken header row e.1 e.2 := by
  rcases read_eq_ok hread with ⟨-, rfl⟩ | ⟨-, rfl⟩
  · cases he
  · rw [hrecords] at he
    exact taken_of_mem_index he

theorem withoutMark_write (record : Csv.Record) (hrecord : record ≠ []) (rest : List Csv.Record) :
    withoutMark (Csv.write (record :: rest)) = Csv.write (record :: rest) := by
  cases record with
  | nil => exact absurd rfl hrecord
  | cons cell cells => cases cells <;> rfl

theorem records_write {rows : List Csv.Record} (hheader : header ≠ []) (hrows : ∀ r ∈ rows, r ≠ [])
    (broken : Bool) : records ⟨Csv.write (header :: rows), broken⟩ = header :: rows := by
  have hall : ∀ r ∈ header :: rows, r ≠ [] := List.forall_mem_cons.2 ⟨hheader, hrows⟩
  rw [records, withoutMark_write header hheader, Csv.read_write hall]
  exact List.append_nil _

structure InColumns (header row : Csv.Record) (isin lei : String) : Prop where
  isin_eq : (below? header row isinColumn).map canonical = some isin
  lei_eq : (below? header row leiColumn).map canonical = some lei

def Leads (header : Csv.Record) : Prop :=
  header.findIdx (reads leiColumn) = 0 ∧ header.findIdx (reads isinColumn) = 1

theorem inColumns_of_taken (h : isReadable header = true ∨ Leads header)
    (ht : Taken header row isin lei) : InColumns header row isin lei := by
  have hisin := ht.isin_eq
  have hlei := ht.lei_eq
  unfold isinText? at hisin
  unfold leiText? at hlei
  cases hreadable : isReadable header with
  | true =>
    rw [if_pos hreadable] at hisin hlei
    exact ⟨hisin, hlei⟩
  | false =>
    obtain ⟨hfirst, hsecond⟩ := h.resolve_left (Bool.eq_false_iff.1 hreadable)
    rw [if_neg (Bool.eq_false_iff.1 hreadable)] at hisin hlei
    rw [← hfirst] at hlei
    rw [← hsecond] at hisin
    exact ⟨hisin, hlei⟩

def twoCells : Csv.Record := [[0x41], [0x42]]

theorem leads_of_twoCells (h : InColumns header twoCells "B" "A") : Leads header := by
  obtain ⟨hisin, hlei⟩ := h
  rw [below?] at hisin hlei
  constructor
  · match hplace : header.findIdx (reads leiColumn) with
    | 0 => rfl
    | 1 =>
      rw [hplace] at hlei
      exact absurd hlei (by decide)
    | n + 2 =>
      rw [hplace] at hlei
      cases hlei
  · match hplace : header.findIdx (reads isinColumn) with
    | 0 =>
      rw [hplace] at hisin
      exact absurd hisin (by decide)
    | 1 => rfl
    | n + 2 =>
      rw [hplace] at hisin
      cases hisin

/-- Every entry of an index is taken from a row. It is what the columns of the row hold, for every
file with a header, if and only if the header can be read or names the LEIs first and the ISINs
second. -/
theorem columns_respected_iff (h : Titled header) :
    (∀ s rows x, records s = header :: rows → read s = .ok x →
      ∀ e ∈ x.entries, ∃ row ∈ rows, Taken header row e.1 e.2) ∧
    ((∀ s rows x, records s = header :: rows → read s = .ok x →
      ∀ e ∈ x.entries, ∃ row ∈ rows, InColumns header row e.1 e.2) ↔
        isReadable header = true ∨ Leads header) := by
  refine ⟨fun s rows x hrecords hread e he => taken_of_read hrecords hread he, ?_⟩
  constructor
  · intro hall
    cases hreadable : isReadable header with
    | true => exact .inl rfl
    | false =>
      have hnone : cells? header = none := by simpa [isReadable] using hreadable
      have hheader : header ≠ [] := by
        rintro rfl
        cases h.lei
      have hrow : ∀ r ∈ [twoCells], r ≠ [] := by decide
      have hrecords := records_write hheader hrow false
      have hmem : ("B", "A") ∈ (index [header, twoCells]).entries := by
        apply mem_index_of_pairOf?
        rw [hnone]
        rfl
      have hread : read ⟨Csv.write [header, twoCells], false⟩ = .ok (index [header, twoCells]) :=
        congrArg Except.ok (congrArg index hrecords)
      obtain ⟨row, hrow, hcolumns⟩ := hall _ _ _ hrecords hread _ hmem
      rw [List.mem_singleton.1 hrow] at hcolumns
      exact .inr (leads_of_twoCells hcolumns)
  · intro hheader s rows x hrecords hread e he
    obtain ⟨row, hrow, htaken⟩ := taken_of_read hrecords hread he
    exact ⟨row, hrow, inColumns_of_taken hheader htaken⟩

end

/-- `Société,ISIN,LEI` in Latin 1. -/
def latinHeader : Csv.Record :=
  [[0x53, 0x6F, 0x63, 0x69, 0xE9, 0x74, 0xE9], [0x49, 0x53, 0x49, 0x4E], [0x4C, 0x45, 0x49]]

def latinRow : Csv.Record :=
  [[0x41, 0x70, 0x70, 0x6C, 0x65], [0x55, 0x53, 0x31], [0x48, 0x57, 0x55]]

def latinFile : Stream where
  bytes := [0x53, 0x6F, 0x63, 0x69, 0xE9, 0x74, 0xE9, 0x2C, 0x49, 0x53, 0x49, 0x4E, 0x2C, 0x4C, 0x45,
    0x49, 0x0A, 0x41, 0x70, 0x70, 0x6C, 0x65, 0x2C, 0x55, 0x53, 0x31, 0x2C, 0x48, 0x57, 0x55, 0x0A]
  broken := false

/-- Below a header in Latin 1 the name of a company becomes its LEI. -/
theorem columns_not_respected_latin :
    Titled latinHeader ∧ records latinFile = [latinHeader, latinRow] ∧
      (∃ x, read latinFile = .ok x ∧ x.get? "US1" = some "APPLE" ∧
        ∀ e ∈ x.entries, ∃ row ∈ [latinRow], Taken latinHeader row e.1 e.2) ∧
      InColumns latinHeader latinRow "US1" "HWU" ∧
      ¬∀ s rows x, records s = latinHeader :: rows → read s = .ok x →
        ∀ e ∈ x.entries, ∃ row ∈ rows, InColumns latinHeader row e.1 e.2 := by
  have htitled : Titled latinHeader := ⟨by decide +kernel, by decide +kernel⟩
  have hrecords : records latinFile = [latinHeader, latinRow] := by decide +kernel
  have hread : read latinFile = .ok (index [latinHeader, latinRow]) :=
    congrArg Except.ok (congrArg index hrecords)
  have hunread : isReadable latinHeader = false := by decide +kernel
  have hplace : latinHeader.findIdx (reads leiColumn) ≠ 0 := by decide +kernel
  obtain ⟨htaken, hcolumns⟩ := columns_respected_iff htitled
  refine ⟨htitled, hrecords, ⟨_, hread, by decide +kernel, htaken _ _ _ hrecords hread⟩,
    ⟨by decide +kernel, by decide +kernel⟩, fun hall => ?_⟩
  cases hcolumns.1 hall with
  | inl hreadable => exact Bool.false_ne_true (hunread.symm.trans hreadable)
  | inr hleads => exact hplace hleads.1

end LegalEntity.IndexFile
