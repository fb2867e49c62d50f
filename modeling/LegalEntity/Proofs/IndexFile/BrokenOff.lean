import LegalEntity.Archive.Content
import LegalEntity.Proofs.IndexFile.Columns

namespace LegalEntity.Csv

def Plain (s : List UInt8) : Prop := ∀ b ∈ s, b ≠ comma ∧ isBreak b = false

/-- A cell as it is written: bare, or in quotes with whatever follows the closing one. -/
inductive Cell : List UInt8 → Prop
  | bare : Plain s → s.head? ≠ some quote → Cell s
  | inQuotes (text : List UInt8) :
      Plain s → s.head? ≠ some quote → Cell (quote :: escape text ++ quote :: s)

inductive Line : List UInt8 → Prop
  | last : Cell cell → Line cell
  | more : Cell cell → Line line → Line (cell ++ comma :: line)

def HasLine (s : List UInt8) : Prop :=
  ∃ blank line b rest, s = blank ++ (line ++ b :: rest) ∧ (∀ c ∈ blank, isBreak c = true) ∧
    Line line ∧ line ≠ [] ∧ isBreak b = true

inductive Begun : Place → List UInt8 → Prop
  | start : Begun .start []
  | bare : Plain s → s ≠ [] → s.head? ≠ some quote → Begun .plain s
  | inQuotes (text : List UInt8) : Begun .quoted (quote :: escape text)
  | closed (text : List UInt8) : Begun .closing (quote :: escape text ++ [quote])
  | tail (text : List UInt8) : Plain s → s ≠ [] → s.head? ≠ some quote →
      Begun .plain (quote :: escape text ++ quote :: s)

section

variable {place next : Place} {b : UInt8} {s text cell line field : List UInt8} {fields : Record}

theorem escape_append_singleton (text : List UInt8) (b : UInt8) :
    escape (text ++ [b]) = escape text ++ escape [b] := by
  induction text with
  | nil => rfl
  | cons c text ih => by_cases hc : c = quote <;> simp [escape, hc, ih]

@[simp] theorem Plain.nil : Plain [] := fun _ hb => absurd hb List.not_mem_nil

theorem Plain.append_singleton (hs : Plain s) (hb : b ≠ comma ∧ isBreak b = false) :
    Plain (s ++ [b]) := by
  intro c hc
  cases List.mem_append.1 hc with
  | inl hc => exact hs c hc
  | inr hc => rwa [List.mem_singleton.1 hc]

theorem plainAction_eq_take :
    plainAction b = .take next ↔ next = .plain ∧ b ≠ comma ∧ isBreak b = false := by
  simp only [plainAction]
  split
  · simp_all
  · split
    · simp_all
    · rw [Action.take.injEq, eq_comm]
      simp_all

theorem plainAction_ne_skip : plainAction b ≠ .skip next := by
  simp only [plainAction]
  split
  · simp
  · split <;> simp

theorem plainAction_eq_endField : plainAction b = .endField ↔ b = comma := by
  simp only [plainAction]
  split
  · simp_all
  · split <;> simp_all

theorem plainAction_eq_endRecord : plainAction b = .endRecord ↔ isBreak b = true := by
  simp only [plainAction]
  split
  · rename_i hcomma
    obtain rfl := beq_iff_eq.1 hcomma
    exact iff_of_false (by simp) (by decide)
  · split <;> simp_all

theorem scan_cons : scan place field fields (b :: s) =
    match action place b with
    | .take next => scan next (b :: field) fields s
    | .skip next => scan next field fields s
    | .endField => scan .start [] (field.reverse :: fields) s
    | .endRecord =>
      { scan .outside [] [] s with
        records := (field.reverse :: fields).reverse :: (scan .outside [] [] s).records } := by
  cases place <;> rfl

theorem scan_outside (hb : isBreak b = false) :
    scan .outside field fields (b :: s) = scan .start field fields (b :: s) := by
  rw [scan_cons, scan_cons]
  simp [action, hb]

theorem head?_append_singleton (hne : s ≠ []) (hs : s.head? ≠ some quote) :
    (s ++ [b]).head? ≠ some quote := by
  cases s with
  | nil => exact absurd rfl hne
  | cons c s => exact hs

theorem Begun.take (h : Begun place s) (hb : action place b = .take next) :
    Begun next (s ++ [b]) := by
  cases h with
  | start =>
    simp only [action, startAction] at hb
    split at hb
    · cases hb
    · rename_i hquote
      obtain ⟨rfl, hplain⟩ := plainAction_eq_take.1 hb
      exact .bare (Plain.nil.append_singleton hplain) (by simp) (by simpa using hquote)
  | bare hs hne hhead =>
    obtain ⟨rfl, hplain⟩ := plainAction_eq_take.1 hb
    exact .bare (hs.append_singleton hplain) (by simp) (head?_append_singleton hne hhead)
  | inQuotes text =>
    simp only [action] at hb
    split at hb
    · cases hb
    · rename_i hquote
      cases hb
      have htext := Begun.inQuotes (text ++ [b])
      rw [escape_append_singleton] at htext
      simpa [escape, show b ≠ quote by simpa using hquote] using htext
  | closed text =>
    simp only [action] at hb
    split at hb
    · rename_i hquote
      cases hb
      have htext := Begun.inQuotes (text ++ [quote])
      rw [escape_append_singleton] at htext
      simpa [escape, beq_iff_eq.1 hquote] using htext
    · rename_i hquote
      obtain ⟨rfl, hplain⟩ := plainAction_eq_take.1 hb
      have htail := Begun.tail text (Plain.nil.append_singleton hplain) (by simp)
        (by simpa using hquote)
      simpa using htail
  | tail text hs hne hhead =>
    obtain ⟨rfl, hplain⟩ := plainAction_eq_take.1 hb
    have htail := Begun.tail text (hs.append_singleton hplain) (by simp)
      (head?_append_singleton hne hhead)
    simpa using htail

theorem Begun.skip (h : Begun place s) (hb : action place b = .skip next) :
    Begun next (s ++ [b]) := by
  cases h with
  | start =>
    simp only [action, startAction] at hb
    split at hb
    · rename_i hquote
      cases hb
      rw [beq_iff_eq.1 hquote]
      exact .inQuotes []
    · exact absurd hb plainAction_ne_skip
  | bare | tail => exact absurd hb plainAction_ne_skip
  | inQuotes text =>
    simp only [action] at hb
    split at hb
    · rename_i hquote
      cases hb
      rw [beq_iff_eq.1 hquote]
      exact .closed text
    · cases hb
  | closed text =>
    simp only [action] at hb
    split at hb
    · cases hb
    · exact absurd hb plainAction_ne_skip

theorem Begun.ended (h : Begun place s) (hb : action place b = .endField ∨ action place b = .endRecord) :
    Cell s ∧ plainAction b = action place b := by
  cases h with
  | start =>
    refine ⟨.bare .nil (by simp), ?_⟩
    simp only [action, startAction] at hb ⊢
    split at hb
    · simp at hb
    · rename_i hquote
      rw [if_neg hquote]
  | bare hs _ hhead => exact ⟨.bare hs hhead, rfl⟩
  | inQuotes text =>
    simp only [action] at hb
    split at hb <;> simp at hb
  | closed text =>
    refine ⟨.inQuotes text .nil (by simp), ?_⟩
    simp only [action] at hb ⊢
    split at hb
    · simp at hb
    · rename_i hquote
      rw [if_neg hquote]
  | tail text hs _ hhead => exact ⟨.inQuotes text hs hhead, rfl⟩

theorem line_of_records (h : Begun place cell) (hs : (scan place field fields s).records ≠ []) :
    ∃ line b rest, cell ++ s = line ++ b :: rest ∧ Line line ∧ isBreak b = true := by
  induction s generalizing place cell field fields with
  | nil => cases h <;> exact absurd rfl hs
  | cons c s ih =>
    rw [scan_cons] at hs
    cases haction : action place c with
    | take next =>
      rw [haction] at hs
      simpa using ih (h.take haction) hs
    | skip next =>
      rw [haction] at hs
      simpa using ih (h.skip haction) hs
    | endField =>
      rw [haction] at hs
      obtain ⟨hcell, hplain⟩ := h.ended (.inl haction)
      obtain ⟨line, b, rest, heq, hline, hb⟩ := ih .start hs
      rw [List.nil_append] at heq
      rw [plainAction_eq_endField.1 (hplain.trans haction), heq]
      exact ⟨cell ++ comma :: line, b, rest, by simp, .more hcell hline, hb⟩
    | endRecord =>
      obtain ⟨hcell, hplain⟩ := h.ended (.inr haction)
      exact ⟨cell, c, s, rfl, .last hcell, plainAction_eq_endRecord.1 (hplain.trans haction)⟩

theorem hasLine_of_records (h : (read s).records ≠ []) : HasLine s := by
  induction s with
  | nil => exact absurd rfl h
  | cons c s ih =>
    cases hc : isBreak c with
    | true =>
      rw [read, scan_cons] at h
      simp only [action, hc, if_true] at h
      obtain ⟨blank, line, b, rest, heq, hblank, hline⟩ := ih h
      exact ⟨c :: blank, line, b, rest, by rw [heq]; rfl, List.forall_mem_cons.2 ⟨hc, hblank⟩, hline⟩
    | false =>
      rw [read, scan_outside hc] at h
      obtain ⟨line, b, rest, heq, hline, hb⟩ := line_of_records .start h
      refine ⟨[], line, b, rest, heq, by simp, hline, ?_, hb⟩
      rintro rfl
      cases heq
      exact absurd hb (Bool.eq_false_iff.1 hc)

theorem Plain.head (hs : Plain s) (hb : s.head? = some b) : isBreak b = false :=
  (hs b (List.mem_of_head? hb)).2

theorem Cell.head (h : Cell cell) (hb : cell.head? = some b) : isBreak b = false := by
  cases h with
  | bare hs _ => exact hs.head hb
  | inQuotes text _ _ =>
    cases hb
    rfl

theorem Line.head (h : Line line) (hb : line.head? = some b) : isBreak b = false := by
  cases h with
  | last hcell => exact hcell.head hb
  | @more cell line hcell hline =>
    cases cell with
    | nil =>
      cases hb
      rfl
    | cons c cell => exact hcell.head hb

theorem scan_plain (hs : Plain s) (t : List UInt8) :
    scan .plain field fields (s ++ t) = scan .plain (s.reverse ++ field) fields t := by
  induction s generalizing field with
  | nil => rfl
  | cons c s ih =>
    have hc : action .plain c = .take .plain :=
      plainAction_eq_take.2 ⟨rfl, hs c List.mem_cons_self⟩
    rw [List.cons_append, scan_cons, hc]
    simpa using ih (fun b hb => hs b (List.mem_cons_of_mem c hb))

def Place.endsCell (place : Place) : Prop := ∀ b, b ≠ quote → action place b = plainAction b

theorem scan_tail (hplace : place.endsCell) (hs : Plain s) (hhead : s.head? ≠ some quote)
    (t : List UInt8) : ∃ after field', Place.endsCell after ∧
      scan place field fields (s ++ t) = scan after field' fields t := by
  cases s with
  | nil => exact ⟨place, field, hplace, rfl⟩
  | cons c s =>
    have hc : action place c = .take .plain := by
      rw [hplace c fun hquote => hhead (congrArg some hquote)]
      exact plainAction_eq_take.2 ⟨rfl, hs c List.mem_cons_self⟩
    refine ⟨.plain, s.reverse ++ c :: field, fun _ _ => rfl, ?_⟩
    rw [List.cons_append, scan_cons, hc]
    exact scan_plain (fun b hb => hs b (List.mem_cons_of_mem c hb)) t

theorem Cell.scan (h : Cell cell) (fields : Record) (t : List UInt8) :
    ∃ after field, Place.endsCell after ∧
      scan .start [] fields (cell ++ t) = Csv.scan after field fields t := by
  cases h with
  | bare hs hhead =>
    apply scan_tail _ hs hhead
    intro b hb
    simp [action, startAction, hb]
  | inQuotes text hs hhead =>
    rw [List.append_assoc, List.cons_append, scan_cons]
    have hquote : action .start quote = .skip .quoted := rfl
    rw [hquote, List.cons_append]
    have htext := scan_escape text [] fields
    simp only at htext ⊢
    rw [htext]
    apply scan_tail _ hs hhead
    intro b hb
    simp [action, hb]

theorem isBreak_ne (hb : isBreak b = true) : b ≠ quote ∧ b ≠ comma := by
  constructor
  all_goals
    rintro rfl
    cases hb

theorem Line.records (h : Line line) (hb : isBreak b = true) (rest : List UInt8) :
    (scan .start [] fields (line ++ b :: rest)).records ≠ [] := by
  induction h generalizing fields with
  | last hcell =>
    obtain ⟨after, field, hafter, heq⟩ := hcell.scan fields (b :: rest)
    rw [heq, scan_cons, hafter b (isBreak_ne hb).1, plainAction_eq_endRecord.2 hb]
    exact List.cons_ne_nil _ _
  | @more cell line hcell _ ih =>
    obtain ⟨after, field, hafter, heq⟩ := hcell.scan fields (comma :: (line ++ b :: rest))
    rw [List.append_assoc, List.cons_append, heq, scan_cons, hafter comma (by decide),
      plainAction_eq_endField.2 rfl]
    exact ih

theorem records_of_hasLine (h : HasLine s) : (read s).records ≠ [] := by
  obtain ⟨blank, line, b, rest, rfl, hblank, hline, hne, hb⟩ := h
  induction blank with
  | nil =>
    obtain ⟨c, line, rfl⟩ := List.exists_cons_of_ne_nil hne
    rw [List.nil_append, read, List.cons_append, scan_outside (hline.head rfl)]
    exact hline.records hb rest
  | cons c blank ih =>
    rw [List.cons_append, read, scan_cons]
    simp only [action, hblank c List.mem_cons_self, if_true]
    exact ih fun d hd => hblank d (List.mem_cons_of_mem c hd)

end

end LegalEntity.Csv

namespace LegalEntity.IndexFile

theorem read_broken_of_hasLine {s : List UInt8} (h : Csv.HasLine (withoutMark s)) :
    read ⟨s, true⟩ = .error .csv := by
  have hrecords := Csv.records_of_hasLine h
  simp [read, hrecords]

theorem read_broken_of_not_hasLine {s : List UInt8} (h : ¬Csv.HasLine (withoutMark s)) :
    read ⟨s, true⟩ = .ok .empty := by
  have hrecords : (Csv.read (withoutMark s)).records = [] :=
    Classical.not_not.1 fun hne => h (Csv.hasLine_of_records hne)
  simp [read, hrecords]

def archived? (archive : List UInt8) : Option Stream :=
  (Archive.directory? archive.toArray).bind fun es => (Archive.firstCsv archive.toArray es).toOption

theorem readIndex_of_archived {archive : List UInt8} {s : Stream} (h : archived? archive = some s) :
    Archive.readIndex archive = read s := by
  obtain ⟨es, hes, hs⟩ := Option.bind_eq_some_iff.1 h
  simp only [Archive.readIndex, hes]
  cases hfirst : Archive.firstCsv archive.toArray es with
  | error e =>
    rw [hfirst] at hs
    cases hs
  | ok file =>
    rw [hfirst] at hs
    cases hs
    rfl

/-- A file that breaks off is an error exactly if its header has ended. Otherwise it gives the empty
index. The same holds of an archive whose file breaks off. -/
theorem broken_off_iff (s : List UInt8) :
    (read ⟨s, true⟩ = .error .csv ↔ Csv.HasLine (withoutMark s)) ∧
    (∀ x, read ⟨s, true⟩ = .ok x ↔ ¬Csv.HasLine (withoutMark s) ∧ x = .empty) ∧
    ∀ archive, archived? archive = some ⟨s, true⟩ →
      (Archive.readIndex archive = .error .csv ↔ Csv.HasLine (withoutMark s)) := by
  have hread : read ⟨s, true⟩ = .error .csv ↔ Csv.HasLine (withoutMark s) := by
    by_cases h : Csv.HasLine (withoutMark s)
    · simp [read_broken_of_hasLine h, h]
    · simp [read_broken_of_not_hasLine h, h]
  refine ⟨hread, fun x => ?_, fun archive harchive => ?_⟩
  · by_cases h : Csv.HasLine (withoutMark s)
    · simp [read_broken_of_hasLine h, h]
    · simp [read_broken_of_not_hasLine h, h, eq_comm]
  · rw [readIndex_of_archived harchive]
    exact hread

/-- `LEI,ISIN` without a line break. -/
def openHeader : List UInt8 := [0x4C, 0x45, 0x49, 0x2C, 0x49, 0x53, 0x49, 0x4E]

/-- The header alone in a file whose checksum is another. -/
def openArchive : List UInt8 :=
  [0x50, 0x4B, 0x03, 0x04, 0x14, 0, 0, 0, 0, 0, 0, 0, 0x21, 0, 0, 0, 0, 0, 0x08, 0, 0, 0, 0x08, 0,
   0, 0, 0x05, 0, 0, 0, 0x61, 0x2E, 0x63, 0x73, 0x76, 0x4C, 0x45, 0x49, 0x2C, 0x49, 0x53, 0x49,
   0x4E, 0x50, 0x4B, 0x01, 0x02, 0x14, 0, 0x14, 0, 0, 0, 0, 0, 0, 0, 0x21, 0, 0, 0, 0, 0, 0x08, 0,
   0, 0, 0x08, 0, 0, 0, 0x05, 0, 0, 0, 0, 0, 0, 0, 0, 0, 0, 0, 0, 0, 0, 0, 0, 0, 0x61, 0x2E, 0x63,
   0x73, 0x76, 0x50, 0x4B, 0x05, 0x06, 0, 0, 0, 0, 0x01, 0, 0x01, 0, 0x33, 0, 0, 0, 0x2B, 0, 0, 0,
   0, 0]

/-- A header that is all of the file gives the empty index, also out of an archive. -/
theorem broken_off_openHeader :
    read ⟨openHeader, true⟩ = .ok .empty ∧ read ⟨openHeader, true⟩ ≠ .error .csv ∧
      Archive.readIndex openArchive ≠ .error .csv := by
  obtain ⟨hread, hok, harchive⟩ := broken_off_iff openHeader
  have hempty : read ⟨openHeader, true⟩ = .ok .empty := rfl
  have hopen : ¬Csv.HasLine (withoutMark openHeader) := ((hok _).1 hempty).1
  refine ⟨hempty, fun h => hopen (hread.1 h), fun h => hopen ?_⟩
  exact (harchive openArchive (by decide +kernel)).1 h

end LegalEntity.IndexFile
