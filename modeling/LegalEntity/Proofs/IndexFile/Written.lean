import LegalEntity.Csv

namespace LegalEntity.Csv

def escape : List UInt8 → List UInt8
  | [] => []
  | b :: bs => if b = quote then quote :: quote :: escape bs else b :: escape bs

def writeCell (cell : List UInt8) : List UInt8 := quote :: escape cell ++ [quote]

def writeRecord : Record → List UInt8
  | [] => [0x0A]
  | [cell] => writeCell cell ++ [0x0A]
  | cell :: next :: cells => writeCell cell ++ comma :: writeRecord (next :: cells)

def write : List Record → List UInt8
  | [] => []
  | record :: records => writeRecord record ++ write records

theorem scan_escape (cell field : List UInt8) (fields : Record) (s : List UInt8) :
    scan .quoted field fields (escape cell ++ quote :: s) =
      scan .closing (cell.reverse ++ field) fields s := by
  induction cell generalizing field with
  | nil => simp [escape, scan, action]
  | cons b bs ih =>
    by_cases hb : b = quote
    · subst hb
      simp [escape, scan, action, ih]
    · simp [escape, scan, action, hb, ih]

def Place.isOpen : Place → Bool
  | .outside => true
  | .start => true
  | _ => false

theorem scan_writeCell {place : Place} (h : place.isOpen = true) (cell : List UInt8)
    (fields : Record) (s : List UInt8) :
    scan place [] fields (writeCell cell ++ s) = scan .closing cell.reverse fields s := by
  have hquote : action place quote = .skip .quoted := by
    cases place with
    | outside | start => rfl
    | _ => cases h
  have hcell := scan_escape cell [] fields s
  rw [List.append_nil] at hcell
  rw [writeCell, List.append_assoc, List.cons_append]
  cases place <;> simp [scan, hquote, hcell]

theorem scan_writeRecord {place : Place} (h : place.isOpen = true) (cell : List UInt8)
    (cells fields : Record) (s : List UInt8) :
    scan place [] fields (writeRecord (cell :: cells) ++ s) =
      { scan .outside [] [] s with
        records := (fields.reverse ++ cell :: cells) :: (scan .outside [] [] s).records } := by
  induction cells generalizing place cell fields with
  | nil =>
    rw [writeRecord, List.append_assoc, scan_writeCell h]
    simp [scan, action, plainAction, isBreak, comma, quote]
  | cons next cells ih =>
    rw [writeRecord, List.append_assoc, scan_writeCell h]
    have hcomma : action .closing comma = .endField := rfl
    have hrest := ih (rfl : Place.start.isOpen = true) next (cell :: fields)
    simpa [scan, hcomma] using hrest

theorem read_write {rs : List Record} (h : ∀ r ∈ rs, r ≠ []) : read (write rs) = ⟨rs, none⟩ := by
  induction rs with
  | nil => rfl
  | cons r rs ih =>
    obtain ⟨cell, cells, rfl⟩ := List.exists_cons_of_ne_nil (h r List.mem_cons_self)
    have hrest := ih fun r' hr' => h r' (List.mem_cons_of_mem _ hr')
    rw [read] at hrest
    rw [read, write, scan_writeRecord rfl, hrest]
    rfl

end LegalEntity.Csv
