namespace LegalEntity

def insertEntry (key : String) (value : α) : List (String × α) → List (String × α)
  | [] => [(key, value)]
  | (k, v) :: rest =>
    if key < k then (key, value) :: (k, v) :: rest
    else if k < key then (k, v) :: insertEntry key value rest
    else (key, value) :: rest

theorem mem_insertEntry {key : String} {value : α} {entries : List (String × α)}
    {e : String × α} (h : e ∈ insertEntry key value entries) :
    e = (key, value) ∨ e ∈ entries := by
  induction entries with
  | nil => simpa [insertEntry] using h
  | cons kv rest ih =>
    simp only [insertEntry] at h
    split at h
    · simpa using h
    · split at h
      · rcases List.mem_cons.1 h with h | h
        · simp [h]
        · rcases ih h with h | h <;> simp [h]
      · rcases List.mem_cons.1 h with h | h <;> simp [h]

theorem ascending_insertEntry {key : String} {value : α} {entries : List (String × α)}
    (h : entries.Pairwise (·.1 < ·.1)) : (insertEntry key value entries).Pairwise (·.1 < ·.1) := by
  induction entries with
  | nil => simp [insertEntry]
  | cons kv rest ih =>
    obtain ⟨hk, hr⟩ := List.pairwise_cons.1 h
    simp only [insertEntry]
    split
    · rename_i hlt
      refine List.pairwise_cons.2 ⟨fun e he => ?_, h⟩
      rcases List.mem_cons.1 he with rfl | he
      · exact hlt
      · exact String.lt_trans hlt (hk e he)
    · split
      · rename_i hlt
        refine List.pairwise_cons.2 ⟨fun e he => ?_, ih hr⟩
        rcases mem_insertEntry he with rfl | he
        · exact hlt
        · exact hk e he
      · rename_i h1 h2
        have : key = kv.1 := String.le_antisymm (String.not_lt.1 h2) (String.not_lt.1 h1)
        exact List.pairwise_cons.2 ⟨fun e he => this ▸ hk e he, hr⟩

theorem lookup_insertEntry_self (key : String) (value : α) (entries : List (String × α)) :
    (insertEntry key value entries).lookup key = some value := by
  induction entries with
  | nil => simp [insertEntry]
  | cons kv rest ih =>
    obtain ⟨k, v⟩ := kv
    simp only [insertEntry]
    split
    · simp
    · split
      · rename_i hlt
        have hne : (key == k) = false :=
          beq_eq_false_iff_ne.2 fun h => String.lt_irrefl _ (h ▸ hlt)
        simp [List.lookup_cons, hne, ih]
      · simp

theorem lookup_insertEntry_of_ne {key other : String} (h : other ≠ key) (value : α)
    (entries : List (String × α)) :
    (insertEntry key value entries).lookup other = entries.lookup other := by
  have hne : (other == key) = false := beq_eq_false_iff_ne.2 h
  induction entries with
  | nil => simp [insertEntry, List.lookup_cons, hne]
  | cons kv rest ih =>
    obtain ⟨k, v⟩ := kv
    simp only [insertEntry]
    split
    · rw [List.lookup_cons, hne]
    · split
      · simp [List.lookup_cons, ih]
      · rename_i h1 h2
        have hk : k = key := String.le_antisymm (String.not_lt.1 h1) (String.not_lt.1 h2)
        rw [List.lookup_cons, List.lookup_cons, hk, hne]

theorem lookup_filter_ne (key other : String) (entries : List (String × α)) :
    (entries.filter (·.1 != key)).lookup other
      = if other = key then none else entries.lookup other := by
  induction entries with
  | nil => simp
  | cons kv rest ih =>
    by_cases hk : kv.1 = key
    · rw [List.filter_cons_of_neg (by simp [hk]), ih]
      split
      · rfl
      · rename_i ho
        rw [List.lookup_cons, beq_eq_false_iff_ne.2 (hk ▸ ho)]
    · rw [List.filter_cons_of_pos (by simp [hk]), List.lookup_cons, List.lookup_cons, ih]
      by_cases ho : other = key
      · simp [ho, beq_eq_false_iff_ne.2 (Ne.symm hk)]
      · simp [ho]

structure Table (α : Type) where
  entries : List (String × α)
  ascending : entries.Pairwise (·.1 < ·.1)

namespace Table

theorem ext {s t : Table α} (h : s.entries = t.entries) : s = t := by
  cases s; cases t; simp_all

instance [DecidableEq α] : DecidableEq (Table α) := fun s t =>
  if h : s.entries = t.entries then isTrue (ext h) else isFalse fun e => h (congrArg entries e)

def empty : Table α := ⟨[], List.Pairwise.nil⟩

instance : Inhabited (Table α) := ⟨empty⟩

def insert (t : Table α) (key : String) (value : α) : Table α :=
  ⟨insertEntry key value t.entries, ascending_insertEntry t.ascending⟩

def ofList (entries : List (String × α)) : Table α :=
  entries.foldl (fun t e => t.insert e.1 e.2) empty

def erase (t : Table α) (key : String) : Table α :=
  ⟨t.entries.filter (·.1 != key), t.ascending.filter _⟩

def get? (t : Table α) (key : String) : Option α := t.entries.lookup key

def size (t : Table α) : Nat := t.entries.length

def isEmpty (t : Table α) : Bool := t.entries.isEmpty

def keys (t : Table α) : List String := t.entries.map (·.1)

@[simp] theorem get?_empty (key : String) : (empty : Table α).get? key = none := rfl

@[simp] theorem get?_insert_self (t : Table α) (key : String) (value : α) :
    (t.insert key value).get? key = some value :=
  lookup_insertEntry_self key value t.entries

theorem get?_insert_of_ne (t : Table α) {key other : String} (h : other ≠ key) (value : α) :
    (t.insert key value).get? other = t.get? other :=
  lookup_insertEntry_of_ne h value t.entries

theorem get?_erase (t : Table α) (key other : String) :
    (t.erase key).get? other = if other = key then none else t.get? other :=
  lookup_filter_ne key other t.entries

end Table

end LegalEntity
