import LegalEntity.Proofs.Index.Loads

namespace LegalEntity.Archive

/-- The entries of an archive in order, before those of one name are made one. -/
def listing? (s : Bytes) : Option (List Entry) :=
  fromEnd? s fun p => entries? s p p.entries p.start

structure Lists (archive : List UInt8) (es : List Entry) : Prop where
  listing : listing? archive.toArray = some es
  distinct : (es.map Entry.name).Nodup

theorem fromEnd?_map {α β : Type} (s : Bytes) (read : Place → Option α) (f : α → β) :
    (fromEnd? s fun p => (read p).map f) = (fromEnd? s read).map f := by
  simp only [fromEnd?, List.map_findSome?, Function.comp_def, Option.bind_eq_bind, Option.map_bind]

theorem directory?_eq (s : Bytes) :
    directory? s = (listing? s).map (·.foldl addEntry []) := by
  rw [directory?, listing?, ← fromEnd?_map]
  congr 1
  funext p
  cases entries? s p p.entries p.start <;> rfl

theorem addEntry_of_notMem {es : List Entry} {e : Entry} (h : e.name ∉ es.map Entry.name) :
    addEntry es e = es ++ [e] := by
  have hany : es.any (·.name == e.name) = false := by
    simpa using h
  simp [addEntry, hany]

theorem foldl_addEntry {kept es : List Entry} (h : ((kept ++ es).map Entry.name).Nodup) :
    es.foldl addEntry kept = kept ++ es := by
  induction es generalizing kept with
  | nil => simp
  | cons e es ih =>
    have hnew : e.name ∉ kept.map Entry.name := fun hmem => by
      rw [List.map_append] at h
      exact (List.nodup_append.1 h).2.2 _ hmem _ (List.mem_map_of_mem List.mem_cons_self) rfl
    rw [List.foldl_cons, addEntry_of_notMem hnew, ih (by simpa using h)]
    simp

theorem Lists.directory {archive : List UInt8} {es : List Entry} (h : Lists archive es) :
    directory? archive.toArray = some es := by
  rw [directory?_eq, h.listing]
  exact congrArg some (foldl_addEntry h.distinct)

section

variable {s : Bytes} {before es : List Entry} {e : Entry}

end

section

variable {archive : List UInt8} {es before : List Entry} {e : Entry} {c : IndexFile.Stream}

end

end LegalEntity.Archive
