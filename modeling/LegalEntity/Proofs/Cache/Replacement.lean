import LegalEntity.Proofs.Cache.Agreement
import Mathlib.Data.Set.Defs

namespace LegalEntity

theorem Table.mem_keys_iff {t : Table α} {key : String} : key ∈ t.keys ↔ t.get? key ≠ none := by
  constructor
  · intro h hnone
    obtain ⟨e, he, rfl⟩ := List.mem_map.1 h
    have hne := List.lookup_eq_none_iff.1 hnone e he
    simp at hne
  · intro h
    obtain ⟨value, hvalue⟩ := Option.ne_none_iff_exists'.1 h
    obtain ⟨before, after, heq, -⟩ := List.lookup_eq_some_iff.1 hvalue
    rw [keys, heq]
    simp

theorem Table.get?_insert (t : Table α) (key other : String) (value : α) :
    (t.insert key value).get? other = if other = key then some value else t.get? other := by
  split
  · rename_i h
    rw [h, get?_insert_self]
  · rename_i h
    exact get?_insert_of_ne t h value

namespace Cache

namespace Disk

variable {d d' : Disk} {name other old new : String} {bytes : List UInt8}

theorem read_present (nodes : Table Node) (name : String) :
    (Disk.present nodes).read name = readingOf (nodes.get? name) := by
  rw [read]
  cases nodes.get? name with
  | none => rfl
  | some node => cases node <;> rfl

theorem read_create? (h : d.create? = some d') (name : String) : d'.read name = d.read name := by
  cases d <;> cases h <;> rfl

theorem names_create? (h : d.create? = some d') : d'.names = d.names := by
  cases d <;> cases h <;> rfl

theorem names_of_create?_eq_none (h : d.create? = none) : d.names = [] := by
  cases d <;> cases h
  rfl

theorem exists_of_write? (h : d.write? name bytes = some d') : ∃ nodes : Table Node,
    d = .present nodes ∧ d' = .present (nodes.insert name (.file bytes)) := by
  cases d with
  | present nodes =>
    simp only [write?, nodes?, Option.bind_eq_bind, Option.bind_some] at h
    split at h <;> cases h
    exact ⟨nodes, rfl, rfl⟩
  | _ => cases h

theorem exists_of_rename? (h : d.rename? old new = some d') : ∃ (nodes : Table Node) (node : Node),
    d = .present nodes ∧ nodes.get? old = some node ∧
      d' = .present ((nodes.erase old).insert new node) := by
  cases d with
  | present nodes =>
    simp only [rename?, nodes?, Option.bind_eq_bind, Option.bind_some] at h
    split at h <;> cases h
    rename_i node hnode _
    exact ⟨nodes, node, rfl, hnode, rfl⟩
  | _ => cases h

theorem read_write?_self (h : d.write? name bytes = some d') : d'.read name = .bytes bytes := by
  obtain ⟨nodes, rfl, rfl⟩ := exists_of_write? h
  simp [read_present, readingOf]

theorem read_write?_of_ne (h : d.write? name bytes = some d') (hne : other ≠ name) :
    d'.read other = d.read other := by
  obtain ⟨nodes, rfl, rfl⟩ := exists_of_write? h
  simp [read_present, Table.get?_insert_of_ne _ hne]

theorem mem_names_write? (h : d.write? name bytes = some d') :
    other ∈ d'.names ↔ other = name ∨ other ∈ d.names := by
  obtain ⟨nodes, rfl, rfl⟩ := exists_of_write? h
  simp only [names, Table.mem_keys_iff, Table.get?_insert]
  split <;> simp_all

theorem read_remove_of_ne (hne : other ≠ name) : (d.remove name).read other = d.read other := by
  cases d with
  | present nodes => simp [remove, read_present, Table.get?_erase, hne]
  | _ => rfl

theorem mem_names_remove : other ∈ (d.remove name).names ↔ other ≠ name ∧ other ∈ d.names := by
  cases d with
  | present nodes =>
    simp only [remove, names, Table.mem_keys_iff, Table.get?_erase]
    split <;> simp_all
  | _ => simp [remove, names]

theorem read_rename?_new (h : d.rename? old new = some d') : d'.read new = d.read old := by
  obtain ⟨nodes, node, rfl, hnode, rfl⟩ := exists_of_rename? h
  simp [read_present, hnode]

theorem read_rename?_of_ne (h : d.rename? old new = some d') (hnew : other ≠ new)
    (hold : other ≠ old) : d'.read other = d.read other := by
  obtain ⟨nodes, node, rfl, -, rfl⟩ := exists_of_rename? h
  simp [read_present, Table.get?_insert_of_ne _ hnew, Table.get?_erase, hold]

theorem mem_names_rename? (h : d.rename? old new = some d') :
    other ∈ d'.names ↔ other = new ∨ other ≠ old ∧ other ∈ d.names := by
  obtain ⟨nodes, node, rfl, -, rfl⟩ := exists_of_rename? h
  simp only [names, Table.mem_keys_iff, Table.get?_insert, Table.get?_erase]
  split
  · simp_all
  · split <;> simp_all

end Disk

namespace Directory

/-- The ends of putting bytes in the place of a key's file: at any of the steps. -/
inductive Replaces (key : String) (entropy : UInt64) (bytes : List UInt8) (d : Disk) :
    Except Error Unit → Disk → Prop
  | uncreated (h : d.create? = none) : Replaces key entropy bytes d (.error .io) d
  | unwritten {d₁ : Disk} (hcreate : d.create? = some d₁)
      (h : d₁.write? (stagingName key entropy) bytes = none) :
      Replaces key entropy bytes d (.error .io) d₁
  | unrenamed {d₁ d₂ : Disk} (hcreate : d.create? = some d₁)
      (hwrite : d₁.write? (stagingName key entropy) bytes = some d₂)
      (h : d₂.rename? (stagingName key entropy) (fileName key) = none) :
      Replaces key entropy bytes d (.error .io) (d₂.remove (stagingName key entropy))
  | replaced {d₁ d₂ d₃ : Disk} (hcreate : d.create? = some d₁)
      (hwrite : d₁.write? (stagingName key entropy) bytes = some d₂)
      (hrename : d₂.rename? (stagingName key entropy) (fileName key) = some d₃) :
      Replaces key entropy bytes d (.ok ()) d₃

inductive Passes (key : String) (entropy : UInt64) (bytes : List UInt8) (d : Disk) : Disk → Prop
  | start : Passes key entropy bytes d d
  | created {d₁ : Disk} (hcreate : d.create? = some d₁) : Passes key entropy bytes d d₁
  | written {d₁ d₂ : Disk} (hcreate : d.create? = some d₁)
      (hwrite : d₁.write? (stagingName key entropy) bytes = some d₂) : Passes key entropy bytes d d₂
  | done : Passes key entropy bytes d (replace key entropy bytes d).2

section

variable {key other : String} {entropy : UInt64} {bytes : List UInt8} {d d₁ d₂ d₃ : Disk}
  {answer : Except Error Unit}

theorem replaces_replace (key : String) (entropy : UInt64) (bytes : List UInt8) (d : Disk) :
    Replaces key entropy bytes d (replace key entropy bytes d).1 (replace key entropy bytes d).2 := by
  unfold replace
  split
  · rename_i hcreate
    exact .uncreated hcreate
  · rename_i d₁ hcreate
    simp only
    split
    · rename_i hwrite
      exact .unwritten hcreate hwrite
    · rename_i d₂ hwrite
      split
      · rename_i hrename
        exact .unrenamed hcreate hwrite hrename
      · rename_i d₃ hrename
        exact .replaced hcreate hwrite hrename

theorem fileName_ne_stagingName (other key : String) (entropy : UInt64) :
    fileName other ≠ stagingName key entropy := fun h => by
  rw [stagingName_eq] at h
  exact stagingEnding_ne entropy (stem_append_inj h).2.symm

theorem fileName_injective
    (hdigest : Digest.sha256 (Text.utf8 other) = Digest.sha256 (Text.utf8 key) → other = key)
    (h : fileName other = fileName key) : other = key :=
  hdigest (Digest.hex_injective (stem_append_inj h).1)

theorem read_written (hcreate : d.create? = some d₁)
    (hwrite : d₁.write? (stagingName key entropy) bytes = some d₂) (other : String) :
    d₂.read (fileName other) = d.read (fileName other) := by
  rw [Disk.read_write?_of_ne hwrite (fileName_ne_stagingName other key entropy),
    Disk.read_create? hcreate]

theorem Replaces.read_of_error {e : Error} (h : Replaces key entropy bytes d (.error e) d₃)
    (other : String) : d₃.read (fileName other) = d.read (fileName other) := by
  cases h with
  | uncreated => rfl
  | unwritten hcreate => exact Disk.read_create? hcreate _
  | unrenamed hcreate hwrite =>
    rw [Disk.read_remove_of_ne (fileName_ne_stagingName other key entropy),
      read_written hcreate hwrite]

theorem Replaces.read_self (h : Replaces key entropy bytes d (.ok ()) d₃) :
    d₃.read (fileName key) = .bytes bytes := by
  cases h with
  | replaced _ hwrite hrename =>
    rw [Disk.read_rename?_new hrename, Disk.read_write?_self hwrite]

theorem Replaces.read_of_ne (h : Replaces key entropy bytes d (.ok ()) d₃)
    (hne : fileName other ≠ fileName key) : d₃.read (fileName other) = d.read (fileName other) := by
  cases h with
  | replaced hcreate hwrite hrename =>
    rw [Disk.read_rename?_of_ne hrename hne (fileName_ne_stagingName other key entropy),
      read_written hcreate hwrite]

theorem Replaces.names_of_ok (h : Replaces key entropy bytes d (.ok ()) d₃) {name : String}
    (hname : name ∈ d₃.names) : name = fileName key ∨ name ∈ d.names := by
  cases h with
  | replaced hcreate hwrite hrename =>
    refine ((Disk.mem_names_rename? hrename).1 hname).imp_right fun ⟨hne, hname⟩ => ?_
    rw [← Disk.names_create? hcreate]
    exact ((Disk.mem_names_write? hwrite).1 hname).resolve_left hne

def FailsToCreate (d : Disk) : Prop := d.create? = none

def FailsToRename (key : String) (entropy : UInt64) (bytes : List UInt8) (d : Disk) : Prop :=
  ∃ d₁ d₂, d.create? = some d₁ ∧ d₁.write? (stagingName key entropy) bytes = some d₂ ∧
    d₂.rename? (stagingName key entropy) (fileName key) = none

theorem failsToRename_of_directory {nodes : Table Node}
    (hfile : nodes.get? (fileName key) = some .directory)
    (hstaging : nodes.get? (stagingName key entropy) ≠ some .directory) :
    FailsToRename key entropy bytes (.present nodes) := by
  have hne : fileName key ≠ stagingName key entropy := fileName_ne_stagingName key key entropy
  refine ⟨.present nodes, .present (nodes.insert (stagingName key entropy) (.file bytes)), rfl, ?_,
    ?_⟩
  · simp [Disk.write?, Disk.nodes?, hstaging]
  · exact Disk.rename?_of_directory (Table.get?_insert_self _ _ _)
      ((Table.get?_insert_of_ne nodes hne _).trans hfile)

theorem answer_of_fails (h : FailsToCreate d ∨ FailsToRename key entropy bytes d) :
    (replace key entropy bytes d).1 = .error .io := by
  obtain hcreate | ⟨d₁, d₂, hcreate, hwrite, hrename⟩ := h
  · simp [replace, show d.create? = none from hcreate]
  · simp [replace, hcreate, hwrite, hrename]

theorem names_of_fails (h : FailsToCreate d ∨ FailsToRename key entropy bytes d) {name : String}
    (hname : name ∈ (replace key entropy bytes d).2.names) :
    name ≠ stagingName key entropy ∧ name ∈ d.names := by
  obtain hcreate | ⟨d₁, d₂, hcreate, hwrite, hrename⟩ := h
  · have hcreate : d.create? = none := hcreate
    simp [replace, hcreate, Disk.names_of_create?_eq_none hcreate] at hname
  · simp only [replace, hcreate, hwrite, hrename] at hname
    obtain ⟨hne, hname⟩ := Disk.mem_names_remove.1 hname
    refine ⟨hne, ?_⟩
    rw [← Disk.names_create? hcreate]
    exact ((Disk.mem_names_write? hwrite).1 hname).resolve_left hne

theorem Passes.read (h : Passes key entropy bytes d d₁) (other : String) :
    d₁.read (fileName other) = d.read (fileName other) ∨
      d₁.read (fileName other) = (replace key entropy bytes d).2.read (fileName other) := by
  cases h with
  | start => exact .inl rfl
  | created hcreate => exact .inl (Disk.read_create? hcreate _)
  | written hcreate hwrite => exact .inl (read_written hcreate hwrite other)
  | done => exact .inr rfl

theorem get_eq_reading (m : Moment) (key : String) (s : Directory) :
    (s.get m key).1 = reading m s.lifetime (s.disk.read (fileName key)) := by
  rw [get_part, fileName, ← Disk.read_append]

theorem get_congr_read {s t : Directory} (hlifetime : t.lifetime = s.lifetime)
    (hread : t.disk.read (fileName key) = s.disk.read (fileName key)) (m : Moment) :
    (t.get m key).1 = (s.get m key).1 := by
  rw [get_eq_reading, get_eq_reading, hlifetime, hread]

theorem reading_encode {time : Timestamp} {v : Json} (htime : time.IsUtc) (hv : v.IsTexts)
    (m : Moment) (lifetime : Option Duration) :
    reading m lifetime (.bytes (StoredEntry.encode ⟨time, v⟩)) =
      .ok (if isExpired lifetime time.instant m.now.instant then none else some v) := by
  simp only [reading, StoredEntry.decode?_encode (e := ⟨time, v⟩) htime hv]
  split <;> rfl

end

structure PutsWhole (keys : Set String) (m : Moment) (key : String) (v : Json) (s : Directory) :
    Prop where
  value (hok : (s.put m key v).1 = .ok ()) (later : Moment) :
    ((s.put m key v).2.get later key).1 =
      .ok (if isExpired s.lifetime m.now.instant later.now.instant then none else some v)
  others (hok : (s.put m key v).1 = .ok ()) {other : String} (hother : other ∈ keys)
    (hne : other ≠ key) (later : Moment) :
    ((s.put m key v).2.get later other).1 = (s.get later other).1
  gained (hok : (s.put m key v).1 = .ok ()) {name : String}
    (hname : name ∈ (s.put m key v).2.disk.names) : name = fileName key ∨ name ∈ s.disk.names
  failed (hfails : FailsToCreate s.disk ∨
      FailsToRename key m.entropy (StoredEntry.encode ⟨m.now, v⟩) s.disk) :
    (s.put m key v).1 = .error .io ∧
      ∀ other later, ((s.put m key v).2.get later other).1 = (s.get later other).1
  left (hfails : FailsToCreate s.disk ∨
      FailsToRename key m.entropy (StoredEntry.encode ⟨m.now, v⟩) s.disk) {name : String}
    (hname : name ∈ (s.put m key v).2.disk.names) :
    name ≠ stagingName key m.entropy ∧ name ∈ s.disk.names
  between {d : Disk} (hpasses : Passes key m.entropy (StoredEntry.encode ⟨m.now, v⟩) s.disk d)
    (other : String) (later : Moment) :
    (get later other { s with disk := d }).1 = (s.get later other).1 ∨
      (get later other { s with disk := d }).1 = ((s.put m key v).2.get later other).1

/-- Putting a value under a key replaces the file of the key and no other, or nothing. After it has
succeeded the key has the value until it expires, the other keys have what they had, and there is at
most the key's file more. If the directory cannot be created or the new file cannot be renamed, every
key has what it had and no file is left over. Nowhere in between is a key read otherwise than before
or after. -/
theorem put_all_or_nothing {keys : Set String}
    (hdigest : ∀ k ∈ keys, ∀ l ∈ keys,
      Digest.sha256 (Text.utf8 k) = Digest.sha256 (Text.utf8 l) → k = l)
    (s : Directory) {m : Moment} (hutc : m.now.IsUtc) {key : String} (hkey : key ∈ keys) (v : Kept) :
    PutsWhole keys m key v.toJson s := by
  have hends := replaces_replace key m.entropy (StoredEntry.encode ⟨m.now, v.toJson⟩) s.disk
  have hreplaced (hok : (s.put m key v.toJson).1 = .ok ()) :
      Replaces key m.entropy (StoredEntry.encode ⟨m.now, v.toJson⟩) s.disk (.ok ())
        (s.put m key v.toJson).2.disk := by
    rw [← hok]
    exact hends
  have hlifetime : (s.put m key v.toJson).2.lifetime = s.lifetime := rfl
  constructor
  case value =>
    intro hok later
    rw [get_eq_reading, (hreplaced hok).read_self]
    exact reading_encode hutc v.isTexts_toJson later s.lifetime
  case others =>
    intro hok other hother hne later
    have hname : fileName other ≠ fileName key := fun hname =>
      hne (fileName_injective (hdigest other hother key hkey) hname)
    exact get_congr_read hlifetime ((hreplaced hok).read_of_ne hname) later
  case gained =>
    intro hok name hname
    exact (hreplaced hok).names_of_ok hname
  case failed =>
    intro hfails
    have hanswer := answer_of_fails hfails
    rw [hanswer] at hends
    refine ⟨hanswer, fun other later => ?_⟩
    exact get_congr_read hlifetime (hends.read_of_error other) later
  case left =>
    intro hfails name hname
    exact names_of_fails hfails hname
  case between =>
    intro d hpasses other later
    have hlifetime' : ({ s with disk := d } : Directory).lifetime = s.lifetime := rfl
    exact (hpasses.read other).imp (fun hbefore => get_congr_read hlifetime' hbefore later)
      fun hafter => get_congr_read (hlifetime'.trans hlifetime.symm) hafter later

def mixed : Directory :=
  ⟨.present (Table.ofList [(fileName "A", .file [0x7B]), (fileName "B", .directory)]), none⟩

theorem put_all_or_nothing_mixed :
    ((mixed.put (minute 0) "A" (NameOutcome.found "L1").toJson).2.get (minute 1) "A").1 =
        .ok (some (NameOutcome.found "L1").toJson) ∧
      ((mixed.put (minute 0) "A" (NameOutcome.found "L1").toJson).2.get (minute 1) "B").1 =
        .error .io ∧
      (mixed.put (minute 0) "B" (NameOutcome.found "L1").toJson).1 = .error .io ∧
      stagingName "B" (minute 0).entropy ∉
        (mixed.put (minute 0) "B" (NameOutcome.found "L1").toJson).2.disk.names ∧
      ((mixed.put (minute 0) "B" (NameOutcome.found "L1").toJson).2.get (minute 1) "A").1 =
        .error .serialization := by
  have hdigest : ∀ k ∈ ["A", "B"], ∀ l ∈ ["A", "B"],
      Digest.sha256 (Text.utf8 k) = Digest.sha256 (Text.utf8 l) → k = l := by decide +kernel
  have hmem : "B" ∈ ["A", "B"] := by simp
  have hA : PutsWhole {k | k ∈ ["A", "B"]} (minute 0) "A" (NameOutcome.found "L1").toJson mixed :=
    put_all_or_nothing hdigest mixed (by decide) List.mem_cons_self (.outcome (.found "L1"))
  have hB : PutsWhole {k | k ∈ ["A", "B"]} (minute 0) "B" (NameOutcome.found "L1").toJson mixed :=
    put_all_or_nothing hdigest mixed (by decide) hmem (.outcome (.found "L1"))
  have hok : (mixed.put (minute 0) "A" (NameOutcome.found "L1").toJson).1 = .ok () := by
    decide +kernel
  have hfails : FailsToRename "B" (minute 0).entropy
      (StoredEntry.encode ⟨(minute 0).now, (NameOutcome.found "L1").toJson⟩) mixed.disk :=
    failsToRename_of_directory (by decide +kernel) (by decide +kernel)
  refine ⟨hA.value hok (minute 1), ?_, (hB.failed (.inr hfails)).1,
    fun hname => (hB.left (.inr hfails) hname).1 rfl, ?_⟩
  · rw [hA.others hok hmem (by decide), get_eq_reading]
    have hread : mixed.disk.read (fileName "B") = .failed := by decide +kernel
    rw [hread]
    rfl
  · rw [(hB.failed (.inr hfails)).2 "A" (minute 1), get_eq_reading]
    have hread : mixed.disk.read (fileName "A") = .bytes [0x7B] := by decide +kernel
    rw [hread]
    rfl

end Directory

end Cache

end LegalEntity
