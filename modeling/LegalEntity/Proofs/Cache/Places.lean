import LegalEntity.Cache.Memory
import LegalEntity.Proofs.Cache.FileNames
import Mathlib.Logic.Function.Basic

namespace LegalEntity.Cache

/-- What is done under a key depends on the part of the store that belongs to the key, and changes
no other part. Keys with one place share their part. -/
class PlacedStore (σ : Type) [Store σ] where
  Part : Type
  place : String → String
  part : String → σ → Part
  part_eq : ∀ {key other} (s : σ), place other = place key → part other s = part key s
  get_of_ne : ∀ m {key other} (s : σ), place other ≠ place key →
    part other (Store.get m key s).2 = part other s
  put_of_ne : ∀ m {key other} v (s : σ), place other ≠ place key →
    part other (Store.put m key v s).2 = part other s
  get_congr : ∀ m key {s t : σ}, part key s = part key t →
    (Store.get m key s).1 = (Store.get m key t).1 ∧
      part key (Store.get m key s).2 = part key (Store.get m key t).2
  put_congr : ∀ m key v {s t : σ}, part key s = part key t →
    (Store.put m key v s).1 = (Store.put m key v t).1 ∧
      part key (Store.put m key v s).2 = part key (Store.put m key v t).2

namespace Memory

def part (key : String) (s : Memory) : Option (Json × Int) × Option Duration :=
  (s.entries.get? key, s.lifetime)

def reading (m : Moment) : Option (Json × Int) × Option Duration →
    Except Error (Option Json) × Option (Json × Int)
  | (some (v, written), lifetime) =>
    if isExpired lifetime written m.now.instant then (.ok none, none)
    else (.ok (some v), some (v, written))
  | (none, _) => (.ok none, none)

theorem get_part (m : Moment) (key : String) (s : Memory) :
    (s.get m key).1 = (reading m (s.part key)).1 ∧
      (s.get m key).2.part key = ((reading m (s.part key)).2, s.lifetime) := by
  cases hentry : s.entries.get? key with
  | none => simp [get, part, reading, hentry]
  | some e =>
    cases hexpired : isExpired s.lifetime e.2 m.now.instant with
    | true => simp [get, part, reading, hentry, hexpired, Table.get?_erase]
    | false => simp [get, part, reading, hentry, hexpired]

theorem get_part_of_ne (m : Moment) {key other : String} (s : Memory) (h : other ≠ key) :
    (s.get m key).2.part other = s.part other := by
  simp only [get]
  split
  · split
    · simp [part, Table.get?_erase, h]
    · rfl
  · rfl

instance : PlacedStore Memory where
  Part := Option (Json × Int) × Option Duration
  place key := key
  part := part
  part_eq s h := congrArg (part · s) h
  get_of_ne m _ _ s h := get_part_of_ne m s h
  put_of_ne m _ _ v s h := by simp [Store.put, put, part, Table.get?_insert_of_ne _ h]
  get_congr m key s t h := by
    have hlifetime : s.lifetime = t.lifetime := congrArg Prod.snd h
    have hs := get_part m key s
    have ht := get_part m key t
    rw [← h, ← hlifetime] at ht
    exact ⟨hs.1.trans ht.1.symm, hs.2.trans ht.2.symm⟩
  put_congr m key v s t h := by
    have hlifetime : s.lifetime = t.lifetime := congrArg Prod.snd h
    simp [Store.put, put, part, hlifetime]

end Memory

namespace Disk

/-- The nodes whose names have a beginning, by the rest of their names. There are none to be had on
a blocked disk. -/
def within (front : String) : Disk → Option (String → Option Node)
  | .blocked => none
  | .absent => some fun _ => none
  | .present nodes => some fun rest => nodes.get? (front ++ rest)

def readingOf : Option Node → FileReading
  | some (.file s) => .bytes s
  | some .directory => .failed
  | none => .missing

theorem read_append (front rest : String) (d : Disk) :
    d.read (front ++ rest) = (d.within front).elim .failed fun f => readingOf (f rest) := by
  cases d with
  | blocked | absent => rfl
  | present nodes =>
    simp only [read, within, Option.elim_some]
    cases nodes.get? (front ++ rest) with
    | none => rfl
    | some node => cases node <;> rfl

theorem eq_blocked {d : Disk} {front : String} (h : d.within front = none) : d = .blocked := by
  cases d with
  | blocked => rfl
  | absent | present => cases h

theorem exists_nodes {d : Disk} {front : String} {f : String → Option Node}
    (h : d.within front = some f) : ∃ nodes, d.create? = some (.present nodes) ∧
      ∀ front, (Disk.present nodes).within front = d.within front := by
  cases d with
  | blocked => cases h
  | absent => exact ⟨.empty, rfl, fun _ => rfl⟩
  | present nodes => exact ⟨nodes, rfl, fun _ => rfl⟩

section

variable {nodes : Table Node} {front name rest : String}

theorem append_right_inj {a b : String} : front ++ a = front ++ b ↔ a = b := by
  constructor
  · intro h
    have hchars := congrArg String.toList h
    rw [String.toList_append, String.toList_append, List.append_right_inj] at hchars
    exact String.toList_inj.1 hchars
  · rintro rfl
    rfl

theorem get?_insert_append (node : Node) :
    (fun rest => (nodes.insert (front ++ name) node).get? (front ++ rest)) =
      Function.update (fun rest => nodes.get? (front ++ rest)) name (some node) := by
  funext rest
  by_cases hrest : rest = name
  · subst hrest
    simp
  · rw [Function.update_of_ne hrest,
      Table.get?_insert_of_ne _ fun h => hrest (append_right_inj.1 h)]

theorem get?_erase_append :
    (fun rest => (nodes.erase (front ++ name)).get? (front ++ rest)) =
      Function.update (fun rest => nodes.get? (front ++ rest)) name none := by
  funext rest
  by_cases hrest : rest = name
  · subst hrest
    simp [Table.get?_erase]
  · rw [Function.update_of_ne hrest, Table.get?_erase, if_neg fun h => hrest (append_right_inj.1 h)]

theorem rename?_of_file {old new : String} {node : Node} (hold : nodes.get? old = some node)
    (hnew : nodes.get? new ≠ some .directory) : (Disk.present nodes).rename? old new =
      some (.present ((nodes.erase old).insert new node)) := by
  simp only [rename?, nodes?, Option.bind_eq_bind, Option.bind_some, hold]
  cases hnode : nodes.get? new with
  | none => rfl
  | some node =>
    cases node with
    | file bytes => rfl
    | directory => exact absurd hnode hnew

theorem rename?_of_directory {old new : String} {node : Node} (hold : nodes.get? old = some node)
    (hnew : nodes.get? new = some .directory) : (Disk.present nodes).rename? old new = none := by
  simp only [rename?, nodes?, Option.bind_eq_bind, Option.bind_some, hold, hnew]

theorem within_insert_of_ne (node : Node) (h : ∀ rest, front ++ rest ≠ name) :
    (Disk.present (nodes.insert name node)).within front = (Disk.present nodes).within front :=
  congrArg some (funext fun rest => Table.get?_insert_of_ne _ (h rest) _)

theorem within_erase_of_ne (h : ∀ rest, front ++ rest ≠ name) :
    (Disk.present (nodes.erase name)).within front = (Disk.present nodes).within front :=
  congrArg some (funext fun rest => by rw [Table.get?_erase, if_neg (h rest)])

end

end Disk

namespace Directory

def replacing (staging : String) (bytes : List UInt8) (f : String → Option Node) :
    Except Error Unit × (String → Option Node) :=
  if f staging = some .directory then (.error .io, f)
  else if f ".json" = some .directory then (.error .io, Function.update f staging none)
  else (.ok (), Function.update (Function.update f staging none) ".json" (some (.file bytes)))

section

variable {key other : String} {entropy : UInt64} {bytes : List UInt8} {d : Disk}
  {f : String → Option Node}

theorem stem_append_ne (h : stem other ≠ stem key) (ending rest : String) :
    stem other ++ rest ≠ stem key ++ ending := fun heq => h (stem_append_inj heq).1

theorem replace_within (h : d.within (stem key) = some f) :
    (replace key entropy bytes d).1 = (replacing (stagingEnding entropy) bytes f).1 ∧
      (replace key entropy bytes d).2.within (stem key) =
        some (replacing (stagingEnding entropy) bytes f).2 ∧
      ∀ other, stem other ≠ stem key →
        (replace key entropy bytes d).2.within (stem other) = d.within (stem other) := by
  obtain ⟨nodes, hcreate, hwithin⟩ := Disk.exists_nodes h
  have hf : (fun rest => nodes.get? (stem key ++ rest)) = f :=
    Option.some.inj ((hwithin (stem key)).trans h)
  have hget (rest : String) : nodes.get? (stem key ++ rest) = f rest := congrFun hf rest
  have hne : stem key ++ ".json" ≠ stem key ++ stagingEnding entropy := fun heq =>
    stagingEnding_ne entropy (stem_append_inj heq).2.symm
  simp only [replace, hcreate, stagingName_eq, fileName, Disk.write?, Disk.nodes?,
    Option.bind_eq_bind, Option.bind_some, replacing, hget]
  by_cases hstaging : f (stagingEnding entropy) = some .directory
  · simp only [hstaging, if_true]
    exact ⟨trivial, congrArg some hf, fun other _ => hwithin (stem other)⟩
  · simp only [hstaging, if_false, Option.pure_def]
    have hwritten := Table.get?_insert_self nodes (stem key ++ stagingEnding entropy) (.file bytes)
    have hother := (Table.get?_insert_of_ne nodes hne (.file bytes)).trans (hget ".json")
    by_cases hfile : f ".json" = some .directory
    · simp only [Disk.rename?_of_directory hwritten (hother.trans hfile), hfile, if_true,
        Disk.remove]
      refine ⟨trivial, congrArg some ?_, fun other hne => ?_⟩
      · rw [Disk.get?_erase_append, Disk.get?_insert_append, hf, Function.update_idem]
      · rw [Disk.within_erase_of_ne (stem_append_ne hne _),
          Disk.within_insert_of_ne _ (stem_append_ne hne _), hwithin]
    · simp only [Disk.rename?_of_file hwritten (fun h => hfile (hother.symm.trans h)), hfile,
        if_false]
      refine ⟨trivial, congrArg some ?_, fun other hne => ?_⟩
      · rw [Disk.get?_insert_append, Disk.get?_erase_append, Disk.get?_insert_append, hf,
          Function.update_idem]
      · rw [Disk.within_insert_of_ne _ (stem_append_ne hne _),
          Disk.within_erase_of_ne (stem_append_ne hne _),
          Disk.within_insert_of_ne _ (stem_append_ne hne _), hwithin]

def part (key : String) (s : Directory) : Option (String → Option Node) × Option Duration :=
  (s.disk.within (stem key), s.lifetime)

def reading (m : Moment) (lifetime : Option Duration) : FileReading → Except Error (Option Json)
  | .missing => .ok none
  | .failed => .error .io
  | .bytes bytes =>
    match StoredEntry.decode? bytes with
    | none => .error .serialization
    | some e =>
      if isExpired lifetime e.storedAt.instant m.now.instant then .ok none else .ok (some e.value)

theorem get_part (m : Moment) (key : String) (s : Directory) :
    s.get m key = (reading m s.lifetime ((s.disk.within (stem key)).elim .failed fun f =>
      Disk.readingOf (f ".json")), s) := by
  rw [← Disk.read_append]
  simp only [get, fileName]
  cases s.disk.read (stem key ++ ".json") with
  | missing | failed => rfl
  | bytes bytes => rfl

theorem put_part (m : Moment) (key : String) (v : Json) (s : Directory) :
    (s.put m key v).1 = (match s.disk.within (stem key) with
      | none => .error .io
      | some f => (replacing (stagingEnding m.entropy) (StoredEntry.encode ⟨m.now, v⟩) f).1) ∧
    (s.put m key v).2.part key = ((s.disk.within (stem key)).map fun f =>
      (replacing (stagingEnding m.entropy) (StoredEntry.encode ⟨m.now, v⟩) f).2, s.lifetime) ∧
    ∀ other, stem other ≠ stem key → (s.put m key v).2.part other = s.part other := by
  cases hwithin : s.disk.within (stem key) with
  | none =>
    obtain ⟨disk, lifetime⟩ := s
    cases Disk.eq_blocked hwithin
    exact ⟨rfl, rfl, fun other _ => rfl⟩
  | some f =>
    obtain ⟨hanswer, hown, hothers⟩ :=
      @replace_within key m.entropy (StoredEntry.encode ⟨m.now, v⟩) _ _ hwithin
    refine ⟨hanswer, Prod.ext hown rfl, fun other hne => Prod.ext (hothers other hne) rfl⟩

instance : PlacedStore Directory where
  Part := Option (String → Option Node) × Option Duration
  place := stem
  part := part
  part_eq s h := congrArg (fun front => (s.disk.within front, s.lifetime)) h
  get_of_ne m key other s _ := by
    rw [show Store.get m key s = s.get m key from rfl, get_part]
  put_of_ne m key other v s h := (put_part m key v s).2.2 other h
  get_congr m key s t h := by
    have hwithin : s.disk.within (stem key) = t.disk.within (stem key) := congrArg Prod.fst h
    have hlifetime : s.lifetime = t.lifetime := congrArg Prod.snd h
    rw [show Store.get m key s = s.get m key from rfl, show Store.get m key t = t.get m key from rfl,
      get_part, get_part, hwithin, hlifetime]
    exact ⟨rfl, h⟩
  put_congr m key v s t h := by
    have hwithin : s.disk.within (stem key) = t.disk.within (stem key) := congrArg Prod.fst h
    have hlifetime : s.lifetime = t.lifetime := congrArg Prod.snd h
    obtain ⟨hs, hs', -⟩ := put_part m key v s
    obtain ⟨ht, ht', -⟩ := put_part m key v t
    rw [hwithin] at hs hs'
    rw [hlifetime] at hs'
    exact ⟨hs.trans ht.symm, hs'.trans ht'.symm⟩

end

end Directory

end LegalEntity.Cache
