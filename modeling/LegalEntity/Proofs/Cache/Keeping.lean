import LegalEntity.Proofs.Cache.Places
import LegalEntity.Proofs.Written.Entries

namespace LegalEntity.Cache

def unexpired (lifetime : Option Duration) (now : Int) (entry : Option (Json × Int)) :
    Option Json :=
  (entry.filter fun e => !isExpired lifetime e.2 now).map (·.1)

/-- A store that never fails on sound parts and never loses an entry that has not expired. -/
class KeepingStore (σ : Type) [Store σ] extends PlacedStore σ where
  Sound : Part → Prop
  lifetime : Part → Option Duration
  Holds : Part → Option (Json × Int) → Prop
  put_kept : ∀ m key {v : Json} {s : σ}, m.now.IsUtc → v.IsTexts → Sound (part key s) →
    (Store.put m key v s).1 = .ok () ∧ Sound (part key (Store.put m key v s).2) ∧
      lifetime (part key (Store.put m key v s).2) = lifetime (part key s) ∧
      Holds (part key (Store.put m key v s).2) (some (v, m.now.instant))
  get_sound : ∀ m key {s : σ}, Sound (part key s) → Sound (part key (Store.get m key s).2) ∧
    lifetime (part key (Store.get m key s).2) = lifetime (part key s)
  get_kept : ∀ m key {s : σ} {entry}, Sound (part key s) → Holds (part key s) entry →
    (Store.get m key s).1 = .ok (unexpired (lifetime (part key s)) m.now.instant entry) ∧
      (Holds (part key (Store.get m key s).2) entry ∨ Holds (part key (Store.get m key s).2) none ∧
        unexpired (lifetime (part key s)) m.now.instant entry = none)

section

variable {lifetime : Option Duration} {now later written : Int} {entry : Option (Json × Int)}

@[simp] theorem unexpired_none : unexpired lifetime now none = none := rfl

theorem unexpired_some (v : Json) :
    unexpired lifetime now (some (v, written)) =
      if isExpired lifetime written now then none else some v := by
  cases h : isExpired lifetime written now <;> simp [unexpired, h]

theorem isExpired_mono (hle : now ≤ later) (h : isExpired lifetime written now = true) :
    isExpired lifetime written later = true := by
  cases lifetime with
  | none => cases h
  | some d =>
    simp only [isExpired, Option.any_some, Bool.and_eq_true, decide_eq_true_eq] at h ⊢
    omega

theorem unexpired_eq_none_mono (hle : now ≤ later) (h : unexpired lifetime now entry = none) :
    unexpired lifetime later entry = none := by
  cases entry with
  | none => rfl
  | some e =>
    obtain ⟨v, written⟩ := e
    rw [unexpired_some] at h ⊢
    split at h
    · rename_i hexpired
      rw [if_pos (isExpired_mono hle hexpired)]
    · cases h

theorem isExpired_eq_false_iff (hle : written ≤ now) :
    isExpired lifetime written now = false ↔ ∀ d ∈ lifetime, now - written < d.nanoseconds := by
  cases lifetime with
  | none => simp [isExpired]
  | some d => simp [isExpired, hle]

end

theorem Memory.reading_fst (m : Moment) (entry : Option (Json × Int)) (lifetime : Option Duration) :
    (reading m (entry, lifetime)).1 = .ok (unexpired lifetime m.now.instant entry) := by
  cases entry with
  | none => rfl
  | some e =>
    rw [unexpired_some, reading]
    split <;> rfl

theorem Memory.reading_snd (m : Moment) (entry : Option (Json × Int)) (lifetime : Option Duration) :
    (reading m (entry, lifetime)).2 = entry ∨ (reading m (entry, lifetime)).2 = none ∧
      unexpired lifetime m.now.instant entry = none := by
  cases entry with
  | none => exact .inl rfl
  | some e =>
    rw [unexpired_some, reading]
    split
    · exact .inr ⟨rfl, rfl⟩
    · exact .inl rfl

instance : KeepingStore Memory where
  Sound _ := True
  lifetime p := p.2
  Holds p entry := p.1 = entry
  put_kept m key v s _ _ _ := ⟨rfl, trivial, rfl, Table.get?_insert_self _ _ _⟩
  get_sound m key s _ := by
    have hlifetime := congrArg Prod.snd (Memory.get_part m key s).2
    exact ⟨trivial, hlifetime⟩
  get_kept m key s entry _ hentry := by
    obtain ⟨hanswer, hpart⟩ := Memory.get_part m key s
    have hpair : s.part key = (entry, s.lifetime) := Prod.ext hentry rfl
    rw [hpair] at hanswer hpart
    refine ⟨hanswer.trans ?_, ?_⟩
    · exact Memory.reading_fst m entry s.lifetime
    · rw [show PlacedStore.part key (Store.get m key s).2 = _ from hpart]
      exact Memory.reading_snd m entry s.lifetime

namespace Directory

def IsSound (nodes : Option (String → Option Node)) : Prop :=
  ∃ f, nodes = some f ∧ ∀ rest, f rest ≠ some .directory

def HasFile (nodes : Option (String → Option Node)) : Option (Json × Int) → Prop
  | none => ∃ f, nodes = some f ∧ f ".json" = none
  | some (v, written) =>
    v.IsTexts ∧ ∃ f time, nodes = some f ∧ time.IsUtc ∧ time.instant = written ∧
      f ".json" = some (.file (StoredEntry.encode ⟨time, v⟩))

theorem replacing_sound {staging : String} {bytes : List UInt8} {f : String → Option Node}
    (h : ∀ rest, f rest ≠ some .directory) : (replacing staging bytes f).1 = .ok () ∧
      (∀ rest, (replacing staging bytes f).2 rest ≠ some .directory) ∧
      (replacing staging bytes f).2 ".json" = some (.file bytes) := by
  simp only [replacing, h, if_false]
  refine ⟨trivial, fun rest => ?_, Function.update_self _ _ _⟩
  by_cases hfile : rest = ".json"
  · simp [hfile]
  · rw [Function.update_of_ne hfile]
    by_cases hstaging : rest = staging
    · simp [hstaging]
    · rw [Function.update_of_ne hstaging]
      exact h rest

theorem reading_hasFile {m : Moment} {nodes : Option (String → Option Node)}
    {lifetime : Option Duration} {entry : Option (Json × Int)} (h : HasFile nodes entry) :
    reading m lifetime (nodes.elim .failed fun f => Disk.readingOf (f ".json")) =
      .ok (unexpired lifetime m.now.instant entry) := by
  cases entry with
  | none =>
    obtain ⟨f, rfl, hf⟩ := h
    simp [reading, Disk.readingOf, hf]
  | some e =>
    obtain ⟨v, written⟩ := e
    obtain ⟨hv, f, time, rfl, hutc, rfl, hf⟩ := h
    have hdecode : StoredEntry.decode? (StoredEntry.encode ⟨time, v⟩) = some ⟨time, v⟩ :=
      StoredEntry.decode?_encode hutc hv
    simp only [Option.elim_some, hf, Disk.readingOf, reading, hdecode, unexpired_some]
    split <;> rfl

end Directory

instance : KeepingStore Directory where
  Sound p := Directory.IsSound p.1
  lifetime p := p.2
  Holds p entry := Directory.HasFile p.1 entry
  put_kept m key v s hutc hv hsound := by
    obtain ⟨f, hf, hnone⟩ := hsound
    obtain ⟨hanswer, hpart, -⟩ := Directory.put_part m key v s
    obtain ⟨hok, hsound, hfile⟩ := @Directory.replacing_sound
      (Directory.stagingEnding m.entropy) (StoredEntry.encode ⟨m.now, v⟩) f hnone
    replace hf : s.disk.within (Directory.stem key) = some f := hf
    rw [hf] at hanswer hpart
    rw [show PlacedStore.part key (Store.put m key v s).2 = _ from hpart]
    exact ⟨hanswer.trans hok, ⟨_, rfl, hsound⟩, rfl, hv, _, m.now, rfl, hutc, rfl, hfile⟩
  get_sound m key s hsound := by
    rw [show Store.get m key s = s.get m key from rfl, Directory.get_part]
    exact ⟨hsound, rfl⟩
  get_kept m key s entry _ hentry := by
    rw [show Store.get m key s = s.get m key from rfl, Directory.get_part]
    exact ⟨Directory.reading_hasFile hentry, .inl hentry⟩

end LegalEntity.Cache
