import LegalEntity.Proofs.Cache.Keeping

namespace LegalEntity.Cache

open PlacedStore (part place)

def found? : Except Error (Option Json) → Option Json
  | .ok v => v
  | .error _ => none

theorem decoded?_eq_bind (d : Json.Decoder α) (a : Except Error (Option Json)) :
    decoded? d a = (found? a).bind fun v => d v.toDocument := by
  cases a with
  | error e => rfl
  | ok v => cases v <;> rfl

def shown {σ : Type} [Store σ] (m : Moment) (key : String) (s : σ) : Option Json :=
  found? (Store.get m key s).1

/-- A store that shows nothing again that it has ceased to show. -/
class FadingStore (σ : Type) [Store σ] extends PlacedStore σ where
  of_later : ∀ {m later : Moment} {key : String} {s : σ} {v : Json},
    m.now.instant ≤ later.now.instant → shown later key s = some v → shown m key s = some v
  of_read : ∀ {m later : Moment} {key other : String} {s : σ} {v : Json},
    m.now.instant ≤ later.now.instant → place other = place key →
    shown later other (Store.get m key s).2 = some v → shown m other s = some v

section

variable {σ : Type} [Store σ]

theorem shown_congr [PlacedStore σ] (m : Moment) {key : String} {s t : σ}
    (h : part key s = part key t) : shown m key s = shown m key t :=
  congrArg found? (PlacedStore.get_congr m key h).1

variable [FadingStore σ] {m later : Moment} {key other : String} {s : σ} {v : Json}

theorem shown_of_get (hle : m.now.instant ≤ later.now.instant)
    (h : shown later other (Store.get m key s).2 = some v) : shown m other s = some v := by
  by_cases hplace : place σ other = place σ key
  · exact FadingStore.of_read hle hplace h
  · rw [shown_congr later (PlacedStore.get_of_ne m s hplace)] at h
    exact FadingStore.of_later hle h

end

theorem unexpired_of_later {lifetime : Option Duration} {now later : Int}
    {entry : Option (Json × Int)} {v : Json} (hle : now ≤ later)
    (h : unexpired lifetime later entry = some v) : unexpired lifetime now entry = some v := by
  cases entry with
  | none => cases h
  | some e =>
    obtain ⟨u, written⟩ := e
    rw [unexpired_some] at h ⊢
    split at h
    · cases h
    · rename_i hfresh
      rw [if_neg fun hexpired => hfresh (isExpired_mono hle hexpired)]
      exact h

theorem Memory.shown_eq (m : Moment) (key : String) (s : Memory) :
    shown m key s = unexpired s.lifetime m.now.instant (s.entries.get? key) :=
  congrArg found? ((get_part m key s).1.trans (reading_fst m _ _))

instance : FadingStore Memory where
  of_later hle h := by
    rw [Memory.shown_eq] at h ⊢
    exact unexpired_of_later hle h
  of_read {m later key other s v} hle hplace h := by
    cases hplace
    rw [Memory.shown_eq] at h ⊢
    have hpart := (Memory.get_part m key s).2
    have hentry : (s.get m key).2.entries.get? key = (Memory.reading m (s.part key)).2 :=
      congrArg Prod.fst hpart
    have hlifetime : (s.get m key).2.lifetime = s.lifetime := congrArg Prod.snd hpart
    replace h : unexpired (s.get m key).2.lifetime later.now.instant
      ((s.get m key).2.entries.get? key) = some v := h
    rw [hentry, hlifetime] at h
    rcases Memory.reading_snd m (s.entries.get? key) s.lifetime with hkept | ⟨hgone, -⟩
    · rw [Memory.part, hkept] at h
      exact unexpired_of_later hle h
    · rw [Memory.part, hgone] at h
      cases h

theorem Directory.reading_of_later {m later : Moment} {lifetime : Option Duration} {file : FileReading}
    {v : Json} (hle : m.now.instant ≤ later.now.instant)
    (h : found? (reading later lifetime file) = some v) :
    found? (reading m lifetime file) = some v := by
  cases file with
  | missing | failed => cases h
  | bytes bytes =>
    cases hdecode : StoredEntry.decode? bytes with
    | none =>
      simp only [reading, hdecode] at h
      cases h
    | some e =>
      simp only [reading, hdecode] at h ⊢
      split at h
      · cases h
      · rename_i hfresh
        rw [if_neg fun hexpired => hfresh (isExpired_mono hle hexpired)]
        exact h

theorem Directory.shown_eq (m : Moment) (key : String) (s : Directory) :
    shown m key s = found? (reading m s.lifetime ((s.disk.within (stem key)).elim .failed fun f =>
      Disk.readingOf (f ".json"))) :=
  congrArg (fun r : Except Error (Option Json) × Directory => found? r.1) (get_part m key s)

instance : FadingStore Directory where
  of_later hle h := by
    rw [Directory.shown_eq] at h ⊢
    exact Directory.reading_of_later hle h
  of_read {m later key other s v} hle _ h := by
    have hstays : (Store.get m key s).2 = s := congrArg Prod.snd (Directory.get_part m key s)
    rw [hstays, Directory.shown_eq] at h
    rw [Directory.shown_eq]
    exact Directory.reading_of_later hle h

end LegalEntity.Cache
