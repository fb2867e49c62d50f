import LegalEntity.Proofs.Cache.ReadBack
import LegalEntity.Proofs.Reference.Registry
import LegalEntity.Proofs.Runs.Calls

namespace LegalEntity.Resolver

open Cache (decoded?)
open Registry (itemsOf)

section

variable {α : Type} [Scalar α]

/-- A value that is of no use to those who read it under a key, or tells them what the registry
would. -/
structure Sound (r : StatelessRegistry) (s : Settings α) (names : String → Prop) (key : String)
    (v : Json) : Prop where
  index : s.indexKey = some key → ∀ x, IsinIndex.ofDocument? v.toDocument = some x →
    nonEmptyIndex x = none ∨ nonEmptyIndex x = r.index? s
  outcome : s.indexKey ≠ some key → ∀ name, names name → Cache.nameKey s.nameSpace name = key →
    ∀ outcome, NameOutcome.ofDocument? v.toDocument = some outcome → outcome = r.outcome s name

abbrev Scratch := Option (Nat × Option (List UInt8))

def valueContract (r : StatelessRegistry) (s : Settings α) (names : String → Prop) :
    Contract Scratch where
  start := none
  allows g
    | .keep key v => Sound r s names key v
    | .publishIndex x => x = r.index? s
    | .openScratch => g = none
    | .download _ scratch => g = some (scratch, none)
    | .closeScratch scratch => ∃ content, g = some (scratch, content)
    | _ => True
  expects g
    | .lookUp key, a => ∀ v, a = .ok (some v) → Sound r s names key v
    | .fetch url parameters, a => a = r.reply url parameters
    | .download url _, a => a = (r.archive url).1
    | .openScratch, a => ∃ scratch, a = .ok scratch
    | .readScratch scratch, a => ∀ content, g = some (scratch, content) → a = content
    | .claimIndex, turn => ∀ x, turn = .ready x → x = r.index? s
    | _, _ => True
  next
    | _, .openScratch, .ok scratch => some (scratch, none)
    | some (scratch, _), .download url _, _ => some (scratch, (r.archive url).2)
    | _, .closeScratch _, _ => none
    | g, _, _ => g

variable {r : StatelessRegistry} {s : Settings α} {names : String → Prop} {g : Scratch}

theorem nonEmptyIndex_eq_self {x y : IsinIndex} (h : nonEmptyIndex x = some y) :
    nonEmptyIndex y = some y := by
  unfold nonEmptyIndex at h
  split at h
  · cases h
  · rename_i hempty
    cases h
    exact if_neg hempty

theorem fetchMetadata_keeps_values : (fetchMetadata s).Keeps (valueContract r s names)
    (fun m g' => g' = g ∧ m = r.metadata s) g := by
  apply Dialogue.keeps_perform_bind.2
  refine ⟨trivial, fun a ha => ?_⟩
  subst ha
  rw [StatelessRegistry.metadata]
  cases r.reply s.mappingUrl [] with
  | error e => exact ⟨rfl, rfl⟩
  | ok reply =>
    dsimp only
    split
    · cases Registry.metadata? reply <;> exact ⟨rfl, rfl⟩
    · exact ⟨rfl, rfl⟩

theorem downloadIndex_keeps_values (link : String) :
    (downloadIndex link).Keeps (valueContract r s names)
      (fun x g => g = none ∧ x = r.indexAt link) none := by
  refine ⟨rfl, ?_⟩
  rintro _ ⟨scratch, rfl⟩
  refine ⟨rfl, fun a ha => ?_⟩
  subst ha
  rw [StatelessRegistry.indexAt]
  have hplace (a : Except Error Unit) : (valueContract r s names).next (some (scratch, none))
      (.download link scratch) a = some (scratch, (r.archive link).2) := rfl
  have hclose (content : Option (List UInt8)) : (valueContract r s names).allows
      (some (scratch, content)) (.closeScratch scratch) := ⟨content, rfl⟩
  rcases harchive : r.archive link with ⟨a, file⟩
  cases a with
  | error e => exact ⟨hclose _, fun _ _ => ⟨rfl, rfl⟩⟩
  | ok u =>
    refine ⟨trivial, fun content hcontent => ⟨hclose _, fun _ _ => ?_⟩⟩
    have hfile : content = file := by
      apply hcontent
      show some (scratch, (r.archive link).2) = some (scratch, file)
      rw [harchive]
    subst hfile
    cases content <;> exact ⟨rfl, rfl⟩

theorem buildIndex_keeps_values : (buildIndex s).Keeps (valueContract r s names)
    (fun x g => g = none ∧ x = r.build s) none := by
  apply Dialogue.keeps_bind.2
  apply fetchMetadata_keeps_values.mono
  intro m g h
  cases h with
  | intro hg hm =>
    subst hg
    rw [StatelessRegistry.build, ← hm]
    cases m with
    | error e => exact ⟨rfl, rfl⟩
    | ok m =>
      dsimp only
      cases m.downloadLink with
      | none => exact ⟨rfl, rfl⟩
      | some link => exact downloadIndex_keeps_values link

theorem cachedIndex_keeps_values : (cachedIndex s).Keeps (valueContract r s names)
    (fun x g => g = none ∧ (x = none ∨ x = r.index? s)) none := by
  unfold cachedIndex
  split
  · exact ⟨rfl, .inl rfl⟩
  · rename_i key hkey
    apply Dialogue.keeps_perform_bind.2
    refine ⟨trivial, fun a ha => ⟨rfl, ?_⟩⟩
    rcases a with e | _ | v
    · exact .inl rfl
    · exact .inl rfl
    · have hsound := (ha v rfl).index hkey
      cases hx : IsinIndex.ofDocument? v.toDocument with
      | none => simp [decoded?, hx]
      | some x => simpa [decoded?, hx] using hsound x hx

theorem loadIndex_keeps_values : (loadIndex s).Keeps (valueContract r s names)
    (fun x g => g = none ∧ x = r.index? s) none := by
  apply Dialogue.keeps_bind.2
  apply cachedIndex_keeps_values.mono
  rintro x g ⟨rfl, hx⟩
  cases x with
  | some x =>
    rcases hx with hx | hx
    · cases hx
    · exact ⟨rfl, hx⟩
  | none =>
    apply Dialogue.keeps_bind.2
    apply buildIndex_keeps_values.mono
    rintro x g ⟨rfl, rfl⟩
    cases hbuild : r.build s with
    | error e => exact ⟨rfl, (StatelessRegistry.index?_of_error hbuild).symm⟩
    | ok x =>
      have hindex : r.index? s = nonEmptyIndex x := StatelessRegistry.index?_of_ok hbuild
      dsimp only
      rw [hindex]
      split
      · rename_i hempty
        exact ⟨rfl, hempty.symm⟩
      · rename_i hx _
        exact ⟨rfl, hx.symm⟩
      · rename_i x' key hx hkey
        refine ⟨⟨fun _ y hy => .inr ?_, fun h => absurd hkey h⟩, fun _ _ => ⟨rfl, hx.symm⟩⟩
        rw [IsinIndex.ofDocument?_toJson, Option.some.injEq] at hy
        subst hy
        rw [hindex, hx, nonEmptyIndex_eq_self hx]

theorem theIndex_keeps_values : (theIndex s).Keeps (valueContract r s names)
    (fun x g => g = none ∧ x = r.index? s) none := by
  apply Dialogue.keeps_perform_bind.2
  refine ⟨trivial, fun turn hturn => ?_⟩
  cases turn with
  | ready x => exact ⟨rfl, hturn x rfl⟩
  | load =>
    apply Dialogue.keeps_bind.2
    apply loadIndex_keeps_values.mono
    rintro x g ⟨rfl, rfl⟩
    exact ⟨rfl, fun _ _ => ⟨rfl, rfl⟩⟩

theorem byIsin_keeps_values (q : Query) : (byIsin s q).Keeps (valueContract r s names)
    (fun x g => g = none ∧ x = (q.canonicalIsin?.bind fun isin =>
      (r.index? s).bind (·.get? isin)).map (q.identity · .isinIndex)) none := by
  unfold byIsin
  cases q.canonicalIsin? with
  | none => exact ⟨rfl, rfl⟩
  | some isin =>
    apply Dialogue.keeps_bind.2
    apply theIndex_keeps_values.mono
    rintro x g ⟨rfl, rfl⟩
    exact ⟨rfl, rfl⟩

theorem values_chained (url : String) (parameters : Registry.Parameters) :
    Chained (valueContract r s names) (· = g) (fun g' a => g' = g ∧ a = r.reply url parameters)
      url parameters where
  draw _ := ⟨trivial, fun _ => rfl⟩
  pause _ _ := ⟨trivial, fun _ => rfl⟩
  fetch h := ⟨trivial, fun _ ha => ⟨h, h, ha⟩⟩

theorem request_keeps_values (p : Retry.Policy) (url : String) (parameters : Registry.Parameters)
    (read : Registry.Reply → Option (List β)) :
    (request p url parameters read).Keeps (valueContract r s names)
      (fun items g' => g' = g ∧ items = itemsOf read (r.reply url parameters)) g := by
  apply (request_keeps (values_chained url parameters) p read rfl).mono
  rintro items g' ⟨a, ⟨hg, rfl⟩, hitems⟩
  exact ⟨hg, hitems⟩

theorem active_keeps_values (completions : List Entity) :
    (if completions.isEmpty then .done []
      else request s.retry s.recordsUrl
        [("filter[lei]", ",".intercalate (completions.map (·.lei))),
          ("filter[entity.status]", "ACTIVE")] Registry.identifiers?).Keeps
      (valueContract r s names) (fun active g' => g' = g ∧ active = r.active s completions) g := by
  unfold StatelessRegistry.active
  split
  · exact ⟨rfl, rfl⟩
  · exact request_keeps_values ..

theorem afterBest_keeps_values (name : String) (best : Option Entity) :
    (afterBest s name best).Keeps (valueContract r s names)
      (fun outcome g' => g' = g ∧ outcome = r.outcomeFrom s name best) g := by
  cases best with
  | none => exact ⟨rfl, rfl⟩
  | some best =>
    apply Dialogue.keeps_bind.2
    apply (request_keeps_values ..).mono
    rintro owners g' ⟨rfl, rfl⟩
    exact ⟨rfl, rfl⟩

theorem searchOutcome_keeps_values (name : String) :
    (searchOutcome s name).Keeps (valueContract r s names)
      (fun outcome g' => g' = g ∧ outcome = r.outcome s name) g := by
  unfold searchOutcome StatelessRegistry.outcome
  split
  · exact ⟨rfl, rfl⟩
  · apply Dialogue.keeps_bind.2
    apply (request_keeps_values ..).mono
    rintro completions g' ⟨rfl, rfl⟩
    apply Dialogue.keeps_bind.2
    apply (active_keeps_values _).mono
    rintro active g' ⟨rfl, rfl⟩
    exact afterBest_keeps_values name _

/-- Names of queries: none of them is kept where the index is, nor two in one place. -/
structure Apart (s : Settings α) (names : String → Prop) : Prop where
  index : ∀ name, names name → s.indexKey ≠ some (Cache.nameKey s.nameSpace name)
  name : ∀ name other, names name → names other →
    Cache.nameKey s.nameSpace name = Cache.nameKey s.nameSpace other → name = other

def Told (r : StatelessRegistry) (s : Settings α) (q : Query) (x : Except Error Identity) : Prop :=
  x = r.answer s q .nameCache ∨ x = r.answer s q .registrySearch

theorem cachedOutcome_keeps_values (hnames : Apart s names) {name : String} (hname : names name) :
    (cachedOutcome (Cache.nameKey s.nameSpace name)).Keeps (valueContract r s names)
      (fun x g' => g' = g ∧ (x = none ∨ x = some (r.outcome s name))) g := by
  apply cachedOutcome_keeps.2
  refine ⟨trivial, fun a ha => ⟨rfl, ?_⟩⟩
  rcases a with e | _ | v
  · exact .inl rfl
  · exact .inl rfl
  · have hsound := (ha v rfl).outcome (hnames.index name hname) name hname rfl
    cases hx : NameOutcome.ofDocument? v.toDocument with
    | none => simp [decoded?, hx]
    | some outcome => simpa [decoded?, hx] using hsound outcome hx

theorem sound_outcome (hnames : Apart s names) {name : String} (hname : names name) :
    Sound r s names (Cache.nameKey s.nameSpace name) (r.outcome s name).toJson where
  index h := absurd h (hnames.index name hname)
  outcome _ other hother hkey outcome houtcome := by
    rw [hnames.name other name hother hname hkey]
    rw [NameOutcome.ofDocument?_toJson, Option.some.injEq] at houtcome
    exact houtcome.symm

theorem byName_keeps_values (hnames : Apart s names) (q : Query) (hq : names q.name) :
    (byName s q).Keeps (valueContract r s names)
      (fun x g => g = none ∧ (x = answer q .nameCache (r.outcome s q.name) ∨
        x = answer q .registrySearch (r.outcome s q.name))) none := by
  have hsearch : (bySearch s q (Cache.nameKey s.nameSpace q.name)).Keeps (valueContract r s names)
      (fun x g => g = none ∧ (x = answer q .nameCache (r.outcome s q.name) ∨
        x = answer q .registrySearch (r.outcome s q.name))) none := by
    rw [bySearch_eq]
    apply Dialogue.keeps_bind.2
    apply (cachedOutcome_keeps_values hnames hq).mono
    rintro x g ⟨rfl, rfl | rfl⟩
    · apply Dialogue.keeps_bind.2
      apply (searchOutcome_keeps_values q.name).mono
      rintro outcome g ⟨rfl, rfl⟩
      exact ⟨sound_outcome hnames hq, fun _ _ => ⟨rfl, .inr rfl⟩⟩
    · exact ⟨rfl, .inl rfl⟩
  apply Dialogue.keeps_bind.2
  apply (cachedOutcome_keeps_values hnames hq).mono
  rintro x g ⟨rfl, rfl | rfl⟩
  · apply Dialogue.keeps_perform_bind.2
    refine ⟨trivial, fun _ _ => ?_⟩
    apply Dialogue.keeps_bind.2
    apply hsearch.mono
    rintro x g ⟨rfl, hx⟩
    exact ⟨trivial, fun _ _ => ⟨rfl, hx⟩⟩
  · exact ⟨rfl, .inl rfl⟩

theorem resolve_keeps_values (hnames : Apart s names) (q : Query) (hq : names q.name) :
    (resolve s q).Keeps (valueContract r s names) (fun x _ => Told r s q x) none := by
  apply Dialogue.keeps_bind.2
  apply (byIsin_keeps_values q).mono
  rintro x g ⟨rfl, rfl⟩
  unfold Told StatelessRegistry.answer
  cases q.canonicalIsin?.bind fun isin => (r.index? s).bind (·.get? isin) with
  | some lei => exact .inl rfl
  | none =>
    apply (byName_keeps_values hnames q hq).mono
    rintro x g ⟨-, hx⟩
    exact hx

theorem explain_keeps_values (name : String) : (explain s name).Keeps (valueContract r s names)
    (fun _ _ => True) none := by
  apply Dialogue.keeps_perform_bind.2
  refine ⟨trivial, fun _ _ => ?_⟩
  apply Dialogue.keeps_bind.2
  apply (search_asks name).keeps
  · intro op hop
    cases op with
    | fetch | pause | draw => exact ⟨trivial, fun _ => rfl⟩
    | _ => cases hop
  · intro t
    exact ⟨trivial, fun _ _ => trivial⟩

def Call.Tells (r : StatelessRegistry) (s : Settings α) : Call → Return α → Prop
  | .resolve q, x => ∃ y, x = .resolved y ∧ Told r s q y
  | .index, x => x = .index (r.index? s)
  | .explain _, _ => True

theorem Call.keeps_values (hnames : Apart s names) (call : Call)
    (hcall : ∀ q, call = .resolve q → names q.name) :
    (call.dialogue s).Keeps (valueContract r s names) (fun x _ => call.Tells r s x) none := by
  cases call with
  | resolve q =>
    apply Dialogue.keeps_bind.2
    apply (resolve_keeps_values hnames q (hcall q rfl)).mono
    intro x g hx
    exact ⟨x, rfl, hx⟩
  | index =>
    apply Dialogue.keeps_bind.2
    apply theIndex_keeps_values.mono
    rintro x g ⟨-, rfl⟩
    rfl
  | explain name =>
    apply Dialogue.keeps_bind.2
    apply (explain_keeps_values name).mono
    intro t g _
    trivial

end

end LegalEntity.Resolver
