import LegalEntity.Proofs.Runs.Calls
import LegalEntity.Proofs.Runs.Contract
import Mathlib.Data.List.TakeWhile
import Mathlib.Tactic.ByContra

namespace LegalEntity.Resolver

/-- What a call knows of the index. A call that loads it has perhaps asked for the metadata and for
the archive already. -/
inductive Knowledge
  | nothing
  | loading (metadata archive : Bool)
  | told (index : Option IsinIndex)

def mayLoad (metadata archive : Bool) : Op → Prop
  | .fetch _ [] => metadata = false
  | .download .. => archive = false
  | .lookUp _ => True
  | .keep .. => True
  | .openScratch => True
  | .readScratch _ => True
  | .closeScratch _ => True
  | .publishIndex _ => True
  | _ => False

def indexContract (needs : Bool) : Contract Knowledge where
  start := .nothing
  allows
    | .loading metadata archive, op => needs = true ∧ mayLoad metadata archive op
    | k, op => op.ofIndex = true → op = .claimIndex ∧ k = .nothing ∧ needs = true
  expects _ _ _ := True
  next
    | .nothing, .claimIndex, .load => .loading false false
    | .nothing, .claimIndex, .ready x => .told x
    | .loading _ archive, .fetch .., _ => .loading true archive
    | .loading metadata _, .download .., _ => .loading metadata true
    | .loading .., .publishIndex x, _ => .told x
    | k, _, _ => k

theorem loading_of_isMetadata {needs : Bool} {k : Knowledge} {op : Op}
    (h : (indexContract needs).allows k op) (hop : op.isMetadata = true) :
    ∃ archive, k = .loading false archive := by
  cases op with
  | fetch url parameters =>
    cases parameters with
    | nil =>
      cases k with
      | loading metadata archive =>
        cases h.2
        exact ⟨archive, rfl⟩
      | _ => exact absurd (h rfl).1 nofun
    | cons p ps => cases hop
  | _ => cases hop

theorem loading_of_isDownload {needs : Bool} {k : Knowledge} {op : Op}
    (h : (indexContract needs).allows k op) (hop : op.isDownload = true) :
    ∃ metadata, k = .loading metadata false := by
  cases op with
  | download url scratch =>
    cases k with
    | loading metadata archive =>
      cases h.2
      exact ⟨metadata, rfl⟩
    | _ => exact absurd (h rfl).1 nofun
  | _ => cases hop

theorem needs_of_ofIndex {needs : Bool} {k : Knowledge} {op : Op}
    (h : (indexContract needs).allows k op) (hop : op.ofIndex = true) : needs = true := by
  cases k with
  | loading metadata archive => exact h.1
  | _ => exact (h hop).2.2

section

variable {α : Type} {s : Settings α} {needs : Bool}

theorem fetchMetadata_keeps : (fetchMetadata s).Keeps (indexContract true)
    (fun _ k => k = .loading true false) (.loading false false) := by
  refine Dialogue.keeps_perform_bind.2 ⟨⟨rfl, rfl⟩, fun r _ => ?_⟩
  cases r with
  | error e => rfl
  | ok reply =>
    dsimp only
    split
    · split <;> rfl
    · rfl

theorem downloadIndex_keeps (link : String) : (downloadIndex link).Keeps (indexContract true)
    (fun _ k => ∃ archive, k = .loading true archive) (.loading true false) := by
  refine ⟨⟨rfl, trivial⟩, fun scratch _ => ?_⟩
  cases scratch with
  | error e => exact ⟨false, rfl⟩
  | ok scratch =>
    refine ⟨⟨rfl, rfl⟩, fun r _ => ?_⟩
    cases r with
    | error e => exact ⟨⟨rfl, trivial⟩, fun _ _ => ⟨true, rfl⟩⟩
    | ok _ =>
      refine ⟨⟨rfl, trivial⟩, fun content _ => ⟨⟨rfl, trivial⟩, fun _ _ => ?_⟩⟩
      cases content <;> exact ⟨true, rfl⟩

theorem buildIndex_keeps : (buildIndex s).Keeps (indexContract true)
    (fun _ k => ∃ archive, k = .loading true archive) (.loading false false) := by
  refine Dialogue.keeps_bind.2 (fetchMetadata_keeps.mono fun r k hk => ?_)
  subst hk
  cases r with
  | error e => exact ⟨false, rfl⟩
  | ok m =>
    dsimp only
    split
    · exact ⟨false, rfl⟩
    · exact downloadIndex_keeps _

theorem cachedIndex_keeps : (cachedIndex s).Keeps (indexContract true)
    (fun _ k => k = .loading false false) (.loading false false) := by
  unfold cachedIndex
  split
  · rfl
  · exact ⟨⟨rfl, trivial⟩, fun _ _ => rfl⟩

theorem loadIndex_keeps : (loadIndex s).Keeps (indexContract true)
    (fun _ k => ∃ metadata archive, k = .loading metadata archive) (.loading false false) := by
  refine Dialogue.keeps_bind.2 (cachedIndex_keeps.mono fun r k hk => ?_)
  subst hk
  split
  · exact ⟨false, false, rfl⟩
  · refine Dialogue.keeps_bind.2 (buildIndex_keeps.mono fun r k hk => ?_)
    obtain ⟨archive, rfl⟩ := hk
    split
    · exact ⟨true, archive, rfl⟩
    · split
      · exact ⟨true, archive, rfl⟩
      · exact ⟨true, archive, rfl⟩
      · exact ⟨⟨rfl, trivial⟩, fun _ _ => ⟨true, archive, rfl⟩⟩

theorem theIndex_keeps : (theIndex s).Keeps (indexContract true)
    (fun x k => k = .told x) .nothing := by
  refine Dialogue.keeps_perform_bind.2 ⟨fun _ => ⟨rfl, rfl, rfl⟩, fun turn _ => ?_⟩
  cases turn with
  | ready index => rfl
  | load =>
    refine Dialogue.keeps_bind.2 (loadIndex_keeps.mono fun x k hk => ?_)
    obtain ⟨metadata, archive, rfl⟩ := hk
    exact ⟨⟨rfl, trivial⟩, fun _ _ => rfl⟩

def Knowledge.isLoading : Knowledge → Bool
  | .loading .. => true
  | _ => false

theorem indexContract_quiet {k : Knowledge} (hk : k.isLoading = false) {op : Op}
    (hop : op.ofIndex = false) :
    (indexContract needs).allows k op ∧ ∀ a, (indexContract needs).next k op a = k := by
  cases k with
  | nothing =>
    refine ⟨fun h => absurd h (by simp [hop]), fun a => ?_⟩
    cases op <;> first | rfl | simp [Op.ofIndex, Op.ofSearch, Op.isRequest, Op.ofCache, Op.ofGate] at hop
  | loading metadata archive => simp [Knowledge.isLoading] at hk
  | told x => exact ⟨fun h => absurd h (by simp [hop]), fun a => rfl⟩

theorem Dialogue.Asks.keeps_index {t : Dialogue β} {k : Knowledge} (hk : k.isLoading = false)
    (h : t.Asks (·.ofIndex = false)) : t.Keeps (indexContract needs) (fun _ k' => k' = k) k :=
  h.keeps (fun _ hop => indexContract_quiet hk hop) fun _ => rfl

theorem exists_of_canonicalIsin {q : Query} (h : q.canonicalIsin?.isSome) :
    (Call.resolve q).needsIndex = true := by
  cases hq : q.isin with
  | none => simp [Query.canonicalIsin?, hq] at h
  | some isin =>
    by_contra hblank
    have hall : ∀ c ∈ isin.toList, Text.isBlank c = true := by
      simpa [Call.needsIndex, hq] using hblank
    have htrim : Text.trim isin.toList = [] := by
      simp [Text.trim, Text.trimBoth, Text.trimStart, Text.trimEnd,
        List.dropWhile_eq_nil_iff.2 hall]
    simp [Query.canonicalIsin?, hq, canonical, htrim, Text.uppercase] at h

theorem byIsin_keeps {q : Query} :
    (byIsin s q).Keeps (indexContract (Call.resolve q).needsIndex)
      (fun _ k => k.isLoading = false) .nothing := by
  unfold byIsin
  split
  · rfl
  · rename_i isin hq
    rw [exists_of_canonicalIsin (q := q) (by simp [hq])]
    exact Dialogue.keeps_bind.2 (theIndex_keeps.mono fun x k hk => by subst hk; rfl)

def knowsAtEnd (r : Return α) (k : Knowledge) : Prop :=
  k.isLoading = false ∧ ∀ x, r = .index x → k = .told x

theorem Call.keeps_index [Scalar α] (call : Call) :
    (call.dialogue s).Keeps (indexContract call.needsIndex) knowsAtEnd .nothing := by
  cases call with
  | resolve q =>
    refine Dialogue.keeps_bind.2 (Dialogue.keeps_bind.2 (byIsin_keeps.mono fun r k hk => ?_))
    cases r with
    | some r => exact ⟨hk, fun x h => by cases h⟩
    | none =>
      refine (((byName_asks q).mono fun op h => ?_).keeps_index hk).mono fun r k' hk' => ?_
      · exact h.elim Op.ofIndex_of_ofName Op.ofIndex_of_ofGate
      · subst hk'
        exact ⟨hk, fun x h => by cases h⟩
  | index =>
    refine Dialogue.keeps_bind.2 (theIndex_keeps.mono fun x k hk => ?_)
    subst hk
    exact ⟨rfl, fun y h => by cases h; rfl⟩
  | explain name =>
    refine Dialogue.keeps_bind.2 ((((explain_asks name).mono fun op h => ?_).keeps_index rfl).mono
      fun r k hk => ?_)
    · exact h.elim (fun h => by simp [Op.ofIndex, h]) Op.ofIndex_of_ofGate
    · subst hk
      exact ⟨rfl, fun x h => by cases h⟩

end

end LegalEntity.Resolver
