import LegalEntity.Proofs.Names.Distance
import LegalEntity.Proofs.Names.Outcome
import LegalEntity.Proofs.Names.Spelling

namespace LegalEntity.Resolver

open Name (normalForm)

def RankedAlike (a b : String) : Prop :=
  ∀ (α : Type) [Scalar α],
    (∀ (cutoff : α) (es : List Entity), Name.ranking a cutoff es = Name.ranking b cutoff es) ∧
      ∀ es : List Entity, Name.closest? α a es = Name.closest? α b es

section

variable {α : Type} [Scalar α] {a b : String}

theorem scored_congr (h : normalForm a.toList = normalForm b.toList) :
    Name.scored (α := α) a = Name.scored b := by
  funext e
  rw [Name.scored, Name.similarity, h]
  rfl

theorem RankedAlike.of_normalForm (h : normalForm a.toList = normalForm b.toList) :
    RankedAlike a b := by
  intro α _
  constructor
  · intro cutoff es
    rw [Name.ranking, scored_congr h]
    rfl
  · intro es
    cases es with
    | nil => rfl
    | cons e es =>
      rw [Name.closest?, scored_congr h]
      rfl

theorem ranking_singleton (name : String) (cutoff : α) (e : Entity) :
    Name.ranking name cutoff [e] =
      if Name.passes cutoff (Name.scored name e) then [Name.scored name e] else [] := by
  cases h : Name.passes cutoff (Name.scored name e) <;> simp [Name.ranking, h]

end

section

variable {a b : String}

theorem ranking_ne {e : Entity} (ha : normalForm a.toList = normalForm e.legalName.toList)
    (hne : normalForm e.legalName.toList ≠ [])
    (hb : normalForm b.toList ≠ normalForm e.legalName.toList) :
    Name.ranking a (0 : Rat) [e] ≠ Name.ranking b 0 [e] := by
  have hself : (100 : Rat) ≤ (Name.scored a e).score := by
    rw [Name.scored, Name.similarity, ha]
    exact Name.normalSimilarity_self hne
  have hother : (Name.scored b e).score < (100 : Rat) := Name.normalSimilarity_lt hb
  have hpasses : Name.passes (0 : Rat) (Name.scored a e) = true := by
    rw [Name.passes, Bool.and_eq_true, decide_eq_true_eq, decide_eq_true_eq]
    constructor <;> linarith
  rw [ranking_singleton, ranking_singleton, if_pos hpasses]
  intro heq
  split at heq
  · have hscore := congrArg Scored.score (List.cons.inj heq).1
    linarith
  · cases heq

theorem rankedAlike_iff : RankedAlike a b ↔ normalForm a.toList = normalForm b.toList := by
  constructor
  · intro h
    have hranking := (h Rat).1 0
    by_contra hne
    by_cases hempty : normalForm a.toList = []
    · -- An empty normal form is similar to nothing, so the entity takes the other name.
      have hb : normalForm b.toList ≠ [] := fun hb => hne (hempty.trans hb.symm)
      exact ranking_ne (e := ⟨b, ""⟩) rfl hb hne (hranking _).symm
    · exact ranking_ne (e := ⟨a, ""⟩) rfl hempty (Ne.symm hne) (hranking _)
  · exact .of_normalForm

theorem nameForm_of_normalName (h : Cache.normalName a = Cache.normalName b) :
    Cache.nameForm a.toList = Cache.nameForm b.toList :=
  String.ofList_injective h

theorem outcomeOf_congr {α : Type} [Scalar α] (hkey : Cache.normalName a = Cache.normalName b)
    (h : RankedAlike a b) (s : Settings α) (completions : List Entity) (active : List String)
    (owners : List Entity) :
    outcomeOf s a completions active owners = outcomeOf s b completions active owners := by
  have hblank : (Text.trim a.toList).isEmpty = (Text.trim b.toList).isEmpty := by
    rw [Bool.eq_iff_iff, List.isEmpty_iff, List.isEmpty_iff, ← Name.nameForm_eq_nil,
      ← Name.nameForm_eq_nil, nameForm_of_normalName hkey]
  obtain ⟨hranking, hclosest⟩ := h α
  simp only [outcomeOf, best?, hblank, hranking, hclosest]

end

/-- Names of steady characters that share a key are ranked alike; others that share one are exactly if
their normal forms agree. The outcome that is kept for the one is then that of the other. -/
theorem spellings_ranked_alike {a b : String} (hkey : Cache.normalName a = Cache.normalName b) :
    (a.toList.all Name.isSteady = true → b.toList.all Name.isSteady = true → RankedAlike a b) ∧
      (RankedAlike a b ↔ normalForm a.toList = normalForm b.toList) ∧
      (RankedAlike a b → ∀ (α : Type) [Scalar α] (s : Settings α) (completions : List Entity)
        (active : List String) (owners : List Entity),
        outcomeOf s a completions active owners = outcomeOf s b completions active owners) := by
  refine ⟨fun ha hb => .of_normalForm ?_, rankedAlike_iff, fun h α _ => outcomeOf_congr hkey h⟩
  rw [← Name.normalForm_nameForm (List.all_eq_true.1 ha), nameForm_of_normalName hkey,
    Name.normalForm_nameForm (List.all_eq_true.1 hb)]

/-- A final sigma is upper-cased as any other, but is not compared as any other. -/
theorem spellings_ranked_alike_sigma :
    Cache.normalName "Apple  Inc." = Cache.normalName " apple inc." ∧
      RankedAlike "Apple  Inc." " apple inc." ∧
      Cache.normalName "σας" = Cache.normalName "ΣΑΣ" ∧ ¬RankedAlike "σας" "ΣΑΣ" := by
  have happle : Cache.normalName "Apple  Inc." = Cache.normalName " apple inc." := by decide +kernel
  have hsigma : Cache.normalName "σας" = Cache.normalName "ΣΑΣ" := by decide +kernel
  refine ⟨happle, (spellings_ranked_alike happle).1 ?_ ?_, hsigma, fun h => ?_⟩
  · decide +kernel
  · decide +kernel
  · have hforms := (spellings_ranked_alike hsigma).2.1.1 h
    revert hforms
    decide +kernel

example : Name.ranking "Weiß" (70.0 : Rat) [⟨"Weiss", "W"⟩] = [] ∧
    (Name.ranking "WEISS" (70.0 : Rat) [⟨"Weiss", "W"⟩]).map (·.score) = [100] := by decide +kernel

end LegalEntity.Resolver
