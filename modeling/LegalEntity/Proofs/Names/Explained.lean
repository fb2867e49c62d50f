import LegalEntity.Proofs.Names.Listing
import LegalEntity.Proofs.Names.Outcome
import LegalEntity.Proofs.Names.Score
import LegalEntity.Proofs.Names.Words

namespace LegalEntity.Resolver

open Dialogue (Course course_bind course_done)
open Name (closest?_of_pair normalForm normalSimilarity passes ranking_of_pair scored similarity
  sortedRatio sorted_of_word wordSetRatio wordSet_of_word)
open Text (words)

/-- How a search for a name that is not blank has gone: its chains, what they brought, and what the
trace makes of it. -/
structure SearchCourse (s : Settings Float) (name : String) (i : Nat) (completions : List Entity)
    (active : List String) (first second third : List Event) (t : Trace Float) : Prop where
  named : t.name = name ∧ t.query = searchText name
  completed : Retried s.retry s.completionsUrl [("field", "fulltext"), ("q", searchText name)]
    Registry.completions? i first completions
  not_filtered : completions = [] → second = []
  filtered : completions ≠ [] → Retried s.retry s.recordsUrl
    [("filter[lei]", ",".intercalate (completions.map (·.lei))),
      ("filter[entity.status]", "ACTIVE")]
    Registry.identifiers? i second active
  candidates : t.candidates = completions.filter (·.lei ∈ active)
  ranked : t.ranked = Name.ranking name s.cutoff t.candidates
  not_owned : t.ranked = [] → third = [] ∧ t.parents = []
  owned : ∀ best rest, t.ranked = best :: rest → Retried s.retry s.recordsUrl
    [("filter[owns]", best.entity.lei)] Registry.records? i third t.parents
  chosen_none : t.chosenParent = none ↔ t.parents = []
  chosen_some : ∀ parent, t.chosenParent = some parent → Name.IsFirstBest name t.parents parent
  lei_none : t.lei = none ↔ t.ranked = []
  lei_of_parent : ∀ parent, t.chosenParent = some parent → t.lei = some parent.lei
  lei_of_best : ∀ best rest, t.ranked = best :: rest → t.parents = [] → t.lei = some best.entity.lei

section

variable {α : Type} {s : Settings α} {name : String} {i : Nat} {l : List Event}

theorem onlyActive_course {completions candidates : List Entity}
    (h : (onlyActive s completions).Course i l candidates) :
    ∃ active, (completions = [] → l = []) ∧ (completions ≠ [] → Retried s.retry s.recordsUrl
      [("filter[lei]", ",".intercalate (completions.map (·.lei))),
        ("filter[entity.status]", "ACTIVE")] Registry.identifiers? i l active) ∧
      candidates = completions.filter (·.lei ∈ active) := by
  have hcontains (active : List String) : (completions.filter fun e => active.contains e.lei) =
      completions.filter (·.lei ∈ active) := by simp
  rw [← Dialogue.bind_done (onlyActive s completions), onlyActive_bind, course_bind] at h
  obtain ⟨active, front, rest, rfl, hfront, hrest⟩ := h
  obtain ⟨rfl, rfl⟩ := course_done.1 hrest
  rw [List.append_nil]
  split at hfront
  · rename_i hempty
    obtain rfl := List.isEmpty_iff.1 hempty
    obtain ⟨rfl, rfl⟩ := course_done.1 hfront
    exact ⟨[], fun _ => rfl, fun h => absurd rfl h, rfl⟩
  · rename_i hempty
    exact ⟨active, fun h => absurd (List.isEmpty_iff.2 h) hempty, fun _ => request_course.1 hfront,
      hcontains active⟩

/-- How a search gets its candidates. -/
structure GetsCandidates (s : Settings α) (name : String) (i : Nat) (completions : List Entity)
    (active : List String) (first second : List Event) (candidates : List Entity) : Prop where
  completed : Retried s.retry s.completionsUrl [("field", "fulltext"), ("q", searchText name)]
    Registry.completions? i first completions
  not_filtered : completions = [] → second = []
  filtered : completions ≠ [] → Retried s.retry s.recordsUrl
    [("filter[lei]", ",".intercalate (completions.map (·.lei))),
      ("filter[entity.status]", "ACTIVE")]
    Registry.identifiers? i second active
  candidates : candidates = completions.filter (·.lei ∈ active)

theorem searchByName_course {candidates : List Entity}
    (h : (searchByName s name).Course i l candidates) : ∃ completions active first second,
      l = first ++ second ∧ GetsCandidates s name i completions active first second candidates := by
  rw [searchByName, Dialogue.bind_eq, course_bind] at h
  obtain ⟨completions, first, second, rfl, hfirst, hsecond⟩ := h
  obtain ⟨active, hnone, hsome, hcandidates⟩ := onlyActive_course hsecond
  exact ⟨completions, active, first, second, rfl, request_course.1 hfirst, hnone, hsome,
    hcandidates⟩

variable [Scalar α] {t : Trace α}

theorem search_of_blank (h : ∀ c ∈ name.toList, Text.isBlank c = true) :
    search s name = .done (Trace.start α name) := by
  have htrim : (Text.trim name.toList).isEmpty = true :=
    List.isEmpty_iff.2 (Text.trim_eq_nil.2 (Text.words_eq_nil.2 h))
  rw [search, if_pos htrim]
  rfl

def afterCandidates (s : Settings α) (name : String) (candidates : List Entity) :
    List (Scored α) → Dialogue (Trace α)
  | [] => .done { Trace.start α name with candidates }
  | best :: others => (fetchParents s best.entity.lei).bind fun parents =>
    .done { Trace.start α name with
      candidates
      ranked := best :: others
      parents
      chosenParent := Name.closest? α name parents
      lei := some ((Name.closest? α name parents).getD best.entity).lei }

theorem search_of_not_blank (h : ¬∀ c ∈ name.toList, Text.isBlank c = true) :
    search s name = (searchByName s name).bind fun candidates =>
      afterCandidates s name candidates (Name.ranking name s.cutoff candidates) := by
  have htrim : ¬(Text.trim name.toList).isEmpty = true := fun htrim =>
    h (Text.words_eq_nil.1 (Text.trim_eq_nil.1 (List.isEmpty_iff.1 htrim)))
  rw [search, if_neg htrim, Dialogue.bind_eq]
  refine congrArg (Dialogue.bind _) (funext fun candidates => ?_)
  dsimp only [Trace.best?]
  cases Name.ranking name s.cutoff candidates <;> rfl

theorem search_reaches {σ : Type} {w : Surroundings σ} {x y z : Shared × σ}
    {candidates parents : List Entity} {best : Scored α} {others : List (Scored α)}
    (hname : ¬∀ c ∈ name.toList, Text.isBlank c = true)
    (hcandidates : (searchByName s name).Reaches w x y candidates)
    (hranked : Name.ranking name s.cutoff candidates = best :: others)
    (hparents : (fetchParents s best.entity.lei).Reaches w y z parents) :
    (search s name).Reaches w x z { Trace.start α name with
      candidates
      ranked := best :: others
      parents
      chosenParent := Name.closest? α name parents
      lei := some ((Name.closest? α name parents).getD best.entity).lei } := by
  rw [search_of_not_blank hname]
  refine hcandidates.bind ?_
  rw [hranked]
  exact hparents.bind .done

theorem explain_course (h : (explain s name).Course i l t) :
    ∃ inside, l = ⟨i, .enter, ()⟩ :: inside ++ [⟨i, .leave, ()⟩] ∧
      (search s name).Course i inside t := by
  have hexplain : (Dialogue.ask .enter fun _ => (search s name).bind fun t =>
      .ask .leave fun _ => .done t).Course i l t := h
  obtain ⟨⟨⟩, l, rfl, hentered⟩ := Dialogue.course_ask.1 hexplain
  obtain ⟨t', inside, out, rfl, hinside, hout⟩ := course_bind.1 hentered
  obtain ⟨⟨⟩, rest, rfl, hleft⟩ := Dialogue.course_ask.1 hout
  obtain ⟨rfl, rfl⟩ := course_done.1 hleft
  exact ⟨inside, rfl, hinside⟩

end

section

variable {s : Settings Float} {name : String} {i : Nat} {l : List Event} {t : Trace Float}

theorem search_course (hname : ¬∀ c ∈ name.toList, Text.isBlank c = true)
    (h : (search s name).Course i l t) : ∃ completions active first second third,
      l = first ++ second ++ third ∧
        SearchCourse s name i completions active first second third t := by
  rw [search_of_not_blank hname, course_bind] at h
  obtain ⟨candidates, front, third, rfl, hfront, hthird⟩ := h
  obtain ⟨completions, active, first, second, rfl, hgets⟩ := searchByName_course hfront
  refine ⟨completions, active, first, second, third, rfl, ?_⟩
  cases hranked : Name.ranking name s.cutoff candidates with
  | nil =>
    rw [hranked] at hthird
    obtain ⟨rfl, rfl⟩ := course_done.1 hthird
    exact {
      named := ⟨rfl, rfl⟩
      completed := hgets.completed
      not_filtered := hgets.not_filtered
      filtered := hgets.filtered
      candidates := hgets.candidates
      ranked := hranked.symm
      not_owned := fun _ => ⟨rfl, rfl⟩
      owned := nofun
      chosen_none := ⟨fun _ => rfl, fun _ => rfl⟩
      chosen_some := nofun
      lei_none := ⟨fun _ => rfl, fun _ => rfl⟩
      lei_of_parent := nofun
      lei_of_best := nofun }
  | cons best others =>
    rw [hranked, afterCandidates, course_bind] at hthird
    obtain ⟨parents, front, rest, rfl, hfront, hrest⟩ := hthird
    obtain ⟨rfl, rfl⟩ := course_done.1 hrest
    rw [List.append_nil]
    exact {
      named := ⟨rfl, rfl⟩
      completed := hgets.completed
      not_filtered := hgets.not_filtered
      filtered := hgets.filtered
      candidates := hgets.candidates
      ranked := hranked.symm
      not_owned := nofun
      owned := by
        rintro _ _ ⟨⟩
        exact request_course.1 hfront
      chosen_none := Name.closest?_eq_none
      chosen_some := fun parent hparent => Name.closest?_eq_some hparent
      lei_none := ⟨nofun, nofun⟩
      lei_of_parent := fun parent hparent =>
        congrArg (fun chosen => some (chosen.getD best.entity).lei) hparent
      lei_of_best := by
        rintro _ _ ⟨⟩ hparents
        exact congrArg (fun chosen => some (chosen.getD best.entity).lei)
          (Name.closest?_eq_none.2 hparents) }

end

/-- A call that explains a name ends with the trace of its search: in a slot of the gate it asks
nothing for a blank name, and otherwise sends its chains in their order and nothing else. -/
theorem explain_end_to_end {σ : Type} {w : Surroundings σ} (settings : Settings Float)
    {calls : List Call} (shared : Shared) (outside : σ) {i : Nat} {name : String}
    (hi : calls[i]? = some (.explain name)) :
    (∀ s r, Run w (.start (calls.map (·.dialogue settings)) shared outside) s →
      s.result? i = some r → ∃ t inside, r = .explained t ∧
        (ownEvents i s.log).reverse = ⟨i, .enter, ()⟩ :: inside ++ [⟨i, .leave, ()⟩] ∧
        ((∀ c ∈ name.toList, Text.isBlank c = true) → inside = [] ∧ t = Trace.start Float name) ∧
        (¬(∀ c ∈ name.toList, Text.isBlank c = true) → ∃ completions active first second third,
          inside = first ++ second ++ third ∧
          SearchCourse settings name i completions active first second third t)) ∧
    (w.Responsive → shared.AtRest settings.slots →
      (State.start (calls.map (·.dialogue settings)) shared outside).Ends w fun s =>
        ∃ t, s.result? i = some (.explained t)) := by
  have hcall : (calls.map (·.dialogue settings))[i]? =
      some ((Call.explain name).dialogue settings) := by
    rw [List.getElem?_map, hi]
    rfl
  have hcourse : ∀ s r, Run w (.start (calls.map (·.dialogue settings)) shared outside) s →
      s.result? i = some r → ∃ t, r = .explained t ∧
        (explain settings name).Course i (ownEvents i s.log).reverse t := by
    intro s r hrun hr
    obtain ⟨t, front, rest, hl, hfront, hrest⟩ := course_bind.1 (hrun.course hcall hr)
    obtain ⟨rfl, rfl⟩ := course_done.1 hrest
    rw [hl, List.append_nil]
    exact ⟨t, rfl, hfront⟩
  constructor
  · intro s r hrun hr
    obtain ⟨t, rfl, ht⟩ := hcourse s r hrun hr
    obtain ⟨inside, hl, hinside⟩ := explain_course ht
    refine ⟨t, inside, rfl, hl, fun hblank => ?_, fun hname => search_course hname hinside⟩
    rw [search_of_blank hblank] at hinside
    exact course_done.1 hinside
  · intro hw hshared
    have hslots : 0 < settings.slots := Nat.lt_of_lt_of_le Nat.one_pos (Nat.le_max_right _ 1)
    have hgoOn : ∀ s, Run w (.start (calls.map (·.dialogue settings)) shared outside) s →
        ¬s.Finished → s.CanGoOn w := fun s hrun hnot =>
      hshared.can_go_on hslots hw calls_wellBehaved hrun hnot
    have hends := State.ends_of_canGoOn hgoOn
    refine ⟨hends.finite, fun s hrun hend => ?_⟩
    have hlength : i < s.calls.length := by
      rw [hrun.length_calls]
      exact (List.getElem?_eq_some_iff.1 hcall).1
    obtain ⟨r, hr⟩ := (hends.last s hrun hend).result hlength
    obtain ⟨t, rfl, -⟩ := hcourse s r hrun hr
    exact ⟨t, hr⟩

theorem ranking_acme :
    Name.ranking "Acme" (70.0 : Float) [⟨"Acma", "C"⟩, ⟨"Zebra", "Z"⟩, ⟨"ACME", "A"⟩] =
        [scored "Acme" ⟨"ACME", "A"⟩, scored "Acme" ⟨"Acma", "C"⟩] ∧
      Name.closest? Float "Acme" [⟨"Zebra", "Y"⟩, ⟨"Acma", "P"⟩] = some ⟨"Acma", "P"⟩ := by
  have hforms : normalForm "Acme".toList = "acme".toList ∧ normalForm "ACME".toList = "acme".toList ∧
      normalForm "Acma".toList = "acma".toList ∧ normalForm "Zebra".toList = "zebra".toList := by
    decide +kernel
  have hacme : words "acme".toList = ["acme".toList] := by decide +kernel
  have hacma : words "acma".toList = ["acma".toList] := by decide +kernel
  have hzebra : words "zebra".toList = ["zebra".toList] := by decide +kernel
  obtain ⟨hpasses, hfails, hpasses', hfirst, hcloser⟩ :
      passes (70.0 : Float) (scored "Acme" ⟨"Acma", "C"⟩) = true ∧
      passes (70.0 : Float) (scored "Acme" ⟨"Zebra", "Z"⟩) = false ∧
      passes (70.0 : Float) (scored "Acme" ⟨"ACME", "A"⟩) = true ∧
      Scalar.totalLE (similarity "Acme" "ACME" : Float) (similarity "Acme" "Acma") = false ∧
      (similarity "Acme" "Zebra" : Float) < similarity "Acme" "Acma" := by
    simp only [passes, scored, similarity, hforms, normalSimilarity, sortedRatio, wordSetRatio,
      sorted_of_word hacme, sorted_of_word hacma, sorted_of_word hzebra, wordSet_of_word hacme,
      wordSet_of_word hacma, wordSet_of_word hzebra]
    decide +kernel
  exact ⟨ranking_of_pair (by simp [hpasses, hfails, hpasses']) hfirst, closest?_of_pair hcloser⟩

/-- A completion that is not active, one below the cutoff and two above it, the better one last. Of
its owners the second is chosen. -/
theorem explain_end_to_end_owned : ∃ shared s t inside,
    Shared.ofSettings? (Settings.default (α := Float)) none = some shared ∧
    Run (.reporting [⟨"Acma", "C"⟩, ⟨"Acme", "D"⟩, ⟨"Zebra", "Z"⟩, ⟨"ACME", "A"⟩]
        [⟨"Zebra", "Z"⟩, ⟨"ACME", "A"⟩, ⟨"Acma", "C"⟩] [⟨"Zebra", "Y"⟩, ⟨"Acma", "P"⟩])
      (.start ([Call.explain "Acme"].map (·.dialogue (.default (α := Float)))) shared ()) s ∧
    s.result? 0 = some (.explained t) ∧
    (ownEvents 0 s.log).reverse = ⟨0, .enter, ()⟩ :: inside ++ [⟨0, .leave, ()⟩] ∧
    (∃ completions active first second third, inside = first ++ second ++ third ∧
      SearchCourse (.default (α := Float)) "Acme" 0 completions active first second third t) ∧
    t.candidates = [⟨"Acma", "C"⟩, ⟨"Zebra", "Z"⟩, ⟨"ACME", "A"⟩] ∧
    t.ranked.map (·.entity) = [⟨"ACME", "A"⟩, ⟨"Acma", "C"⟩] ∧
    t.chosenParent = some ⟨"Acma", "P"⟩ ∧ t.lei = some "P" := by
  let s : Settings Float := .default
  let completions : List Entity := [⟨"Acma", "C"⟩, ⟨"Acme", "D"⟩, ⟨"Zebra", "Z"⟩, ⟨"ACME", "A"⟩]
  let active : List Entity := [⟨"Zebra", "Z"⟩, ⟨"ACME", "A"⟩, ⟨"Acma", "C"⟩]
  let owners : List Entity := [⟨"Zebra", "Y"⟩, ⟨"Acma", "P"⟩]
  let candidates : List Entity := [⟨"Acma", "C"⟩, ⟨"Zebra", "Z"⟩, ⟨"ACME", "A"⟩]
  have hname : ¬∀ c ∈ "Acme".toList, Text.isBlank c = true := fun h => nomatch h 'A' (by simp)
  obtain ⟨hranked, hchosen⟩ := ranking_acme
  have hcompletions : Registry.completions? (listReply (completions.map completionItem)) =
      some completions := by decide +kernel
  have hactive : Registry.identifiers? (listReply (active.map identifierItem)) =
      some ["Z", "A", "C"] := by decide +kernel
  have howners : Registry.records? (listReply (owners.map recordItem)) = some owners := by
    decide +kernel
  have hcandidates : (searchByName s "Acme").Reaches (.reporting completions active owners)
      (.unused 0, ()) (.unused 0, ()) candidates :=
    (request_reaches rfl hcompletions rfl).bind ((request_reaches rfl hactive rfl).bind .done)
  obtain ⟨log, hrun⟩ := explain_reaches
    (search_reaches hname hcandidates hranked (request_reaches rfl howners rfl)) []
  have hcall : ([.explain "Acme"] : List Call)[0]? = some (.explain "Acme") := rfl
  obtain ⟨hcourse, -⟩ :=
    explain_end_to_end (w := .reporting completions active owners) s (.unused 1) () hcall
  obtain ⟨t, inside, heq, hevents, -, hsearched⟩ := hcourse _ _ hrun rfl
  cases heq
  exact ⟨.unused 1, _, _, inside, rfl, hrun, rfl, hevents, hsearched hname, rfl, rfl, hchosen,
    by simp [owners, hchosen]⟩

end LegalEntity.Resolver
