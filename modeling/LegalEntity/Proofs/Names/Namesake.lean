import LegalEntity.Proofs.Names.Bands
import LegalEntity.Proofs.Names.Courses
import LegalEntity.Proofs.Names.Foremost

namespace LegalEntity.Name

open Text

/-- The entity is the first whose legal name has the normal form of a name. -/
def IsFirstNamesake (name : String) (es : List Entity) (e : Entity) : Prop :=
  ∃ before after, es = before ++ e :: after ∧
    normalForm e.legalName.toList = normalForm name.toList ∧
    ∀ d ∈ before, normalForm d.legalName.toList ≠ normalForm name.toList

section

variable {name : String} {es : List Entity} {d e : Entity}

theorem exists_isFirstNamesake (hd : d ∈ es)
    (h : normalForm d.legalName.toList = normalForm name.toList) :
    ∃ e, IsFirstNamesake name es e := by
  have hsome : (es.find? (normalForm ·.legalName.toList = normalForm name.toList)).isSome :=
    List.find?_isSome.2 ⟨d, hd, decide_eq_true h⟩
  obtain ⟨e, he⟩ := Option.isSome_iff_exists.1 hsome
  obtain ⟨hform, before, after, hsplit, hbefore⟩ := List.find?_eq_some_iff_append.1 he
  exact ⟨e, before, after, hsplit, of_decide_eq_true hform, fun d hd => by simpa using hbefore d hd⟩

theorem similarity_le_hundred (x y : String) : similarity x y ≤ (100 : Rat) :=
  (inBand _ _).le_hundred

theorem scored_namesake (hname : normalForm name.toList ≠ [])
    (h : normalForm e.legalName.toList = normalForm name.toList) :
    scored name e = ⟨e, (100 : Rat)⟩ := by
  have hscore : similarity name e.legalName = (100 : Rat) := by
    rw [similarity, h]
    exact le_antisymm (normalSimilarity_le hname hname) (normalSimilarity_self hname)
  rw [scored, hscore]

theorem IsFirstNamesake.isForemost (h : IsFirstNamesake name es e)
    (hname : normalForm name.toList ≠ []) :
    IsForemost (fun s t : Scored Rat => Scalar.totalLE t.score s.score) (es.map (scored name))
      ⟨e, 100⟩ := by
  obtain ⟨before, after, rfl, hform, hbefore⟩ := h
  refine ⟨before.map (scored name), after.map (scored name), ?_, ?_, ?_⟩
  · rw [List.map_append, List.map_cons, scored_namesake hname hform]
  · rw [List.forall_mem_map]
    intro d hd
    exact decide_eq_false (not_le.2 (normalSimilarity_lt (hbefore d hd).symm))
  · rw [List.forall_mem_map]
    intro d _
    exact decide_eq_true (similarity_le_hundred name d.legalName)

theorem IsFirstNamesake.head?_ranking (h : IsFirstNamesake name es e)
    (hname : normalForm name.toList ≠ []) {cutoff : Rat} (hcutoff : cutoff < 100) :
    (ranking name cutoff es).head? = some ⟨e, 100⟩ := by
  have hpasses : passes cutoff ⟨e, 100⟩ = true := by
    rw [passes, Bool.and_eq_true, decide_eq_true_iff, decide_eq_true_iff]
    exact ⟨by norm_num, hcutoff⟩
  refine ((h.isForemost hname).filter hpasses).head?_mergeSort (fun s t u hst htu => ?_)
    fun s t => ?_
  · exact decide_eq_true ((of_decide_eq_true htu).trans (of_decide_eq_true hst))
  · rw [Bool.or_eq_true]
    exact (le_total t.score s.score).imp decide_eq_true decide_eq_true

theorem normalForm_of_blank {s : List Char} (h : ∀ c ∈ s, isBlank c = true) :
    normalForm s = [] := by
  rw [normalForm, unwords_words_eq_nil, words_eq_nil, List.forall_mem_map]
  exact fun c hc => normalChar_isBlank (h c hc)

end

end LegalEntity.Name

namespace LegalEntity.Resolver

open Dialogue (course_bind course_done)
open Name (normalForm IsFirstNamesake)

/-- A search settles on the first namesake among its candidates: it asks for the owners of this one,
and if none is reported it ends with this one's LEI. -/
structure SettlesOn (s : Settings Rat) (name : String) (i : Nat) (third : List Event)
    (t : Trace Rat) (e : Entity) : Prop where
  first : IsFirstNamesake name t.candidates e
  best : t.best? = some e
  owned : Retried s.retry s.recordsUrl [("filter[owns]", e.lei)] Registry.records? i third t.parents
  lei : t.parents = [] → t.lei = some e.lei

def PrefersNamesake (s : Settings Rat) (name : String) (i : Nat) (l : List Event)
    (t : Trace Rat) : Prop :=
  ∃ completions active first second third, l = first ++ second ++ third ∧
    GetsCandidates s name i completions active first second t.candidates ∧
    ∀ d ∈ t.candidates, normalForm d.legalName.toList = normalForm name.toList →
      ∃ e, SettlesOn s name i third t e

section

variable {s : Settings Rat} {name : String} {i : Nat} {l : List Event} {t : Trace Rat}

theorem afterCandidates_candidates {candidates : List Entity} {ranked : List (Scored Rat)}
    (h : (afterCandidates s name candidates ranked).Course i l t) : t.candidates = candidates := by
  cases ranked with
  | nil => exact congrArg Trace.candidates (course_done.1 h).2
  | cons best others =>
    obtain ⟨parents, front, rest, -, -, hrest⟩ := course_bind.1 h
    exact congrArg Trace.candidates (course_done.1 hrest).2

theorem search_prefersNamesake (hcutoff : s.cutoff < 100) (hname : normalForm name.toList ≠ [])
    (h : (search s name).Course i l t) : PrefersNamesake s name i l t := by
  rw [search_of_not_blank fun hblank => hname (Name.normalForm_of_blank hblank), course_bind] at h
  obtain ⟨candidates, front, third, rfl, hfront, hthird⟩ := h
  obtain rfl := afterCandidates_candidates hthird
  obtain ⟨completions, active, first, second, rfl, hgets⟩ := searchByName_course hfront
  refine ⟨completions, active, first, second, third, rfl, hgets, fun d hd hform => ?_⟩
  obtain ⟨e, hfirst⟩ := Name.exists_isFirstNamesake hd hform
  obtain ⟨others, hranked⟩ := List.head?_eq_some_iff.1 (hfirst.head?_ranking hname hcutoff)
  rw [hranked, afterCandidates, course_bind] at hthird
  obtain ⟨parents, front, rest, rfl, hfront, hrest⟩ := hthird
  obtain ⟨rfl, ht⟩ := course_done.1 hrest
  rw [List.append_nil]
  refine ⟨e, hfirst, ?_, ?_, fun hparents => ?_⟩
  · rw [ht]
    rfl
  · rw [ht]
    exact request_course.1 hfront
  · rw [ht] at hparents ⊢
    have hparents : parents = [] := hparents
    subst hparents
    rfl

end

def Surroundings.listing (es : List Entity) : Surroundings Unit := .reporting es es []

/-- With a cutoff below 100 the first entity of a list whose legal name has the normal form of the
name scores 100 and leads the ranking. So whatever the registry answers, a search settles on the
first active candidate of that kind, if there is one, be it for a call that explains the name or for
a query that neither the index nor the cache answers. -/
theorem namesake_wins {σ : Type} {w : Surroundings σ} {settings : Settings Rat} {name : String}
    (hcutoff : settings.cutoff < 100) (hname : normalForm name.toList ≠ []) (calls : List Call)
    (shared : Shared) (outside : σ) :
    (∀ es e, IsFirstNamesake name es e →
      (Name.ranking name settings.cutoff es).head? = some ⟨e, 100⟩) ∧
    (∀ i s r, calls[i]? = some (.explain name) →
      Run w (.start (calls.map (·.dialogue settings)) shared outside) s → s.result? i = some r →
      ∃ t inside, r = .explained t ∧
        (ownEvents i s.log).reverse = ⟨i, .enter, ()⟩ :: inside ++ [⟨i, .leave, ()⟩] ∧
        PrefersNamesake settings name i inside t) ∧
    (∀ i q s r, calls[i]? = some (.resolve q) → q.name = name →
      Run w (.start (calls.map (·.dialogue settings)) shared outside) s → s.result? i = some r →
      ∃ x, r = .resolved x ∧
        ByTier settings q i (PrefersNamesake settings name i) (ownEvents i s.log).reverse x) ∧
    (w.Responsive → shared.AtRest settings.slots →
      (State.start (calls.map (·.dialogue settings)) shared outside).Ends w State.Finished) := by
  refine ⟨fun _ _ h => h.head?_ranking hname hcutoff, ?_, ?_, calls_end⟩
  · intro i s r hi hrun hr
    obtain ⟨t, inside, rfl, hl, hsearch⟩ := hrun.explained hi hr
    exact ⟨t, inside, rfl, hl, search_prefersNamesake hcutoff hname hsearch⟩
  · rintro i q s r hi rfl hrun hr
    obtain ⟨x, rfl, hx⟩ := hrun.resolved hi hr
    exact ⟨x, rfl, hx.mono fun _ _ => search_prefersNamesake hcutoff hname⟩

theorem namesake_wins_over_others : ∃ shared s t third,
    Shared.ofSettings? (Settings.default (α := Rat)) none = some shared ∧
    Run (.listing [⟨"Acme Holdings", "H"⟩, ⟨"ACME", "A"⟩, ⟨"Acme.", "B"⟩])
      (.start ([Call.explain "Acme"].map (·.dialogue (.default (α := Rat)))) shared ()) s ∧
    s.result? 0 = some (.explained t) ∧
    t.candidates = [⟨"Acme Holdings", "H"⟩, ⟨"ACME", "A"⟩, ⟨"Acme.", "B"⟩] ∧
    SettlesOn (.default (α := Rat)) "Acme" 0 third t ⟨"ACME", "A"⟩ ∧ t.lei = some "A" := by
  let s : Settings Rat := .default
  let es : List Entity := [⟨"Acme Holdings", "H"⟩, ⟨"ACME", "A"⟩, ⟨"Acme.", "B"⟩]
  have hcutoff : s.cutoff < 100 := by decide +kernel
  have hname : normalForm "Acme".toList ≠ [] := by decide +kernel
  have hform : normalForm "ACME".toList = normalForm "Acme".toList := by decide +kernel
  obtain ⟨hranking, hexplained, -, -⟩ :=
    namesake_wins (w := .listing es) hcutoff hname [.explain "Acme"] (.unused 1) ()
  obtain ⟨others, hranked⟩ := List.head?_eq_some_iff.1 (hranking es ⟨"ACME", "A"⟩
    ⟨[⟨"Acme Holdings", "H"⟩], [⟨"Acme.", "B"⟩], rfl, hform, by decide +kernel⟩)
  have hcompletions : Registry.completions? (listReply (es.map completionItem)) = some es := by
    decide +kernel
  have hactive : Registry.identifiers? (listReply (es.map identifierItem)) =
      some ["H", "A", "B"] := by decide +kernel
  have howners : Registry.records? (listReply []) = some [] := by decide +kernel
  have hcandidates :
      (searchByName s "Acme").Reaches (.listing es) (.unused 0, ()) (.unused 0, ()) es :=
    (request_reaches rfl hcompletions rfl).bind ((request_reaches rfl hactive rfl).bind .done)
  have hsearch := search_reaches (fun hblank => hname (Name.normalForm_of_blank hblank)) hcandidates
    hranked (request_reaches rfl howners rfl)
  obtain ⟨log, hrun⟩ := explain_reaches hsearch []
  obtain ⟨t', inside, heq, -, hprefers⟩ := hexplained 0 _ _ rfl hrun rfl
  cases heq
  obtain ⟨completions, active, first, second, third, -, -, hsettles⟩ := hprefers
  obtain ⟨e, he⟩ := hsettles ⟨"ACME", "A"⟩ (by simp [es]) hform
  cases he.best
  exact ⟨.unused 1, _, _, third, rfl, hrun, rfl, rfl, he, he.lei rfl⟩

end LegalEntity.Resolver
