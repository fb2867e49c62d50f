import LegalEntity.Proofs.Names.Explained
import LegalEntity.Proofs.Names.Tiers

namespace LegalEntity.Resolver

open Dialogue (course_ask course_bind course_done)

section

variable {α : Type} {s : Settings α} {q : Query} {i : Nat} {l : List Event}

theorem byIsin_course {found : Option Identity} (h : (byIsin s q).Course i l found) :
    ∃ x, found = (indexed? q x).map (q.identity · .isinIndex) := by
  cases hisin : q.canonicalIsin? with
  | none =>
    rw [byIsin_of_none hisin] at h
    obtain ⟨-, rfl⟩ := course_done.1 h
    exact ⟨none, by rw [indexed?, hisin]; rfl⟩
  | some isin =>
    rw [byIsin_of_isin hisin] at h
    obtain ⟨x, front, rest, -, -, hrest⟩ := course_bind.1 h
    obtain ⟨-, rfl⟩ := course_done.1 hrest
    exact ⟨x, by rw [indexed?, hisin]; rfl⟩

theorem cachedOutcome_bind_course {key : String} {f : Option NameOutcome → Dialogue β} {b : β} :
    ((cachedOutcome key).bind f).Course i l b ↔ ∃ a rest, l = ⟨i, .lookUp key, a⟩ :: rest ∧
      (f (Cache.decoded? NameOutcome.ofDocument? a)).Course i rest b :=
  course_ask

inductive ByTier (s : Settings α) (q : Query) (i : Nat) (searched : List Event → Trace α → Prop) :
    List Event → Except Error Identity → Prop
  | index {l : List Event} {lei : String} (x : Option IsinIndex) (h : indexed? q x = some lei) :
      ByTier s q i searched l (.ok (q.identity lei .isinIndex))
  | cache {l : List Event} (outcome : NameOutcome) :
      ByTier s q i searched l (answer q .nameCache outcome)
  | search (before : List Event) {inside : List Event} {t : Trace α}
      (kept : Except Cache.Error Unit) (h : searched inside t) :
      ByTier s q i searched (before ++ inside ++
        [⟨i, .keep (Cache.nameKey s.nameSpace q.name) (NameOutcome.ofLei t.lei).toJson, kept⟩,
          ⟨i, .leave, ()⟩]) (answer q .registrySearch (.ofLei t.lei))

section

variable {r : Except Error Identity} {searched searched' : List Event → Trace α → Prop}

theorem ByTier.mono (h : ByTier s q i searched l r)
    (hsearched : ∀ inside t, searched inside t → searched' inside t) :
    ByTier s q i searched' l r := by
  cases h with
  | index x h => exact .index x h
  | cache outcome => exact .cache outcome
  | search before kept h => exact .search before kept (hsearched _ _ h)

theorem ByTier.prepend (h : ByTier s q i searched l r) (front : List Event) :
    ByTier s q i searched (front ++ l) r := by
  cases h with
  | index x h => exact .index x h
  | cache outcome => exact .cache outcome
  | search before kept h =>
    rw [← List.append_assoc, ← List.append_assoc]
    exact .search (front ++ before) kept h

end

variable [Scalar α] {r : Except Error Identity}

theorem byName_course (h : (byName s q).Course i l r) :
    ByTier s q i ((search s q.name).Course i) l r := by
  rw [byName_eq, cachedOutcome_bind_course] at h
  obtain ⟨a, rest, rfl, hread⟩ := h
  cases hfound : Cache.decoded? NameOutcome.ofDocument? a with
  | some outcome =>
    rw [hfound] at hread
    obtain ⟨-, rfl⟩ := course_done.1 hread
    exact .cache outcome
  | none =>
    rw [hfound] at hread
    obtain ⟨⟨⟩, rest, rfl, hentered⟩ := course_ask.1 hread
    obtain ⟨a', rest, rfl, hagain⟩ := cachedOutcome_bind_course.1 hentered
    cases hfound' : Cache.decoded? NameOutcome.ofDocument? a' with
    | some outcome =>
      rw [hfound'] at hagain
      obtain ⟨⟨⟩, rest, rfl, hleft⟩ := course_ask.1 hagain
      obtain ⟨-, rfl⟩ := course_done.1 hleft
      exact .cache outcome
    | none =>
      rw [hfound'] at hagain
      obtain ⟨t, inside, rest, rfl, hsearch, hkeep⟩ := course_bind.1 hagain
      obtain ⟨kept, rest, rfl, hleave⟩ := course_ask.1 hkeep
      obtain ⟨⟨⟩, rest, rfl, hend⟩ := course_ask.1 hleave
      obtain ⟨rfl, rfl⟩ := course_done.1 hend
      exact .search [_, _, _] kept hsearch

theorem resolve_course (h : (resolve s q).Course i l r) :
    ByTier s q i ((search s q.name).Course i) l r := by
  obtain ⟨found, front, rest, rfl, hfront, hrest⟩ := course_bind.1 h
  obtain ⟨x, rfl⟩ := byIsin_course hfront
  cases hlei : indexed? q x with
  | none =>
    rw [hlei] at hrest
    exact (byName_course hrest).prepend front
  | some lei =>
    rw [hlei] at hrest
    obtain ⟨-, rfl⟩ := course_done.1 hrest
    exact .index x hlei

end

section

variable {σ α : Type} [Scalar α] {w : Surroundings σ} {settings : Settings α} {calls : List Call}
  {shared : Shared} {outside : σ} {s : State σ (Return α)} {i : Nat}

theorem Run.explained {name : String} {r : Return α}
    (hrun : Run w (.start (calls.map (·.dialogue settings)) shared outside) s)
    (hi : calls[i]? = some (.explain name)) (hr : s.result? i = some r) :
    ∃ t inside, r = .explained t ∧
      (ownEvents i s.log).reverse = ⟨i, .enter, ()⟩ :: inside ++ [⟨i, .leave, ()⟩] ∧
      (search settings name).Course i inside t := by
  have hcall := Job.getElem?_dialogues ⟨settings, calls⟩ hi
  obtain ⟨t, front, rest, hl, hfront, hrest⟩ := course_bind.1 (hrun.course hcall hr)
  obtain ⟨rfl, rfl⟩ := course_done.1 hrest
  obtain ⟨inside, rfl, hinside⟩ := explain_course hfront
  exact ⟨t, inside, rfl, hl.trans (List.append_nil _), hinside⟩

theorem Run.resolved {q : Query} {r : Return α}
    (hrun : Run w (.start (calls.map (·.dialogue settings)) shared outside) s)
    (hi : calls[i]? = some (.resolve q)) (hr : s.result? i = some r) :
    ∃ x, r = .resolved x ∧ ByTier settings q i ((search settings q.name).Course i)
      (ownEvents i s.log).reverse x := by
  have hcall := Job.getElem?_dialogues ⟨settings, calls⟩ hi
  obtain ⟨x, front, rest, hl, hfront, hrest⟩ := course_bind.1 (hrun.course hcall hr)
  obtain ⟨rfl, rfl⟩ := course_done.1 hrest
  rw [hl, List.append_nil]
  exact ⟨x, rfl, resolve_course hfront⟩

theorem calls_end (hw : w.Responsive) (hshared : shared.AtRest settings.slots) :
    (State.start (calls.map (·.dialogue settings)) shared outside).Ends w State.Finished :=
  State.ends_of_canGoOn fun _ hrun hnot =>
    hshared.can_go_on (Nat.lt_of_lt_of_le Nat.one_pos (Nat.le_max_right _ 1)) hw
      calls_wellBehaved hrun hnot

end

end LegalEntity.Resolver
