import LegalEntity.Proofs.Names.Admission
import LegalEntity.Proofs.Runs.Path
import Mathlib.Data.List.Perm.Subperm

namespace LegalEntity.Resolver

section

variable {σ α : Type} {w : Surroundings σ} {stored : σ → String → Option Json} {key : String}
  {mine : Nat → Bool} {slots i : Nat} {s t : State σ α} {post : Nat → α → Stage → Prop}

/-- Whether a call has gone on to search: it has asked for something of a search, or to keep what it
ended with. -/
def State.Searches (key : String) (s : State σ α) (i : Nat) : Prop :=
  ∃ op ∈ s.askedBy i, op.ofSearch = true ∨ ∃ v, op = .keep key v

structure InOrder (stored : σ → String → Option Json) (key : String) (mine : Nat → Bool)
    (slots : Nat) (s : State σ α) : Prop where
  callers : ∀ j, mine j = true → j < s.calls.length
  admission : Admission stored key mine slots s
  agreement : slots = 1 → Agreement stored key mine s
  searched : Searched key mine s

theorem InOrder.invariant (hR : w.Reliable stored) :
    Invariant w (fun i => stageContract key (mine i)) post (InOrder stored key mine slots) where
  answer {s i op next a shared outside} hs hf hi hw := by
    have hlt : i < s.calls.length := (List.getElem?_eq_some_iff.1 hi).1
    have hm : Stage.Moves key (mine i) (s.stage key mine i) op a
        ((s.goOn i op next a shared outside).stage key mine i) := by
      rw [State.stage_goOn_self]
      exact stage_moves (hf.allows ⟨next, hi⟩) a
    refine ⟨trivial, fun j hj => ?_, hs.admission.answer hR hlt hw hm, fun hone => ?_,
      hs.searched.answer hm⟩
    · rw [show (s.goOn i op next a shared outside).calls.length = s.calls.length from
        List.length_set]
      exact hs.callers j hj
    · subst hone
      exact (hs.agreement rfl).answer hs.admission hs.callers hR hw hm
  wait {s i op next shared} hs hf hi hb := by
    obtain ⟨hspare, hbounded, hunknown⟩ := hs.admission
    refine ⟨hs.callers, ⟨?_, hbounded, hunknown⟩, fun hone => ?_,
      ⟨hs.searched.seen, hs.searched.entered, hs.searched.kept⟩⟩
    · rw [Shared.spare_of_blocked hb]
      exact hspare
    · obtain ⟨htold, hsearching⟩ := hs.agreement hone
      exact ⟨htold, hsearching⟩

theorem InOrder.start {calls : List (Dialogue α)} {shared : Shared} {outside : σ}
    (hmine : ∀ j, mine j = true → j < calls.length) (hspare : shared.gate.spare = slots) :
    InOrder stored key mine slots (.start calls shared outside) where
  callers := hmine
  admission := by
    refine ⟨?_, ?_, fun _ _ _ => rfl⟩
    · rw [State.holders_start]
      exact hspare
    · rw [State.searchers_start]
      exact Nat.zero_le slots
  agreement _ := ⟨fun _ _ _ h => (nomatch h), fun _ _ h => (nomatch h)⟩
  searched := ⟨fun _ h => (nomatch h), fun _ _ => Nat.zero_le _, fun _ h => (nomatch h)⟩

theorem InOrder.hasSearched (hs : InOrder stored key mine slots s)
    (hf : s.Follows (fun i => stageContract key (mine i)) post) (hi : mine i = true)
    (h : s.Searches key i) : (s.stage key mine i).hasSearched = true := by
  obtain ⟨op, hop, hsearch⟩ := h
  rcases State.mem_askedBy.1 hop with hstands | ⟨e, he, rfl, rfl⟩
  · have hallow := hf.allows hstands
    rw [hi] at hallow
    have hstage : s.stage key mine i = .searching := by
      rw [State.stage, hi]
      exact searching_of_op hallow hsearch
    rw [hstage]
    rfl
  · exact hs.searched.seen e he hi hsearch

theorem InOrder.enters_once (hs : InOrder stored key mine slots s)
    (hf : s.Follows (fun i => stageContract key (mine i)) post) (hi : mine i = true) :
    (s.askedBy i).countP Op.isEnter ≤ 1 := by
  have hstands : (s.calls[i]?.bind Dialogue.op?).toList.countP Op.isEnter +
      (!(s.stage key mine i).isOutside).toNat ≤ 1 := by
    cases hop : s.calls[i]?.bind Dialogue.op? with
    | none => simpa using Bool.toNat_le _
    | some op =>
      cases henter : op.isEnter with
      | false => simpa [henter] using Bool.toNat_le _
      | true =>
        obtain ⟨t, ht, hop⟩ := Option.bind_eq_some_iff.1 hop
        obtain ⟨next, rfl⟩ := Dialogue.op?_eq_some.1 hop
        have houtside : s.stage key mine i = .outside :=
          outside_of_isEnter (hf.allows ⟨next, ht⟩) henter
        simp [henter, houtside, Stage.isOutside]
  have hlog : (s.log.filter (·.caller == i)).countP (·.op.isEnter) =
      s.log.countP fun e => e.caller == i && e.op.isEnter := by
    simp [List.countP_filter, Bool.and_comm]
  have hentered := hs.searched.entered i hi
  rw [State.askedBy, List.countP_append, List.countP_map]
  change _ + (s.log.filter (·.caller == i)).countP (·.op.isEnter) ≤ 1
  omega

theorem InOrder.length_le (hs : InOrder stored key mine slots s)
    (hf : s.Follows (fun i => stageContract key (mine i)) post) {callers : List Nat}
    (hnodup : callers.Nodup) (h : ∀ i ∈ callers, mine i = true ∧ s.Searches key i) :
    callers.length ≤ slots := by
  refine Nat.le_trans ?_ hs.admission.bounded
  rw [State.searchers, List.countP_eq_length_filter]
  refine (List.subperm_of_subset hnodup fun i hi => ?_).length_le
  obtain ⟨hmine, hsearches⟩ := h i hi
  refine List.mem_filter.2 ⟨List.mem_range.2 (hs.callers i hmine), ?_⟩
  rw [hmine, hs.hasSearched hf hmine hsearches]
  rfl

theorem InOrder.outcome_shared (hs : InOrder stored key mine 1 s) {j : Nat} (hi : mine i = true)
    (hsearched : (s.stage key mine i).hasSearched = true) (hij : i ≠ j) (hj : mine j = true)
    {source : Source} {outcome : NameOutcome} (hsource : source ≠ .isinIndex)
    (hstage : s.stage key mine j = .ended source outcome) :
    source = .nameCache ∧ (s.stage key mine i).outcome? = some outcome := by
  have hag := hs.agreement rfl
  have hknown : known? stored key s.outside = some outcome :=
    hag.told j hj outcome (by rw [hstage]; rfl)
  constructor
  · cases source with
    | isinIndex => exact absurd rfl hsource
    | nameCache => rfl
    | registrySearch =>
      refine absurd (eq_of_countP_range_le_one hs.admission.bounded (hs.callers i hi)
        (hs.callers j hj) ?_ ?_) hij
      · rw [hi, hsearched]
        rfl
      · rw [hj, hstage]
        rfl
  · cases hg : s.stage key mine i with
    | searching => exact nomatch hknown.symm.trans (hag.searching i hi hg)
    | settled source' outcome' =>
      rw [← hknown, hag.told i hi outcome' (by rw [hg]; rfl)]
      rfl
    | ended source' outcome' =>
      rw [← hknown, hag.told i hi outcome' (by rw [hg]; rfl)]
      rfl
    | _ =>
      rw [hg] at hsearched
      cases hsearched

theorem InOrder.invariant_of_stored (hR : w.Reliable stored) (hi : mine i = true) :
    Invariant w (fun i => stageContract key (mine i)) post fun s =>
      InOrder stored key mine slots s ∧ known? stored key s.outside ≠ none ∧
        (s.stage key mine i).hasSearched = false where
  answer {s j op next a shared outside} hs hf hj hw := by
    obtain ⟨hs, hstored, hsearched⟩ := hs
    have hm : Stage.Moves key (mine j) (s.stage key mine j) op a
        ((s.goOn j op next a shared outside).stage key mine j) := by
      rw [State.stage_goOn_self]
      exact stage_moves (hf.allows ⟨next, hj⟩) a
    refine ⟨trivial, ((InOrder.invariant hR).answer hs hf hj hw).2, ?_, ?_⟩
    · rcases hm.known hR hw with hsame | ⟨-, -, outcome, hsome⟩
      · exact fun hnone => hstored (hsame.symm.trans hnone)
      · exact fun hnone => nomatch hsome.symm.trans hnone
    · by_cases hji : j = i
      · subst hji
        rcases hm.hasSearched hR hw with hsame | ⟨-, hnone⟩
        · exact hsame.trans hsearched
        · exact absurd hnone hstored
      · rw [State.stage_goOn_of_ne hji]
        exact hsearched
  wait hs hf hj hb := ⟨(InOrder.invariant hR).wait hs.1 hf hj hb, hs.2⟩

theorem InOrder.not_searches_of_stored (hs : InOrder stored key mine slots s)
    (hf : s.Follows (fun i => stageContract key (mine i)) post) (hR : w.Reliable stored)
    (hi : mine i = true) (hstored : known? stored key s.outside ≠ none)
    (hfresh : ∀ e ∈ s.log, e.caller ≠ i) (hrun : Run w s t) : ¬t.Searches key i := by
  have hstage : s.stage key mine i = .outside := Contract.place_of_forall_ne _ hfresh
  obtain ⟨⟨ht, -, hsearched⟩, hft⟩ := (InOrder.invariant_of_stored hR hi).run hrun
    ⟨hs, hstored, by rw [hstage]; rfl⟩ hf
  exact fun h => nomatch hsearched.symm.trans (ht.hasSearched hft hi h)

end

section

variable {α : Type} [Scalar α] {s : Settings α}

theorem cachedOutcome_quiet (key : String) :
    (cachedOutcome key).Asks fun op => op.ofSearch = false :=
  Dialogue.Asks.bind (Dialogue.Asks.perform rfl) fun _ => trivial

theorem bySearch_runsOnce (q : Query) (key : String) :
    (bySearch s q key).RunsOnce Op.ofSearch (search s q.name) := by
  refine .after_quiet (cachedOutcome_quiet key) fun r => ?_
  cases r with
  | some outcome => exact .of_quiet trivial
  | none => exact .before_quiet (.refl (search_asks q.name)) fun t => ⟨rfl, fun _ => trivial⟩

theorem byName_runsOnce (q : Query) : (byName s q).RunsOnce Op.ofSearch (search s q.name) := by
  refine .after_quiet (cachedOutcome_quiet _) fun r => ?_
  cases r with
  | some outcome => exact .of_quiet trivial
  | none =>
    refine .after_quiet (Dialogue.Asks.perform rfl) fun _ => ?_
    exact .before_quiet (bySearch_runsOnce q _) fun r => ⟨rfl, fun _ => trivial⟩

theorem resolve_runsOnce (q : Query) : (resolve s q).RunsOnce Op.ofSearch (search s q.name) := by
  refine .after_quiet ((byIsin_asks q).mono fun op h => (Op.quiet_of_getsIndex h).2) fun r => ?_
  cases r with
  | some r => exact .of_quiet trivial
  | none => exact byName_runsOnce q

end

section

variable {σ α : Type} [Scalar α] {w : Surroundings σ} {stored : σ → String → Option Json}
  {key : String} {settings : Settings α} {given : Option IsinIndex} {shared : Shared} {outside : σ}
  {calls : List Call} {s : State σ (Return α)}

def isFor (settings : Settings α) (calls : List Call) (key : String) (i : Nat) : Bool :=
  calls[i]?.any (·.isFor settings key)

theorem calls_follow_stages (hindex : settings.indexKey ≠ some key) :
    (State.start (calls.map (·.dialogue settings)) shared outside).Follows
      (fun i => stageContract key (isFor settings calls key i))
      fun i r g => ∀ call, calls[i]? = some call → call.endsAt settings key r g := by
  apply calls_follow
  intro i call hcall
  rw [isFor, hcall]
  apply (call.keeps_stage hindex).mono
  intro r g h call' hcall'
  cases hcall'
  exact h

theorem InOrder.ofSettings (hshared : Shared.ofSettings? settings given = some shared) :
    InOrder stored key (isFor settings calls key) settings.slots
      (.start (calls.map (·.dialogue settings)) shared outside) := by
  apply InOrder.start
  · intro j hj
    obtain ⟨call, hcall, -⟩ := (Option.any_eq_true ..).1 hj
    rw [List.length_map]
    exact (List.getElem?_eq_some_iff.1 hcall).1
  · rw [(Shared.ofSettings_eq hshared).1]
    rfl

/-- Whatever the registry does, and in whatever order the calls go on. Of calls for a name no more
search than there are slots, and each of those goes through one search at most: all that it asks for
of a search lies on a single path of that for its name. Where there is one slot, all others for the
name that are not answered by the index get the outcome of that search. After the first of them has
ended no call that starts later sends a request for the name. -/
theorem live_searches_bounded (hR : w.Reliable stored) (hindex : settings.indexKey ≠ some key)
    (hshared : Shared.ofSettings? settings given = some shared)
    (hrun : Run w (.start (calls.map (·.dialogue settings)) shared outside) s) :
    (∀ callers : List Nat, callers.Nodup →
      (∀ i ∈ callers, isFor settings calls key i = true ∧ s.Searches key i) →
        callers.length ≤ max settings.concurrency 1) ∧
    (∀ i, isFor settings calls key i = true → (s.askedBy i).countP Op.isEnter ≤ 1) ∧
    (∀ i q, calls[i]? = some (.resolve q) → Cache.nameKey settings.nameSpace q.name = key →
      s.RunsOnce i Op.ofSearch (search settings q.name)) ∧
    (settings.concurrency ≤ 1 → ∀ i j q r, isFor settings calls key i = true → s.Searches key i →
      i ≠ j → calls[j]? = some (.resolve q) → Cache.nameKey settings.nameSpace q.name = key →
        s.result? j = some (.resolved r) → FromIndex r ∨
          ∃ outcome a, ⟨i, .keep key outcome.toJson, a⟩ ∈ s.log ∧
            r = answer q .nameCache outcome ∧
              ∀ q' r', calls[i]? = some (.resolve q') → s.result? i = some (.resolved r') →
                r' = answer q' .registrySearch outcome) ∧
    (∀ i j q r t, calls[j]? = some (.resolve q) → Cache.nameKey settings.nameSpace q.name = key →
      s.result? j = some (.resolved r) → ¬FromIndex r →
        isFor settings calls key i = true → (∀ e ∈ s.log, e.caller ≠ i) → Run w s t →
          ∀ op ∈ t.askedBy i, op.isRequest = false) := by
  have hstart : InOrder stored key (isFor settings calls key) settings.slots
      (State.start (calls.map (·.dialogue settings)) shared outside) := InOrder.ofSettings hshared
  obtain ⟨hs, hf⟩ := (InOrder.invariant hR).run hrun hstart (calls_follow_stages hindex)
  have hmine {j : Nat} {q : Query} (hj : calls[j]? = some (.resolve q))
      (hkey : Cache.nameKey settings.nameSpace q.name = key) :
      isFor settings calls key j = true := by
    rw [isFor, hj]
    exact Call.isFor_resolve.2 hkey
  have hended {j : Nat} {q : Query} {r : Except Error Identity} (hj : calls[j]? = some (.resolve q))
      (hkey : Cache.nameKey settings.nameSpace q.name = key)
      (hr : s.result? j = some (.resolved r)) :
      endsAt q r (s.stage key (isFor settings calls key) j) :=
    hf.result hr _ hj q rfl (Call.isFor_resolve.2 hkey) r rfl
  refine ⟨fun callers hnodup h => hs.length_le hf hnodup h, fun i hi => hs.enters_once hf hi,
    fun i q hi _ => ?_, ?_, ?_⟩
  · refine hrun.runsOnce (t := (Call.resolve q).dialogue settings) ?_ ?_
    · rw [List.getElem?_map, hi]
      rfl
    · exact .before_quiet (resolve_runsOnce q) fun _ => trivial
  · intro hone i j q r hi hsearches hij hj hkey hr
    have hslots : settings.slots = 1 := Nat.max_eq_right hone
    rw [hslots] at hs
    have hsearched := hs.hasSearched hf hi hsearches
    rcases hended hj hkey hr with ⟨-, hindex⟩ | ⟨source, outcome, hsource, hstage, rfl⟩
    · exact .inl hindex
    · obtain ⟨rfl, houtcome⟩ := hs.outcome_shared hi hsearched hij (hmine hj hkey) hsource hstage
      obtain ⟨a, ha⟩ := hs.searched.kept i hsearched outcome houtcome
      refine .inr ⟨outcome, a, ha, rfl, fun q' r' hq' hr' => ?_⟩
      rw [isFor, hq'] at hi
      rcases hended hq' (Call.isFor_resolve.1 hi) hr' with ⟨hg, -⟩ | ⟨source, outcome', -, hg, rfl⟩
      · rw [hg] at hsearched
        cases hsearched
      · rw [hg] at hsearched houtcome
        cases houtcome
        rw [eq_of_beq hsearched]
  · intro i j q r t hj hkey hr hnot hi hfresh hrun op hop
    rcases hended hj hkey hr with ⟨-, hindex⟩ | ⟨source, outcome, -, hstage, -⟩
    · exact absurd hindex hnot
    · have hstored : known? stored key s.outside ≠ none := by
        intro hnone
        have hunknown := hs.admission.unknown hnone j (hmine hj hkey)
        rw [hstage] at hunknown
        cases hunknown
      have hsearches := hs.not_searches_of_stored hf hR hi hstored hfresh hrun
      exact Bool.eq_false_iff.2 fun hrequest =>
        hsearches ⟨op, hop, .inl (Op.ofSearch_of_isRequest hrequest)⟩

end

/-- The second call waits for its slot until the first has kept its outcome. -/
theorem live_searches_bounded_twice :
    ∃ shared s, Shared.ofSettings? (Settings.default (α := Rat)) none = some shared ∧
      Run .remembering (.start ([Call.resolve (named "Acme"), .resolve (named "Acme")].map
        (·.dialogue (.default (α := Rat)))) shared fun _ => none) s ∧
      s.result? 0 = some (.resolved (answer (named "Acme") .registrySearch .notFound)) ∧
      s.result? 1 = some (.resolved (answer (named "Acme") .nameCache .notFound)) ∧
      ¬(s.Searches (Cache.nameKey "gleif_names" "Acme") 0 ∧
        s.Searches (Cache.nameKey "gleif_names" "Acme") 1) ∧
      s.RunsOnce 0 Op.ofSearch (search (Settings.default (α := Rat)) "Acme") := by
  have hshared : Shared.ofSettings? (Settings.default (α := Rat)) none =
      some ⟨⟨1, [], []⟩, .unclaimed, [], 0⟩ := rfl
  let keeps : Dialogue (Return Rat) := .resolved <$> afterMiss .default (named "Acme")
  obtain ⟨kept, hkept⟩ : ∃ kept : String → Option Json, kept = Function.update (fun _ => none)
      (Cache.nameKey "gleif_names" "Acme") (some NameOutcome.notFound.toJson) := ⟨_, rfl⟩
  have hread : kept (Cache.nameKey "gleif_names" "Acme") = some NameOutcome.notFound.toJson := by
    rw [hkept, Function.update_self]
  obtain ⟨s, hrun, hfirst, hsecond⟩ : ∃ s : State _ (Return Rat), Run .remembering
      (.start ([Call.resolve (named "Acme"), .resolve (named "Acme")].map
        (·.dialogue (.default (α := Rat)))) ⟨⟨1, [], []⟩, .unclaimed, [], 0⟩ fun _ => none) s ∧
      s.result? 0 = some (.resolved (answer (named "Acme") .registrySearch .notFound)) ∧
      s.result? 1 = some (.resolved (answer (named "Acme") .nameCache .notFound)) := by
    have hrun : Run .remembering (.start ([Call.resolve (named "Acme"), .resolve (named "Acme")].map
        (·.dialogue (.default (α := Rat)))) ⟨⟨1, [], []⟩, .unclaimed, [], 0⟩ fun _ => none) _ :=
      .answer 0 rfl (.ok none) ⟨⟨rfl, rfl⟩, rfl⟩ <| .answer 1 rfl (.ok none) ⟨⟨rfl, rfl⟩, rfl⟩ <|
      .answer 0 rfl () ⟨rfl, rfl⟩ <| .wait 1 rfl rfl <|
      .answer 0 rfl (.ok none) ⟨⟨rfl, rfl⟩, rfl⟩ <| .answer 0 rfl (0 : UInt64) rfl <|
      .answer 0 rfl (.error .io) ⟨⟨rfl, rfl⟩, rfl⟩ <|
      .answer 0 (show _ = some keeps by with_unfolding_all rfl) (.ok ()) ⟨⟨rfl, hkept⟩, rfl⟩ <|
      .answer 0 rfl () ⟨rfl, rfl⟩ <| .answer 1 rfl () ⟨rfl, rfl⟩ <|
      .answer 1 rfl (.ok (some NameOutcome.notFound.toJson))
        ⟨⟨congrArg Except.ok hread.symm, rfl⟩, rfl⟩ <|
      .answer 1 rfl () ⟨rfl, rfl⟩ <| .refl
    exact ⟨_, hrun, rfl, rfl⟩
  have hindex : (Settings.default (α := Rat)).indexKey ≠
      some (Cache.nameKey "gleif_names" "Acme") := by decide
  obtain ⟨hbound, -, honce, -⟩ :=
    live_searches_bounded Surroundings.remembering_reliable hindex hshared hrun
  refine ⟨_, s, hshared, hrun, hfirst, hsecond, fun h => ?_, honce 0 (named "Acme") rfl rfl⟩
  have hmine : (Call.resolve (named "Acme")).isFor (Settings.default (α := Rat))
      (Cache.nameKey "gleif_names" "Acme") = true := Call.isFor_resolve.2 rfl
  have htwo := hbound [0, 1] (by decide) fun i hi => by
    rcases List.mem_pair.1 hi with rfl | rfl
    · exact ⟨hmine, h.1⟩
    · exact ⟨hmine, h.2⟩
  exact absurd htwo (by decide)

end LegalEntity.Resolver
