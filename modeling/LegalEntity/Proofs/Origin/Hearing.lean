import LegalEntity.Proofs.Index.Loads
import LegalEntity.Proofs.Names.Chains
import LegalEntity.Proofs.Origin.Payload

namespace LegalEntity.Name

variable {α : Type} [Scalar α] {name : String} {es : List Entity}

theorem mem_of_mem_ranking {cutoff : α} {x : Scored α} (h : x ∈ ranking name cutoff es) :
    x.entity ∈ es := by
  obtain ⟨hmap, -⟩ := List.mem_filter.1 (List.mem_mergeSort.1 h)
  obtain ⟨e, he, rfl⟩ := List.mem_map.1 hmap
  exact he

theorem mem_of_closest? {e : Entity} (h : closest? α name es = some e) : e ∈ es := by
  cases es with
  | nil => cases h
  | cons d ds =>
    simp only [closest?, Option.some.injEq] at h
    subst h
    have hbest (ss : List (Scored α)) (best : Scored α) :
        ss.foldl (fun best s => if best.score < s.score then s else best) best ∈ best :: ss := by
      induction ss generalizing best with
      | nil => exact List.mem_cons_self
      | cons s ss ih =>
        rw [List.foldl_cons]
        cases List.mem_cons.1 (ih (if best.score < s.score then s else best)) with
        | inl h =>
          rw [h]
          split
          · exact List.mem_cons_of_mem _ List.mem_cons_self
          · exact List.mem_cons_self
        | inr h => exact List.mem_cons_of_mem _ (List.mem_cons_of_mem _ h)
    cases List.mem_cons.1 (hbest (ds.map (scored name)) (scored name d)) with
    | inl h =>
      rw [h]
      exact List.mem_cons_self
    | inr h =>
      obtain ⟨e, he, hscored⟩ := List.mem_map.1 h
      rw [← hscored]
      exact List.mem_cons_of_mem _ he

end LegalEntity.Name

namespace LegalEntity.Resolver

open Registry (itemsOf succeeded HasItem RecordId ActiveId CompletionId)
open Json (Document)

inductive Chain.Sends : Chain → Registry.Parameters → Prop
  | completions (text : String) : Sends .completions [("field", "fulltext"), ("q", text)]
  | active (leis : String) :
      Sends .active [("filter[lei]", leis), ("filter[entity.status]", "ACTIVE")]
  | owners (lei : String) : Sends .owners [("filter[owns]", lei)]

def Heard (i : Nat) (log : List Event) (chain : Chain) (p : Document → Prop) : Prop :=
  ∃ url parameters reply, ⟨i, .fetch url parameters, .ok reply⟩ ∈ log ∧
    chain.Sends parameters ∧ Retry.isSuccess reply.status = true ∧ HasItem p reply

/-- A caller has heard of an LEI in its search: of an owner, or of a completion that is active. -/
inductive Sought (i : Nat) (log : List Event) (lei : String) : Prop
  | owner (h : Heard i log .owners (RecordId lei))
  | completion (h : Heard i log .completions (CompletionId lei))
      (hactive : Heard i log .active (ActiveId lei))

def FromArchive (i : Nat) (log : List Event) (x : IsinIndex) : Prop :=
  ∃ n bytes, ⟨i, .readScratch n, some bytes⟩ ∈ log ∧ Archive.Holds bytes x

def FromCache (i : Nat) (log : List Event) (x : IsinIndex) : Prop :=
  ∃ key a, ⟨i, .lookUp key, a⟩ ∈ log ∧ Cache.decoded? IsinIndex.ofDocument? a = some x

inductive HasIndex (i : Nat) (log : List Event) (x : IsinIndex) : Prop
  | archive (h : FromArchive i log x)
  | cache (h : FromCache i log x)
  | ready (h : ⟨i, .claimIndex, .ready (some x)⟩ ∈ log)

inductive Stems (i : Nat) (log : List Event) (lei : String) : Prop
  | index {x : IsinIndex} {isin : String} (h : HasIndex i log x)
      (hlei : x.get? (canonical isin) = some lei)
  | outcome {key : String} {a : Except Cache.Error (Option Json)} (h : ⟨i, .lookUp key, a⟩ ∈ log)
      (hlei : Cache.decoded? NameOutcome.ofDocument? a = some (.found lei))
  | search (hne : lei ≠ "") (h : Sought i log lei)

section

variable {i : Nat} {log log' : List Event} {chain : Chain} {p : Document → Prop} {lei : String}
  {x : IsinIndex}

theorem Heard.mono (h : Heard i log chain p) (hlog : log ⊆ log') : Heard i log' chain p := by
  obtain ⟨url, parameters, reply, he, hrest⟩ := h
  exact ⟨url, parameters, reply, hlog he, hrest⟩

theorem Sought.mono (h : Sought i log lei) (hlog : log ⊆ log') : Sought i log' lei := by
  cases h with
  | owner h => exact .owner (h.mono hlog)
  | completion h hactive => exact .completion (h.mono hlog) (hactive.mono hlog)

theorem FromArchive.mono (h : FromArchive i log x) (hlog : log ⊆ log') : FromArchive i log' x := by
  obtain ⟨n, bytes, he, hx⟩ := h
  exact ⟨n, bytes, hlog he, hx⟩

theorem FromCache.mono (h : FromCache i log x) (hlog : log ⊆ log') : FromCache i log' x := by
  obtain ⟨key, a, he, hx⟩ := h
  exact ⟨key, a, hlog he, hx⟩

theorem HasIndex.mono (h : HasIndex i log x) (hlog : log ⊆ log') : HasIndex i log' x := by
  cases h with
  | archive h => exact .archive (h.mono hlog)
  | cache h => exact .cache (h.mono hlog)
  | ready h => exact .ready (hlog h)

theorem Stems.mono (h : Stems i log lei) (hlog : log ⊆ log') : Stems i log' lei := by
  cases h with
  | index h hlei => exact .index (h.mono hlog) hlei
  | outcome h hlei => exact .outcome (hlog h) hlei
  | search hne h => exact .search hne (h.mono hlog)

end

/-- A call says nothing but what it has heard. Its place is what it has heard so far, last first. -/
def hearing (i : Nat) : Contract (List Event) where
  start := []
  allows
    | heard, .keep _ v =>
      (∃ outcome, v = NameOutcome.toJson outcome ∧
        ∀ lei, outcome = .found lei → lei ≠ "" ∧ Sought i heard lei) ∨
      ∃ x, v = IsinIndex.toJson x ∧ FromArchive i heard x
    | heard, .publishIndex r => ∀ x, r = some x → HasIndex i heard x
    | _, _ => True
  expects _ _ _ := True
  next
    | heard, .draw, _ => heard
    | heard, .pause _, _ => heard
    | heard, op, a => ⟨i, op, a⟩ :: heard

theorem subset_log_of_hearing (i : Nat) (log : List Event) : (hearing i).place i log ⊆ log := by
  induction log with
  | nil => exact List.Subset.refl []
  | cons e log ih =>
    by_cases hi : e.caller = i
    · subst hi
      rw [Contract.place, if_pos rfl]
      cases e with
      | mk i op a =>
        cases op with
        | draw | pause => exact List.subset_cons_of_subset _ ih
        | _ => exact List.cons_subset_cons _ ih
    · rw [Contract.place, if_neg hi]
      exact List.subset_cons_of_subset _ ih

def Trace.leis (t : Trace α) : List String :=
  t.candidates.map (·.lei) ++ t.ranked.map (·.entity.lei) ++ t.parents.map (·.lei) ++
    t.chosenParent.toList.map (·.lei) ++ t.lei.toList

theorem Trace.forall_mem_leis {t : Trace α} {p : String → Prop}
    (hcandidates : ∀ e ∈ t.candidates, p e.lei)
    (hranked : ∀ x ∈ t.ranked, p x.entity.lei) (hparents : ∀ e ∈ t.parents, p e.lei)
    (hchosen : ∀ e, t.chosenParent = some e → p e.lei) (hlei : ∀ lei, t.lei = some lei → p lei) :
    ∀ lei ∈ t.leis, p lei := by
  intro lei h
  simp only [leis, List.mem_append, List.mem_map, Option.mem_toList] at h
  rcases h with (((⟨e, he, rfl⟩ | ⟨x, hx, rfl⟩) | ⟨e, he, rfl⟩) | ⟨e, he, rfl⟩) | h
  · exact hcandidates e he
  · exact hranked x hx
  · exact hparents e he
  · exact hchosen e he
  · exact hlei lei h

def Return.leis : Return α → List String
  | .resolved (.ok y) => [y.lei]
  | .resolved (.error _) => []
  | .index _ => []
  | .explained t => t.leis

section

variable {α : Type} {s : Settings α} {i : Nat} {heard : List Event}

theorem hearing_chained (url : String) (parameters : Registry.Parameters) :
    Chained (hearing i) (fun g => heard ⊆ g)
      (fun g a => heard ⊆ g ∧ ⟨i, .fetch url parameters, a⟩ ∈ g) url parameters where
  draw _ := ⟨trivial, fun _ => rfl⟩
  pause _ _ := ⟨trivial, fun _ => rfl⟩
  fetch h := by
    refine ⟨trivial, fun a _ => ?_⟩
    have hsubset := List.subset_cons_of_subset ⟨i, .fetch url parameters, a⟩ h
    exact ⟨hsubset, hsubset, List.mem_cons_self⟩

theorem request_hears {β : Type} {p : β → Prop} {item : β → Document → Prop} {chain : Chain}
    {url : String} {parameters : Registry.Parameters}
    {read : Registry.Reply → Option (List β)} (hchain : chain.Sends parameters)
    (hread : ∀ {reply items b}, read reply = some items → b ∈ items → HasItem (item b) reply ∧ p b)
    (policy : Retry.Policy) :
    (request policy url parameters read).Keeps (hearing i)
      (fun items g => heard ⊆ g ∧ ∀ b ∈ items, Heard i g chain (item b) ∧ p b) heard := by
  refine (request_keeps (hearing_chained url parameters) policy read (List.Subset.refl _)).mono ?_
  rintro items g ⟨a, ⟨hsubset, he⟩, rfl⟩
  refine ⟨hsubset, fun b hb => ?_⟩
  cases a with
  | error e => cases hb
  | ok reply =>
    cases hitems : succeeded read (.ok reply) with
    | none =>
      rw [itemsOf, hitems] at hb
      cases hb
    | some items =>
      rw [itemsOf, hitems] at hb
      rw [succeeded] at hitems
      split at hitems
      · rename_i hstatus
        obtain ⟨hitem, hp⟩ := hread hitems hb
        exact ⟨⟨url, parameters, reply, he, hchain, hstatus, hitem⟩, hp⟩
      · cases hitems

theorem searchByName_hears (name : String) :
    (searchByName s name).Keeps (hearing i)
      (fun es g => heard ⊆ g ∧ ∀ e ∈ es, e.lei ≠ "" ∧ Sought i g e.lei) heard := by
  have hcompletions : (request s.retry s.completionsUrl
      [("field", "fulltext"), ("q", searchText name)] Registry.completions?).Keeps (hearing i)
      (fun es g => heard ⊆ g ∧ ∀ e ∈ es, Heard i g .completions (CompletionId e.lei) ∧ e.lei ≠ "")
      heard := request_hears (.completions _) Registry.hasItem_of_completions _
  refine Dialogue.keeps_bind.2 (hcompletions.mono fun es g ⟨hg, hes⟩ => ?_)
  unfold onlyActive
  split
  · rename_i hempty
    rw [List.isEmpty_iff.1 hempty]
    exact ⟨hg, nofun⟩
  · have hactive : (request s.retry s.recordsUrl
        [("filter[lei]", ",".intercalate (es.map (·.lei))), ("filter[entity.status]", "ACTIVE")]
        Registry.identifiers?).Keeps (hearing i)
        (fun ids g' => g ⊆ g' ∧ ∀ id ∈ ids, Heard i g' .active (ActiveId id) ∧ True) g :=
      request_hears (.active _) (fun h hid => ⟨Registry.hasItem_of_identifiers h hid, trivial⟩) _
    refine Dialogue.keeps_bind.2 (hactive.mono fun ids g' ⟨hg', hids⟩ => ?_)
    refine ⟨List.Subset.trans hg hg', fun e he => ?_⟩
    obtain ⟨hmem, hcontains⟩ := List.mem_filter.1 he
    obtain ⟨hheard, hne⟩ := hes e hmem
    exact ⟨hne, .completion (hheard.mono hg') (hids _ (List.contains_iff_mem.1 hcontains)).1⟩

theorem fetchParents_hears (lei : String) :
    (fetchParents s lei).Keeps (hearing i)
      (fun es g => heard ⊆ g ∧ ∀ e ∈ es, e.lei ≠ "" ∧ Sought i g e.lei) heard := by
  have howners : (fetchParents s lei).Keeps (hearing i)
      (fun es g => heard ⊆ g ∧ ∀ e ∈ es, Heard i g .owners (RecordId e.lei) ∧ e.lei ≠ "") heard :=
    request_hears (.owners _) Registry.hasItem_of_records _
  refine howners.mono fun es g ⟨hg, hes⟩ => ⟨hg, fun e he => ?_⟩
  obtain ⟨hheard, hne⟩ := hes e he
  exact ⟨hne, .owner hheard⟩

theorem hearing_records :
    Records (hearing i) s i fun es => es ++ ⟨i, .claimIndex, .load⟩ :: heard := by
  intro es op h
  cases h with
  | save h hx hkey =>
    obtain ⟨n, bytes, he, hread⟩ := h.exists_read rfl
    refine ⟨.inr ⟨_, rfl, n, bytes, List.mem_append_left _ he, ?_⟩, fun _ => rfl⟩
    exact Archive.holds_of_readIndex hread hx
  | _ => exact ⟨trivial, fun _ => rfl⟩

theorem Loads.hasIndex {es : List Event} {x : IsinIndex} (h : Loads s i es (some x)) :
    HasIndex i es x := by
  rcases h.of_some with ⟨key, a, -, he, hx, -⟩ | ⟨n, bytes, he, hread, hx⟩
  · exact .cache ⟨key, a, he, hx⟩
  · exact .archive ⟨n, bytes, he, Archive.holds_of_readIndex hread hx⟩

theorem theIndex_hears : (theIndex s).Keeps (hearing i)
    (fun r g => heard ⊆ g ∧ ∀ x, r = some x → HasIndex i g x) heard := by
  refine Dialogue.keeps_perform_bind.2 ⟨trivial, fun turn _ => ?_⟩
  cases turn with
  | ready r =>
    refine ⟨List.subset_cons_self _ _, ?_⟩
    rintro x rfl
    exact .ready List.mem_cons_self
  | load =>
    refine Dialogue.keeps_bind.2 ((loadIndex_records hearing_records).mono fun r g ⟨es, hg, h⟩ => ?_)
    subst hg
    have hindex (x : IsinIndex) (hr : r = some x) :
        HasIndex i (es ++ ⟨i, .claimIndex, .load⟩ :: heard) x := by
      subst hr
      exact h.hasIndex.mono (List.subset_append_left _ _)
    refine ⟨hindex, fun u _ => ⟨?_, fun x hx => (hindex x hx).mono (List.subset_cons_self _ _)⟩⟩
    have hheard : heard ⊆ es ++ ⟨i, .claimIndex, .load⟩ :: heard :=
      List.subset_append_of_subset_right es (List.subset_cons_self _ _)
    exact List.subset_cons_of_subset _ hheard

theorem byIsin_hears (q : Query) : (byIsin s q).Keeps (hearing i)
    (fun r g => heard ⊆ g ∧ ∀ y, r = some y → Stems i g y.lei) heard := by
  unfold byIsin
  cases hq : q.canonicalIsin? with
  | none => exact ⟨List.Subset.refl _, nofun⟩
  | some isin =>
    refine Dialogue.keeps_bind.2 (theIndex_hears.mono fun r g ⟨hg, hindex⟩ => ⟨hg, ?_⟩)
    intro y hy
    obtain ⟨lei, hlei, rfl⟩ := Option.map_eq_some_iff.1 hy
    obtain ⟨x, rfl, hget⟩ := Option.bind_eq_some_iff.1 hlei
    obtain ⟨text, htext, rfl⟩ : ∃ text, q.isin = some text ∧ canonical text = isin := by
      obtain ⟨hmap, -⟩ := Option.filter_eq_some_iff.1 hq
      exact Option.map_eq_some_iff.1 hmap
    exact .index (hindex x rfl) hget

variable [Scalar α]

theorem search_hears (name : String) :
    (search s name).Keeps (hearing i)
      (fun t g => heard ⊆ g ∧ ∀ lei ∈ t.leis, lei ≠ "" ∧ Sought i g lei) heard := by
  simp only [search]
  split
  · exact ⟨List.Subset.refl _, fun lei hlei => absurd hlei List.not_mem_nil⟩
  · refine Dialogue.keeps_bind.2 ((searchByName_hears name).mono fun es g hcandidates => ?_)
    obtain ⟨hg, hes⟩ := hcandidates
    have hranked : ∀ x ∈ Name.ranking name s.cutoff es, x.entity ∈ es :=
      fun x hx => Name.mem_of_mem_ranking hx
    split
    · refine ⟨hg, Trace.forall_mem_leis hes (fun x hx => hes _ (hranked x hx)) ?_ ?_ ?_⟩
      · exact List.forall_mem_nil _
      · exact fun e he => absurd he (Option.some_ne_none e).symm
      · exact fun lei hlei => absurd hlei (Option.some_ne_none lei).symm
    · rename_i best hbest
      have hbest' : best ∈ es := by
        obtain ⟨x, hx, rfl⟩ := Option.map_eq_some_iff.1 hbest
        exact hranked x (List.mem_of_mem_head? hx)
      refine Dialogue.keeps_bind.2 ((fetchParents_hears best.lei).mono fun ps g' hparents => ?_)
      obtain ⟨hg', hps⟩ := hparents
      have hes' : ∀ e ∈ es, e.lei ≠ "" ∧ Sought i g' e.lei :=
        fun e he => (hes e he).imp_right fun h => h.mono hg'
      have hchosen : ∀ e, Name.closest? α name ps = some e → e.lei ≠ "" ∧ Sought i g' e.lei :=
        fun e he => hps e (Name.mem_of_closest? he)
      refine ⟨List.Subset.trans hg hg', ?_⟩
      refine Trace.forall_mem_leis hes' (fun x hx => hes' _ (hranked x hx)) hps hchosen ?_
      rintro lei ⟨⟩
      cases hparent : Name.closest? α name ps with
      | none => exact hes' best hbest'
      | some parent => exact hchosen parent hparent

def AnswerStems (i : Nat) (g : List Event) (r : Except Error Identity) : Prop :=
  ∀ y, r = .ok y → Stems i g y.lei

theorem answerStems_answer {g : List Event} (q : Query) (source : Source) {outcome : NameOutcome}
    (h : ∀ lei, outcome = .found lei → Stems i g lei) : AnswerStems i g (answer q source outcome) := by
  cases outcome with
  | found lei =>
    rintro y ⟨⟩
    exact h lei rfl
  | notFound => exact nofun

theorem cachedOutcome_hears (key : String) : (cachedOutcome key).Keeps (hearing i)
    (fun r g => heard ⊆ g ∧ ∀ lei, r = some (.found lei) → Stems i g lei) heard :=
  cachedOutcome_keeps.2 ⟨trivial, fun _ _ =>
    ⟨List.subset_cons_self _ _, fun _ hlei => .outcome List.mem_cons_self hlei⟩⟩

theorem bySearch_hears (q : Query) (key : String) : (bySearch s q key).Keeps (hearing i)
    (fun r g => heard ⊆ g ∧ AnswerStems i g r) heard := by
  refine Dialogue.keeps_bind.2 ((cachedOutcome_hears key).mono fun r g ⟨hg, hcached⟩ => ?_)
  cases r with
  | some outcome =>
    refine ⟨hg, answerStems_answer q .nameCache ?_⟩
    rintro lei rfl
    exact hcached lei rfl
  | none =>
    refine Dialogue.keeps_bind.2 ((search_hears q.name).mono fun t g' ⟨hg', hleis⟩ => ?_)
    have hfound : ∀ lei, NameOutcome.ofLei t.lei = .found lei → lei ≠ "" ∧ Sought i g' lei := by
      intro lei hlei
      cases ht : t.lei with
      | none =>
        rw [ht] at hlei
        cases hlei
      | some l =>
        rw [ht] at hlei
        cases hlei
        exact hleis lei (by simp [Trace.leis, ht])
    refine ⟨.inl ⟨_, rfl, hfound⟩, fun a _ => ⟨?_, answerStems_answer q .registrySearch ?_⟩⟩
    · exact List.subset_cons_of_subset _ (List.Subset.trans hg hg')
    · intro lei hlei
      obtain ⟨hne, hsought⟩ := hfound lei hlei
      exact .search hne (hsought.mono (List.subset_cons_self _ _))

theorem byName_hears (q : Query) : (byName s q).Keeps (hearing i)
    (fun r g => heard ⊆ g ∧ AnswerStems i g r) heard := by
  refine Dialogue.keeps_bind.2 ((cachedOutcome_hears _).mono fun r g ⟨hg, hcached⟩ => ?_)
  cases r with
  | some outcome =>
    refine ⟨hg, answerStems_answer q .nameCache ?_⟩
    rintro lei rfl
    exact hcached lei rfl
  | none =>
    refine Dialogue.keeps_perform_bind.2 ⟨trivial, fun _ _ => ?_⟩
    refine Dialogue.keeps_bind.2 ((bySearch_hears q _).mono fun r g' ⟨hg', hr⟩ => ?_)
    refine ⟨trivial, fun _ _ => ⟨?_, fun y hy => (hr y hy).mono (List.subset_cons_self _ _)⟩⟩
    have hentered : heard ⊆ g' := List.Subset.trans (List.subset_cons_of_subset _ hg) hg'
    exact List.subset_cons_of_subset _ hentered

theorem Call.hears (call : Call) : (call.dialogue s).Keeps (hearing i)
    (fun r g => ∀ lei ∈ r.leis, Stems i g lei) [] := by
  cases call with
  | resolve q =>
    refine Dialogue.keeps_bind.2 (Dialogue.keeps_bind.2 ((byIsin_hears q).mono fun r g ⟨_, hr⟩ => ?_))
    cases r with
    | some y =>
      intro lei hlei
      rw [List.mem_singleton.1 hlei]
      exact hr y rfl
    | none =>
      refine (byName_hears q).mono fun r g' ⟨_, hr⟩ lei hlei => ?_
      cases r with
      | ok y =>
        rw [List.mem_singleton.1 hlei]
        exact hr y rfl
      | error e => cases hlei
  | index =>
    exact Dialogue.keeps_bind.2 (theIndex_hears.mono fun _ _ _ => nofun)
  | explain name =>
    refine Dialogue.keeps_bind.2 (Dialogue.keeps_perform_bind.2 ⟨trivial, fun _ _ => ?_⟩)
    refine Dialogue.keeps_bind.2 ((search_hears name).mono fun t g ⟨_, hleis⟩ => ?_)
    refine ⟨trivial, fun _ _ lei hlei => ?_⟩
    obtain ⟨hne, hsought⟩ := hleis lei hlei
    exact .search hne (hsought.mono (List.subset_cons_self _ _))

end

end LegalEntity.Resolver
