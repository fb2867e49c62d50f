import LegalEntity.Proofs.Index.Loads
import LegalEntity.Proofs.Runs.Path

namespace LegalEntity.Resolver

open Cache (decoded? nameKey)

section

variable {α : Type} (s : Settings α) (q : Query) (i : Nat)

inductive IndexWrites : List Event → Prop
  | nothing {es : List Event} (h : puts es = []) : IndexWrites es
  | built {es later : List Event} {x : IsinIndex} {key : String} {a : Except Cache.Error Unit}
      (h : Built s i es (.ok x)) (hx : x.isEmpty = false) (hkey : s.indexKey = some key)
      (hquiet : puts es = []) (hlater : puts later = []) :
      IndexWrites
        (later ++ ⟨i, .keep key (IsinIndex.toJson x), a⟩ :: es ++ [⟨i, .claimIndex, .load⟩])

/-- The events, last first, by which a call resolves its name. It writes what a search of its own
has come to, begun with a slot in hand after the cache has been read twice in vain. -/
inductive NameWrites [Scalar α] : List Event → Prop
  | nothing {es : List Event} (h : puts es = []) : NameWrites es
  | searched {asked later : List Event} {a a' : Except Cache.Error (Option Json)}
      {b : Except Cache.Error Unit} {t : Trace α}
      (hmiss : decoded? NameOutcome.ofDocument? a = none)
      (hmiss' : decoded? NameOutcome.ofDocument? a' = none)
      (hsearch : (search s q.name).Path i asked (.done t)) (hquiet : puts asked = [])
      (hlater : puts later = []) :
      NameWrites
        (later ++ ⟨i, .keep (nameKey s.nameSpace q.name) (NameOutcome.ofLei t.lei).toJson, b⟩ ::
          asked ++ [⟨i, .lookUp (nameKey s.nameSpace q.name), a'⟩, ⟨i, .enter, ()⟩,
            ⟨i, .lookUp (nameKey s.nameSpace q.name), a⟩])

end

section

variable {α : Type} {s : Settings α} {q : Query} {i : Nat} {es : List Event}

theorem Dialogue.Path.puts_eq_nil {t u : Dialogue β} (h : t.Path i es u)
    (ht : t.Asks fun op => ∀ k v, op ≠ .keep k v) : puts es = [] := by
  apply List.filterMap_eq_nil_iff.2
  intro e he
  have hop := (h.asks ht).1 e he
  cases e with
  | mk j op a =>
    cases op with
    | keep k v => exact absurd rfl (hop k v)
    | _ => rfl

theorem Dialogue.Path.of_bind_quiet {t : Dialogue β} {f : β → Dialogue γ} {u : Dialogue γ}
    (h : (t.bind f).Path i es u) (hf : ∀ b, (f b).Asks fun op => ∀ k v, op ≠ .keep k v) :
    ∃ before later v, es = later ++ before ∧ puts later = [] ∧ t.Path i before v := by
  rcases h.of_bind with ⟨v, hv, -⟩ | ⟨b, before, later, hes, hbefore, hlater⟩
  · exact ⟨es, [], v, rfl, rfl, hv⟩
  · exact ⟨before, later, _, hes, hlater.puts_eq_nil (hf b), hbefore⟩

def recording (s : Settings α) (i : Nat) : Contract (List Event) where
  start := []
  allows es op := Loading s i es op
  expects _ _ _ := True
  next es op a := ⟨i, op, a⟩ :: es

theorem place_recording {t u : Dialogue β} (h : t.Path i es u) :
    (recording s i).place i es = es := by
  induction h with
  | start => rfl
  | answer h a ih => rw [Contract.place_cons_self, ih]; rfl

theorem loadIndex_path_cases {u : Dialogue (Option IsinIndex)} (h : (loadIndex s).Path i es u) :
    puts es = [] ∨ ∃ r, u = .done r ∧ Loads s i es r := by
  have hrecords : Records (recording s i) s i id := fun hop => ⟨hop, fun _ => rfl⟩
  have hkeeps := h.keeps (c := recording s i) (fun _ _ _ => trivial) (loadIndex_records hrecords)
  rw [place_recording h] at hkeeps
  cases u with
  | ask op next => exact .inl hkeeps.1.puts_eq_nil
  | done r =>
    obtain ⟨es', hes, hloads⟩ := hkeeps
    cases hes
    exact .inr ⟨r, rfl, hloads⟩

theorem Loads.writes {r : Option IsinIndex} {later : List Event} (h : Loads s i es r)
    (hlater : puts later = []) :
    IndexWrites s i (later ++ es ++ [⟨i, .claimIndex, .load⟩]) := by
  have quiet (hputs : puts es = []) :
      IndexWrites s i (later ++ es ++ [⟨i, .claimIndex, .load⟩]) := by
    refine .nothing ?_
    rw [puts_append, puts_append, hlater, hputs]
    rfl
  cases h with
  | cached => exact quiet rfl
  | failed h | unusable h | unsaved h => exact quiet h.quiet.1
  | saved h hx hkey => exact .built h hx hkey h.quiet.1 hlater

theorem theIndex_writes {u : Dialogue (Option IsinIndex)} (h : (theIndex s).Path i es u) :
    IndexWrites s i es := by
  have hclaim : (Dialogue.ask .claimIndex _).Path i es u := h
  rcases hclaim.of_ask with ⟨rfl, -⟩ | ⟨turn, later, rfl, hturn⟩
  · exact .nothing rfl
  · cases turn with
    | ready r =>
      obtain ⟨rfl, -⟩ := hturn.of_done
      exact .nothing rfl
    | load =>
      have hpublish : ((loadIndex s).bind fun r => (Dialogue.perform (.publishIndex r)).bind
        fun _ => .done r).Path i later u := hturn
      obtain ⟨before, after, v, rfl, hafter, hload⟩ :=
        hpublish.of_bind_quiet fun _ => ⟨nofun, fun _ => trivial⟩
      cases loadIndex_path_cases hload with
      | inl hbefore =>
        refine .nothing ?_
        rw [puts_append, puts_append, hafter, hbefore]
        rfl
      | inr hloads =>
        obtain ⟨r, -, hloads⟩ := hloads
        exact hloads.writes hafter

theorem byIsin_writes {u : Dialogue (Option Identity)} (h : (byIsin s q).Path i es u) :
    IndexWrites s i es := by
  unfold byIsin at h
  split at h
  · obtain ⟨rfl, -⟩ := h.of_done
    exact .nothing rfl
  · obtain ⟨v, hindex⟩ := Dialogue.Path.of_bind_done h
    exact theIndex_writes hindex

theorem cachedOutcome_path_cases {key : String} {f : Option NameOutcome → Dialogue β}
    {u : Dialogue β} (h : ((cachedOutcome key).bind f).Path i es u) : es = [] ∨
      ∃ a later, es = later ++ [⟨i, .lookUp key, a⟩] ∧
        (f (decoded? NameOutcome.ofDocument? a)).Path i later u := by
  have hread : (Dialogue.ask (.lookUp key) fun a =>
    f (decoded? NameOutcome.ofDocument? a)).Path i es u := h
  rcases hread.of_ask with ⟨rfl, -⟩ | hnext
  · exact .inl rfl
  · exact .inr hnext

variable [Scalar α]

theorem search_puts {name : String} {u : Dialogue (Trace α)} (h : (search s name).Path i es u) :
    puts es = [] := by
  refine h.puts_eq_nil ((search_asks name).mono ?_)
  rintro op hop k v rfl
  cases hop

theorem bySearch_path_cases {key : String} {u : Dialogue (Except Error Identity)}
    (h : (bySearch s q key).Path i es u) :
    puts es = [] ∨ ∃ asked a b t, decoded? NameOutcome.ofDocument? a = none ∧
      (search s q.name).Path i asked (.done t) ∧
      es = ⟨i, .keep key (NameOutcome.ofLei t.lei).toJson, b⟩ :: asked ++ [⟨i, .lookUp key, a⟩] := by
  rcases cachedOutcome_path_cases h with rfl | ⟨a, later, rfl, hnext⟩
  · exact .inl rfl
  · cases hmiss : decoded? NameOutcome.ofDocument? a with
    | some outcome =>
      rw [hmiss] at hnext
      obtain ⟨rfl, -⟩ := hnext.of_done
      exact .inl rfl
    | none =>
      rw [hmiss] at hnext
      rcases hnext.of_bind with ⟨v, hsearch, -⟩ | ⟨t, before, after, rfl, hsearch, hafter⟩
      · refine .inl ?_
        rw [puts_append, search_puts hsearch]
        rfl
      · have hkeep : (Dialogue.ask (.keep key (NameOutcome.ofLei t.lei).toJson) _).Path i after u :=
          hafter
        rcases hkeep.of_ask with ⟨rfl, -⟩ | ⟨b, last, rfl, hlast⟩
        · refine .inl ?_
          rw [puts_append, List.nil_append, search_puts hsearch]
          rfl
        · obtain ⟨rfl, -⟩ := hlast.of_done
          exact .inr ⟨before, a, b, t, hmiss, hsearch, by simp⟩

theorem byName_writes {u : Dialogue (Except Error Identity)} (h : (byName s q).Path i es u) :
    NameWrites s q i es := by
  rcases cachedOutcome_path_cases h with rfl | ⟨a, later, rfl, hnext⟩
  · exact .nothing rfl
  · cases hmiss : decoded? NameOutcome.ofDocument? a with
    | some outcome =>
      rw [hmiss] at hnext
      obtain ⟨rfl, -⟩ := hnext.of_done
      exact .nothing rfl
    | none =>
      rw [hmiss] at hnext
      have henter : (Dialogue.ask .enter fun _ =>
        (bySearch s q (nameKey s.nameSpace q.name)).bind fun r =>
          .ask .leave fun _ => .done r).Path i later u := hnext
      rcases henter.of_ask with ⟨rfl, -⟩ | ⟨b, inside, rfl, hinside⟩
      · exact .nothing rfl
      · -- leaving the gate comes last and writes nothing
        obtain ⟨before, after, v, rfl, hafter, hsearch⟩ :=
          hinside.of_bind_quiet fun _ => ⟨nofun, fun _ => trivial⟩
        rcases bySearch_path_cases hsearch with hputs | ⟨asked, a', b', t, hmiss', ht, rfl⟩
        · refine .nothing ?_
          rw [puts_append, puts_append, puts_append, hafter, hputs]
          rfl
        · have hwrites := NameWrites.searched (b := b') hmiss hmiss' ht (search_puts ht) hafter
          simpa using hwrites

theorem resolve_writes {u : Dialogue (Except Error Identity)} (h : (resolve s q).Path i es u) :
    ∃ name index, es = name ++ index ∧ NameWrites s q i name ∧ IndexWrites s i index := by
  have hbyIsin : ((byIsin s q).bind _).Path i es u := h
  rcases hbyIsin.of_bind with ⟨v, hindex, -⟩ | ⟨r, index, later, rfl, hindex, hlater⟩
  · exact ⟨[], es, rfl, .nothing rfl, byIsin_writes hindex⟩
  · refine ⟨later, index, rfl, ?_, byIsin_writes hindex⟩
    cases r with
    | some identity =>
      obtain ⟨rfl, -⟩ := hlater.of_done
      exact .nothing rfl
    | none => exact byName_writes hlater

theorem Run.resolve_writes {σ : Type} {w : Surroundings σ} {j : Job α} {shared : Shared} {o : σ}
    {t : State σ (Return α)} (hrun : Run w (.start j.dialogues shared o) t)
    (hq : j.calls[i]? = some (.resolve q)) : ∃ name index, ownEvents i t.log = name ++ index ∧
      NameWrites j.settings q i name ∧ IndexWrites j.settings i index := by
  obtain ⟨u, -, hpath⟩ := hrun.path (j.getElem?_dialogues hq)
  obtain ⟨v, hresolve⟩ := Dialogue.Path.of_bind_done hpath
  exact Resolver.resolve_writes hresolve

end

end LegalEntity.Resolver
