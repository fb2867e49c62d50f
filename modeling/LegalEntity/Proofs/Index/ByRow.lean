import LegalEntity.Proofs.Batch.Isolation
import LegalEntity.Proofs.Index.OneLoad
import LegalEntity.Proofs.IndexFile.LastRow

namespace LegalEntity.Resolver

def AnsweredBy (x : Option IsinIndex) (q : Query) (r : Except Error Identity) : Prop :=
  match q.canonicalIsin?.bind fun isin => x.bind (·.get? isin) with
  | some lei => r = .ok (q.identity lei .isinIndex)
  | none => ∀ y, r = .ok y → y.source ≠ .isinIndex

theorem AnsweredBy.exists_of_source {x : Option IsinIndex} {q : Query} {y : Identity}
    (h : AnsweredBy x q (.ok y)) (hsource : y.source = .isinIndex) :
    ∃ isin, q.canonicalIsin? = some isin ∧ ∃ z, x = some z ∧ z.get? isin = some y.lei := by
  unfold AnsweredBy at h
  split at h
  · rename_i lei hlei
    cases h
    obtain ⟨isin, hisin, hget⟩ := Option.bind_eq_some_iff.1 hlei
    exact ⟨isin, hisin, Option.bind_eq_some_iff.1 hget⟩
  · exact absurd hsource (h y rfl)

theorem Dialogue.Keeps.and {c : Contract γ} {post post' : α → γ → Prop} {t : Dialogue α} {g : γ}
    (h : t.Keeps c post g) (h' : t.Keeps c post' g) :
    t.Keeps c (fun a g => post a g ∧ post' a g) g := by
  induction t generalizing g with
  | done a => exact ⟨h, h'⟩
  | ask op next ih => exact ⟨h.1, fun a ha => ih a (h.2 a ha) (h'.2 a ha)⟩

theorem Dialogue.Returns.and {P : α → Prop} {c : Contract γ} {post : α → γ → Prop}
    {t : Dialogue α} {g : γ} (ht : t.Returns P) (h : t.Keeps c post g) :
    t.Keeps c (fun a g' => P a ∧ post a g') g := by
  induction t generalizing g with
  | done a => exact ⟨ht, h⟩
  | ask op next ih => exact ⟨h.1, fun a ha => ih a (ht.2 a trivial) (h.2 a ha)⟩

section

variable {α : Type} {s : Settings α}

theorem byIsin_of_isin {q : Query} {isin : String} (hisin : q.canonicalIsin? = some isin) :
    byIsin s q = (theIndex s).bind fun x =>
      .done ((x.bind (·.get? isin)).map (q.identity · .isinIndex)) := by
  rw [byIsin, hisin]
  rfl

theorem byIsin_keeps_told (q : Query) :
    (byIsin s q).Keeps (indexContract (Call.resolve q).needsIndex)
      (fun r k => k.isLoading = false ∧ ∃ x, (q.canonicalIsin?.isSome → k = .told x) ∧
        r = (q.canonicalIsin?.bind fun isin => x.bind (·.get? isin)).map (q.identity · .isinIndex))
      .nothing := by
  unfold byIsin
  cases hq : q.canonicalIsin? with
  | none => exact ⟨rfl, none, nofun, rfl⟩
  | some isin =>
    rw [exists_of_canonicalIsin (q := q) (by simp [hq])]
    refine Dialogue.keeps_bind.2 (theIndex_keeps.mono fun x k hk => ?_)
    subst hk
    exact ⟨rfl, x, fun _ => rfl, rfl⟩

variable [Scalar α]

def notFromIndex (r : Except Error Identity) : Prop := ∀ y, r = .ok y → y.source ≠ .isinIndex

theorem notFromIndex_answer (q : Query) (source : Source) (h : source ≠ .isinIndex)
    (outcome : NameOutcome) : notFromIndex (answer q source outcome) := by
  cases outcome with
  | found lei =>
    rintro y ⟨⟩
    exact h
  | notFound => exact nofun

theorem byName_returns (q : Query) : (byName s q).Returns notFromIndex := by
  have ofCache := notFromIndex_answer q .nameCache nofun
  have ofSearch := notFromIndex_answer q .registrySearch nofun
  have hsearch (key : String) : (bySearch s q key).Returns notFromIndex := by
    refine (Dialogue.Returns.of_forall (cachedOutcome key) fun _ => trivial).bind fun r _ => ?_
    cases r with
    | some outcome => exact ofCache outcome
    | none =>
      refine (Dialogue.Returns.of_forall (search s q.name) fun _ => trivial).bind fun t _ => ?_
      exact ⟨trivial, fun _ _ => ofSearch _⟩
  refine (Dialogue.Returns.of_forall (cachedOutcome _) fun _ => trivial).bind fun r _ => ?_
  cases r with
  | some outcome => exact ofCache outcome
  | none => exact ⟨trivial, fun _ _ => (hsearch _).bind fun r hr => ⟨trivial, fun _ _ => hr⟩⟩

theorem resolve_keeps_told (q : Query) :
    (resolve s q).Keeps (indexContract (Call.resolve q).needsIndex)
      (fun r k => ∃ x, (q.canonicalIsin?.isSome → k = .told x) ∧ AnsweredBy x q r) .nothing := by
  refine Dialogue.keeps_bind.2 ((byIsin_keeps_told q).mono fun r k ⟨hk, x, htold, hr⟩ => ?_)
  subst hr
  cases hlei : q.canonicalIsin?.bind fun isin => x.bind (·.get? isin) with
  | some lei =>
    refine ⟨x, htold, ?_⟩
    rw [AnsweredBy, hlei]
  | none =>
    have hasks : (byName s q).Asks (·.ofIndex = false) :=
      (byName_asks q).mono fun op h => h.elim Op.ofIndex_of_ofName Op.ofIndex_of_ofGate
    refine ((byName_returns q).and (hasks.keeps_index hk)).mono fun r k' ⟨hr, hk'⟩ => ?_
    subst hk'
    refine ⟨x, htold, ?_⟩
    rw [AnsweredBy, hlei]
    exact hr

theorem dialogue_eq_ask {q : Query} {isin : String} (hisin : q.canonicalIsin? = some isin) :
    ∃ next, (Call.resolve q).dialogue s = .ask .claimIndex next ∧
      ∀ (x : Option IsinIndex) (lei : String), x.bind (·.get? isin) = some lei →
        next (.ready x) = .done (.resolved (.ok (q.identity lei .isinIndex))) := by
  rw [Call.dialogue, resolve, byIsin_of_isin hisin]
  refine ⟨_, rfl, fun x lei hlei => ?_⟩
  simp only [Dialogue.bind_eq, Dialogue.pure_eq, Dialogue.done_bind, hlei, Option.map_some]
  rfl

def answeredAsTold (call : Call) (r : Return α) (k : Knowledge) : Prop :=
  ∀ q r', call = .resolve q → r = .resolved r' →
    ∃ x, (q.canonicalIsin?.isSome → k = .told x) ∧ AnsweredBy x q r'

theorem Call.keeps_told (call : Call) :
    (call.dialogue s).Keeps (indexContract call.needsIndex) (answeredAsTold call) .nothing := by
  cases call with
  | resolve q =>
    refine Dialogue.keeps_bind.2 ((resolve_keeps_told q).mono fun r k h => ?_)
    rintro _ _ ⟨⟩ ⟨⟩
    exact h
  | index => exact (Call.keeps_index .index).mono fun _ _ _ => nofun
  | explain name => exact (Call.keeps_index (.explain name)).mono fun _ _ _ => nofun

end

section

variable {σ α : Type} {w : Surroundings σ} {s t : State σ α} {i : Nat}

theorem Run.calls_eq (hrun : Run w s t) (h : ∀ e ∈ t.log, e.caller ≠ i) :
    t.calls[i]? = s.calls[i]? := by
  induction hrun with
  | refl => rfl
  | tail _ step ih =>
    cases step with
    | answer hj hw =>
      obtain ⟨hji, hlog⟩ := List.forall_mem_cons.1 h
      rw [State.calls_goOn_of_ne hji]
      exact ih hlog
    | wait hj hb => exact ih h

theorem OneLoad.ready_of_told {needs : Nat → Bool} {most : Nat} {x : Option IsinIndex}
    (hs : OneLoad needs most s)
    (h : s.knowledge needs i = .told x) : s.shared.index = .ready x := by
  unfold OneLoad at hs
  cases hcell : s.shared.index with
  | unclaimed =>
    rw [hcell] at hs
    exact nomatch h.symm.trans (hs.2.1 i)
  | loading =>
    rw [hcell] at hs
    obtain ⟨-, k, m, b, hk, hothers, -⟩ := hs
    by_cases hki : k = i
    · subst hki
      exact nomatch h.symm.trans hk
    · exact nomatch h.symm.trans (hothers i hki)
  | ready y =>
    rw [hcell] at hs
    cases hs.1 i with
    | inl hnothing => exact nomatch h.symm.trans hnothing
    | inr htold =>
      cases h.symm.trans htold
      rfl

end

section

variable {σ α : Type} [Scalar α] {w : Surroundings σ} {settings : Settings α}
  {given : Option IsinIndex} {shared : Shared} {outside : σ} {calls : List Call}
  {s : State σ (Return α)} {i : Nat} {q : Query} {x : Option IsinIndex}

theorem answered_by_cell (hshared : Shared.ofSettings? settings given = some shared)
    (hrun : Run w (.start (calls.map (·.dialogue settings)) shared outside) s) :
    (∀ x, s.result? i = some (.index x) → s.shared.index = .ready x) ∧
      ∀ q r, calls[i]? = some (.resolve q) → s.result? i = some (.resolved r) →
        ∃ x, (q.canonicalIsin?.isSome → s.shared.index = .ready x) ∧ AnsweredBy x q r := by
  have hstart : (State.start (calls.map (·.dialogue settings)) shared outside).Follows
      (fun i => indexContract (calls[i]?.any (·.needsIndex)))
      fun i r k => knowsAtEnd r k ∧ ∀ call, calls[i]? = some call → answeredAsTold call r k := by
    apply calls_follow
    intro i call hcall
    rw [hcall]
    refine (call.keeps_index.and call.keeps_told).mono fun r k ⟨hknows, htold⟩ => ⟨hknows, ?_⟩
    rintro _ ⟨⟩
    exact htold
  have hone : OneLoad (fun i => calls[i]?.any (·.needsIndex)) (if given.isSome then 0 else 1)
      (State.start (calls.map (·.dialogue settings)) shared outside) := OneLoad.start hshared
  obtain ⟨hs, hf⟩ := OneLoad.invariant.run hrun hone hstart
  constructor
  · intro x hr
    exact hs.ready_of_told ((hf.result hr).1.2 x rfl)
  · intro q r hcall hr
    obtain ⟨x, htold, hanswered⟩ := (hf.result hr).2 _ hcall q r rfl rfl
    exact ⟨x, fun hisin => hs.ready_of_told (htold hisin), hanswered⟩

theorem answered_by_ready (hshared : Shared.ofSettings? settings given = some shared)
    (hrun : Run w (.start (calls.map (·.dialogue settings)) shared outside) s)
    (hindex : s.shared.index = .ready x) (hcall : calls[i]? = some (.resolve q))
    {r : Except Error Identity} (hr : s.result? i = some (.resolved r)) : AnsweredBy x q r := by
  obtain ⟨y, hready, hanswered⟩ := (answered_by_cell hshared hrun).2 q r hcall hr
  cases hisin : q.canonicalIsin? with
  | none =>
    rw [AnsweredBy, hisin] at hanswered ⊢
    exact hanswered
  | some isin =>
    cases hindex.symm.trans (hready (by rw [hisin]; rfl))
    exact hanswered

theorem answered_at_once
    (hrun : Run w (.start (calls.map (·.dialogue settings)) shared outside) s)
    (hindex : s.shared.index = .ready x) (hcall : calls[i]? = some (.resolve q))
    (hnew : ∀ e ∈ s.log, e.caller ≠ i) {lei : String}
    (hlei : (q.canonicalIsin?.bind fun isin => x.bind (·.get? isin)) = some lei) :
    ∃ t, Step w s t ∧ t.result? i = some (.resolved (.ok (q.identity lei .isinIndex))) := by
  obtain ⟨isin, hisin, hget⟩ := Option.bind_eq_some_iff.1 hlei
  obtain ⟨next, hdialogue, hnext⟩ := dialogue_eq_ask (s := settings) hisin
  have hi : s.calls[i]? = some (.ask .claimIndex next) := by
    rw [hrun.calls_eq hnew, ← hdialogue]
    exact (List.getElem?_map ..).trans (congrArg _ hcall)
  have hserve : s.shared.serve i .claimIndex = some (.answered (.ready x) s.shared) := by
    simp only [Shared.serve, hindex]
  refine ⟨_, .answer hi ⟨hserve, rfl⟩, ?_⟩
  rw [State.result?, State.calls_goOn_self hi, hnext x lei hget]
  rfl

section

variable {file : IndexFile.Stream} {header : Csv.Record} {rows : List Csv.Record} {x : IsinIndex}
  {isin lei : String}

theorem canonicalIsin_eq (hisin : q.isin = some isin) :
    q.canonicalIsin? = if canonical isin = "" then none else some (canonical isin) := by
  rw [Query.canonicalIsin?, hisin, Option.map_some, Option.filter_some]
  by_cases hblank : canonical isin = "" <;> simp [hblank]

theorem get?_canonicalIsin_iff (hheader : IndexFile.isReadable header = true)
    (htitled : IndexFile.Titled header) (hx : x = IndexFile.index (header :: rows))
    (hisin : q.isin = some isin) :
    (q.canonicalIsin?.bind fun isin => (some x).bind (·.get? isin)) = some lei ↔
      IndexFile.LastGives header rows (canonical isin) lei := by
  subst hx
  by_cases hblank : canonical isin = ""
  · have hnone : ¬IndexFile.LastGives header rows (canonical isin) lei :=
      fun ⟨_, _, _, _, hgives, _⟩ => hgives.isin_ne hblank
    simp [canonicalIsin_eq hisin, hblank, hblank ▸ hnone]
  · rw [canonicalIsin_eq hisin, if_neg hblank]
    exact IndexFile.get?_index_iff hheader htitled

/-- Whatever cache and registry do, a resolver with the index of a file answers by the last row for
an ISIN, and not by the index if no row gives an LEI for it. -/
theorem answered_by_last_row (hheader : IndexFile.isReadable header = true)
    (htitled : IndexFile.Titled header) (hrecords : IndexFile.records file = header :: rows)
    (hread : IndexFile.read file = .ok x) (hx : x.isEmpty = false)
    (hshared : Shared.ofSettings? settings given = some shared)
    (hrun : Run w (.start (calls.map (·.dialogue settings)) shared outside) s)
    (hindex : s.shared.index = .ready (some x)) (hcall : calls[i]? = some (.resolve q))
    (hisin : q.isin = some isin) :
    (∀ r, s.result? i = some (.resolved r) →
      ((∃ y, r = .ok y ∧ y.source = .isinIndex) ↔
        ∃ row ∈ rows, ∃ lei, IndexFile.Gives header row (canonical isin) lei) ∧
      ∀ lei, IndexFile.LastGives header rows (canonical isin) lei →
        r = .ok (q.identity lei .isinIndex)) ∧
    ((∀ e ∈ s.log, e.caller ≠ i) →
      ∀ lei, IndexFile.LastGives header rows (canonical isin) lei →
        ∃ t, Step w s t ∧ t.result? i = some (.resolved (.ok (q.identity lei .isinIndex)))) ∧
    ∀ before row after, rows = before ++ row :: after →
      (∀ isin lei, ¬IndexFile.Gives header row isin lei) →
        x = IndexFile.index (header :: (before ++ after)) := by
  have hrows : x = IndexFile.index (header :: rows) := by
    rw [(IndexFile.index_of_read hread hx).2, hrecords]
  have hlast (lei : String) :
      (q.canonicalIsin?.bind fun isin => (some x).bind (·.get? isin)) = some lei ↔
        IndexFile.LastGives header rows (canonical isin) lei :=
    get?_canonicalIsin_iff hheader htitled hrows hisin
  refine ⟨fun r hr => ?_, fun hnew lei hlei => ?_, fun before row after h hrow => ?_⟩
  · have hanswered := answered_by_ready hshared hrun hindex hcall hr
    unfold AnsweredBy at hanswered
    split at hanswered
    · rename_i lei hlei
      rw [hlast] at hlei
      refine ⟨iff_of_true ⟨_, hanswered, rfl⟩ (IndexFile.exists_lastGives_iff.1 ⟨lei, hlei⟩), ?_⟩
      intro lei' hlei'
      rwa [hlei.unique hlei'] at hanswered
    · rename_i hnone
      have hmissing : ∀ lei, ¬IndexFile.LastGives header rows (canonical isin) lei := by
        intro lei hlei
        rw [(hlast lei).2 hlei] at hnone
        cases hnone
      refine ⟨iff_of_false (fun ⟨y, hy, hsource⟩ => hanswered y hy hsource) ?_, ?_⟩
      · rw [← IndexFile.exists_lastGives_iff]
        exact fun ⟨lei, hlei⟩ => hmissing lei hlei
      · exact fun lei hlei => absurd hlei (hmissing lei)
  · exact answered_at_once hrun hindex hcall hnew ((hlast lei).2 hlei)
  · rw [hrows, h, IndexFile.index_without hheader htitled hrow]

end

end

def sampleFile : IndexFile.Stream where
  bytes := [0x4C, 0x45, 0x49, 0x2C, 0x49, 0x53, 0x49, 0x4E, 0x0A, 0x41, 0x31, 0x2C, 0x20, 0x75,
    0x73, 0x31, 0x20, 0x0A, 0x42, 0x32, 0x0A, 0x62, 0x31, 0x2C, 0x55, 0x53, 0x31, 0x0A,
    0x20, 0x2C, 0x55, 0x53, 0x31, 0x0A]
  broken := false

def sampleHeader : Csv.Record := [[0x4C, 0x45, 0x49], [0x49, 0x53, 0x49, 0x4E]]

def sampleRows : List Csv.Record :=
  [[[0x41, 0x31], [0x20, 0x75, 0x73, 0x31, 0x20]],
    [[0x42, 0x32]],
    [[0x62, 0x31], [0x55, 0x53, 0x31]],
    [[0x20], [0x55, 0x53, 0x31]]]

theorem answered_by_last_row_lawless :
    ∃ shared x t, IndexFile.read sampleFile = .ok x ∧
      Shared.ofSettings? (Settings.default (α := Rat)) (some x) = some shared ∧
      Step .lawless (.start ([Call.resolve ⟨"A", "Acme", some " Us1"⟩].map
        (·.dialogue (Settings.default (α := Rat)))) shared ()) t ∧
      t.result? 0 = some (.resolved (.ok ⟨"Acme", "A", some " Us1", "B1", .isinIndex⟩)) := by
  have hheader : IndexFile.isReadable sampleHeader = true := by decide +kernel
  have htitled : IndexFile.Titled sampleHeader := ⟨by decide +kernel, by decide +kernel⟩
  have hrecords : IndexFile.records sampleFile = sampleHeader :: sampleRows := by decide +kernel
  have hread : IndexFile.read sampleFile = .ok (IndexFile.index (sampleHeader :: sampleRows)) :=
    congrArg Except.ok (congrArg IndexFile.index hrecords)
  have hx : (IndexFile.index (sampleHeader :: sampleRows)).isEmpty = false := by decide +kernel
  have hlast : IndexFile.LastGives sampleHeader sampleRows (canonical " Us1") "B1" :=
    (IndexFile.get?_index_iff hheader htitled).1 (by decide +kernel)
  have hshared : Shared.ofSettings? (Settings.default (α := Rat))
      (some (IndexFile.index (sampleHeader :: sampleRows))) =
      some ⟨⟨1, [], []⟩, .ready (some (IndexFile.index (sampleHeader :: sampleRows))), [], 0⟩ := by
    simp only [Shared.ofSettings?, hx]
    rfl
  let start (shared : Shared) : State Unit (Return Rat) :=
    .start ([Call.resolve ⟨"A", "Acme", some " Us1"⟩].map (·.dialogue .default)) shared ()
  have hrun (shared : Shared) : Run .lawless (start shared) (start shared) := .refl
  obtain ⟨-, hnow, -⟩ := answered_by_last_row (i := 0) hheader htitled hrecords hread hx hshared
    (hrun _) rfl rfl rfl
  obtain ⟨t, hstep, ht⟩ := hnow (fun e he => absurd he List.not_mem_nil) "B1" hlast
  exact ⟨_, _, t, hread, hshared, hstep, ht⟩

end LegalEntity.Resolver
