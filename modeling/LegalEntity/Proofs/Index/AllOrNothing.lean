import LegalEntity.Proofs.Index.ByRow
import LegalEntity.Proofs.Index.Loads

namespace LegalEntity.Resolver

inductive LoadStage
  | before
  | loading (events : List Event)
  | after (events : List Event)

def LoadStage.events : LoadStage → List Event
  | .before => []
  | .loading es => es
  | .after es => es

def LoadStage.isLoading : LoadStage → Bool
  | .loading _ => true
  | _ => false

def LoadStage.next : LoadStage → Event → LoadStage
  | .before, ⟨_, .claimIndex, .load⟩ => .loading []
  | .loading es, ⟨_, .publishIndex _, _⟩ => .after es
  | .loading es, e => .loading (e :: es)
  | g, _ => g

theorem LoadStage.next_eq {g : LoadStage} (hg : g.isLoading = false) {e : Event}
    (he : e.op.ofIndex = false) : g.next e = g := by
  cases g with
  | loading es => cases hg
  | after es => rfl
  | before =>
    cases e with
    | mk i op a =>
      cases op with
      | claimIndex => cases he
      | _ => rfl

def loadStage (i : Nat) : List Event → LoadStage
  | [] => .before
  | e :: log => if e.caller = i then (loadStage i log).next e else loadStage i log

def loadEvents (i : Nat) (log : List Event) : List Event := (loadStage i log).events

def loadContract (s : Settings α) (i : Nat) (nameKey? : Option String) : Contract LoadStage where
  start := .before
  allows
    | .loading es, .publishIndex r => Loads s i es r
    | .loading es, op => Loading s i es op
    | g, op => (op.ofIndex = true → op = .claimIndex ∧ g = .before) ∧
      ∀ k v, op = .keep k v → nameKey? = some k
  expects _ _ _ := True
  next g op a := g.next ⟨i, op, a⟩

section

variable {α : Type} {s : Settings α} {i : Nat} {nameKey? : Option String} {log : List Event}

theorem place_load : (loadContract s i nameKey?).place i log = loadStage i log := by
  induction log with
  | nil => rfl
  | cons e log ih =>
    rw [Contract.place, loadStage, ih]
    by_cases hi : e.caller = i
    · subst hi
      rfl
    · rw [if_neg hi, if_neg hi]

theorem loadStage_cons_self (op : Op) (a : op.Answer) :
    loadStage i (⟨i, op, a⟩ :: log) = (loadStage i log).next ⟨i, op, a⟩ :=
  if_pos rfl

theorem loadStage_cons_of_ne {j : Nat} (h : i ≠ j) (op : Op) (a : op.Answer) :
    loadStage j (⟨i, op, a⟩ :: log) = loadStage j log :=
  if_neg h

theorem LoadStage.events_suffix_next (g : LoadStage) (e : Event) : g.events <:+ (g.next e).events := by
  cases g with
  | before => exact List.nil_suffix
  | loading es =>
    cases e with
    | mk j op a =>
      cases op with
      | publishIndex r => exact List.suffix_rfl
      | _ => exact List.suffix_cons _ es
  | after es => exact List.suffix_rfl

theorem loadEvents_suffix_append (later : List Event) :
    loadEvents i log <:+ loadEvents i (later ++ log) := by
  induction later with
  | nil => exact List.suffix_rfl
  | cons e later ih =>
    apply ih.trans
    rw [loadEvents, loadEvents, List.cons_append, loadStage]
    split
    · exact LoadStage.events_suffix_next ..
    · exact List.suffix_rfl

theorem records_load : Records (loadContract s i nameKey?) s i .loading := by
  intro es op h
  cases h with
  | lookUp hkey => exact ⟨.lookUp hkey, fun _ => rfl⟩
  | metadata h => exact ⟨.metadata h, fun _ => rfl⟩
  | openScratch h => exact ⟨.openScratch h, fun _ => rfl⟩
  | download h => exact ⟨.download h, fun _ => rfl⟩
  | readScratch h => exact ⟨.readScratch h, fun _ => rfl⟩
  | giveUp h => exact ⟨.giveUp h, fun _ => rfl⟩
  | closeScratch h => exact ⟨.closeScratch h, fun _ => rfl⟩
  | save h hx hkey => exact ⟨.save h hx hkey, fun _ => rfl⟩

theorem theIndex_keeps_load : (theIndex s).Keeps (loadContract s i nameKey?)
    (fun _ g => g.isLoading = false) .before := by
  refine Dialogue.keeps_perform_bind.2 ⟨⟨fun _ => ⟨rfl, rfl⟩, nofun⟩, fun turn _ => ?_⟩
  cases turn with
  | ready x => rfl
  | load =>
    refine Dialogue.keeps_bind.2 ((loadIndex_records records_load).mono fun x g ⟨es, hg, h⟩ => ?_)
    subst hg
    exact ⟨h, fun _ _ => rfl⟩

theorem load_quiet {g : LoadStage} (hg : g.isLoading = false) {op : Op} (hop : op.ofIndex = false)
    (hkeep : ∀ k v, op = .keep k v → nameKey? = some k) :
    (loadContract s i nameKey?).allows g op ∧ ∀ a, (loadContract s i nameKey?).next g op a = g := by
  refine ⟨?_, fun a => LoadStage.next_eq hg hop⟩
  cases g with
  | loading es => cases hg
  | before | after es => exact ⟨fun h => absurd h (by simp [hop]), hkeep⟩

theorem byIsin_keeps_load (q : Query) : (byIsin s q).Keeps (loadContract s i nameKey?)
    (fun _ g => g.isLoading = false) .before := by
  unfold byIsin
  split
  · rfl
  · exact Dialogue.keeps_bind.2 theIndex_keeps_load

theorem Call.keeps_load [Scalar α] (call : Call) :
    (call.dialogue s).Keeps (loadContract s i (call.nameKey? s)) (fun _ g => g.isLoading = false)
      .before := by
  cases call with
  | resolve q =>
    refine Dialogue.keeps_bind.2 (Dialogue.keeps_bind.2 ((byIsin_keeps_load q).mono fun r g hg => ?_))
    cases r with
    | some r => exact hg
    | none =>
      refine (byName_asks q).keeps (fun op h => load_quiet hg ?_ ?_) fun _ => hg
      · exact h.elim Op.ofIndex_of_ofName Op.ofIndex_of_ofGate
      · rintro k v rfl
        rcases h with (h | h | ⟨_, h⟩) | h <;> cases h
        rfl
  | index => exact Dialogue.keeps_bind.2 theIndex_keeps_load
  | explain name =>
    refine Dialogue.keeps_bind.2 ((explain_asks name).keeps (fun op h => load_quiet rfl ?_ ?_)
      fun _ => rfl)
    · exact h.elim (fun h => by simp [Op.ofIndex, h]) Op.ofIndex_of_ofGate
    · rintro k v rfl
      rcases h with h | h <;> cases h

end

section

variable {σ α β : Type} {w : Surroundings σ} {settings : Settings α} {s t : State σ β} {i : Nat}
  {op : Op} {next : op.Answer → Dialogue β} {a : op.Answer} {shared : Shared} {outside : σ}
  {nameKeys : Nat → Option String} {es : List Event}

def Shared.directories (x : Shared) : List Nat := x.scratch.map (·.1)

@[simp] theorem Shared.deliver_directories (x : Shared) (n : Nat) (file : Option (List UInt8)) :
    (x.deliver n file).directories = x.directories := by
  cases file with
  | none => rfl
  | some bytes =>
    simp only [Shared.deliver, Shared.write, Shared.directories, List.map_map]
    refine List.map_congr_left fun e _ => ?_
    by_cases he : e.1 = n <;> simp [he]

def IndexCell.LoadedBy (settings : Settings α) (stage : Nat → LoadStage) (directories : List Nat) :
    IndexCell → Prop
  | .unclaimed => (∀ i, stage i = .before) ∧ directories = []
  | .loading => ∃ i es, stage i = .loading es ∧ (∀ j, i ≠ j → stage j = .before) ∧
      Course settings i es ∧ directories = opened es
  | .ready r => ∃ i es, stage i = .after es ∧ (∀ j, i ≠ j → stage j = .before) ∧
      Loads settings i es r ∧ directories = []

/-- The invariant of a resolver that no index has been given to. -/
def OneLoader (settings : Settings α) (s : State σ β) : Prop :=
  s.shared.index.LoadedBy settings (fun i => loadStage i s.log) s.shared.directories

theorem Surroundings.Serves.directories_eq {x y : Shared} {o p : σ}
    (h : w.Serves i op a (x, o) (y, p)) (hop : op.ofIndex = false) :
    y.directories = x.directories := by
  have hdownload : op.isDownload = false := by cases op <;> first | rfl | cases hop
  obtain ⟨hscratch, -⟩ := h.scratch_eq (by rintro rfl; cases hop) hdownload
    (by rintro n rfl; cases hop)
  rw [Shared.directories, Shared.directories, hscratch]

theorem Surroundings.Serves.directories_of_loading {x y : Shared} {o p : σ}
    (h : w.Serves i op a (x, o) (y, p)) (hx : x.directories = opened es)
    (hop : Loading settings i es op) : y.directories = opened (⟨i, op, a⟩ :: es) := by
  rw [Shared.directories] at hx ⊢
  cases hop with
  | lookUp | metadata | save | readScratch =>
    rw [(h.scratch_eq nofun rfl nofun).1, hx]
    rfl
  | openScratch =>
    rcases h.openScratch_eq with ⟨rfl, rfl⟩ | ⟨-, rfl, rfl⟩
    · exact congrArg (x.scratches :: ·) hx
    · exact hx
  | download =>
    obtain ⟨file, -, rfl⟩ := h
    exact (x.deliver_directories ..).trans hx
  | giveUp | closeScratch =>
    obtain ⟨h, -⟩ := h
    cases h
    rw [opened, ← hx, List.filter_map]
    rfl

/-- Who has begun a load is alone with it, and the cell of the index tells how far it has come. -/
theorem OneLoader.of_begun (hs : OneLoader settings s) (hi : loadStage i s.log ≠ .before) :
    (∀ j, i ≠ j → loadStage j s.log = .before) ∧
      ((∃ es, loadStage i s.log = .loading es ∧ s.shared.index = .loading ∧
          Course settings i es ∧ s.shared.directories = opened es) ∨
        ∃ es r, loadStage i s.log = .after es ∧ s.shared.index = .ready r ∧ Loads settings i es r) := by
  have same {j : Nat} (hothers : ∀ k, j ≠ k → loadStage k s.log = .before) : j = i := by
    by_cases hji : j = i
    · exact hji
    · exact absurd (hothers i hji) hi
  unfold OneLoader at hs
  cases hcell : s.shared.index with
  | unclaimed =>
    rw [hcell] at hs
    exact absurd (hs.1 i) hi
  | loading =>
    rw [hcell] at hs
    obtain ⟨j, es, hj, hothers, hcourse, hopened⟩ := hs
    cases same hothers
    exact ⟨hothers, .inl ⟨es, hj, rfl, hcourse, hopened⟩⟩
  | ready r =>
    rw [hcell] at hs
    obtain ⟨j, es, hj, hothers, hr, -⟩ := hs
    cases same hothers
    exact ⟨hothers, .inr ⟨es, r, hj, rfl, hr⟩⟩

theorem OneLoader.of_loading (hs : OneLoader settings s) (hi : loadStage i s.log = .loading es) :
    s.shared.index = .loading ∧ (∀ j, i ≠ j → loadStage j s.log = .before) ∧
      Course settings i es ∧ s.shared.directories = opened es := by
  obtain ⟨hothers, hfar⟩ := hs.of_begun fun h => nomatch hi.symm.trans h
  rcases hfar with ⟨es', hes, hcell, hcourse, hopened⟩ | ⟨es', r, hes, -⟩
  · cases hi.symm.trans hes
    exact ⟨hcell, hothers, hcourse, hopened⟩
  · cases hi.symm.trans hes

theorem State.loadStage_goOn
    (h : (loadStage i s.log).next ⟨i, op, a⟩ = loadStage i s.log) :
    (fun j => loadStage j (s.goOn i op next a shared outside).log) = fun j => loadStage j s.log := by
  funext j
  by_cases hij : i = j
  · subst hij
    exact (loadStage_cons_self op a).trans h
  · exact loadStage_cons_of_ne hij op a

theorem OneLoader.unmoved (hs : OneLoader settings s)
    (hstage : (loadStage i s.log).next ⟨i, op, a⟩ = loadStage i s.log)
    (hindex : shared.index = s.shared.index)
    (hdirectories : shared.directories = s.shared.directories) :
    OneLoader settings (s.goOn i op next a shared outside) := by
  change shared.index.LoadedBy settings _ shared.directories
  rw [State.loadStage_goOn hstage, hindex, hdirectories]
  exact hs

theorem OneLoader.quiet (hs : OneLoader settings s) (hi : (loadStage i s.log).isLoading = false)
    (hop : op.ofIndex = false) (hw : w.Serves i op a (s.shared, s.outside) (shared, outside)) :
    OneLoader settings (s.goOn i op next a shared outside) := by
  refine hs.unmoved (LoadStage.next_eq hi hop) ?_ (hw.directories_eq hop)
  refine hw.index_eq ?_ fun r => ?_ <;> rintro rfl <;> cases hop

theorem OneLoader.claim {next : IndexTurn → Dialogue β} {turn : IndexTurn}
    (hs : OneLoader settings s) (hi : loadStage i s.log = .before)
    (hw : w.Serves i .claimIndex turn (s.shared, s.outside) (shared, outside)) :
    OneLoader settings (s.goOn i .claimIndex next turn shared outside) := by
  have hdirectories : shared.directories = s.shared.directories := by
    rw [Shared.directories, (hw.scratch_eq nofun rfl nofun).1]
    rfl
  rcases hw.claimIndex with ⟨hcell, rfl, hcell'⟩ | ⟨r, hcell, rfl, hcell'⟩
  · unfold OneLoader at hs
    rw [hcell] at hs
    obtain ⟨hbefore, hnone⟩ := hs
    refine (congrArg (IndexCell.LoadedBy _ _ _) hcell').mpr ⟨i, [], ?_, fun j hij => ?_, .nil, ?_⟩
    · exact (loadStage_cons_self ..).trans (by rw [hi]; rfl)
    · exact (loadStage_cons_of_ne hij ..).trans (hbefore j)
    · exact hdirectories.trans hnone
  · exact hs.unmoved (by rw [hi]; rfl) (hcell'.trans hcell.symm) hdirectories

theorem OneLoader.load (hs : OneLoader settings s) (hi : loadStage i s.log = .loading es)
    (hop : Loading settings i es op)
    (hw : w.Serves i op a (s.shared, s.outside) (shared, outside)) :
    OneLoader settings (s.goOn i op next a shared outside) := by
  obtain ⟨hcell, hothers, hcourse, hopened⟩ := hs.of_loading hi
  have hindex : shared.index = .loading := by
    refine (hw.index_eq ?_ fun r => ?_).trans hcell <;> rintro rfl <;> cases hop
  refine (congrArg (IndexCell.LoadedBy _ _ _) hindex).mpr
    ⟨i, ⟨i, op, a⟩ :: es, ?_, fun j hij => ?_, hcourse.cons hop a,
      hw.directories_of_loading hopened hop⟩
  · refine (loadStage_cons_self ..).trans ?_
    rw [hi]
    have hrecords : Records (loadContract settings i none) settings i .loading := records_load
    exact (hrecords hop).2 a
  · exact (loadStage_cons_of_ne hij ..).trans (hothers j hij)

theorem OneLoader.publish {r : Option IsinIndex} {u : Unit} {next : Unit → Dialogue β}
    (hs : OneLoader settings s) (hi : loadStage i s.log = .loading es) (hr : Loads settings i es r)
    (hw : w.Serves i (.publishIndex r) u (s.shared, s.outside) (shared, outside)) :
    OneLoader settings (s.goOn i (.publishIndex r) next u shared outside) := by
  obtain ⟨-, hothers, -, hopened⟩ := hs.of_loading hi
  refine (congrArg (IndexCell.LoadedBy _ _ _) hw.publishIndex).mpr ⟨i, es, ?_, fun j hij => ?_, hr, ?_⟩
  · exact (loadStage_cons_self ..).trans (by rw [hi]; rfl)
  · exact (loadStage_cons_of_ne hij ..).trans (hothers j hij)
  · change shared.directories = []
    rw [Shared.directories, (hw.scratch_eq nofun rfl nofun).1]
    exact hopened.trans hr.opened_eq_nil

def PutsAccounted (nameKeys : Nat → Option String) (s : State σ β) : Prop :=
  ∀ e ∈ s.log, ∀ key v, e.op = .keep key v →
    e ∈ loadEvents e.caller s.log ∨ nameKeys e.caller = some key

theorem PutsAccounted.goOn (hs : PutsAccounted nameKeys s)
    (h : ∀ key v, op = .keep key v → (loadStage i s.log).isLoading = true ∨ nameKeys i = some key) :
    PutsAccounted nameKeys (s.goOn i op next a shared outside) := by
  intro e he key v hop
  cases List.mem_cons.1 he with
  | inl he =>
    subst he
    cases hop
    refine (h key v rfl).imp_left fun hloading => ?_
    rw [loadEvents, State.goOn, loadStage_cons_self]
    cases hstage : loadStage i s.log with
    | loading es => exact List.mem_cons_self
    | _ =>
      rw [hstage] at hloading
      cases hloading
  | inr he =>
    exact (hs e he key v hop).imp_left fun hmem =>
      (loadEvents_suffix_append [⟨i, op, a⟩]).subset hmem

theorem OneLoader.invariant {post : Nat → β → LoadStage → Prop} :
    Invariant w (fun i => loadContract settings i (nameKeys i)) post
      fun s => OneLoader settings s ∧ PutsAccounted nameKeys s where
  answer {s i op next a shared outside} hs hf hi hw := by
    refine ⟨trivial, ?_⟩
    have hallow := hf.allows ⟨next, hi⟩
    rw [place_load] at hallow
    cases hstage : loadStage i s.log with
    | loading es =>
      rw [hstage] at hallow
      refine ⟨?_, hs.2.goOn fun _ _ _ => .inl (by rw [hstage]; rfl)⟩
      cases op with
      | publishIndex r => exact hs.1.publish hstage hallow hw
      | _ => exact hs.1.load hstage hallow hw
    | before =>
      rw [hstage] at hallow
      refine ⟨?_, hs.2.goOn fun key v hop => .inr (hallow.2 key v hop)⟩
      cases hop : op.ofIndex with
      | false => exact hs.1.quiet (by rw [hstage]; rfl) hop hw
      | true =>
        obtain ⟨rfl, -⟩ := hallow.1 hop
        exact hs.1.claim hstage hw
    | after es =>
      rw [hstage] at hallow
      refine ⟨?_, hs.2.goOn fun key v hop => .inr (hallow.2 key v hop)⟩
      cases hop : op.ofIndex with
      | false => exact hs.1.quiet (by rw [hstage]; rfl) hop hw
      | true => exact nomatch (hallow.1 hop).2
  wait {s i op next shared} hs hf hi hb := by
    refine ⟨?_, hs.2⟩
    change shared.index.LoadedBy settings _ shared.directories
    rw [Shared.index_of_blocked hb, Shared.directories, (Shared.scratch_of_blocked hb).1]
    exact hs.1

theorem OneLoader.of_after (hs : OneLoader settings s) (hi : loadStage i s.log = .after es) :
    ∃ r, s.shared.index = .ready r ∧ Loads settings i es r := by
  obtain ⟨-, hfar⟩ := hs.of_begun fun h => nomatch hi.symm.trans h
  rcases hfar with ⟨es', hes, -⟩ | ⟨es', r, hes, hcell, hr⟩
  · cases hi.symm.trans hes
  · cases hi.symm.trans hes
    exact ⟨r, hcell, hr⟩

theorem OneLoader.of_ready (hs : OneLoader settings s) {r : Option IsinIndex}
    (hindex : s.shared.index = .ready r) :
    ∃ i, loadStage i s.log = .after (loadEvents i s.log) ∧
      (∀ j, i ≠ j → loadStage j s.log = .before) ∧ Loads settings i (loadEvents i s.log) r ∧
      s.shared.scratch = [] := by
  unfold OneLoader at hs
  rw [hindex] at hs
  obtain ⟨i, es, hi, hothers, hr, hnone⟩ := hs
  have hes : loadEvents i s.log = es := congrArg LoadStage.events hi
  rw [← hes] at hi hr
  exact ⟨i, hi, hothers, hr, List.map_eq_nil_iff.1 hnone⟩

theorem OneLoader.loads_of_mem (hs : OneLoader settings s) {r : Option IsinIndex} {e : Event}
    (hindex : s.shared.index = .ready r) (he : e ∈ loadEvents i s.log) :
    Loads settings i (loadEvents i s.log) r ∧ ∀ j, i ≠ j → loadEvents j s.log = [] := by
  obtain ⟨loader, -, hothers, hr, -⟩ := hs.of_ready hindex
  have hnone (j : Nat) (hj : loader ≠ j) : loadEvents j s.log = [] :=
    congrArg LoadStage.events (hothers j hj)
  have hloader : loader = i := by
    by_contra hne
    rw [hnone i hne] at he
    cases he
  subst hloader
  exact ⟨hr, hnone⟩

theorem OneLoader.of_failurePoint (hs : OneLoader settings s) {e : Event}
    (he : e ∈ loadEvents i s.log) (hfail : FailurePoint settings i e) :
    puts (loadEvents i s.log) = [] ∧ (∀ x, s.shared.index ≠ .ready (some x)) ∧
      ∀ j, i ≠ j → loadStage j s.log = .before := by
  unfold loadEvents at he ⊢
  cases hi : loadStage i s.log with
  | before =>
    rw [hi] at he
    cases he
  | loading es =>
    rw [hi] at he
    obtain ⟨hcell, hothers, hcourse, -⟩ := hs.of_loading hi
    refine ⟨hcourse.puts_eq_nil he hfail, fun x hx => ?_, hothers⟩
    cases hcell.symm.trans hx
  | after es =>
    rw [hi] at he
    obtain ⟨r, hindex, hr⟩ := hs.of_after hi
    have hnone := hr.eq_none_iff.2 ⟨e, he, hfail⟩
    subst hnone
    refine ⟨hr.puts_of_none, fun x hx => ?_, (hs.of_begun fun h => nomatch hi.symm.trans h).1⟩
    cases hindex.symm.trans hx

end

section

variable {σ β : Type} {w : Surroundings σ} {s t : State σ β} {key : String}
  {entry : σ → Option Json}

structure Surroundings.Leaves (w : Surroundings σ) (key : String) (entry : σ → Option Json) : Prop where
  reads : ∀ {o p : σ} {k : String} {a : Except Cache.Error (Option Json)},
    w.reads o k a p → entry p = entry o
  writes : ∀ {o p : σ} {k : String} {v : Json} {a : Except Cache.Error Unit},
    k ≠ key → w.writes o k v a p → entry p = entry o
  replies : ∀ {o p : σ} {url : String} {parameters : Registry.Parameters} {a : Registry.Outcome},
    w.replies o url parameters a p → entry p = entry o
  delivers : ∀ {o p : σ} {url : String} {a : Except Error Unit} {file : Option (List UInt8)},
    w.delivers o url a file p → entry p = entry o

theorem Surroundings.Leaves.entry_eq (hw : w.Leaves key entry) {i : Nat} {op : Op} {a : op.Answer}
    {x y : Shared} {o p : σ} (h : w.Serves i op a (x, o) (y, p)) (hop : ∀ v, op ≠ .keep key v) :
    entry p = entry o := by
  rcases h.outside with rfl | ⟨k, b, hp⟩ | ⟨k, v, b, rfl, hp⟩ | ⟨url, parameters, b, hp⟩ |
    ⟨url, b, file, hp⟩
  · rfl
  · exact hw.reads hp
  · exact hw.writes (fun hk => hop v (by rw [hk])) hp
  · exact hw.replies hp
  · exact hw.delivers hp

theorem Surroundings.Leaves.run (hw : w.Leaves key entry) (hrun : Run w s t)
    (h : ∀ e ∈ t.log, ∀ v, e.op ≠ .keep key v) : entry t.outside = entry s.outside := by
  induction hrun with
  | refl => rfl
  | tail _ step ih =>
    cases step with
    | answer hi hserves =>
      obtain ⟨hop, hlog⟩ := List.forall_mem_cons.1 h
      exact (hw.entry_eq hserves hop).trans (ih hlog)
    | wait hi hb => exact ih h

end

/-- How a load has ended that has had these events. -/
structure LoadEnded (settings : Settings α) (i : Nat) (events : List Event)
    (r : Option IsinIndex) : Prop where
  none_iff : r = none ↔ ∃ e ∈ events, FailurePoint settings i e
  /-- An archive with an index has been read: it is complete, and written once. -/
  built : ∀ n bytes x, ⟨i, .readScratch n, some bytes⟩ ∈ events → Archive.readIndex bytes = .ok x →
    x.isEmpty = false → r = some x ∧ Archive.Holds bytes x ∧
      puts events = (settings.indexKey.map fun key => (key, IsinIndex.toJson x)).toList
  /-- There is no other index but one that the cache has brought. -/
  found : ∀ x, r = some x →
    (∃ key a, settings.indexKey = some key ∧ ⟨i, .lookUp key, a⟩ ∈ events ∧
      Cache.decoded? IsinIndex.ofDocument? a = some x ∧ puts events = []) ∨
    ∃ n bytes, ⟨i, .readScratch n, some bytes⟩ ∈ events ∧ Archive.readIndex bytes = .ok x ∧
      x.isEmpty = false

theorem Loads.ended {settings : Settings α} {i : Nat} {es : List Event} {r : Option IsinIndex}
    (h : Loads settings i es r) : LoadEnded settings i es r where
  none_iff := h.eq_none_iff
  built n bytes x he hread hx := by
    obtain ⟨hr, hputs⟩ := h.of_read he hread hx
    exact ⟨hr, Archive.holds_of_readIndex hread hx, hputs⟩
  found x hx := by
    subst hx
    exact h.of_some

section

variable {σ α β : Type} {w : Surroundings σ} {settings : Settings α} {shared : Shared}
  {s t : State σ β}

theorem ready_of_run {nameKeys : Nat → Option String} {post : Nat → β → LoadStage → Prop}
    (hs : OneLoader settings s ∧ PutsAccounted nameKeys s)
    (hf : s.Follows (fun i => loadContract settings i (nameKeys i)) post)
    {r : Option IsinIndex} (hindex : s.shared.index = .ready r) (hrun : Run w s t) :
    t.shared.index = .ready r := by
  have hI : Invariant w (fun i => loadContract settings i (nameKeys i)) post
      fun u => (OneLoader settings u ∧ PutsAccounted nameKeys u) ∧ u.shared.index = .ready r := by
    refine ⟨fun {u i op next a shared outside} hu hf hi hw => ?_, fun hu hf hi hb => ?_⟩
    · obtain ⟨hexpects, hkept⟩ := OneLoader.invariant.answer hu.1 hf hi hw
      refine ⟨hexpects, hkept, ?_⟩
      have hallow := hf.allows ⟨next, hi⟩
      rw [place_load] at hallow
      cases op with
      | claimIndex =>
        rcases hw.claimIndex with ⟨hcell, -⟩ | ⟨x, hcell, -, hcell'⟩
        · cases hu.2.symm.trans hcell
        · exact hcell'.trans (hcell.symm.trans hu.2)
      | publishIndex x =>
        cases hstage : loadStage i u.log with
        | loading es => cases hu.2.symm.trans (hu.1.1.of_loading hstage).1
        | before | after es =>
          rw [hstage] at hallow
          exact nomatch (hallow.1 rfl).1
      | _ => exact (hw.index_eq nofun nofun).trans hu.2
    · exact ⟨(OneLoader.invariant (w := w)).wait hu.1 hf hi hb, (Shared.index_of_blocked hb).trans hu.2⟩
  exact (hI.run hrun ⟨hs, hindex⟩ hf).1.2

theorem entry_left {nameKeys : Nat → Option String} {key : String} {entry : σ → Option Json}
    {start : State σ (β)} (hs : OneLoader settings s) (hputs : PutsAccounted nameKeys s)
    {i : Nat} {e : Event} (he : e ∈ loadEvents i s.log) (hfail : FailurePoint settings i e)
    (hkeys : ∀ j, nameKeys j ≠ some key) (hw : w.Leaves key entry) (hrun : Run w start s) :
    entry s.outside = entry start.outside := by
  obtain ⟨hnone, -, hothers⟩ := hs.of_failurePoint he hfail
  refine hw.run hrun fun d hd v hop => ?_
  have hmem := (hputs d hd key v hop).resolve_right (hkeys d.caller)
  by_cases hd : i = d.caller
  · rw [← hd] at hmem
    have hput := mem_puts_of_keep hmem hop
    rw [hnone] at hput
    cases hput
  · rw [loadEvents, hothers _ hd] at hmem
    cases hmem

end

section

variable {σ α : Type} [Scalar α] {w : Surroundings σ} {settings : Settings α} {shared : Shared}
  {outside : σ} {calls : List Call} {s t : State σ (Return α)}

def nameKeys (settings : Settings α) (calls : List Call) (i : Nat) : Option String :=
  calls[i]?.bind (·.nameKey? settings)

theorem calls_follow_load :
    (State.start (calls.map (·.dialogue settings)) shared outside).Follows
      (fun i => loadContract settings i (nameKeys settings calls i))
      fun _ _ g => g.isLoading = false := by
  apply calls_follow
  intro i call hcall
  have hkey : nameKeys settings calls i = call.nameKey? settings := by
    rw [nameKeys, hcall]
    rfl
  rw [hkey]
  exact call.keeps_load

theorem oneLoader_of_run (hshared : Shared.ofSettings? settings none = some shared)
    (hrun : Run w (.start (calls.map (·.dialogue settings)) shared outside) s) :
    (OneLoader settings s ∧ PutsAccounted (nameKeys settings calls) s) ∧
      s.Follows (fun i => loadContract settings i (nameKeys settings calls i))
        fun _ _ g => g.isLoading = false := by
  refine OneLoader.invariant.run hrun ⟨?_, nofun⟩ calls_follow_load
  refine (congrArg (IndexCell.LoadedBy _ _ _) (Shared.ofSettings_index hshared)).mpr
    ⟨fun _ => rfl, ?_⟩
  exact congrArg (List.map Prod.fst) (Shared.ofSettings_scratch hshared)

/-- Whatever cache and registry do. A load that fails, at whatever answer, writes nothing and leaves
the entry of the index as it was, no index comes of it in the life of the resolver, and at its end
there is no directory left. A load that reads an archive to its end makes its complete index known
and writes it once, if it has a key, whether or not that succeeds. Nobody gets anything of an index
that is not known yet. -/
theorem load_all_or_nothing (hshared : Shared.ofSettings? settings none = some shared)
    (hrun : Run w (.start (calls.map (·.dialogue settings)) shared outside) s) :
    (∀ i, ∀ e ∈ loadEvents i s.log, FailurePoint settings i e →
      puts (loadEvents i s.log) = [] ∧ (∀ t, Run w s t → ∀ x, t.shared.index ≠ .ready (some x)) ∧
      ∀ key entry, settings.indexKey = some key → w.Leaves key entry →
        (∀ call ∈ calls, call.nameKey? settings ≠ some key) → entry s.outside = entry outside) ∧
    (∀ r, s.shared.index = .ready r → s.shared.scratch = [] ∧
      (∀ t, Run w s t → t.shared.index = .ready r) ∧
      ∃ i, LoadEnded settings i (loadEvents i s.log) r) ∧
    (∀ j x, s.result? j = some (.index x) → s.shared.index = .ready x) ∧
    (∀ j q y, calls[j]? = some (.resolve q) → s.result? j = some (.resolved (.ok y)) →
      y.source = .isinIndex → ∃ x, s.shared.index = .ready (some x) ∧
        q.canonicalIsin?.bind (x.get? ·) = some y.lei) ∧
    ∀ e ∈ s.log, ∀ key v, e.op = .keep key v → e ∈ loadEvents e.caller s.log ∨
      ∃ call, calls[e.caller]? = some call ∧ call.nameKey? settings = some key := by
  obtain ⟨⟨hs, hputs⟩, hf⟩ := oneLoader_of_run hshared hrun
  refine ⟨fun i e he hfail => ⟨?_, fun t ht => ?_, ?_⟩, fun r hindex => ⟨?_, ?_, ?_⟩, ?_, ?_, ?_⟩
  · exact (hs.of_failurePoint he hfail).1
  · obtain ⟨later, hlater⟩ := ht.log_suffix
    have he' : e ∈ loadEvents i t.log := by
      rw [← hlater]
      exact (loadEvents_suffix_append later).subset he
    obtain ⟨⟨ht, -⟩, -⟩ := oneLoader_of_run hshared (hrun.trans ht)
    exact (ht.of_failurePoint he' hfail).2.1
  · intro key entry hkey hw hcalls
    refine entry_left hs hputs he hfail (fun j hj => ?_) hw hrun
    obtain ⟨call, hcall, hname⟩ := Option.bind_eq_some_iff.1 hj
    exact hcalls call (List.mem_of_getElem? hcall) hname
  · exact (hs.of_ready hindex).choose_spec.2.2.2
  · exact fun t ht => ready_of_run ⟨hs, hputs⟩ hf hindex ht
  · obtain ⟨i, -, -, hr, -⟩ := hs.of_ready hindex
    exact ⟨i, hr.ended⟩
  · exact fun j x => (answered_by_cell hshared hrun).1 x
  · intro j q y hcall hr hsource
    obtain ⟨x, hready, hanswered⟩ := (answered_by_cell hshared hrun).2 q _ hcall hr
    obtain ⟨isin, hisin, z, rfl, hlei⟩ := hanswered.exists_of_source hsource
    exact ⟨z, hready (by rw [hisin]; rfl), by rw [hisin]; exact hlei⟩
  · intro e he key v hop
    exact (hputs e he key v hop).imp_right Option.bind_eq_some_iff.1

end

theorem load_all_or_nothing_lawless :
    ∃ shared s, Shared.ofSettings? (Settings.default (α := Rat)) none = some shared ∧
      Run .lawless (.start ([Call.index].map (·.dialogue (Settings.default (α := Rat)))) shared ()) s ∧
      s.result? 0 = some (.index none) ∧
      (∃ e ∈ loadEvents 0 s.log, FailurePoint (Settings.default (α := Rat)) 0 e) ∧
      puts (loadEvents 0 s.log) = [] ∧ s.shared.scratch = [] ∧
      ∀ t, Run .lawless s t → t.shared.index = .ready none := by
  have hshared : Shared.ofSettings? (Settings.default (α := Rat)) none =
      some ⟨⟨1, [], []⟩, .unclaimed, [], 0⟩ := rfl
  have hrun : Run .lawless (.start ([Call.index].map (·.dialogue (Settings.default (α := Rat))))
      ⟨⟨1, [], []⟩, .unclaimed, [], 0⟩ ()) _ :=
    .answer 0 rfl .load ⟨rfl, rfl⟩ <| .answer 0 rfl (.ok none) ⟨trivial, rfl⟩ <|
    .answer 0 rfl (.ok ⟨500, []⟩) ⟨trivial, rfl⟩ <| .answer 0 rfl () ⟨rfl, rfl⟩ .refl
  obtain ⟨hfailed, hready, -⟩ := load_all_or_nothing hshared hrun
  have hpoint : FailurePoint (Settings.default (α := Rat)) 0
      ⟨0, .fetch (Settings.default (α := Rat)).mappingUrl [], .ok ⟨500, []⟩⟩ := .refused rfl
  obtain ⟨hputs, -⟩ := hfailed 0 _ List.mem_cons_self hpoint
  obtain ⟨hscratch, hstays, -⟩ := hready none rfl
  exact ⟨_, _, hshared, hrun, rfl, ⟨_, List.mem_cons_self, hpoint⟩, hputs, hscratch, hstays⟩

end LegalEntity.Resolver
