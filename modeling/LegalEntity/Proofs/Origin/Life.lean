import LegalEntity.Proofs.Cache.Holds
import LegalEntity.Proofs.Origin.Hearing
import LegalEntity.Proofs.Origin.OtherType
import LegalEntity.Proofs.Runs.Scripted
import LegalEntity.Proofs.Runs.Served

namespace LegalEntity.Archive

def HasRow (bytes : List UInt8) (header row : Csv.Record) : Prop :=
  ∃ entries csv rows, directory? bytes.toArray = some entries ∧
    firstCsv bytes.toArray entries = .ok csv ∧ IndexFile.records csv = header :: rows ∧ row ∈ rows

theorem Holds.exists_row {bytes : List UInt8} {x : IsinIndex} {e : String × String}
    (h : Holds bytes x) (he : e ∈ x.entries) :
    ∃ header row, HasRow bytes header row ∧ IndexFile.Taken header row e.1 e.2 := by
  obtain ⟨entries, csv, hentries, hcsv, -, rfl⟩ := h
  cases hrecords : IndexFile.records csv with
  | nil =>
    rw [hrecords] at he
    cases he
  | cons header rows =>
    rw [hrecords] at he
    obtain ⟨row, hrow, htaken⟩ := IndexFile.taken_of_mem_index he
    exact ⟨header, row, ⟨entries, csv, rows, hentries, hcsv, hrecords, hrow⟩, htaken⟩

end LegalEntity.Archive

namespace LegalEntity.Resolver

section

variable {σ : Type}

/-- Any read or write may fail, and the registry may reply anything. What is read under a key was
`given` for that key at some time. -/
structure Surroundings.Remembers (w : Surroundings σ) (given : σ → String → Json → Prop) : Prop
    extends w.AddsWritten given where
  reads : ∀ {o p : σ} {key : String} {v : Json}, w.reads o key (.ok (some v)) p → given o key v

variable {w : Surroundings σ} {given : σ → String → Json → Prop} {i n : Nat} {op : Op}
  {a : op.Answer} {x y : Shared} {o p : σ} {log log' : List Event} {bytes : List UInt8}
  {lei : String} {q q' : String → Prop}

def Downloaded (w : Surroundings σ) (log : List Event) (n : Nat) (bytes : List UInt8) : Prop :=
  ∃ i url a o p, ⟨i, .download url n, a⟩ ∈ log ∧ w.delivers o url a (some bytes) p

def ArchiveRead (w : Surroundings σ) (log : List Event) (bytes : List UInt8) : Prop :=
  ∃ i n, ⟨i, .readScratch n, some bytes⟩ ∈ log ∧ Downloaded w log n bytes

inductive Vouched (w : Surroundings σ) (log : List Event) (lei : String) : Prop
  | column {bytes : List UInt8} {header row : Csv.Record}
      (hread : ArchiveRead w log bytes) (hrow : Archive.HasRow bytes header row)
      (hreadable : IndexFile.isReadable header = true)
      (hlei : (IndexFile.below? header row IndexFile.leiColumn).map canonical = some lei)
  | firstCell {bytes : List UInt8} {header row : Csv.Record}
      (hread : ArchiveRead w log bytes) (hrow : Archive.HasRow bytes header row)
      (hreadable : IndexFile.isReadable header = false)
      (hlei : (IndexFile.text? row 0).map canonical = some lei)
  | search {i : Nat} (h : Sought i log lei)

theorem Downloaded.mono (h : Downloaded w log n bytes) (hlog : log ⊆ log') :
    Downloaded w log' n bytes := by
  obtain ⟨i, url, a, o, p, he, h⟩ := h
  exact ⟨i, url, a, o, p, hlog he, h⟩

theorem ArchiveRead.mono (h : ArchiveRead w log bytes) (hlog : log ⊆ log') :
    ArchiveRead w log' bytes := by
  obtain ⟨i, n, he, h⟩ := h
  exact ⟨i, n, hlog he, h.mono hlog⟩

theorem Vouched.mono (h : Vouched w log lei) (hlog : log ⊆ log') : Vouched w log' lei := by
  cases h with
  | column h hrow hreadable hlei => exact .column (h.mono hlog) hrow hreadable hlei
  | firstCell h hrow hreadable hlei => exact .firstCell (h.mono hlog) hrow hreadable hlei
  | search h => exact .search (h.mono hlog)

theorem Vouched.of_taken {header row : Csv.Record} {isin : String}
    (h : ArchiveRead w log bytes) (hrow : Archive.HasRow bytes header row)
    (htaken : IndexFile.Taken header row isin lei) : Vouched w log lei := by
  have hlei := htaken.lei_eq
  unfold IndexFile.leiText? at hlei
  cases hreadable : IndexFile.isReadable header with
  | true =>
    rw [if_pos hreadable] at hlei
    exact .column h hrow hreadable hlei
  | false =>
    rw [if_neg (Bool.eq_false_iff.1 hreadable)] at hlei
    exact .firstCell h hrow hreadable hlei

def Genuine (w : Surroundings σ) (q : String → Prop) (log : List Event) (lei : String) : Prop :=
  q lei ∨ lei ≠ "" ∧ Vouched w log lei

theorem Genuine.mono (h : Genuine w q log lei) (hq : ∀ lei, q lei → q' lei) (hlog : log ⊆ log') :
    Genuine w q' log' lei :=
  h.imp (hq lei) fun ⟨hne, h⟩ => ⟨hne, h.mono hlog⟩

def GivenBear (given : σ → String → Json → Prop) (p : String → Prop) (o : σ) : Prop :=
  ∀ key v, given o key v → v.Bears p

def Event.Bears (w : Surroundings σ) (q : String → Prop) (log : List Event) : Event → Prop
  | ⟨_, .lookUp _, .ok (some v)⟩ => v.Bears (Genuine w q log)
  | ⟨_, .claimIndex, .ready (some x)⟩ => x.Bears (Genuine w q log)
  | ⟨_, .readScratch n, some bytes⟩ => Downloaded w log n bytes
  | _ => True

structure Sourced (w : Surroundings σ) (q : String → Prop) (log : List Event) (shared : Shared) :
    Prop where
  events : ∀ e ∈ log, e.Bears w q log
  cell : ∀ x, shared.index = .ready (some x) → x.Bears (Genuine w q log)
  files : ∀ n bytes, (n, some bytes) ∈ shared.scratch → Downloaded w log n bytes

theorem Event.Bears.mono {e : Event} (h : e.Bears w q log) (hq : ∀ lei, q lei → q' lei)
    (hlog : log ⊆ log') : e.Bears w q' log' := by
  have hgenuine : ∀ lei, Genuine w q log lei → Genuine w q' log' lei :=
    fun lei h => h.mono hq hlog
  unfold Event.Bears at h ⊢
  split
  · exact Json.Bears.mono h hgenuine
  · exact IsinIndex.Bears.mono h hgenuine
  · exact Downloaded.mono h hlog
  · trivial

theorem Sourced.mono (h : Sourced w q log x) (hq : ∀ lei, q lei → q' lei) : Sourced w q' log x where
  events e he := (h.events e he).mono hq (List.Subset.refl _)
  cell y hy := (h.cell y hy).mono fun _ h => h.mono hq (List.Subset.refl _)
  files := h.files

theorem FromArchive.genuine (h : Sourced w q log x) {index : IsinIndex}
    (hindex : FromArchive i log index) :
    ∀ e ∈ index.entries, (∃ isin, canonical isin = e.1) ∧ Genuine w q log e.2 := by
  intro e he
  obtain ⟨n, bytes, hread, hholds⟩ := hindex
  obtain ⟨header, row, hrow, htaken⟩ := hholds.exists_row he
  obtain ⟨isin, -, hisin⟩ := Option.map_eq_some_iff.1 htaken.isin_eq
  have harchive : ArchiveRead w log bytes := ⟨i, n, hread, h.events _ hread⟩
  exact ⟨⟨isin, hisin⟩, .inr ⟨htaken.lei_ne, .of_taken harchive hrow htaken⟩⟩

theorem Sourced.bears_of_decoded {β : Type} {d : Json.Decoder β} {b : β} {key : String}
    {a : Except Cache.Error (Option Json)} (h : Sourced w q log x) (he : ⟨i, .lookUp key, a⟩ ∈ log)
    (hb : Cache.decoded? d a = some b) :
    ∃ v : Json, d v.toDocument = some b ∧ v.Bears (Genuine w q log) := by
  match a with
  | .ok (some v) => exact ⟨v, hb, h.events _ he⟩
  | .ok none => cases hb
  | .error e => cases hb

theorem HasIndex.bears (h : Sourced w q log x) {index : IsinIndex} (hindex : HasIndex i log index) :
    index.Bears (Genuine w q log) := by
  cases hindex with
  | archive hindex =>
    exact fun isin lei hlei => (hindex.genuine h _ (Table.mem_of_get? hlei)).2
  | cache hindex =>
    obtain ⟨key, a, he, hdecoded⟩ := hindex
    obtain ⟨v, hv, hbears⟩ := h.bears_of_decoded he hdecoded
    exact hbears.index index hv
  | ready he => exact h.events _ he

theorem Stems.genuine (h : Sourced w q log x) (hlei : Stems i log lei) : Genuine w q log lei := by
  cases hlei with
  | index hindex hlei => exact hindex.bears h _ lei hlei
  | outcome he hdecoded =>
    obtain ⟨v, hv, hbears⟩ := h.bears_of_decoded he hdecoded
    exact hbears.outcome lei hv
  | search hne hsought => exact .inr ⟨hne, .search hsought⟩

theorem Sourced.kept {key : String} {v : Json} (h : Sourced w q log x)
    (hkeep : (hearing i).allows ((hearing i).place i log) (.keep key v)) :
    v.Bears (Genuine w q log) := by
  have hlog := subset_log_of_hearing i log
  rcases hkeep with ⟨outcome, rfl, hfound⟩ | ⟨index, rfl, hindex⟩
  · apply NameOutcome.bears_toJson
    intro lei hlei
    obtain ⟨hne, hsought⟩ := hfound lei hlei
    exact .inr ⟨hne, .search (hsought.mono hlog)⟩
  · exact IsinIndex.bears_toJson ((hindex.mono hlog).genuine h)

theorem Surroundings.Serves.downloaded (h : w.Serves i op a (x, o) (y, p))
    (hfile : (n, some bytes) ∈ y.scratch) :
    (n, some bytes) ∈ x.scratch ∨ Downloaded w (⟨i, op, a⟩ :: log) n bytes := by
  cases op with
  | openScratch =>
    rcases h.openScratch_eq with ⟨-, rfl⟩ | ⟨-, -, rfl⟩
    · exact .inl ((List.mem_cons.1 hfile).resolve_left nofun)
    · exact .inl hfile
  | closeScratch m =>
    obtain ⟨h, -⟩ := h
    cases h
    exact .inl (List.mem_filter.1 hfile).1
  | download url m =>
    obtain ⟨file, hdelivers, hy⟩ := h
    have hfile' : (n, some bytes) ∈ (x.deliver m file).scratch := hy ▸ hfile
    cases file with
    | none => exact .inl hfile'
    | some content =>
      obtain ⟨e, he, heq⟩ := List.mem_map.1 hfile'
      split at heq
      · rename_i hm
        cases heq
        subst hm
        exact .inr ⟨i, url, a, o, p, List.mem_cons_self, hdelivers⟩
      · subst heq
        exact .inl he
  | _ =>
    rw [(h.scratch_eq nofun rfl nofun).1] at hfile
    exact .inl hfile

theorem Sourced.event (h : Sourced w q log x) (hw : w.Remembers given)
    (hgiven : GivenBear given (Genuine w q log) o)
    (hs : w.Serves i op a (x, o) (y, p)) : Event.Bears w q log ⟨i, op, a⟩ := by
  unfold Event.Bears
  split
  · rename_i j key v heq
    cases heq
    exact hgiven key v (hw.reads hs.1)
  · rename_i j index heq
    cases heq
    rcases hs.claimIndex with ⟨-, hload, -⟩ | ⟨r, hcell, hready, -⟩
    · cases hload
    · cases hready
      exact h.cell index hcell
  · rename_i j n bytes heq
    cases heq
    obtain ⟨hread, -⟩ := hs
    simp only [Shared.serve, Option.some.injEq, Served.answered.injEq,
      Option.join_eq_some_iff] at hread
    obtain ⟨before, after, hfiles, -⟩ := List.lookup_eq_some_iff.1 hread.1
    exact h.files n bytes (hfiles ▸ List.mem_append_right _ List.mem_cons_self)
  · trivial

theorem Sourced.cell_goOn (h : Sourced w q log x)
    (hop : (hearing i).allows ((hearing i).place i log) op) (hs : w.Serves i op a (x, o) (y, p))
    {index : IsinIndex} (hindex : y.index = .ready (some index)) :
    index.Bears (Genuine w q log) := by
  by_cases hclaim : op = .claimIndex
  · subst hclaim
    rcases hs.claimIndex with ⟨-, -, hcell⟩ | ⟨r, hcell, -, hcell'⟩
    · rw [hcell] at hindex
      cases hindex
    · rw [hcell'] at hindex
      cases hindex
      exact h.cell index hcell
  · cases op with
    | publishIndex r =>
      rw [hs.publishIndex] at hindex
      cases hindex
      exact ((hop index rfl).mono (subset_log_of_hearing i log)).bears h
    | _ =>
      rw [hs.index_eq hclaim nofun] at hindex
      exact h.cell index hindex

theorem Sourced.goOn (h : Sourced w q log x) (hw : w.Remembers given)
    (hgiven : GivenBear given (Genuine w q log) o)
    (hop : (hearing i).allows ((hearing i).place i log) op) (hs : w.Serves i op a (x, o) (y, p)) :
    GivenBear given (Genuine w q (⟨i, op, a⟩ :: log)) p ∧ Sourced w q (⟨i, op, a⟩ :: log) y := by
  have hlog : log ⊆ ⟨i, op, a⟩ :: log := List.subset_cons_self _ log
  have hgenuine : ∀ lei, Genuine w q log lei → Genuine w q (⟨i, op, a⟩ :: log) lei :=
    fun _ h => h.mono (fun _ h => h) hlog
  constructor
  · intro key v hv
    cases hw.given_of hs hv with
    | inl hv => exact (hgiven key v hv).mono hgenuine
    | inr hkeep =>
      subst hkeep
      exact (h.kept hop).mono hgenuine
  · refine ⟨fun e he => ?_, fun index hindex => (h.cell_goOn hop hs hindex).mono hgenuine, ?_⟩
    · have hbears : e.Bears w q log := by
        cases List.mem_cons.1 he with
        | inl he =>
          subst he
          exact h.event hw hgiven hs
        | inr he => exact h.events e he
      exact hbears.mono (fun _ h => h) hlog
    · intro n bytes hfile
      cases hs.downloaded hfile with
      | inl hfile => exact (h.files n bytes hfile).mono hlog
      | inr hdownloaded => exact hdownloaded

theorem Sourced.wait {shared : Shared} (h : Sourced w q log x)
    (hb : x.serve i op = some (.blocked shared)) : Sourced w q log shared where
  events := h.events
  cell index hindex := h.cell index ((Shared.index_of_blocked hb).symm.trans hindex)
  files n bytes hfile := h.files n bytes ((Shared.scratch_of_blocked hb).1 ▸ hfile)

theorem Sourced.invariant {α : Type} {post : Nat → α → List Event → Prop} (hw : w.Remembers given) :
    Invariant w hearing post fun s =>
      GivenBear given (Genuine w q s.log) s.outside ∧ Sourced w q s.log s.shared where
  answer h hf hi hs := ⟨trivial, h.2.goOn hw h.1 (hf.allows ⟨_, hi⟩) hs⟩
  wait h _ _ hb := ⟨h.1, h.2.wait hb⟩

end

section

variable {σ α : Type} {w : Surroundings σ} {given : σ → String → Json → Prop}
  {rs : List (State σ (Return α))} {s t : State σ (Return α)} {outside o : σ} {k : Nat} {lei : String}

def Found (w : Surroundings σ) (rs : List (State σ (Return α))) (lei : String) : Prop :=
  lei ≠ "" ∧ ∃ s ∈ rs, Vouched w s.log lei

theorem Found.cons (h : Found w rs lei) (s : State σ (Return α)) : Found w (s :: rs) lei := by
  obtain ⟨hne, t, ht, hvouched⟩ := h
  exact ⟨hne, t, List.mem_cons_of_mem _ ht, hvouched⟩

theorem Found.set (h : Found w rs lei) (hs : rs[k]? = some s) (hlog : s.log ⊆ t.log) :
    Found w (rs.set k t) lei := by
  obtain ⟨hne, s', hs', hvouched⟩ := h
  obtain ⟨j, hj⟩ := List.getElem?_of_mem hs'
  refine ⟨hne, ?_⟩
  by_cases hkj : k = j
  · subst hkj
    cases hs.symm.trans hj
    have hlt : k < rs.length := (List.getElem?_eq_some_iff.1 hs).1
    exact ⟨t, List.mem_set hlt t, hvouched.mono hlog⟩
  · exact ⟨s', List.mem_of_getElem? ((List.getElem?_set_ne hkj).trans hj), hvouched⟩

variable [Scalar α]

/-- The resolvers so far, each with settings and calls of its own, and what is outside of all of
them. A new one may be made at any time, and their calls take turns in any order. -/
inductive Life (w : Surroundings σ) (outside : σ) : List (State σ (Return α)) → σ → Prop
  | empty : Life w outside [] outside
  | make {rs : List (State σ (Return α))} {o : σ} {settings : Settings α} {calls : List Call}
      {shared : Shared} : Life w outside rs o → Shared.ofSettings? settings none = some shared →
      Life w outside (.start (calls.map (·.dialogue settings)) shared o :: rs) o
  | step {rs : List (State σ (Return α))} {o : σ} {k : Nat} {s t : State σ (Return α)} :
      Life w outside rs o → rs[k]? = some s → Step w { s with outside := o } t →
      Life w outside (rs.set k t) t.outside

def State.Keeps (w : Surroundings σ) (q : String → Prop) (s : State σ (Return α)) : Prop :=
  Sourced w q s.log s.shared ∧
    s.Follows hearing fun i r heard => ∀ lei ∈ r.leis, Stems i heard lei

theorem State.keeps_start {settings : Settings α} {calls : List Call} {shared : Shared}
    {q : String → Prop} (hshared : Shared.ofSettings? settings none = some shared) (o : σ) :
    (State.start (calls.map (·.dialogue settings)) shared o).Keeps w q := by
  refine ⟨⟨nofun, fun index hindex => ?_, fun n bytes hfile => ?_⟩, ?_⟩
  · cases (Shared.ofSettings_index hshared).symm.trans hindex
  · rw [State.start, Shared.ofSettings_scratch hshared] at hfile
    cases hfile
  · exact calls_follow fun i call _ => call.hears

theorem Life.found (hw : w.Remembers given) (hempty : ∀ key v, ¬given outside key v)
    (h : Life w outside rs o) : GivenBear given (Found w rs) o ∧ ∀ s ∈ rs, s.Keeps w (Found w rs) := by
  induction h with
  | empty => exact ⟨fun key v hv => absurd hv (hempty key v), nofun⟩
  | @make rs o settings calls shared _ hshared ih =>
    obtain ⟨hgiven, hrs⟩ := ih
    let fresh := State.start (calls.map (·.dialogue settings)) shared o
    have hgrow : ∀ lei, Found w rs lei → Found w (fresh :: rs) lei := fun lei h => h.cons fresh
    refine ⟨fun key v hv => (hgiven key v hv).mono hgrow, List.forall_mem_cons.2 ⟨?_, fun s hs => ?_⟩⟩
    · exact State.keeps_start hshared o
    · exact (hrs s hs).imp_left (·.mono hgrow)
  | @step rs o k s t _ hk hstep ih =>
    obtain ⟨hgiven, hrs⟩ := ih
    obtain ⟨hsourced, hfollows⟩ := hrs s (List.mem_of_getElem? hk)
    have hlog : s.log ⊆ t.log := (Run.log_suffix (.single hstep)).subset
    have hlt : k < rs.length := (List.getElem?_eq_some_iff.1 hk).1
    have hgrow : ∀ lei, Found w rs lei → Found w (rs.set k t) lei := fun lei h => h.set hk hlog
    have hnew : ∀ lei, Genuine w (Found w rs) t.log lei → Found w (rs.set k t) lei := by
      rintro lei (h | ⟨hne, h⟩)
      · exact hgrow lei h
      · exact ⟨hne, t, List.mem_set hlt t, h⟩
    -- Only this resolver has moved; for the others it is enough that what was found stays found.
    obtain ⟨⟨hgiven', hsourced'⟩, hfollows'⟩ := (Sourced.invariant hw).run (.single hstep)
      ⟨fun key v hv => (hgiven key v hv).mono fun _ => .inl, hsourced⟩ fun i d hd => hfollows i d hd
    refine ⟨fun key v hv => (hgiven' key v hv).mono hnew, fun s' hs' => ?_⟩
    cases List.mem_or_eq_of_mem_set hs' with
    | inl hs' => exact (hrs s' hs').imp_left (·.mono hgrow)
    | inr hs' =>
      subst hs'
      exact ⟨hsourced'.mono hgrow, hfollows'⟩

theorem Life.run (h : Life w outside (s :: rs) s.outside) (hrun : Run w s t) :
    Life w outside (t :: rs) t.outside := by
  induction hrun with
  | refl => exact h
  | tail _ hstep ih => exact ih.step (k := 0) rfl hstep

/-- In every life of an empty cache, each LEI that a call answers with or that is kept has been
found: it is not empty, and it stands in the LEI column of an archive, below a header that cannot be
read in the first column, or it is that of an owner or of an active completion in the replies to one
search. -/
theorem leis_found (hw : w.Remembers given) (hempty : ∀ key v, ¬given outside key v)
    (h : Life w outside rs o) :
    (∀ s ∈ rs, ∀ i r, s.result? i = some r → ∀ lei ∈ r.leis, Found w rs lei) ∧
    ∀ key v lei, given o key v → NameOutcome.ofDocument? v.toDocument = some (.found lei) →
      Found w rs lei := by
  obtain ⟨hgiven, hrs⟩ := h.found hw hempty
  constructor
  · intro s hs i r hr lei hlei
    obtain ⟨hsourced, hfollows⟩ := hrs s hs
    have hstems : Stems i s.log lei :=
      (hfollows.result hr lei hlei).mono (subset_log_of_hearing i s.log)
    cases hstems.genuine hsourced with
    | inl h => exact h
    | inr h => exact ⟨h.1, s, hs, h.2⟩
  · exact fun key v lei hv hlei => (hgiven key v hv).outcome lei hlei

end

section

open Rehearsal (World scripted runAll)

theorem scripted_remembers : (scripted (σ := Cache.Memory)).Remembers fun o => o.cache.holds where
  reads := fun ⟨_, h, _⟩ => (Cache.Memory.holds_of_get h).1 _ rfl
  reads_given := by
    rintro o p key a ⟨cache, h, rfl⟩
    exact (Cache.Memory.holds_of_get h).2
  writes := by
    rintro o p key v a ⟨cache, h, rfl⟩
    exact Cache.Memory.holds_of_put h
  replies_given := by
    rintro o p url parameters a ⟨reply, script, -, -, rfl⟩ k u hgiven
    exact hgiven
  delivers_given := by
    rintro o p url a file ⟨reply, script, -, -, rfl⟩ k u hgiven
    exact hgiven

def Return.identity? : Return α → Option Identity
  | .resolved (.ok y) => some y
  | _ => none

def acmeCalls : List Call := [.resolve (named "Acme")]

def acmeDialogues : List (Dialogue (Return Rat)) := acmeCalls.map (·.dialogue .default)

def acmeWorld : World Cache.Memory where
  shared := ⟨⟨1, [], []⟩, .unclaimed, [], 0⟩
  cache := .empty none
  script := [
    ⟨.search, none, [⟨0, .reply 200 (Text.utf8
      ("\x7b\"data\": [\x7b\"attributes\": \x7b\"value\": \"Acme\"\x7d, " ++
        "\"relationships\": \x7b\"lei-records\": \x7b\"data\": " ++
        "\x7b\"id\": \"L1\"\x7d\x7d\x7d\x7d]\x7d"))⟩], 0⟩,
    ⟨.active, none, [⟨0, .reply 200 (Text.utf8 "\x7b\"data\": [\x7b\"id\": \"L1\"\x7d]\x7d")⟩], 0⟩]
  moment := ⟨⟨2024, 1, 1, 0, 0, 0, 0, 0⟩, 0⟩
  clock := 0
  sent := []

def acmeWorldLater : World Cache.Memory :=
  { (runAll acmeDialogues acmeWorld).2 with shared := acmeWorld.shared }

theorem exists_run_of_rehearsal {w : World Cache.Memory} {y : Identity}
    (h : (runAll acmeDialogues w).1.map (·.map Return.identity?) = some [some y]) :
    ∃ s, Run scripted (.start acmeDialogues w.shared w.outside) s ∧
      s.result? 0 = some (.resolved (.ok y)) ∧ s.outside = (runAll acmeDialogues w).2.outside := by
  obtain ⟨values, hvalues, hy⟩ := Option.map_eq_some_iff.1 h
  obtain ⟨s, hrun, hresult, -, houtside⟩ := Rehearsal.runAll_run acmeDialogues w hvalues
  refine ⟨s, hrun, ?_, houtside⟩
  have hfirst : values[0]?.map Return.identity? = some (some y) := by
    rw [← List.getElem?_map, hy]
    rfl
  obtain ⟨r, hr, hidentity⟩ := Option.map_eq_some_iff.1 hfirst
  rw [hresult, hr]
  unfold Return.identity? at hidentity
  split at hidentity <;> cases hidentity
  rfl

theorem leis_found_twice : ∃ s t : State (Rehearsal.Outside Cache.Memory) (Return Rat),
    Life scripted acmeWorld.outside [t, s] t.outside ∧
    s.result? 0 = some (.resolved (.ok ⟨"Acme", "", none, "L1", .registrySearch⟩)) ∧
    t.result? 0 = some (.resolved (.ok ⟨"Acme", "", none, "L1", .nameCache⟩)) ∧
    Found scripted [t, s] "L1" ∧
    ∀ key v lei, t.outside.cache.holds key v →
      NameOutcome.ofDocument? v.toDocument = some (.found lei) → Found scripted [t, s] lei := by
  have hshared : Shared.ofSettings? (Settings.default (α := Rat)) none = some acmeWorld.shared := rfl
  obtain ⟨s, hrun, hs, houtside⟩ := exists_run_of_rehearsal (w := acmeWorld)
    (y := ⟨"Acme", "", none, "L1", .registrySearch⟩) (by decide +kernel)
  obtain ⟨t, hrun', ht, -⟩ := exists_run_of_rehearsal (w := acmeWorldLater)
    (y := ⟨"Acme", "", none, "L1", .nameCache⟩) (by decide +kernel)
  have hlife : Life scripted acmeWorld.outside [s] s.outside :=
    (Life.empty.make hshared).run hrun
  have hlater : acmeWorldLater.outside = s.outside := houtside.symm
  rw [hlater] at hrun'
  have hlife' : Life scripted acmeWorld.outside [t, s] t.outside := (hlife.make hshared).run hrun'
  have hempty : ∀ key v, ¬acmeWorld.outside.cache.holds key v := by
    rintro key v ⟨written, h⟩
    cases h
  obtain ⟨hresults, hkept⟩ := leis_found scripted_remembers hempty hlife'
  exact ⟨s, t, hlife', hs, ht,
    hresults t List.mem_cons_self 0 _ ht "L1" List.mem_cons_self, hkept⟩

end

end LegalEntity.Resolver
