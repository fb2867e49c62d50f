import LegalEntity.Proofs.IndexFile.Columns
import LegalEntity.Proofs.Runs.Calls

namespace LegalEntity.Archive

def Holds (bytes : List UInt8) (x : IsinIndex) : Prop :=
  ∃ entries csv, directory? bytes.toArray = some entries ∧ firstCsv bytes.toArray entries = .ok csv ∧
    csv.broken = false ∧ x = IndexFile.index (IndexFile.records csv)

theorem holds_of_readIndex {bytes : List UInt8} {x : IsinIndex} (h : readIndex bytes = .ok x)
    (hx : x.isEmpty = false) : Holds bytes x := by
  unfold readIndex at h
  split at h
  · cases h
  · rename_i entries hentries
    cases hcsv : firstCsv bytes.toArray entries with
    | error e =>
      rw [hcsv] at h
      cases h
    | ok csv =>
      rw [hcsv] at h
      change IndexFile.read csv = .ok x at h
      exact ⟨entries, csv, hentries, hcsv, IndexFile.index_of_read h hx⟩

theorem firstCsv_error {bytes : Bytes} {entries : List Entry} {e : Error}
    (h : firstCsv bytes entries = .error e) : e = .archive ∨ e = .missingCsv := by
  induction entries with
  | nil =>
    cases h
    exact .inr rfl
  | cons entry entries ih =>
    rw [firstCsv] at h
    split at h
    · cases h
      exact .inl rfl
    · split at h
      · cases h
      · exact ih h

theorem readIndex_error {bytes : List UInt8} {e : Error} (h : readIndex bytes = .error e) :
    e = .archive ∨ e = .missingCsv ∨ e = .csv := by
  unfold readIndex at h
  split at h
  · cases h
    exact .inl rfl
  · rename_i entries hentries
    cases hcsv : firstCsv bytes.toArray entries with
    | error e' =>
      rw [hcsv] at h
      cases h
      exact (firstCsv_error hcsv).imp_right .inl
    | ok csv =>
      rw [hcsv] at h
      change IndexFile.read csv = .error e at h
      exact .inr (.inr (IndexFile.read_error h))

end LegalEntity.Archive

namespace LegalEntity.Resolver

section

variable {α : Type} (s : Settings α) (i : Nat)

inductive Missed : List Event → Prop
  | keyless (hkey : s.indexKey = none) : Missed []
  | looked {key : String} {a : Except Cache.Error (Option Json)} (hkey : s.indexKey = some key)
      (hmiss : (Cache.decoded? IsinIndex.ofDocument? a).bind nonEmptyIndex = none) :
      Missed [⟨i, .lookUp key, a⟩]

inductive Linked (link : String) : List Event → Prop
  | linked {es : List Event} {reply : Registry.Reply} {m : ArchiveMetadata} (h : Missed s i es)
      (hstatus : Retry.isSuccess reply.status = true) (hread : Registry.metadata? reply = some m)
      (hlink : m.downloadLink = some link) : Linked link (⟨i, .fetch s.mappingUrl [], .ok reply⟩ :: es)

inductive Built : List Event → Except Error IsinIndex → Prop
  | unreachable {es : List Event} {e : Error} (h : Missed s i es) :
      Built (⟨i, .fetch s.mappingUrl [], .error e⟩ :: es)
        (.error (.metadataUnavailable (e.message?.getD "")))
  | refused {es : List Event} {reply : Registry.Reply} (h : Missed s i es)
      (hstatus : Retry.isSuccess reply.status = false) :
      Built (⟨i, .fetch s.mappingUrl [], .ok reply⟩ :: es)
        (.error (.httpStatus reply.status s.mappingUrl))
  | malformed {es : List Event} {reply : Registry.Reply} (h : Missed s i es)
      (hstatus : Retry.isSuccess reply.status = true) (hread : Registry.metadata? reply = none) :
      Built (⟨i, .fetch s.mappingUrl [], .ok reply⟩ :: es) (.error .malformedPayload)
  | unlinked {es : List Event} {reply : Registry.Reply} {m : ArchiveMetadata} (h : Missed s i es)
      (hstatus : Retry.isSuccess reply.status = true) (hread : Registry.metadata? reply = some m)
      (hlink : m.downloadLink = none) :
      Built (⟨i, .fetch s.mappingUrl [], .ok reply⟩ :: es) (.error .missingDownloadLink)
  | unopened {es : List Event} {link : String} {e : Error} (h : Linked s i link es) :
      Built (⟨i, .openScratch, .error e⟩ :: es) (.error e)
  | undelivered {es : List Event} {link : String} {n : Nat} {e : Error} (h : Linked s i link es) :
      Built (⟨i, .closeScratch n, ()⟩ :: ⟨i, .download link n, .error e⟩ :: ⟨i, .openScratch, .ok n⟩ :: es)
        (.error e)
  | lost {es : List Event} {link : String} {n : Nat} (h : Linked s i link es) :
      Built (⟨i, .closeScratch n, ()⟩ :: ⟨i, .readScratch n, none⟩ :: ⟨i, .download link n, .ok ()⟩ ::
        ⟨i, .openScratch, .ok n⟩ :: es) (.error .io)
  | read {es : List Event} {link : String} {n : Nat} {bytes : List UInt8} (h : Linked s i link es) :
      Built (⟨i, .closeScratch n, ()⟩ :: ⟨i, .readScratch n, some bytes⟩ ::
        ⟨i, .download link n, .ok ()⟩ :: ⟨i, .openScratch, .ok n⟩ :: es) (Archive.readIndex bytes)

inductive Loads : List Event → Option IsinIndex → Prop
  | cached {key : String} {a : Except Cache.Error (Option Json)} {x : IsinIndex}
      (hkey : s.indexKey = some key)
      (hhit : (Cache.decoded? IsinIndex.ofDocument? a).bind nonEmptyIndex = some x) :
      Loads [⟨i, .lookUp key, a⟩] (some x)
  | failed {es : List Event} {e : Error} (h : Built s i es (.error e)) : Loads es none
  | unusable {es : List Event} {x : IsinIndex} (h : Built s i es (.ok x)) (hx : x.isEmpty = true) :
      Loads es none
  | unsaved {es : List Event} {x : IsinIndex} (h : Built s i es (.ok x)) (hx : x.isEmpty = false)
      (hkey : s.indexKey = none) : Loads es (some x)
  | saved {es : List Event} {x : IsinIndex} {key : String} {a : Except Cache.Error Unit}
      (h : Built s i es (.ok x)) (hx : x.isEmpty = false) (hkey : s.indexKey = some key) :
      Loads (⟨i, .keep key (IsinIndex.toJson x), a⟩ :: es) (some x)

inductive Loading : List Event → Op → Prop
  | lookUp {key : String} (hkey : s.indexKey = some key) : Loading [] (.lookUp key)
  | metadata {es : List Event} (h : Missed s i es) : Loading es (.fetch s.mappingUrl [])
  | openScratch {es : List Event} {link : String} (h : Linked s i link es) : Loading es .openScratch
  | download {es : List Event} {link : String} {n : Nat} (h : Linked s i link es) :
      Loading (⟨i, .openScratch, .ok n⟩ :: es) (.download link n)
  | readScratch {es : List Event} {link : String} {n : Nat} (h : Linked s i link es) :
      Loading (⟨i, .download link n, .ok ()⟩ :: ⟨i, .openScratch, .ok n⟩ :: es) (.readScratch n)
  | giveUp {es : List Event} {link : String} {n : Nat} {e : Error} (h : Linked s i link es) :
      Loading (⟨i, .download link n, .error e⟩ :: ⟨i, .openScratch, .ok n⟩ :: es) (.closeScratch n)
  | closeScratch {es : List Event} {link : String} {n : Nat} {content : Option (List UInt8)}
      (h : Linked s i link es) :
      Loading (⟨i, .readScratch n, content⟩ :: ⟨i, .download link n, .ok ()⟩ ::
        ⟨i, .openScratch, .ok n⟩ :: es) (.closeScratch n)
  | save {es : List Event} {x : IsinIndex} {key : String} (h : Built s i es (.ok x))
      (hx : x.isEmpty = false) (hkey : s.indexKey = some key) :
      Loading es (.keep key (IsinIndex.toJson x))

/-- The answers at which a load fails. -/
inductive FailurePoint : Event → Prop
  | unreachable (e : Error) : FailurePoint ⟨i, .fetch s.mappingUrl [], .error e⟩
  | refused {reply : Registry.Reply} (h : Retry.isSuccess reply.status = false) :
      FailurePoint ⟨i, .fetch s.mappingUrl [], .ok reply⟩
  | malformed {reply : Registry.Reply} (h : Registry.metadata? reply = none) :
      FailurePoint ⟨i, .fetch s.mappingUrl [], .ok reply⟩
  | unlinked {reply : Registry.Reply} {m : ArchiveMetadata} (h : Registry.metadata? reply = some m)
      (hlink : m.downloadLink = none) : FailurePoint ⟨i, .fetch s.mappingUrl [], .ok reply⟩
  | unopened (e : Error) : FailurePoint ⟨i, .openScratch, .error e⟩
  | undelivered (link : String) (n : Nat) (e : Error) : FailurePoint ⟨i, .download link n, .error e⟩
  | lost (n : Nat) : FailurePoint ⟨i, .readScratch n, none⟩
  | notArchive {n : Nat} {bytes : List UInt8} (h : Archive.readIndex bytes = .error .archive) :
      FailurePoint ⟨i, .readScratch n, some bytes⟩
  | noCsv {n : Nat} {bytes : List UInt8} (h : Archive.readIndex bytes = .error .missingCsv) :
      FailurePoint ⟨i, .readScratch n, some bytes⟩
  | brokenCsv {n : Nat} {bytes : List UInt8} (h : Archive.readIndex bytes = .error .csv) :
      FailurePoint ⟨i, .readScratch n, some bytes⟩
  | unusable {n : Nat} {bytes : List UInt8} {x : IsinIndex} (h : Archive.readIndex bytes = .ok x)
      (hx : x.isEmpty = true) : FailurePoint ⟨i, .readScratch n, some bytes⟩

end

def Event.put? : Event → Option (String × Json)
  | ⟨_, .keep key v, _⟩ => some (key, v)
  | _ => none

def puts (events : List Event) : List (String × Json) := events.filterMap Event.put?

theorem puts_append (es es' : List Event) : puts (es ++ es') = puts es ++ puts es' :=
  List.filterMap_append ..

theorem exists_keep_of_mem_puts {es : List Event} {k : String} {v : Json} (h : (k, v) ∈ puts es) :
    ∃ e ∈ es, e.op = .keep k v := by
  obtain ⟨e, he, hput⟩ := List.mem_filterMap.1 h
  refine ⟨e, he, ?_⟩
  unfold Event.put? at hput
  split at hput <;> cases hput
  rfl

theorem mem_puts_of_keep {es : List Event} {k : String} {v : Json} {e : Event} (he : e ∈ es)
    (hop : e.op = .keep k v) : (k, v) ∈ puts es := by
  refine List.mem_filterMap.2 ⟨e, he, ?_⟩
  cases e with
  | mk j op a =>
    cases hop
    rfl

def opened : List Event → List Nat
  | [] => []
  | ⟨_, .openScratch, .ok n⟩ :: es => n :: opened es
  | ⟨_, .closeScratch n, _⟩ :: es => (opened es).filter (· != n)
  | _ :: es => opened es

section

variable {α : Type} {s : Settings α} {i : Nat} {es : List Event} {e : Event} {op : Op}
  {link : String} {r : Option IsinIndex} {x : IsinIndex} {b : Except Error IsinIndex}

theorem Missed.quiet (h : Missed s i es) : puts es = [] ∧ opened es = [] := by
  cases h <;> exact ⟨rfl, rfl⟩

theorem Linked.quiet (h : Linked s i link es) : puts es = [] ∧ opened es = [] := by
  cases h with
  | linked h => exact h.quiet

theorem Built.quiet (h : Built s i es b) : puts es = [] ∧ opened es = [] := by
  cases h with
  | unreachable h | refused h | malformed h | unlinked h | unopened h => exact h.quiet
  | undelivered h | lost h | read h =>
    obtain ⟨hputs, hopened⟩ := h.quiet
    exact ⟨hputs, by simp [opened, hopened]⟩

theorem Loading.puts_eq_nil (h : Loading s i es op) : puts es = [] := by
  cases h with
  | lookUp => rfl
  | metadata h => exact h.quiet.1
  | openScratch h | download h | readScratch h | giveUp h | closeScratch h => exact h.quiet.1
  | save h => exact h.quiet.1

theorem Loads.opened_eq_nil (h : Loads s i es r) : opened es = [] := by
  cases h with
  | cached => rfl
  | failed h | unusable h | unsaved h | saved h => exact h.quiet.2

theorem Missed.not_failurePoint (h : Missed s i es) (he : e ∈ es) : ¬FailurePoint s i e := by
  cases h with
  | keyless => cases he
  | looked =>
    rw [List.mem_singleton.1 he]
    exact nofun

theorem Linked.not_failurePoint (h : Linked s i link es) (he : e ∈ es) : ¬FailurePoint s i e := by
  cases h with
  | linked h hstatus hread hlink =>
    cases List.mem_cons.1 he with
    | inl he =>
      subst he
      intro hfail
      cases hfail <;> simp_all
    | inr he => exact h.not_failurePoint he

theorem Built.failurePoint {error : Error} (h : Built s i es b) (hb : b = .error error) :
    ∃ e ∈ es, FailurePoint s i e := by
  cases h with
  | unreachable => exact ⟨_, List.mem_cons_self, .unreachable _⟩
  | refused h hstatus => exact ⟨_, List.mem_cons_self, .refused hstatus⟩
  | malformed h hstatus hread => exact ⟨_, List.mem_cons_self, .malformed hread⟩
  | unlinked h hstatus hread hlink => exact ⟨_, List.mem_cons_self, .unlinked hread hlink⟩
  | unopened => exact ⟨_, List.mem_cons_self, .unopened _⟩
  | undelivered => exact ⟨_, List.mem_cons_of_mem _ List.mem_cons_self, .undelivered ..⟩
  | lost => exact ⟨_, List.mem_cons_of_mem _ List.mem_cons_self, .lost _⟩
  | read =>
    refine ⟨_, List.mem_cons_of_mem _ List.mem_cons_self, ?_⟩
    rcases Archive.readIndex_error hb with rfl | rfl | rfl
    · exact .notArchive hb
    · exact .noCsv hb
    · exact .brokenCsv hb

theorem Built.exists_read (h : Built s i es b) (hb : b = .ok x) :
    ∃ n bytes, ⟨i, .readScratch n, some bytes⟩ ∈ es ∧ Archive.readIndex bytes = .ok x := by
  cases h with
  | read => exact ⟨_, _, List.mem_cons_of_mem _ List.mem_cons_self, hb⟩
  | _ => cases hb

theorem Built.not_failurePoint (h : Built s i es b) (hb : b = .ok x) (hx : x.isEmpty = false)
    (he : e ∈ es) : ¬FailurePoint s i e := by
  cases h with
  | read h =>
    simp only [List.mem_cons] at he
    rcases he with rfl | rfl | rfl | rfl | he
    · exact nofun
    · intro hfail
      cases hfail <;> simp_all
    · exact nofun
    · exact nofun
    · exact h.not_failurePoint he
  | _ => cases hb

/-- There is no index if and only if the load fails at some answer. -/
theorem Loads.eq_none_iff (h : Loads s i es r) : r = none ↔ ∃ e ∈ es, FailurePoint s i e := by
  cases h with
  | cached =>
    refine iff_of_false nofun ?_
    rintro ⟨e, he, hfail⟩
    rw [List.mem_singleton.1 he] at hfail
    cases hfail
  | failed h => exact iff_of_true rfl (h.failurePoint rfl)
  | unusable h hx =>
    obtain ⟨n, bytes, he, hread⟩ := h.exists_read rfl
    exact iff_of_true rfl ⟨_, he, .unusable hread hx⟩
  | unsaved h hx => exact iff_of_false nofun fun ⟨e, he, hfail⟩ => h.not_failurePoint rfl hx he hfail
  | saved h hx =>
    refine iff_of_false nofun ?_
    rintro ⟨e, he, hfail⟩
    cases List.mem_cons.1 he with
    | inl he =>
      subst he
      cases hfail
    | inr he => exact h.not_failurePoint rfl hx he hfail

theorem Loads.puts_of_none (h : Loads s i es none) : puts es = [] := by
  cases h with
  | failed h | unusable h => exact h.quiet.1

theorem Loads.of_some (h : Loads s i es (some x)) :
    (∃ key a, s.indexKey = some key ∧ ⟨i, .lookUp key, a⟩ ∈ es ∧
      Cache.decoded? IsinIndex.ofDocument? a = some x ∧ puts es = []) ∨
    ∃ n bytes, ⟨i, .readScratch n, some bytes⟩ ∈ es ∧ Archive.readIndex bytes = .ok x ∧
      x.isEmpty = false := by
  cases h with
  | cached hkey hhit =>
    obtain ⟨y, hy, hx⟩ := Option.bind_eq_some_iff.1 hhit
    unfold nonEmptyIndex at hx
    split at hx <;> cases hx
    exact .inl ⟨_, _, hkey, List.mem_cons_self, hy, rfl⟩
  | unsaved h hx hkey =>
    obtain ⟨n, bytes, he, hread⟩ := h.exists_read rfl
    exact .inr ⟨n, bytes, he, hread, hx⟩
  | saved h hx hkey =>
    obtain ⟨n, bytes, he, hread⟩ := h.exists_read rfl
    exact .inr ⟨n, bytes, List.mem_cons_of_mem _ he, hread, hx⟩

theorem Missed.not_read {n : Nat} {content : Option (List UInt8)} (h : Missed s i es) :
    ⟨i, .readScratch n, content⟩ ∉ es := by
  cases h <;> simp

theorem Linked.not_read {n : Nat} {content : Option (List UInt8)} (h : Linked s i link es) :
    ⟨i, .readScratch n, content⟩ ∉ es := by
  cases h with
  | linked h => simp [h.not_read]

theorem Built.eq_readIndex {n : Nat} {bytes : List UInt8} (h : Built s i es b)
    (he : ⟨i, .readScratch n, some bytes⟩ ∈ es) : b = Archive.readIndex bytes := by
  cases h with
  | unreachable h | refused h | malformed h | unlinked h => simp [h.not_read] at he
  | unopened h | undelivered h | lost h => simp [h.not_read] at he
  | @read _ _ m content h =>
    obtain ⟨-, rfl⟩ : n = m ∧ bytes = content := by simpa [h.not_read] using he
    rfl

theorem Loads.of_read {n : Nat} {bytes : List UInt8} (h : Loads s i es r)
    (he : ⟨i, .readScratch n, some bytes⟩ ∈ es) (hread : Archive.readIndex bytes = .ok x)
    (hx : x.isEmpty = false) :
    r = some x ∧ puts es = (s.indexKey.map fun key => (key, IsinIndex.toJson x)).toList := by
  cases h with
  | cached => simp at he
  | failed h => cases (h.eq_readIndex he).trans hread
  | unusable h hempty =>
    cases (h.eq_readIndex he).trans hread
    cases hx.symm.trans hempty
  | unsaved h _ hkey =>
    cases (h.eq_readIndex he).trans hread
    refine ⟨rfl, ?_⟩
    rw [h.quiet.1, hkey]
    rfl
  | @saved es _ key a h _ hkey =>
    have he' := (List.mem_cons.1 he).resolve_left nofun
    cases (h.eq_readIndex he').trans hread
    have hputs : puts (⟨i, .keep key (IsinIndex.toJson x), a⟩ :: es) =
        (key, IsinIndex.toJson x) :: puts es := rfl
    refine ⟨rfl, ?_⟩
    rw [hputs, h.quiet.1, hkey]
    rfl

variable (s i) in
inductive Course : List Event → Prop
  | nil : Course []
  | cons {es : List Event} {op : Op} (h : Course es) (hop : Loading s i es op) (a : op.Answer) :
      Course (⟨i, op, a⟩ :: es)

theorem Course.puts_eq_nil (h : Course s i es) (he : e ∈ es) (hfail : FailurePoint s i e) :
    puts es = [] := by
  cases h with
  | nil => rfl
  | @cons es op h hop a =>
    have hputs := hop.puts_eq_nil
    cases hop with
    | save hbuilt hx hkey =>
      cases List.mem_cons.1 he with
      | inl he =>
        subst he
        cases hfail
      | inr he => exact absurd hfail (hbuilt.not_failurePoint rfl hx he)
    | _ => exact hputs

end

def Records {γ α : Type} (c : Contract γ) (s : Settings α) (i : Nat) (place : List Event → γ) :
    Prop :=
  ∀ {es op}, Loading s i es op →
    c.allows (place es) op ∧ ∀ a, c.next (place es) op a = place (⟨i, op, a⟩ :: es)

section

variable {γ α : Type} {c : Contract γ} {s : Settings α} {i : Nat} {place : List Event → γ}
  {es : List Event}

theorem Records.ask {op : Op} {next : op.Answer → Dialogue β} {post : β → γ → Prop}
    (hc : Records c s i place) (hop : Loading s i es op)
    (h : ∀ a, (next a).Keeps c post (place (⟨i, op, a⟩ :: es))) :
    (Dialogue.ask op next).Keeps c post (place es) := by
  obtain ⟨hallow, hnext⟩ := hc hop
  refine ⟨hallow, fun a _ => ?_⟩
  rw [hnext a]
  exact h a

theorem Records.perform_bind {op : Op} {f : op.Answer → Dialogue β} {post : β → γ → Prop}
    (hc : Records c s i place) (hop : Loading s i es op)
    (h : ∀ a, (f a).Keeps c post (place (⟨i, op, a⟩ :: es))) :
    ((Dialogue.perform op).bind f).Keeps c post (place es) :=
  hc.ask hop h

theorem cachedIndex_records (hc : Records c s i place) :
    (cachedIndex s).Keeps c
      (fun r g => ∃ es, g = place es ∧
        match r with
        | none => Missed s i es
        | some x => Loads s i es (some x)) (place []) := by
  unfold cachedIndex
  split
  · rename_i hkey
    exact ⟨[], rfl, .keyless hkey⟩
  · rename_i key hkey
    refine hc.ask (.lookUp hkey) fun a => ?_
    refine ⟨_, rfl, ?_⟩
    cases hhit : (Cache.decoded? IsinIndex.ofDocument? a).bind nonEmptyIndex with
    | none => exact .looked hkey hhit
    | some x => exact .cached hkey hhit

theorem downloadIndex_records (hc : Records c s i place) {link : String} (h : Linked s i link es) :
    (downloadIndex link).Keeps c (fun r g => ∃ es, g = place es ∧ Built s i es r) (place es) := by
  refine hc.ask (.openScratch h) fun scratch => ?_
  cases scratch with
  | error e => exact ⟨_, rfl, .unopened h⟩
  | ok n =>
    refine hc.ask (.download h) fun a => ?_
    cases a with
    | error e => exact hc.ask (.giveUp h) fun _ => ⟨_, rfl, .undelivered h⟩
    | ok _ =>
      refine hc.ask (.readScratch h) fun content => hc.ask (.closeScratch h) fun _ => ?_
      cases content with
      | none => exact ⟨_, rfl, .lost h⟩
      | some bytes => exact ⟨_, rfl, .read h⟩

theorem fetchMetadata_records (hc : Records c s i place) (h : Missed s i es) :
    (fetchMetadata s).Keeps c
      (fun r g => ∃ es, g = place es ∧
        match r with
        | .error e => Built s i es (.error e)
        | .ok m => (m.downloadLink = none → Built s i es (.error .missingDownloadLink)) ∧
          ∀ link, m.downloadLink = some link → Linked s i link es) (place es) := by
  refine hc.perform_bind (.metadata h) fun a => ?_
  cases a with
  | error e => exact ⟨_, rfl, .unreachable h⟩
  | ok reply =>
    dsimp only
    split
    · rename_i hstatus
      split
      · rename_i m hread
        exact ⟨_, rfl, .unlinked h hstatus hread, fun link => .linked h hstatus hread⟩
      · rename_i hread
        exact ⟨_, rfl, .malformed h hstatus hread⟩
    · rename_i hstatus
      exact ⟨_, rfl, .refused h (Bool.eq_false_iff.2 hstatus)⟩

theorem buildIndex_records (hc : Records c s i place) (h : Missed s i es) :
    (buildIndex s).Keeps c (fun r g => ∃ es, g = place es ∧ Built s i es r) (place es) := by
  refine Dialogue.keeps_bind.2 ((fetchMetadata_records hc h).mono fun r g ⟨es, hg, h⟩ => ?_)
  subst hg
  cases r with
  | error e => exact ⟨es, rfl, h⟩
  | ok m =>
    dsimp only
    split
    · rename_i hlink
      exact ⟨es, rfl, h.1 hlink⟩
    · rename_i link hlink
      exact downloadIndex_records hc (h.2 link hlink)

theorem loadIndex_records (hc : Records c s i place) :
    (loadIndex s).Keeps c (fun r g => ∃ es, g = place es ∧ Loads s i es r) (place []) := by
  refine Dialogue.keeps_bind.2 ((cachedIndex_records hc).mono fun r g ⟨es, hg, h⟩ => ?_)
  subst hg
  cases r with
  | some x => exact ⟨es, rfl, h⟩
  | none =>
    refine Dialogue.keeps_bind.2 ((buildIndex_records hc h).mono fun r g ⟨es, hg, h⟩ => ?_)
    subst hg
    cases r with
    | error e => exact ⟨es, rfl, .failed h⟩
    | ok x =>
      cases hx : x.isEmpty with
      | true =>
        have hnone : nonEmptyIndex x = none := if_pos hx
        simp only [hnone]
        exact ⟨es, rfl, .unusable h hx⟩
      | false =>
        have hsome := nonEmptyIndex_of_not_isEmpty hx
        cases hkey : s.indexKey with
        | none =>
          simp only [hsome]
          exact ⟨es, rfl, .unsaved h hx hkey⟩
        | some key =>
          simp only [hsome]
          exact hc.ask (.save h hx hkey) fun a => ⟨_, rfl, .saved h hx hkey⟩

end

end LegalEntity.Resolver
