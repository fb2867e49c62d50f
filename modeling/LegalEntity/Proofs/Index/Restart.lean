import LegalEntity.Proofs.Index.Building

namespace LegalEntity.Resolver

open Cache (Directory KeepingStore PlacedStore Durable Endures)
open Cache.PlacedStore (place)

section

variable {σ α : Type} [Cache.Store σ] [PlacedStore σ] {key : String}

structure Job.Spares (σ : Type) [Cache.Store σ] [PlacedStore σ] (j : Job α) (key : String) :
    Prop where
  index : ∀ k ∈ j.settings.indexKey, place σ key = place σ k → k = key
  names : ∀ call ∈ j.calls, ∀ k ∈ call.nameKey? j.settings, place σ key ≠ place σ k

variable [Scalar α]

/-- What may come after a state of a resolver: it goes on, and others are made over the same store
at any time, their calls taking turns in any order. -/
inductive Later (key : String) (first : State σ (Return α)) :
    State σ (Return α) → List (Job α × State σ (Return α)) → σ → Prop
  | now : Later key first first [] first.outside
  | goOn {s t : State σ (Return α)} {rs : List (Job α × State σ (Return α))} {o : σ} :
      Later key first s rs o → Step (.cached σ) { s with outside := o } t →
      Later key first t rs t.outside
  | make {s : State σ (Return α)} {rs : List (Job α × State σ (Return α))} {o : σ} {j : Job α}
      {shared : Shared} : Later key first s rs o → j.Spares σ key →
      Shared.ofSettings? j.settings none = some shared →
      Later key first s ((j, .start j.dialogues shared o) :: rs) o
  | step {s t u : State σ (Return α)} {rs : List (Job α × State σ (Return α))} {o : σ} {j : Job α}
      {k : Nat} : Later key first s rs o → rs[k]? = some (j, u) →
      Step (.cached σ) { u with outside := o } t → Later key first s (rs.set k (j, t)) t.outside

end

section

variable {σ α β : Type} {settings : Settings α} {nameKeys : Nat → Option String}
  {post : Nat → β → LoadStage → Prop} {s : State σ β} {r : Option IsinIndex} {i : Nat}
  {k : String} {v : Json}

theorem OneLoader.nameKey_of_keep (hs : OneLoader settings s)
    (hf : s.Follows (fun i => loadContract settings i (nameKeys i)) post)
    (hindex : s.shared.index = .ready r) (hi : s.StandsAt i (.keep k v)) : nameKeys i = some k := by
  have hallow := hf.allows hi
  rw [place_load] at hallow
  cases hstage : loadStage i s.log with
  | loading es => cases hindex.symm.trans (hs.of_loading hstage).1
  | before | after es =>
    rw [hstage] at hallow
    exact hallow.2 k v rfl

theorem LoadStage.events_next_subset (g : LoadStage) (e : Event) :
    (g.next e).events ⊆ e :: g.events := by
  cases g with
  | before =>
    cases e with
    | mk j op a =>
      cases op with
      | claimIndex => cases a <;> exact List.nil_subset _
      | _ => exact List.nil_subset _
  | loading es =>
    cases e with
    | mk j op a =>
      cases op with
      | publishIndex r => exact List.subset_cons_self _ _
      | _ => exact List.Subset.refl _
  | after es => exact List.subset_cons_self _ _

theorem loadEvents_subset (i : Nat) (log : List Event) : loadEvents i log ⊆ log := by
  induction log with
  | nil => exact List.Subset.refl _
  | cons e log ih =>
    rw [loadEvents, loadStage]
    split
    · exact List.Subset.trans (LoadStage.events_next_subset _ e) (List.cons_subset_cons e ih)
    · exact List.Subset.trans ih (List.subset_cons_self _ _)

end

section

variable {σ α : Type} [Cache.Store σ] [KeepingStore σ] {key : String} {x : IsinIndex}

def Settled (j : Job α) (s : State σ (Return α)) : Prop :=
  ((OneLoader j.settings s ∧ PutsAccounted (nameKeys j.settings j.calls) s) ∧
    s.Follows (fun i => loadContract j.settings i (nameKeys j.settings j.calls i))
      fun _ _ g => g.isLoading = false) ∧ ∃ r, s.shared.index = .ready r

theorem Settled.step {j : Job α} {s t : State σ (Return α)} (hs : Settled j s)
    (hspares : j.Spares σ key) (hendures : Endures key (IsinIndex.toJson x) s.outside)
    (hstep : Step (.cached σ) s t) :
    Settled j t ∧ Endures key (IsinIndex.toJson x) t.outside := by
  obtain ⟨⟨hone, hf⟩, r, hindex⟩ := hs
  have hrun : Run (.cached σ) s t := .single hstep
  refine ⟨⟨OneLoader.invariant.run hrun hone hf, r, ready_of_run hone hf hindex hrun⟩, ?_⟩
  cases hstep with
  | answer hi hw =>
    refine hw.endures hendures x.isTexts_toJson ?_
    rintro k u rfl hplace
    obtain ⟨call, hcall, hname⟩ :=
      Option.bind_eq_some_iff.1 (hone.1.nameKey_of_keep hf hindex ⟨_, hi⟩)
    exact absurd hplace (hspares.names call (List.mem_of_getElem? hcall) k hname)
  | wait hi hb => exact hendures

/-- What a resolver has come to over a store that keeps an index under its key. -/
structure Obtains (x : IsinIndex) (calls : List Call) (s : State σ (Return α)) : Prop where
  index : ∀ r, s.shared.index = .ready r → r = some x
  results : ∀ (i : Nat) (call : Call) (r : Return α), calls[i]? = some call →
    s.result? i = some r → call.Gives x r
  unsent : ∀ op ∈ s.asked, op.isMetadata = false ∧ op.isDownload = false

def Loyal (key : String) (x : IsinIndex) (o : σ) (e : Job α × State σ (Return α)) : Prop :=
  Holding e.1.settings key x { e.2 with outside := o } ∧
    e.2.Follows (fun _ => sparingContract σ e.1.settings key x)
      fun i r _ => e.1.settings.indexKey = some key → ∀ call, e.1.calls[i]? = some call →
        call.Gives x r

theorem Loyal.step {o : σ} {j : Job α} {s t : State σ (Return α)} (hs : Loyal key x o (j, s))
    (hstep : Step (.cached σ) { s with outside := o } t) :
    Endures key (IsinIndex.toJson x) t.outside ∧ Loyal key x t.outside (j, t) := by
  obtain ⟨ht, hf⟩ := Holding.invariant.run (.single hstep) hs.1 fun i u hu => hs.2 i u hu
  exact ⟨ht.1, ht, hf⟩

theorem Loyal.of_endures {o p : σ} {e : Job α × State σ (Return α)} (h : Loyal key x o e)
    (hp : Endures key (IsinIndex.toJson x) p) : Loyal key x p e :=
  ⟨⟨hp, h.1.2⟩, h.2⟩

theorem Loyal.obtains {o : σ} {j : Job α} {s : State σ (Return α)} (h : Loyal key x o (j, s))
    (hkey : j.settings.indexKey = some key) : Obtains x j.calls s where
  index := (h.1.2 hkey).1
  results i call r hcall hr := h.2.result hr hkey call hcall
  unsent op hop := by
    simp only [State.asked, List.mem_append, List.mem_filterMap, List.mem_map] at hop
    rcases hop with ⟨t, ht, hop⟩ | ⟨e, he, rfl⟩
    · obtain ⟨i, hi⟩ := List.getElem?_of_mem ht
      obtain ⟨next, rfl⟩ := Dialogue.op?_eq_some.1 hop
      obtain ⟨hmetadata, hdownload, -⟩ := (h.2.allows ⟨next, hi⟩).2 hkey
      exact ⟨hmetadata, hdownload⟩
    · exact (h.1.2 hkey).2 e he

theorem OneLoader.eq_of_keep {j : Job α} {s : State σ (Return α)} {i n : Nat} {bytes : List UInt8}
    {r : Option IsinIndex} (hspares : j.Spares σ key) (hs : OneLoader j.settings s)
    (hputs : PutsAccounted (nameKeys j.settings j.calls) s)
    (hread : ⟨i, .readScratch n, some bytes⟩ ∈ loadEvents i s.log)
    (hindex : Archive.readIndex bytes = .ok x) (hx : x.isEmpty = false)
    (hready : s.shared.index = .ready r) {e : Event} (he : e ∈ s.log) {k : String} {v : Json}
    (hop : e.op = .keep k v) (hplace : place σ key = place σ k) : v = IsinIndex.toJson x := by
  obtain ⟨hr, hothers⟩ := hs.loads_of_mem hready hread
  cases hputs e he k v hop with
  | inl hload =>
    have hcaller : i = e.caller := by
      by_contra hne
      rw [hothers _ hne] at hload
      cases hload
    have hmem := mem_puts_of_keep (hcaller ▸ hload) hop
    rw [(hr.of_read hread hindex hx).2] at hmem
    obtain ⟨key', -, heq⟩ := Option.map_eq_some_iff.1 (Option.mem_toList.1 hmem)
    cases heq
    rfl
  | inr hname =>
    obtain ⟨call, hcall, hname⟩ := Option.bind_eq_some_iff.1 hname
    exact absurd hplace (hspares.names call (List.mem_of_getElem? hcall) k hname)

variable [Scalar α]

theorem Loyal.start {o : σ} {j : Job α} {shared : Shared} (hx : x.isEmpty = false)
    (hspares : j.Spares σ key) (hshared : Shared.ofSettings? j.settings none = some shared)
    (ho : Endures key (IsinIndex.toJson x) o) :
    Loyal key x o (j, .start j.dialogues shared o) := by
  refine ⟨⟨ho, fun _ => ⟨fun r hr => ?_, nofun⟩⟩, ?_⟩
  · cases (Shared.ofSettings_index hshared).symm.trans hr
  · apply calls_follow
    intro i call hcall
    have hkeeps : (call.dialogue j.settings).Keeps (sparingContract σ j.settings key x)
        (fun r _ => j.settings.indexKey = some key → call.Gives x r) () :=
      call.spares hx hspares.index (hspares.names call (List.mem_of_getElem? hcall))
    refine hkeeps.mono fun r g hr hkey call' hcall' => ?_
    cases hcall.symm.trans hcall'
    exact hr hkey

theorem Later.kept {j : Job α} {first s : State σ (Return α)}
    {rs : List (Job α × State σ (Return α))} {o : σ} (hx : x.isEmpty = false)
    (hspares : j.Spares σ key) (hfirst : Settled j first)
    (hendures : Endures key (IsinIndex.toJson x) first.outside) (h : Later key first s rs o) :
    Endures key (IsinIndex.toJson x) o ∧ Settled j s ∧ ∀ e ∈ rs, Loyal key x o e := by
  -- whoever makes a step keeps the entry, and for all others the store is one that still has it
  induction h with
  | now => exact ⟨hendures, hfirst, nofun⟩
  | @goOn s t rs o _ hstep ih =>
    obtain ⟨ho, hs, hrs⟩ := ih
    obtain ⟨ht, hp⟩ := Settled.step (s := { s with outside := o }) hs hspares ho hstep
    exact ⟨hp, ht, fun e he => (hrs e he).of_endures hp⟩
  | make _ hspares' hshared ih =>
    obtain ⟨ho, hs, hrs⟩ := ih
    exact ⟨ho, hs, List.forall_mem_cons.2 ⟨.start hx hspares' hshared ho, hrs⟩⟩
  | step _ hk hstep ih =>
    obtain ⟨ho, hs, hrs⟩ := ih
    obtain ⟨hp, ht⟩ := (hrs _ (List.mem_of_getElem? hk)).step hstep
    refine ⟨hp, hs, fun e he => ?_⟩
    cases List.mem_or_eq_of_mem_set he with
    | inl he => exact (hrs e he).of_endures hp
    | inr he => exact he ▸ ht

theorem endures_of_built {j : Job α} {shared : Shared} {outside : σ} {s : State σ (Return α)}
    {i n : Nat} {bytes : List UInt8} {r : Option IsinIndex}
    (hkey : j.settings.indexKey = some key) (hspares : j.Spares σ key)
    (hdurable : Durable key outside) (hshared : Shared.ofSettings? j.settings none = some shared)
    (hrun : Run (.cached σ) (.start j.dialogues shared outside) s)
    (hread : ⟨i, .readScratch n, some bytes⟩ ∈ loadEvents i s.log)
    (hindex : Archive.readIndex bytes = .ok x) (hx : x.isEmpty = false)
    (hready : s.shared.index = .ready r) :
    Settled j s ∧ Endures key (IsinIndex.toJson x) s.outside := by
  obtain ⟨⟨hs, hputs⟩, hf⟩ := oneLoader_of_run hshared hrun
  refine ⟨⟨⟨⟨hs, hputs⟩, hf⟩, r, hready⟩, ?_⟩
  have hput := ((hs.loads_of_mem hready hread).1.of_read hread hindex hx).2
  rw [hkey] at hput
  have hmem : (key, IsinIndex.toJson x) ∈ puts (loadEvents i s.log) := by
    rw [hput]
    exact List.mem_singleton_self _
  obtain ⟨e, he, hop⟩ := exists_keep_of_mem_puts hmem
  exact hrun.endures hdurable x.isTexts_toJson
    (fun d hd k v hkeep hplace =>
      hs.eq_of_keep hspares hputs hread hindex hx hready hd hkeep hplace)
    rfl (loadEvents_subset _ _ he) hop

theorem Later.run {first s : State σ (Return α)} {rs : List (Job α × State σ (Return α))} {o : σ}
    {j : Job α} {t u : State σ (Return α)} (h : Later key first s ((j, t) :: rs) o)
    (ho : t.outside = o) (hrun : Run (.cached σ) t u) :
    Later key first s ((j, u) :: rs) u.outside := by
  induction hrun with
  | refl => exact ho ▸ h
  | tail _ hstep ih => exact ih.step (k := 0) rfl hstep

/-- Over a store that never fails at the key of the index and in which nothing expires. If a load
has built an index that is not empty, every later resolver with this key has this very index,
whatever its characters, and never sends for metadata or archive, whatever the registry would answer
now; and each that is made at some time can come to its end so. -/
theorem index_survives_restart {j : Job α} {shared : Shared} {outside : σ}
    {s t : State σ (Return α)} {i n : Nat} {bytes : List UInt8} {r : Option IsinIndex}
    {rs : List (Job α × State σ (Return α))} {o : σ}
    (hkey : j.settings.indexKey = some key) (hspares : j.Spares σ key)
    (hdurable : Durable key outside) (hshared : Shared.ofSettings? j.settings none = some shared)
    (hrun : Run (.cached σ) (.start j.dialogues shared outside) s)
    (hread : ⟨i, .readScratch n, some bytes⟩ ∈ loadEvents i s.log)
    (hindex : Archive.readIndex bytes = .ok x) (hx : x.isEmpty = false)
    (hready : s.shared.index = .ready r) (hlater : Later key s t rs o) :
    (∀ e ∈ rs, e.1.settings.indexKey = some key → Obtains x e.1.calls e.2) ∧
    ∀ (j' : Job α) (shared' : Shared), j'.settings.indexKey = some key → j'.Spares σ key →
      Shared.ofSettings? j'.settings none = some shared' →
      ∃ u, Run (.cached σ) (.start j'.dialogues shared' o) u ∧ u.Finished ∧ Obtains x j'.calls u ∧
        ∀ k call, j'.calls[k]? = some call → ∃ b, u.result? k = some b ∧ call.Gives x b := by
  obtain ⟨hsettled, hendures⟩ :=
    endures_of_built hkey hspares hdurable hshared hrun hread hindex hx hready
  constructor
  · intro e he hkey'
    exact ((hlater.kept hx hspares hsettled hendures).2.2 e he).obtains hkey'
  · intro j' shared' hkey' hspares' hshared'
    have hslots : 0 < j'.settings.slots := Nat.lt_of_lt_of_le Nat.one_pos (Nat.le_max_right _ _)
    have hnow : Run (.cached σ) (State.start j'.dialogues shared' o)
        (State.start j'.dialogues shared' o) := .refl
    obtain ⟨u, hrun', hfinished⟩ := (Shared.AtRest.ofSettings hshared').completes hslots
      Surroundings.cached_responsive hnow
    have hlater' := (hlater.make hspares' hshared').run rfl hrun'
    have hobtains := ((hlater'.kept hx hspares hsettled hendures).2.2 _ List.mem_cons_self).obtains
      hkey'
    refine ⟨u, hrun', hfinished, hobtains, fun k call hcall => ?_⟩
    have hk : k < u.calls.length := by
      rw [hrun'.length_calls]
      simpa [State.start, Job.dialogues] using (List.getElem?_eq_some_iff.1 hcall).1
    obtain ⟨b, hb⟩ := hfinished.result hk
    exact ⟨b, hb, hobtains.results k call b hcall hb⟩

end

def linkReply : Registry.Reply := ⟨200, Text.utf8
  "\x7b\"data\": \x7b\"attributes\": \x7b\"downloadLink\": \"https://mapping/1\"\x7d\x7d\x7d"⟩

/-- A file with the rows `ISIN,LEI` and `US0378331005,"É""\"`. -/
def quotedArchive : List UInt8 :=
  [0x50, 0x4B, 0x03, 0x04, 0x14, 0, 0, 0, 0, 0, 0, 0, 0x21, 0, 0x12, 0x72, 0xE3, 0x3A, 0x1E, 0, 0,
   0, 0x1E, 0, 0, 0, 0x05, 0, 0, 0, 0x61, 0x2E, 0x63, 0x73, 0x76, 0x49, 0x53, 0x49, 0x4E, 0x2C,
   0x4C, 0x45, 0x49, 0x0A, 0x55, 0x53, 0x30, 0x33, 0x37, 0x38, 0x33, 0x33, 0x31, 0x30, 0x30, 0x35,
   0x2C, 0x22, 0xC3, 0x89, 0x22, 0x22, 0x5C, 0x22, 0x0A, 0x50, 0x4B, 0x01, 0x02, 0x14, 0x03, 0x14,
   0, 0, 0, 0, 0, 0, 0, 0x21, 0, 0x12, 0x72, 0xE3, 0x3A, 0x1E, 0, 0, 0, 0x1E, 0, 0, 0, 0x05, 0, 0,
   0, 0, 0, 0, 0, 0, 0, 0, 0, 0x80, 0x01, 0, 0, 0, 0, 0x61, 0x2E, 0x63, 0x73, 0x76, 0x50, 0x4B,
   0x05, 0x06, 0, 0, 0, 0, 0x01, 0, 0x01, 0, 0x33, 0, 0, 0, 0x41, 0, 0, 0, 0, 0]

def quotedDelivery : Delivery where
  reply := linkReply
  link := "https://mapping/1"
  archive := quotedArchive
  index := ⟨[("US0378331005", "É\"\\")], by decide⟩
  success := rfl
  linked := ⟨⟨none, none, none, some "https://mapping/1"⟩, by decide +kernel, rfl⟩
  read := by decide +kernel
  nonempty := rfl

def indexJob : Job Rat := ⟨.default, [.index]⟩

theorem indexJob_spares : indexJob.Spares Directory "gleif" where
  index := by
    rintro k ⟨⟩ -
    rfl
  names := by
    rintro call hcall k hk
    cases List.mem_singleton.1 hcall
    cases hk

theorem index_survives_restart_quoted : ∃ s u : State Directory (Return Rat),
    Run (.cached Directory) (.start indexJob.dialogues ⟨⟨1, [], []⟩, .unclaimed, [], 0⟩
      ⟨.absent, none⟩) s ∧
    s.result? 0 = some (.index (some quotedDelivery.index)) ∧
    Run (.cached Directory) (.start indexJob.dialogues ⟨⟨1, [], []⟩, .unclaimed, [], 0⟩
      s.outside) u ∧
    u.result? 0 = some (.index (some quotedDelivery.index)) ∧
    ∀ op ∈ u.asked, op.isMetadata = false ∧ op.isDownload = false := by
  have hdurable : Durable "gleif" (⟨.absent, none⟩ : Directory) :=
    ⟨⟨fun _ => none, rfl, by simp⟩, rfl⟩
  have hshared : Shared.ofSettings? indexJob.settings none =
      some ⟨⟨1, [], []⟩, .unclaimed, [], 0⟩ := rfl
  have hget : Cache.Store.get newYear "gleif" (⟨.absent, none⟩ : Directory) =
      (.ok none, ⟨.absent, none⟩) := rfl
  obtain ⟨s, hrun, hread, hready, hs⟩ :=
    quotedDelivery.exists_run (s := indexJob.settings) rfl (by decide) hget ⟨1, [], []⟩
  obtain ⟨-, hafter⟩ := index_survives_restart rfl indexJob_spares hdurable hshared hrun hread
    quotedDelivery.read quotedDelivery.nonempty hready .now
  obtain ⟨u, hu, -, hobtains, hresults⟩ := hafter indexJob _ rfl indexJob_spares hshared
  obtain ⟨r, hr, hgives⟩ := hresults 0 .index rfl
  cases r with
  | index r =>
    cases hgives
    exact ⟨s, u, hrun, hs, hu, hr, hobtains.unsent⟩
  | resolved | explained => cases hgives

end LegalEntity.Resolver
