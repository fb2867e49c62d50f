import LegalEntity.Proofs.Names.Writes
import LegalEntity.Proofs.Runs.Beside
import Mathlib.Data.List.TakeWhile
import Mathlib.Data.Set.Function

namespace LegalEntity.Cache

theorem nameSpace_of_nameKey {a b m n : String} (ha : ':' ∉ a.toList) (hb : ':' ∉ b.toList)
    (h : nameKey a m = nameKey b n) : a = b := by
  have front (c l : String) (hc : ':' ∉ c.toList) :
      (nameKey c l).toList.takeWhile (· != ':') = c.toList := by
    have hplain : ∀ x ∈ c.toList, (x != ':') = true := fun x hx => by
      rw [bne_iff_ne]
      rintro rfl
      exact hc hx
    simp only [nameKey, String.toList_append, List.append_assoc]
    rw [List.takeWhile_append_of_pos hplain]
    exact List.append_nil _
  apply String.toList_inj.1
  rw [← front a m ha, h, front b n hb]

end LegalEntity.Cache

namespace LegalEntity.Resolver

open Cache (PlacedStore nameKey)
open Cache.PlacedStore (part place)

def Call.keys (s : Settings α) : Call → List String
  | .resolve q => nameKey s.nameSpace q.name :: s.indexKey.toList
  | .index => s.indexKey.toList
  | .explain _ => []

section

variable {α : Type} {s : Settings α} {op : Op} {k : String}

theorem Op.key_of_getsIndex (h : op.getsIndex s) (hk : k ∈ op.cacheKey?) : s.indexKey = some k := by
  rcases h with h | ⟨key, hkey, rfl | ⟨v, rfl⟩⟩
  · cases op with
    | lookUp | keep => cases h
    | _ => cases hk
  · cases hk
    exact hkey
  · cases hk
    exact hkey

theorem Op.cacheKey_of_ofSearch (h : op.ofSearch = true ∨ op.ofGate = true) :
    op.cacheKey? = none := by
  cases op with
  | lookUp | keep => rcases h with h | h <;> cases h
  | _ => rfl

theorem Op.key_of_ofName {key : String} (h : op.ofName key ∨ op.ofGate = true)
    (hk : k ∈ op.cacheKey?) : k = key := by
  rcases h with (h | rfl | ⟨v, rfl⟩) | h
  · rw [Op.cacheKey_of_ofSearch (.inl h)] at hk
    cases hk
  · cases hk
    rfl
  · cases hk
    rfl
  · rw [Op.cacheKey_of_ofSearch (.inr h)] at hk
    cases hk

variable [Scalar α]

theorem Call.asks_keys (call : Call) :
    (call.dialogue s).Asks fun op => ∀ k ∈ op.cacheKey?, k ∈ call.keys s := by
  cases call with
  | resolve q =>
    have hindex : (byIsin s q).Asks fun op => ∀ k ∈ op.cacheKey?, k ∈ (Call.resolve q).keys s :=
      (byIsin_asks q).mono fun op h k hk =>
        List.mem_cons_of_mem _ (Option.mem_toList.2 (Op.key_of_getsIndex h hk))
    have hname : (byName s q).Asks fun op => ∀ k ∈ op.cacheKey?, k ∈ (Call.resolve q).keys s :=
      (byName_asks q).mono fun op h k hk => Op.key_of_ofName h hk ▸ List.mem_cons_self
    refine (hindex.bind fun r => ?_).bind fun _ => trivial
    cases r with
    | some identity => trivial
    | none => exact hname
  | index =>
    refine (theIndex_asks.mono fun op h k hk => ?_).bind fun _ => trivial
    exact Option.mem_toList.2 (Op.key_of_getsIndex h hk)
  | explain name =>
    refine ((explain_asks name).mono fun op h k hk => ?_).bind fun _ => trivial
    rw [Op.cacheKey_of_ofSearch h] at hk
    cases hk

theorem Call.explain_asks_no_key (name : String) :
    ((Call.explain name).dialogue s).Asks (·.ofCache = false) := by
  refine (Call.explain name).asks_keys.mono fun op h => ?_
  cases op with
  | lookUp key => cases h key rfl
  | keep key => cases h key rfl
  | _ => rfl

end

namespace Job

variable {α : Type}

def start {σ : Type} [Scalar α] (j : Job α) (shared : Shared) (o : σ) : State σ (Return α) :=
  .start j.dialogues shared o

def Uses (j : Job α) (key : String) : Prop := ∃ call ∈ j.calls, key ∈ call.keys j.settings

def IsName (j : Job α) (key : String) : Prop :=
  ∃ call ∈ j.calls, call.nameKey? j.settings = some key

/-- The name spaces are different words, no index is kept among the names of the second resolver,
and no two keys that are used have the same place. -/
structure Apart (σ : Type) [Cache.Store σ] [PlacedStore σ] (j k : Job α) : Prop where
  plain : ':' ∉ j.settings.nameSpace.toList ∧ ':' ∉ k.settings.nameSpace.toList
  nameSpace : j.settings.nameSpace ≠ k.settings.nameSpace
  index : ∀ key, j.settings.indexKey = some key ∨ k.settings.indexKey = some key →
    ∀ name, key ≠ nameKey k.settings.nameSpace name
  places : Set.InjOn (place σ) {key | j.Uses key ∨ k.Uses key}

end Job

section

variable {σ α : Type} {j k : Job α} {shared : Shared} {o : σ}

theorem Job.IsName.exists {key : String} (h : k.IsName key) :
    k.Uses key ∧ ∃ name, key = nameKey k.settings.nameSpace name := by
  obtain ⟨call, hcall, hname⟩ := h
  cases call with
  | resolve q =>
    cases hname
    exact ⟨⟨_, hcall, List.mem_cons_self⟩, q.name, rfl⟩
  | index | explain => cases hname

theorem Job.asks_keys [Scalar α] (j : Job α) :
    (j.start shared o).AllAsk fun op => ∀ k ∈ op.cacheKey?, j.Uses k := by
  intro t ht
  obtain ⟨call, hcall, rfl⟩ := List.mem_map.1 ht
  exact call.asks_keys.mono fun op h k hk => ⟨call, hcall, h k hk⟩

variable [Cache.Store σ] [PlacedStore σ]

theorem Job.Apart.ne_of_uses (h : j.Apart σ k) {key name : String} (hkey : j.Uses key)
    (hname : k.IsName name) : name ≠ key := by
  rintro rfl
  obtain ⟨-, l, rfl⟩ := hname.exists
  obtain ⟨call, hcall, hmem⟩ := hkey
  have hindex (hmem : nameKey k.settings.nameSpace l ∈ j.settings.indexKey.toList) : False :=
    h.index _ (.inl (Option.mem_toList.1 hmem)) l rfl
  cases call with
  | resolve q =>
    cases List.mem_cons.1 hmem with
    | inl heq => exact h.nameSpace (Cache.nameSpace_of_nameKey h.plain.2 h.plain.1 heq).symm
    | inr hmem => exact hindex hmem
  | index => exact hindex hmem
  | explain => cases hmem

variable [Scalar α]

theorem Job.Apart.first (h : j.Apart σ k) :
    (j.start shared o).AllAsk (·.Elsewhere σ k.IsName) := by
  intro t ht
  refine (j.asks_keys t ht).mono fun op hop key hkey name hname hplace => ?_
  exact h.ne_of_uses (hop key hkey) hname
    (h.places (.inr hname.exists.1) (.inl (hop key hkey)) hplace)

theorem Job.Apart.second (h : j.Apart σ k) : (k.start shared o).AllAsk fun op =>
    (∀ key ∈ op.cacheKey?, k.IsName key) ∨
      (∀ key ∈ op.cacheKey?, ¬k.IsName key) ∧ op.Elsewhere σ k.IsName := by
  intro t ht
  refine (k.asks_keys t ht).mono fun op hop => ?_
  cases hkey : op.cacheKey? with
  | none => exact .inl nofun
  | some key =>
    by_cases hmine : k.IsName key
    · exact .inl fun key' hkey' => Option.some.inj hkey' ▸ hmine
    · refine .inr ⟨fun key' hkey' => Option.some.inj hkey' ▸ hmine, ?_⟩
      intro key' hkey' name hname hplace
      have huses := hop key' hkey'
      cases hkey.symm.trans hkey'
      exact hmine (h.places (.inr hname.exists.1) (.inr huses) hplace ▸ hname)

theorem Run.part_eq_of_unused {s : State σ (Return α)} {key : String}
    (hrun : Run (.cached σ) (j.start shared o) s)
    (hkey : ∀ k, j.Uses k → place σ key ≠ place σ k) : part key s.outside = part key o := by
  have hstart : (j.start shared o).AllAsk (·.Elsewhere σ (· = key)) := by
    intro t ht
    refine (j.asks_keys t ht).mono fun op hop k hk other hother => ?_
    cases hother
    exact hkey k (hop k hk)
  exact ((hrun.agree hstart).2 key rfl).symm

theorem Job.Apart.agree {s : State σ (Return α)} (h : j.Apart σ k)
    (hrun : Run (.cached σ) (j.start shared o) s) : Agree k.IsName o s.outside :=
  (hrun.agree h.first).2

theorem Agree.run_iff {p : σ} {shared' : Shared} (h : Agree k.IsName o p) (t : State σ (Return α)) :
    (∃ q, Run (.cachedUnder σ k.IsName) (k.start shared' p) { t with outside := q }) ↔
      ∃ q, Run (.cachedUnder σ k.IsName) (k.start shared' o) { t with outside := q } := by
  constructor
  · intro ⟨q, hrun⟩
    obtain ⟨q', hrun', -⟩ := hrun.of_agree h.symm
    exact ⟨q', hrun'⟩
  · intro ⟨q, hrun⟩
    obtain ⟨q', hrun', -⟩ := hrun.of_agree h
    exact ⟨q', hrun'⟩

/-- What a resolver does to a cache. In any run each of its queries writes at most an index that its
own load has built, under the key of the index, and then at most the outcome of a search of its own,
under the key of its name. No call uses any other key, and the search alone does not ask the cache
for anything. What a store holds under all other keys stays as it is. A second resolver with another
name space sees nothing of it: its runs after the first are those that it could have had before, and
one beside the first is one that it can have alone, told anything of its index. -/
theorem cache_kept_apart (j : Job α) (shared : Shared) :
    (∀ {τ : Type} {w : Surroundings τ} {o : τ} {s : State τ (Return α)},
      Run w (j.start shared o) s → ∀ i,
        (∀ q, j.calls[i]? = some (.resolve q) → ∃ name index, ownEvents i s.log = name ++ index ∧
          NameWrites j.settings q i name ∧ IndexWrites j.settings i index) ∧
        (∀ call, j.calls[i]? = some call →
          ∀ op ∈ s.askedBy i, ∀ key ∈ op.cacheKey?, key ∈ call.keys j.settings) ∧
        ∀ name, j.calls[i]? = some (.explain name) → ∀ op ∈ s.askedBy i, op.ofCache = false) ∧
    (∀ {o : σ} {s : State σ (Return α)}, Run (.cached σ) (j.start shared o) s →
      ∀ key, (∀ k, j.Uses k → place σ key ≠ place σ k) → part key s.outside = part key o) ∧
    ∀ (k : Job α) (shared' : Shared), j.Apart σ k →
      (∀ {o : σ} {s : State σ (Return α)}, Run (.cached σ) (j.start shared o) s →
        (∀ key, k.IsName key → ∀ m,
          (Cache.Store.get m key s.outside).1 = (Cache.Store.get m key o).1) ∧
        ∀ t : State σ (Return α),
          (∃ p, Run (.cachedUnder σ k.IsName) (k.start shared' s.outside) { t with outside := p }) ↔
            ∃ p, Run (.cachedUnder σ k.IsName) (k.start shared' o) { t with outside := p }) ∧
      ∀ {o : σ} {s t : State σ (Return α)} {p : σ},
        Beside (.cached σ) (j.start shared o) (k.start shared' o) o s t p →
          ∃ p', Run (.cachedUnder σ k.IsName) (k.start shared' o) { t with outside := p' } ∧
            ∀ key, k.IsName key → ∀ m,
              (Cache.Store.get m key p).1 = (Cache.Store.get m key p').1 := by
  refine ⟨fun {τ w o s} hrun i => ⟨fun q hq => ?_, fun call hcall => ?_, fun name hname => ?_⟩,
    fun {o s} hrun key hkey => ?_, fun k shared' hapart => ⟨fun {o s} hrun => ⟨?_, ?_⟩, ?_⟩⟩
  · exact hrun.resolve_writes hq
  · exact hrun.askedBy (j.getElem?_dialogues hcall) call.asks_keys
  · exact hrun.askedBy (j.getElem?_dialogues hname) (Call.explain_asks_no_key name)
  · exact hrun.part_eq_of_unused hkey
  · exact fun key hkey m => ((hapart.agree hrun).symm.get m hkey).1
  · exact (hapart.agree hrun).run_iff
  · intro o s t p hbeside
    obtain ⟨p', hrun, hagree⟩ := hbeside.alone hapart.first hapart.second
    exact ⟨p', hrun, fun key hkey m => (hagree.get m hkey).1⟩

end

def colonJob : Job Rat := ⟨{ Settings.default with nameSpace := "a" }, [.resolve (named "b:c")]⟩

def plainJob : Job Rat := ⟨{ Settings.default with nameSpace := "b" }, [.resolve (named "c")]⟩

theorem colonJob_apart : colonJob.Apart Cache.Memory plainJob where
  plain := ⟨by decide, by decide⟩
  nameSpace := by decide
  index := by
    intro key hkey name heq
    have hcolon : ':' ∈ key.toList := by simp [heq, nameKey]
    rcases hkey with hkey | hkey <;> cases hkey <;> revert hcolon <;> decide
  places := fun _ _ _ _ h => h

theorem cache_kept_apart_colon : ∃ s : State Cache.Memory (Return Rat),
    Run (.cached Cache.Memory) (colonJob.start ⟨⟨1, [], []⟩, .unclaimed, [], 0⟩ (.empty none)) s ∧
      (Cache.Store.get newYear (nameKey "a" "b:c") s.outside).1 =
        .ok (some NameOutcome.notFound.toJson) ∧
      (Cache.Store.get newYear (nameKey "b" "c") s.outside).1 = .ok none := by
  let keeps : Dialogue (Return Rat) :=
    .ask (.keep (nameKey "a" "b:c") NameOutcome.notFound.toJson) fun _ =>
      .ask .leave fun _ => .done (.resolved (answer (named "b:c") .registrySearch .notFound))
  obtain ⟨kept, hput⟩ : ∃ kept, Cache.Store.put newYear (nameKey "a" "b:c")
      NameOutcome.notFound.toJson (Cache.Memory.empty none) = (.ok (), kept) := ⟨_, rfl⟩
  have hrun : Run (.cached Cache.Memory)
      (colonJob.start ⟨⟨1, [], []⟩, .unclaimed, [], 0⟩ (.empty none)) _ :=
    .answer 0 rfl (.ok none) ⟨⟨newYear, by decide, rfl⟩, rfl⟩ <| .answer 0 rfl () ⟨rfl, rfl⟩ <|
    .answer 0 rfl (.ok none) ⟨⟨newYear, by decide, rfl⟩, rfl⟩ <| .answer 0 rfl (0 : UInt64) rfl <|
    .answer 0 rfl (.error .io) ⟨rfl, rfl⟩ <|
    .answer 0 (show _ = some keeps by with_unfolding_all rfl) (.ok ())
      ⟨⟨newYear, by decide, hput⟩, rfl⟩ <|
    .answer 0 rfl () ⟨rfl, rfl⟩ <| .refl
  obtain ⟨-, -, happart⟩ :=
    @cache_kept_apart Cache.Memory Rat _ _ _ colonJob ⟨⟨1, [], []⟩, .unclaimed, [], 0⟩
  obtain ⟨hafter, -⟩ := happart plainJob ⟨⟨1, [], []⟩, .unclaimed, [], 0⟩ colonJob_apart
  obtain ⟨hsame, -⟩ := hafter hrun
  refine ⟨_, hrun, ?_, ?_⟩
  · change (kept.get newYear (nameKey "a" "b:c")).1 = _
    cases hput
    simp [Cache.Memory.get, Cache.Memory.empty, Cache.isExpired]
  · exact hsame _ ⟨_, List.mem_singleton_self _, rfl⟩ newYear

end LegalEntity.Resolver
