import LegalEntity.Proofs.Index.AllOrNothing
import LegalEntity.Proofs.Index.Sparing
import LegalEntity.Proofs.Runs.Path

namespace LegalEntity.Resolver

structure Delivery where
  reply : Registry.Reply
  link : String
  archive : List UInt8
  index : IsinIndex
  success : Retry.isSuccess reply.status = true
  linked : ∃ m, Registry.metadata? reply = some m ∧ m.downloadLink = some link
  read : Archive.readIndex archive = .ok index
  nonempty : index.isEmpty = false

def keepBuilt (s : Settings α) : Except Error IsinIndex → Dialogue (Option IsinIndex)
  | .error _ => .done none
  | .ok x =>
    match nonEmptyIndex x, s.indexKey with
    | none, _ => .done none
    | some x, none => .done (some x)
    | some x, some key => .ask (.keep key (IsinIndex.toJson x)) fun _ => .done (some x)

theorem loadIndex_eq (s : Settings α) : loadIndex s = (cachedIndex s).bind fun
    | some x => .done (some x)
    | none => (buildIndex s).bind (keepBuilt s) := rfl

theorem cachedIndex_eq {s : Settings α} {key : String} (hkey : s.indexKey = some key) :
    cachedIndex s = .ask (.lookUp key) fun a =>
      .done ((Cache.decoded? IsinIndex.ofDocument? a).bind nonEmptyIndex) := by
  simp only [cachedIndex, hkey]
  rfl

namespace Delivery

section

variable {α : Type} {s : Settings α} {i : Nat} {key : String}
  {a : Except Cache.Error (Option Json)} {b : Except Cache.Error Unit}

def requests (d : Delivery) (s : Settings α) (i : Nat) : List Event :=
  [⟨i, .closeScratch 0, ()⟩, ⟨i, .readScratch 0, some d.archive⟩, ⟨i, .download d.link 0, .ok ()⟩,
    ⟨i, .openScratch, .ok 0⟩, ⟨i, .fetch s.mappingUrl [], .ok d.reply⟩]

def events (d : Delivery) (s : Settings α) (i : Nat) (key : String)
    (a : Except Cache.Error (Option Json)) (b : Except Cache.Error Unit) : List Event :=
  ⟨i, .publishIndex (some d.index), ()⟩ :: ⟨i, .keep key (IsinIndex.toJson d.index), b⟩ ::
    d.requests s i ++ [⟨i, .lookUp key, a⟩, ⟨i, .claimIndex, .load⟩]

theorem buildIndex_path (d : Delivery) (s : Settings α) (i : Nat) :
    (buildIndex s).Path i (d.requests s i) (.done (.ok d.index)) := by
  obtain ⟨m, hmetadata, hlink⟩ := d.linked
  have hfetch : (fetchMetadata s).Path i [⟨i, .fetch s.mappingUrl [], .ok d.reply⟩]
      (.done (.ok m)) := by
    have hreply := (Dialogue.Path.start (i := i) (t := fetchMetadata s)).answer (.ok d.reply)
    simpa [d.success, hmetadata] using hreply
  have hnext : (buildIndex s).Path i _ _ := hfetch.bind _
  simp only [Dialogue.done_bind, hlink] at hnext
  have hopen := (Dialogue.Path.start (i := i) (t := downloadIndex d.link)).answer (.ok 0)
  have hread := (hopen.answer (.ok ())).answer (some d.archive)
  have hclose := hread.answer ()
  rw [← d.read]
  exact hnext.trans hclose

theorem loadIndex_path (d : Delivery) (hkey : s.indexKey = some key)
    (hmiss : (Cache.decoded? IsinIndex.ofDocument? a).bind nonEmptyIndex = none) :
    (loadIndex s).Path i (⟨i, .keep key (IsinIndex.toJson d.index), b⟩ :: d.requests s i ++
      [⟨i, .lookUp key, a⟩]) (.done (some d.index)) := by
  have hlookUp := (Dialogue.Path.start (i := i) (t := .ask (.lookUp key) fun a =>
    .done ((Cache.decoded? IsinIndex.ofDocument? a).bind nonEmptyIndex))).answer a
  rw [hmiss, ← cachedIndex_eq hkey] at hlookUp
  have hmissed := hlookUp.bind fun
    | some x => .done (some x)
    | none => (buildIndex s).bind (keepBuilt s)
  have hbuilt := (d.buildIndex_path s i).bind (keepBuilt s)
  rw [Dialogue.done_bind, keepBuilt, nonEmptyIndex_of_not_isEmpty d.nonempty, hkey] at hbuilt
  have hkept := hbuilt.answer b
  rw [loadIndex_eq]
  exact hmissed.trans hkept

theorem theIndex_path (d : Delivery) (hkey : s.indexKey = some key)
    (hmiss : (Cache.decoded? IsinIndex.ofDocument? a).bind nonEmptyIndex = none) :
    (theIndex s).Path i (d.events s i key a b) (.done (some d.index)) := by
  have hclaim := (Dialogue.Path.start (i := i) (t := theIndex s)).answer .load
  have hload := (d.loadIndex_path (i := i) (b := b) hkey hmiss).bind fun r =>
    (Dialogue.perform (.publishIndex r)).bind fun _ => .done r
  exact hclaim.trans (hload.answer ())

theorem allowed {σ : Type} [Cache.Store σ] {o p q : σ} {m n : Cache.Moment} (d : Delivery)
    (s : Settings α) (i : Nat) (hm : m.now.IsUtc) (hn : n.now.IsUtc)
    (hget : Cache.Store.get m key o = (a, p))
    (hput : Cache.Store.put n key (IsinIndex.toJson d.index) p = (b, q)) (gate : Gate) :
    (Surroundings.cached σ).Allows i (d.events s i key a b)
      (⟨gate, .unclaimed, [], 0⟩, o) (⟨gate, .ready (some d.index), [], 1⟩, q) := by
  have hclaim : (Surroundings.cached σ).Allows i _ (⟨gate, .unclaimed, [], 0⟩, o)
      (⟨gate, .loading, [], 0⟩, o) := .serve .nil .claimIndex .load ⟨rfl, rfl⟩
  have hlookUp : (Surroundings.cached σ).Allows i _ _ (⟨gate, .loading, [], 0⟩, p) :=
    hclaim.serve (.lookUp key) a ⟨⟨m, hm, hget⟩, rfl⟩
  have hfetch : (Surroundings.cached σ).Allows i _ _ (⟨gate, .loading, [], 0⟩, p) :=
    hlookUp.serve (.fetch s.mappingUrl []) (.ok d.reply) ⟨rfl, rfl⟩
  have hopen : (Surroundings.cached σ).Allows i _ _ (⟨gate, .loading, [(0, none)], 1⟩, p) :=
    hfetch.serve .openScratch (.ok 0) ⟨.inl rfl, rfl⟩
  have hdownload : (Surroundings.cached σ).Allows i _ _
      (⟨gate, .loading, [(0, some d.archive)], 1⟩, p) :=
    hopen.serve (.download d.link 0) (.ok ()) ⟨some d.archive, rfl, rfl⟩
  have hread : (Surroundings.cached σ).Allows i _ _
      (⟨gate, .loading, [(0, some d.archive)], 1⟩, p) :=
    hdownload.serve (.readScratch 0) (some d.archive) ⟨rfl, rfl⟩
  have hclose : (Surroundings.cached σ).Allows i _ _ (⟨gate, .loading, [], 1⟩, p) :=
    hread.serve (.closeScratch 0) () ⟨rfl, rfl⟩
  have hkeep : (Surroundings.cached σ).Allows i _ _ (⟨gate, .loading, [], 1⟩, q) :=
    hclose.serve (.keep key (IsinIndex.toJson d.index)) b ⟨⟨n, hn, hput⟩, rfl⟩
  exact hkeep.serve (.publishIndex (some d.index)) () ⟨rfl, rfl⟩

theorem exists_run {σ : Type} [Cache.Store σ] {o p : σ} {m : Cache.Moment} (d : Delivery)
    (hkey : s.indexKey = some key) (hm : m.now.IsUtc)
    (hget : Cache.Store.get m key o = (.ok none, p)) (gate : Gate) :
    ∃ t : State σ (Return α), Run (.cached σ)
        (.start [.index <$> theIndex s] ⟨gate, .unclaimed, [], 0⟩ o) t ∧
      ⟨0, .readScratch 0, some d.archive⟩ ∈ loadEvents 0 t.log ∧
      t.shared.index = .ready (some d.index) ∧ t.result? 0 = some (.index (some d.index)) := by
  obtain ⟨b, q, hput⟩ : ∃ b q, Cache.Store.put m key (IsinIndex.toJson d.index) p = (b, q) :=
    ⟨_, _, rfl⟩
  have hpath := (d.theIndex_path (i := 0) (b := b) (a := .ok none) hkey rfl).bind fun r =>
    .done (Return.index (α := α) r)
  have hrun := hpath.run (d.allowed s 0 hm hm hget hput gate)
  exact ⟨_, hrun, .tail _ (.tail _ (.head _)), rfl, rfl⟩

end

end Delivery

end LegalEntity.Resolver
