import LegalEntity.Proofs.Index.OneLoad
import LegalEntity.Proofs.Runs.Cached

namespace LegalEntity.Resolver

open Cache (PlacedStore KeepingStore Endures)
open Cache.PlacedStore (part place)

def Call.Gives (x : IsinIndex) : Call → Return α → Prop
  | .index, .index r => r = some x
  | .resolve q, .resolved r => ∀ isin lei, q.canonicalIsin? = some isin → x.get? isin = some lei →
      r = .ok (q.identity lei .isinIndex)
  | .explain _, .explained _ => True
  | _, _ => False

def Op.Brings (key : String) (x : IsinIndex) : (op : Op) → op.Answer → Prop
  | .lookUp k, a => k = key → Cache.decoded? IsinIndex.ofDocument? a = some x
  | .claimIndex, .ready r => r = some x
  | _, _ => True

/-- A call keeps nothing at the place of a key. If its index is kept there, it does not send for it
and publishes no other. -/
def sparingContract (σ : Type) [Cache.Store σ] [PlacedStore σ] (s : Settings α) (key : String)
    (x : IsinIndex) : Contract Unit where
  start := ()
  allows _ op := (∀ k v, op = .keep k v → place σ key ≠ place σ k) ∧
    (s.indexKey = some key → op.isMetadata = false ∧ op.isDownload = false ∧
      ∀ r, op = .publishIndex r → r = some x)
  expects _ op a := s.indexKey = some key → op.Brings key x a
  next _ _ _ := ()

section

variable {σ α : Type} [Cache.Store σ] [PlacedStore σ] {s : Settings α} {key : String}
  {x : IsinIndex} {op : Op}

theorem loadIndex_spares (hkey : s.indexKey = some key) (hx : x.isEmpty = false) :
    (loadIndex s).Keeps (sparingContract σ s key x) (fun r _ => r = some x) () := by
  have hcached : (cachedIndex s).Keeps (sparingContract σ s key x) (fun r _ => r = some x) () := by
    simp only [cachedIndex, hkey]
    refine Dialogue.keeps_perform_bind.2 ⟨⟨nofun, fun _ => ⟨rfl, rfl, nofun⟩⟩, fun a ha => ?_⟩
    change (Cache.decoded? IsinIndex.ofDocument? a).bind nonEmptyIndex = some x
    rw [ha hkey rfl]
    exact nonEmptyIndex_of_not_isEmpty hx
  refine Dialogue.keeps_bind.2 (hcached.mono fun r g hr => ?_)
  subst hr
  rfl

theorem theIndex_spares (hkey : s.indexKey = some key) (hx : x.isEmpty = false) :
    (theIndex s).Keeps (sparingContract σ s key x) (fun r _ => r = some x) () := by
  refine Dialogue.keeps_perform_bind.2 ⟨⟨nofun, fun _ => ⟨rfl, rfl, nofun⟩⟩, fun turn hturn => ?_⟩
  cases turn with
  | ready r => exact hturn hkey
  | load =>
    refine Dialogue.keeps_bind.2 ((loadIndex_spares hkey hx).mono fun r g hr => ?_)
    subst hr
    exact ⟨⟨nofun, fun _ => ⟨rfl, rfl, fun r hr => (Op.publishIndex.inj hr).symm⟩⟩, fun _ _ => rfl⟩

theorem byIsin_spares (hkey : s.indexKey = some key) (hx : x.isEmpty = false) (q : Query) :
    (byIsin s q).Keeps (sparingContract σ s key x)
      (fun r _ => ∀ isin lei, q.canonicalIsin? = some isin → x.get? isin = some lei →
        r = some (q.identity lei .isinIndex)) () := by
  unfold byIsin
  cases hisin : q.canonicalIsin? with
  | none => exact nofun
  | some isin =>
    refine Dialogue.keeps_bind.2 ((theIndex_spares hkey hx).mono fun r g hr => ?_)
    subst hr
    rintro isin' lei ⟨⟩ hlei
    simp [hlei]

theorem sparing_of_ofName {k : String} (hk : place σ key ≠ place σ k)
    (h : op.ofName k ∨ op.ofGate = true) : (sparingContract σ s key x).allows () op := by
  have hquiet : op.ofIndex = false := h.elim Op.ofIndex_of_ofName Op.ofIndex_of_ofGate
  refine ⟨?_, fun _ => ⟨Op.isMetadata_of_ofIndex hquiet, Op.isDownload_of_ofIndex hquiet, ?_⟩⟩
  · rintro k' v rfl
    rcases h with (h | h | ⟨_, h⟩) | h <;> cases h
    exact hk
  · rintro r rfl
    cases hquiet

theorem sparing_of_getsIndex (hne : s.indexKey ≠ some key)
    (hspares : ∀ k ∈ s.indexKey, place σ key = place σ k → k = key) (h : op.getsIndex s) :
    (sparingContract σ s key x).allows () op := by
  refine ⟨?_, fun hkey => absurd hkey hne⟩
  rintro k v rfl hplace
  rcases h with h | ⟨k', hk', h | ⟨u, h⟩⟩
  · cases h
  · cases h
  · cases h
    exact hne (hspares k hk' hplace ▸ hk')

theorem theIndex_spares_of_ne (hne : s.indexKey ≠ some key)
    (hspares : ∀ k ∈ s.indexKey, place σ key = place σ k → k = key) :
    (theIndex s).Keeps (sparingContract σ s key x) (fun _ _ => True) () :=
  theIndex_asks.keeps (fun _ h => ⟨sparing_of_getsIndex hne hspares h, fun _ => rfl⟩)
    fun _ => trivial

variable [Scalar α]

theorem byName_spares (q : Query) (hname : place σ key ≠ place σ (Cache.nameKey s.nameSpace q.name)) :
    (byName s q).Keeps (sparingContract σ s key x) (fun _ _ => True) () :=
  (byName_asks q).keeps (fun _ h => ⟨sparing_of_ofName hname h, fun _ => rfl⟩) fun _ => trivial

theorem explain_spares (name : String) :
    (explain s name).Keeps (sparingContract σ s key x) (fun _ _ => True) () := by
  refine (explain_asks name).keeps (fun op h => ⟨⟨?_, fun _ => ?_⟩, fun _ => rfl⟩) fun _ => trivial
  · rintro k v rfl
    rcases h with h | h <;> cases h
  · have hquiet : op.ofIndex = false :=
      h.elim (fun h => by simp [Op.ofIndex, h]) Op.ofIndex_of_ofGate
    refine ⟨Op.isMetadata_of_ofIndex hquiet, Op.isDownload_of_ofIndex hquiet, ?_⟩
    rintro r rfl
    cases hquiet

theorem Call.spares (hx : x.isEmpty = false) (call : Call)
    (hspares : ∀ k ∈ s.indexKey, place σ key = place σ k → k = key)
    (hname : ∀ k ∈ call.nameKey? s, place σ key ≠ place σ k) :
    (call.dialogue s).Keeps (sparingContract σ s key x)
      (fun r _ => s.indexKey = some key → call.Gives x r) () := by
  by_cases hkey : s.indexKey = some key
  · cases call with
    | resolve q =>
      refine Dialogue.keeps_bind.2 (Dialogue.keeps_bind.2 ((byIsin_spares hkey hx q).mono ?_))
      intro r g hr
      cases r with
      | some y =>
        intro _ isin lei hisin hlei
        cases hr isin lei hisin hlei
        rfl
      | none =>
        refine (byName_spares q (hname _ rfl)).mono fun r g _ _ isin lei hisin hlei => ?_
        cases hr isin lei hisin hlei
    | index => exact Dialogue.keeps_bind.2 ((theIndex_spares hkey hx).mono fun r g hr _ => hr)
    | explain name => exact Dialogue.keeps_bind.2 ((explain_spares name).mono fun _ _ _ _ => trivial)
  · cases call with
    | resolve q =>
      have hisin : (byIsin s q).Keeps (sparingContract σ s key x) (fun _ _ => True) () :=
        (byIsin_asks q).keeps (fun _ h => ⟨sparing_of_getsIndex hkey hspares h, fun _ => rfl⟩)
          fun _ => trivial
      refine Dialogue.keeps_bind.2 (Dialogue.keeps_bind.2 (hisin.mono fun r g _ => ?_))
      cases r with
      | some y => exact fun h => absurd h hkey
      | none => exact (byName_spares q (hname _ rfl)).mono fun _ _ _ h => absurd h hkey
    | index =>
      exact Dialogue.keeps_bind.2 ((theIndex_spares_of_ne hkey hspares).mono
        fun _ _ _ h => absurd h hkey)
    | explain name =>
      exact Dialogue.keeps_bind.2 ((explain_spares name).mono fun _ _ _ h => absurd h hkey)

end

section

variable {σ α : Type} [Cache.Store σ] [KeepingStore σ] {key : String} {x : IsinIndex}

def Holding (settings : Settings α) (key : String) (x : IsinIndex) (s : State σ β) : Prop :=
  Endures key (IsinIndex.toJson x) s.outside ∧
    (settings.indexKey = some key → (∀ r, s.shared.index = .ready r → r = some x) ∧
      ∀ e ∈ s.log, e.op.isMetadata = false ∧ e.op.isDownload = false)

theorem Holding.invariant {settings : Settings α} {post : Nat → β → Unit → Prop} :
    Invariant (.cached σ) (fun _ => sparingContract σ settings key x) post
      (Holding settings key x) where
  answer {s i op next a shared outside} hs hf hi hw := by
    obtain ⟨hendures, hmine⟩ := hs
    obtain ⟨hkeep, hquiet⟩ := hf.allows ⟨next, hi⟩
    refine ⟨fun hkey => ?_, ?_, fun hkey => ⟨fun r hr => ?_, ?_⟩⟩
    · cases op with
      | lookUp k =>
        rintro rfl
        rw [hw.reads_entry hendures]
        exact IsinIndex.ofDocument?_toJson x
      | claimIndex =>
        rcases hw.claimIndex with ⟨-, rfl, -⟩ | ⟨r, hcell, rfl, -⟩
        · trivial
        · exact (hmine hkey).1 r hcell
      | _ => trivial
    · exact hw.endures hendures x.isTexts_toJson fun k u hop hplace => absurd hplace (hkeep k u hop)
    · cases op with
      | claimIndex =>
        rcases hw.claimIndex with ⟨-, -, hcell⟩ | ⟨r', hcell, -, hcell'⟩
        · cases hcell.symm.trans hr
        · cases hcell'.symm.trans hr
          exact (hmine hkey).1 r hcell
      | publishIndex r' =>
        cases hw.publishIndex.symm.trans hr
        exact (hquiet hkey).2.2 r rfl
      | _ => exact (hmine hkey).1 r ((hw.index_eq nofun nofun).symm.trans hr)
    · obtain ⟨hmetadata, hdownload, -⟩ := hquiet hkey
      exact List.forall_mem_cons.2 ⟨⟨hmetadata, hdownload⟩, (hmine hkey).2⟩
  wait {s i op next shared} hs hf hi hb := by
    refine ⟨hs.1, fun hkey => ⟨fun r hr => ?_, (hs.2 hkey).2⟩⟩
    exact (hs.2 hkey).1 r ((Shared.index_of_blocked hb).symm.trans hr)

end

end LegalEntity.Resolver
