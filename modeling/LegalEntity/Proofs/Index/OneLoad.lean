import LegalEntity.Proofs.Index.Knowledge
import LegalEntity.Proofs.Runs.Asked
import LegalEntity.Proofs.Runs.Served

namespace LegalEntity.Resolver

section

variable {σ α : Type} {w : Surroundings σ} {needs : Nat → Bool} {most i : Nat} {s t : State σ α}
  {op : Op} {next : op.Answer → Dialogue α} {a : op.Answer} {shared : Shared} {outside : σ}

def State.knowledge (needs : Nat → Bool) (s : State σ α) (i : Nat) : Knowledge :=
  (indexContract (needs i)).place i s.log

def IndexCell.Agrees (most : Nat) (know : Nat → Knowledge) (metadata archive : Nat) :
    IndexCell → Prop
  | .unclaimed => most = 1 ∧ (∀ i, know i = .nothing) ∧ metadata = 0 ∧ archive = 0
  | .loading => most = 1 ∧ ∃ i m a, know i = .loading m a ∧ (∀ j, i ≠ j → know j = .nothing) ∧
      metadata = m.toNat ∧ archive = a.toNat
  | .ready x => (∀ i, know i = .nothing ∨ know i = .told x) ∧ metadata ≤ most ∧ archive ≤ most

/-- The invariant of a resolver that may load its index so many times. -/
def OneLoad (needs : Nat → Bool) (most : Nat) (s : State σ α) : Prop :=
  s.shared.index.Agrees most (s.knowledge needs) (s.log.countP (·.op.isMetadata))
    (s.log.countP (·.op.isDownload))

theorem State.knowledge_goOn_self : (s.goOn i op next a shared outside).knowledge needs i =
    (indexContract (needs i)).next (s.knowledge needs i) op a :=
  Contract.place_cons_self ..

theorem State.knowledge_goOn_of_ne {j : Nat} (h : i ≠ j) :
    (s.goOn i op next a shared outside).knowledge needs j = s.knowledge needs j :=
  Contract.place_cons_of_ne _ h ..

theorem State.knowledge_goOn
    (h : (indexContract (needs i)).next (s.knowledge needs i) op a = s.knowledge needs i) :
    (s.goOn i op next a shared outside).knowledge needs = s.knowledge needs := by
  funext j
  by_cases hij : i = j
  · subst hij
    rw [State.knowledge_goOn_self, h]
  · rw [State.knowledge_goOn_of_ne hij]

theorem Op.isMetadata_of_ofIndex (h : op.ofIndex = false) : op.isMetadata = false := by
  cases op with
  | fetch url parameters =>
    cases parameters with
    | nil => cases h
    | cons p ps => rfl
  | _ => rfl

theorem Op.isDownload_of_ofIndex (h : op.ofIndex = false) : op.isDownload = false := by
  cases op with
  | download url scratch => cases h
  | _ => rfl

theorem OneLoad.quiet (hs : OneLoad needs most s) (hk : (s.knowledge needs i).isLoading = false)
    (hop : op.ofIndex = false) (hw : w.Serves i op a (s.shared, s.outside) (shared, outside)) :
    OneLoad needs most (s.goOn i op next a shared outside) := by
  have hindex : shared.index = s.shared.index := by
    refine hw.index_eq ?_ fun r => ?_ <;> rintro rfl <;> cases hop
  have hlog : ∀ p : Op → Bool, p op = false →
      (s.goOn i op next a shared outside).log.countP (p ·.op) = s.log.countP (p ·.op) := by
    intro p hp
    exact List.countP_cons_of_neg (by simp [hp])
  rw [OneLoad, State.knowledge_goOn ((indexContract_quiet hk hop).2 a),
    hlog _ (Op.isMetadata_of_ofIndex hop), hlog _ (Op.isDownload_of_ofIndex hop)]
  exact hindex ▸ hs

theorem OneLoad.claim {next : IndexTurn → Dialogue α} {turn : IndexTurn}
    (hs : OneLoad needs most s) (hk : s.knowledge needs i = .nothing)
    (hw : w.Serves i .claimIndex turn (s.shared, s.outside) (shared, outside)) :
    OneLoad needs most (s.goOn i .claimIndex next turn shared outside) := by
  have hself : (s.goOn i .claimIndex next turn shared outside).knowledge needs i =
      (indexContract (needs i)).next .nothing .claimIndex turn := by
    rw [State.knowledge_goOn_self, hk]
  rcases hw.claimIndex with ⟨hcell, rfl, hcell'⟩ | ⟨x, hcell, rfl, hcell'⟩
  · rw [OneLoad, hcell] at hs
    obtain ⟨hmost, hnothing, hm, ha⟩ := hs
    refine (congrArg (IndexCell.Agrees _ _ _ _) hcell').mpr ⟨hmost, i, false, false, hself, ?_, hm, ha⟩
    intro j hij
    rw [State.knowledge_goOn_of_ne hij, hnothing j]
  · rw [OneLoad, hcell] at hs
    obtain ⟨htold, hm, ha⟩ := hs
    refine (congrArg (IndexCell.Agrees _ _ _ _) hcell').mpr ⟨fun j => ?_, hm, ha⟩
    by_cases hij : i = j
    · subst hij
      exact .inr hself
    · rw [State.knowledge_goOn_of_ne hij]
      exact htold j

theorem OneLoad.of_loading {metadata archive : Bool} (hs : OneLoad needs most s)
    (hk : s.knowledge needs i = .loading metadata archive) :
    s.shared.index = .loading ∧ most = 1 ∧ (∀ j, i ≠ j → s.knowledge needs j = .nothing) ∧
      s.log.countP (·.op.isMetadata) = metadata.toNat ∧
      s.log.countP (·.op.isDownload) = archive.toNat := by
  unfold OneLoad at hs
  cases hcell : s.shared.index with
  | unclaimed =>
    rw [hcell] at hs
    rw [hs.2.1 i] at hk
    cases hk
  | loading =>
    rw [hcell] at hs
    obtain ⟨hmost, j, m, b, hj, hothers, hm, hb⟩ := hs
    by_cases hij : j = i
    · subst hij
      rw [hk] at hj
      cases hj
      exact ⟨rfl, hmost, hothers, hm, hb⟩
    · rw [hothers i hij] at hk
      cases hk
  | ready x =>
    rw [hcell] at hs
    rcases hs.1 i with h | h
    · rw [h] at hk
      cases hk
    · rw [h] at hk
      cases hk

theorem OneLoad.load {metadata archive : Bool} (hs : OneLoad needs most s)
    (hk : s.knowledge needs i = .loading metadata archive) (hop : mayLoad metadata archive op)
    (hw : w.Serves i op a (s.shared, s.outside) (shared, outside)) :
    OneLoad needs most (s.goOn i op next a shared outside) := by
  obtain ⟨hcell, hmost, hothers, hm, hb⟩ := hs.of_loading hk
  have hself : (s.goOn i op next a shared outside).knowledge needs i =
      (indexContract (needs i)).next (.loading metadata archive) op a := by
    rw [State.knowledge_goOn_self, hk]
  have hothers' : ∀ j, i ≠ j →
      (s.goOn i op next a shared outside).knowledge needs j = .nothing := by
    intro j hij
    rw [State.knowledge_goOn_of_ne hij, hothers j hij]
  have stays (hindex : shared.index = s.shared.index) (m b : Bool)
      (hnext : (indexContract (needs i)).next (.loading metadata archive) op a = .loading m b)
      (hm' : (s.goOn i op next a shared outside).log.countP (·.op.isMetadata) = m.toNat)
      (hb' : (s.goOn i op next a shared outside).log.countP (·.op.isDownload) = b.toNat) :
      OneLoad needs most (s.goOn i op next a shared outside) :=
    (congrArg (IndexCell.Agrees _ _ _ _) (hindex.trans hcell)).mpr
      ⟨hmost, i, m, b, hself.trans hnext, hothers', hm', hb'⟩
  cases op with
  | fetch url parameters =>
    cases parameters with
    | nil =>
      cases hop
      exact stays (hw.index_eq nofun nofun) true archive rfl
        ((List.countP_cons_of_pos rfl).trans (congrArg (· + 1) hm)) hb
    | cons p ps => cases hop
  | download url scratch =>
    cases hop
    exact stays (hw.index_eq nofun nofun) metadata true rfl hm
      ((List.countP_cons_of_pos rfl).trans (congrArg (· + 1) hb))
  | publishIndex x =>
    refine (congrArg (IndexCell.Agrees _ _ _ _) hw.publishIndex).mpr ⟨fun j => ?_, ?_, ?_⟩
    · by_cases hij : i = j
      · subst hij
        exact .inr hself
      · exact .inl (hothers' j hij)
    · exact (hm.trans_le (Bool.toNat_le _)).trans_eq hmost.symm
    · exact (hb.trans_le (Bool.toNat_le _)).trans_eq hmost.symm
  | lookUp | keep | openScratch | readScratch | closeScratch =>
    exact stays (hw.index_eq nofun nofun) metadata archive rfl hm hb
  | pause | draw | enter | leave | claimIndex => cases hop

theorem OneLoad.invariant {post : Nat → α → Knowledge → Prop} :
    Invariant w (fun i => indexContract (needs i)) post (OneLoad needs most) where
  answer {s i op next a shared outside} hs hf hi hw := by
    refine ⟨trivial, ?_⟩
    have hallow := hf.allows ⟨next, hi⟩
    change (indexContract (needs i)).allows (s.knowledge needs i) op at hallow
    cases hk : s.knowledge needs i with
    | nothing =>
      rw [hk] at hallow
      cases hop : op.ofIndex with
      | false => exact hs.quiet (by rw [hk]; rfl) hop hw
      | true =>
        obtain ⟨rfl, -, -⟩ := hallow hop
        exact hs.claim hk hw
    | loading metadata archive =>
      rw [hk] at hallow
      exact hs.load hk hallow.2 hw
    | told x =>
      rw [hk] at hallow
      cases hop : op.ofIndex with
      | false => exact hs.quiet (by rw [hk]; rfl) hop hw
      | true => exact absurd (hallow hop).2.1 nofun
  wait {s i op next shared} hs hf hi hb := by
    unfold OneLoad
    rw [Shared.index_of_blocked hb]
    exact hs

theorem OneLoad.asked_le {post : Nat → α → Knowledge → Prop} (hs : OneLoad needs most s)
    (hf : s.Follows (fun i => indexContract (needs i)) post) :
    s.asked.countP Op.isMetadata ≤ most ∧ s.asked.countP Op.isDownload ≤ most := by
  have alone {i : Nat} {m b : Bool} (hk : s.knowledge needs i = .loading m b) {j : Nat} {m' b' : Bool}
      (hj : s.knowledge needs j = .loading m' b') : i = j := by
    by_contra hij
    rw [(hs.of_loading hk).2.2.1 j hij] at hj
    cases hj
  have hle : s.log.countP (·.op.isMetadata) ≤ most ∧ s.log.countP (·.op.isDownload) ≤ most := by
    unfold OneLoad at hs
    cases hcell : s.shared.index with
    | unclaimed =>
      rw [hcell] at hs
      exact ⟨hs.2.2.1.trans_le (Nat.zero_le _), hs.2.2.2.trans_le (Nat.zero_le _)⟩
    | loading =>
      rw [hcell] at hs
      obtain ⟨rfl, -, m, b, -, -, hm, hb⟩ := hs
      exact ⟨hm.trans_le (Bool.toNat_le m), hb.trans_le (Bool.toNat_le b)⟩
    | ready x =>
      rw [hcell] at hs
      exact hs.2
  constructor
  · refine State.countP_asked_le hle.1 fun i op hi hop => ?_
    obtain ⟨b, hk⟩ := loading_of_isMetadata (hf.allows hi) hop
    refine ⟨?_, fun j op' hj hop' => ?_⟩
    · obtain ⟨-, hmost, -, hm, -⟩ := hs.of_loading hk
      rw [hm, hmost]
      exact Nat.zero_lt_one
    · obtain ⟨b', hk'⟩ := loading_of_isMetadata (hf.allows hj) hop'
      exact alone hk hk'
  · refine State.countP_asked_le hle.2 fun i op hi hop => ?_
    obtain ⟨m, hk⟩ := loading_of_isDownload (hf.allows hi) hop
    refine ⟨?_, fun j op' hj hop' => ?_⟩
    · obtain ⟨-, hmost, -, -, hb⟩ := hs.of_loading hk
      rw [hb, hmost]
      exact Nat.zero_lt_one
    · obtain ⟨m', hk'⟩ := loading_of_isDownload (hf.allows hj) hop'
      exact alone hk hk'

theorem OneLoad.told_unique (hs : OneLoad needs most s) {j : Nat} {x y : Option IsinIndex}
    (hx : s.knowledge needs i = .told x) (hy : s.knowledge needs j = .told y) : x = y := by
  unfold OneLoad at hs
  cases hcell : s.shared.index with
  | unclaimed =>
    rw [hcell] at hs
    exact nomatch hx.symm.trans (hs.2.1 i)
  | loading =>
    rw [hcell] at hs
    obtain ⟨-, k, m, b, hk, hothers, -⟩ := hs
    by_cases hki : k = i
    · subst hki
      exact nomatch hx.symm.trans hk
    · exact nomatch hx.symm.trans (hothers i hki)
  | ready z =>
    rw [hcell] at hs
    have told {l : Nat} {v : Option IsinIndex} (hv : s.knowledge needs l = .told v) : v = z := by
      rcases hs.1 l with h | h
      · exact nomatch hv.symm.trans h
      · exact Knowledge.told.inj (hv.symm.trans h)
    exact (told hx).trans (told hy).symm

theorem OneLoad.of_unclaimed {calls : List (Dialogue α)} (h : shared.index = .unclaimed) :
    OneLoad needs 1 (.start calls shared outside) :=
  (congrArg (IndexCell.Agrees _ _ _ _) h).mpr ⟨rfl, fun _ => rfl, rfl, rfl⟩

theorem OneLoad.of_ready {calls : List (Dialogue α)} {x : Option IsinIndex}
    (h : shared.index = .ready x) : OneLoad needs 0 (.start calls shared outside) :=
  (congrArg (IndexCell.Agrees _ _ _ _) h).mpr ⟨fun _ => .inl rfl, Nat.le_refl 0, Nat.le_refl 0⟩

theorem OneLoad.of_not_loading {calls : List (Dialogue α)} (h : shared.index ≠ .loading) :
    OneLoad needs 1 (.start calls shared outside) := by
  cases hcell : shared.index with
  | unclaimed => exact .of_unclaimed hcell
  | loading => exact absurd hcell h
  | ready x =>
    exact (congrArg (IndexCell.Agrees _ _ _ _) hcell).mpr
      ⟨fun _ => .inl rfl, Nat.zero_le 1, Nat.zero_le 1⟩

theorem OneLoad.start {settings : Settings β} {given : Option IsinIndex}
    {calls : List (Dialogue α)} (h : Shared.ofSettings? settings given = some shared) :
    OneLoad needs (if given.isSome then 0 else 1) (.start calls shared outside) := by
  obtain ⟨-, hindex⟩ := Shared.ofSettings_eq h
  cases given with
  | none => exact .of_unclaimed hindex
  | some x => exact .of_ready hindex

end

section

variable {σ α : Type} [Scalar α] {w : Surroundings σ} {settings : Settings α}
  {given : Option IsinIndex} {shared : Shared} {outside : σ} {calls : List Call}
  {s : State σ (Return α)}

theorem calls_follow_index :
    (State.start (calls.map (·.dialogue settings)) shared outside).Follows
      (fun i => indexContract (calls[i]?.any (·.needsIndex))) fun _ => knowsAtEnd := by
  apply calls_follow
  intro i call hcall
  rw [hcall]
  exact call.keeps_index

/-- Whatever cache and registry do, and in whatever order the calls go on, the index is loaded at
most once in the life of a resolver, by one call, and all calls that ask for it are told the same.
-/
theorem index_loaded_once (hshared : Shared.ofSettings? settings given = some shared)
    (hrun : Run w (.start (calls.map (·.dialogue settings)) shared outside) s) :
    s.asked.countP Op.isMetadata ≤ 1 ∧ s.asked.countP Op.isDownload ≤ 1 ∧
      (∀ i, ∀ op ∈ s.askedBy i, op.ofIndex = true →
        ∃ call, calls[i]? = some call ∧ call.needsIndex = true) ∧
      (∀ i j x y, s.result? i = some (.index x) → s.result? j = some (.index y) → x = y) ∧
      (given.isSome → ∀ op ∈ s.asked, op.isMetadata = false ∧ op.isDownload = false) := by
  have hstart : (State.start (calls.map (·.dialogue settings)) shared outside).Follows
      (fun i => indexContract (calls[i]?.any (·.needsIndex))) fun _ => knowsAtEnd :=
    calls_follow_index
  have hone : OneLoad (fun i => calls[i]?.any (·.needsIndex)) (if given.isSome then 0 else 1)
      (State.start (calls.map (·.dialogue settings)) shared outside) := OneLoad.start hshared
  obtain ⟨hs, hf⟩ := OneLoad.invariant.run hrun hone hstart
  obtain ⟨hmetadata, hdownload⟩ := hs.asked_le hf
  refine ⟨hmetadata.trans (by split <;> simp), hdownload.trans (by split <;> simp), ?_, ?_, ?_⟩
  · intro i op hop hindex
    obtain ⟨k, hk⟩ := OneLoad.invariant.allowed hrun hone hstart rfl hop
    exact (Option.any_eq_true ..).1 (needs_of_ofIndex hk hindex)
  · intro i j x y hx hy
    exact hs.told_unique ((hf.result hx).2 x rfl) ((hf.result hy).2 y rfl)
  · intro hgiven op hop
    rw [if_pos hgiven, Nat.le_zero, List.countP_eq_zero] at hmetadata hdownload
    exact ⟨Bool.not_eq_true _ ▸ hmetadata op hop, Bool.not_eq_true _ ▸ hdownload op hop⟩

end

theorem index_loaded_once_offline :
    ∃ shared s, Shared.ofSettings? (Settings.default (α := Rat)) none = some shared ∧
      Run .offline (.start ([Call.index, .index].map (·.dialogue (.default (α := Rat)))) shared ()) s ∧
      s.result? 0 = some (.index none) ∧ s.result? 1 = some (.index none) ∧
      s.asked.countP Op.isMetadata = 1 ∧ s.asked.countP Op.isDownload ≤ 1 := by
  have hshared : Shared.ofSettings? (Settings.default (α := Rat)) none =
      some ⟨⟨1, [], []⟩, .unclaimed, [], 0⟩ := rfl
  have hrun : Run .offline (.start ([Call.index, .index].map (·.dialogue (.default (α := Rat))))
      ⟨⟨1, [], []⟩, .unclaimed, [], 0⟩ ()) _ :=
    .answer 0 rfl .load ⟨rfl, rfl⟩ <| .wait 1 rfl rfl <| .answer 0 rfl (.ok none) ⟨rfl, rfl⟩ <|
    .answer 0 rfl (.error .io) ⟨rfl, rfl⟩ <| .answer 0 rfl () ⟨rfl, rfl⟩ <|
    .answer 1 rfl (.ready none) ⟨rfl, rfl⟩ <| .refl
  obtain ⟨-, hdownload, -, -, -⟩ := index_loaded_once hshared hrun
  exact ⟨_, _, hshared, hrun, rfl, rfl, rfl, hdownload⟩

end LegalEntity.Resolver
