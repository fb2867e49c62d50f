import LegalEntity.Proofs.Names.Stage
import LegalEntity.Proofs.Runs.Asked
import LegalEntity.Proofs.Runs.Reliable
import LegalEntity.Proofs.Runs.Served

namespace LegalEntity.Resolver

open Cache (decoded?)

section

variable {σ α : Type} {w : Surroundings σ} {stored : σ → String → Option Json} {key : String}
  {mine : Nat → Bool} {slots i : Nat} {s t : State σ α} {op : Op}
  {next : op.Answer → Dialogue α} {a : op.Answer} {shared : Shared} {outside : σ}

def State.stage (key : String) (mine : Nat → Bool) (s : State σ α) (i : Nat) : Stage :=
  (stageContract key (mine i)).place i s.log

def State.holders (key : String) (mine : Nat → Bool) (s : State σ α) : Nat :=
  (List.range s.calls.length).countP fun i => (s.stage key mine i).holds

def State.searchers (key : String) (mine : Nat → Bool) (s : State σ α) : Nat :=
  (List.range s.calls.length).countP fun i => mine i && (s.stage key mine i).hasSearched

def known? (stored : σ → String → Option Json) (key : String) (o : σ) : Option NameOutcome :=
  decoded? NameOutcome.ofDocument? (.ok (stored o key))

@[simp] theorem State.stage_start {calls : List (Dialogue α)} :
    (State.start calls shared outside).stage key mine i = .outside := rfl

@[simp] theorem State.holders_start {calls : List (Dialogue α)} :
    (State.start calls shared outside).holders key mine = 0 := by
  simp [State.holders, Stage.holds]

@[simp] theorem State.searchers_start {calls : List (Dialogue α)} :
    (State.start calls shared outside).searchers key mine = 0 := by
  simp [State.searchers, Stage.hasSearched]

theorem State.stage_goOn_self : (s.goOn i op next a shared outside).stage key mine i =
    (stageContract key (mine i)).next (s.stage key mine i) op a :=
  Contract.place_cons_self ..

theorem State.stage_goOn_of_ne {j : Nat} (h : i ≠ j) :
    (s.goOn i op next a shared outside).stage key mine j = s.stage key mine j :=
  Contract.place_cons_of_ne _ h ..

theorem State.holders_goOn (hi : i < s.calls.length) :
    (s.goOn i op next a shared outside).holders key mine + (s.stage key mine i).holds.toNat =
      s.holders key mine +
        ((s.goOn i op next a shared outside).stage key mine i).holds.toNat := by
  have hsame : ∀ j, i ≠ j → ((s.goOn i op next a shared outside).stage key mine j).holds =
      (s.stage key mine j).holds := fun j hij => by rw [State.stage_goOn_of_ne hij]
  have hlength : (s.goOn i op next a shared outside).calls.length = s.calls.length :=
    List.length_set
  rw [State.holders, hlength]
  exact countP_range_update hi hsame

theorem State.searchers_goOn
    (hsame : ((s.goOn i op next a shared outside).stage key mine i).hasSearched =
      (s.stage key mine i).hasSearched) :
    (s.goOn i op next a shared outside).searchers key mine = s.searchers key mine := by
  have hlength : (s.goOn i op next a shared outside).calls.length = s.calls.length :=
    List.length_set
  rw [State.searchers, hlength]
  refine List.countP_congr fun j _ => ?_
  by_cases hij : i = j
  · subst hij
    rw [hsame]
  · rw [State.stage_goOn_of_ne hij]

theorem Stage.Moves.spare {mine : Bool} {g g' : Stage} {x y : Shared} {o p : σ}
    (h : Stage.Moves key mine g op a g') (hw : w.Serves i op a (x, o) (y, p)) :
    y.gate.spare + g'.holds.toNat = x.gate.spare + g.holds.toNat := by
  cases h with
  | stay henter hleave _ _ => rw [hw.gate_eq henter hleave]
  | enter => exact hw.enter
  | leave => exact hw.leave
  | leaveSettled => exact hw.leave
  | hitOutside _ | hit _ | miss _ | keep => rw [hw.gate_eq nofun nofun]; rfl

section

variable {x y : Shared} {o p : σ}

theorem known?_of_lookUp {a : Op.Answer (.lookUp key)} (hR : w.Reliable stored)
    (hw : w.Serves i (.lookUp key) a (x, o) (y, p)) :
    decoded? NameOutcome.ofDocument? a = known? stored key o := by
  rw [hR.lookUp hw, known?]

theorem known?_of_keep {outcome : NameOutcome} {a : Op.Answer (.keep key outcome.toJson)}
    (hR : w.Reliable stored) (hw : w.Serves i (.keep key outcome.toJson) a (x, o) (y, p)) :
    known? stored key p = some outcome := by
  rw [known?, hR.keep hw, Function.update_self]
  exact NameOutcome.ofDocument?_toJson outcome

theorem known?_eq (hR : w.Reliable stored) (hw : w.Serves i op a (x, o) (y, p))
    (hop : ∀ v, op ≠ .keep key v) : known? stored key p = known? stored key o := by
  rw [known?, hR.stored_eq hw hop, known?]

namespace Stage.Moves

variable {mine : Bool} {g g' : Stage}

theorem known (h : Stage.Moves key mine g op a g') (hR : w.Reliable stored)
    (hw : w.Serves i op a (x, o) (y, p)) :
    known? stored key p = known? stored key o ∨
      mine = true ∧ g = .searching ∧ ∃ outcome, known? stored key p = some outcome := by
  cases h with
  | stay _ _ hkeep _ => exact .inl (known?_eq hR hw hkeep)
  | keep hmine => exact .inr ⟨hmine, rfl, _, known?_of_keep hR hw⟩
  | _ => exact .inl (known?_eq hR hw nofun)

theorem outcome (h : Stage.Moves key mine g op a g') (hR : w.Reliable stored)
    (hw : w.Serves i op a (x, o) (y, p)) :
    g'.outcome? = none ∨ g'.outcome? = g.outcome? ∨ g'.outcome? = known? stored key p := by
  cases h with
  | stay => exact .inr (.inl rfl)
  | enter => exact .inl rfl
  | leave => exact .inl rfl
  | leaveSettled => exact .inr (.inl rfl)
  | hitOutside hread | hit hread =>
    refine .inr (.inr ?_)
    rw [known?_eq hR hw nofun, ← known?_of_lookUp hR hw, hread]
    rfl
  | miss => exact .inl rfl
  | keep => exact .inr (.inr (known?_of_keep hR hw).symm)

theorem hasSearched (h : Stage.Moves key mine g op a g') (hR : w.Reliable stored)
    (hw : w.Serves i op a (x, o) (y, p)) :
    g'.hasSearched = g.hasSearched ∨ g' = .searching ∧ known? stored key o = none := by
  cases h with
  | miss hread => exact .inr ⟨rfl, (known?_of_lookUp hR hw).symm.trans hread⟩
  | _ => exact .inl rfl

theorem searching (h : Stage.Moves key mine g op a g') (hR : w.Reliable stored)
    (hw : w.Serves i op a (x, o) (y, p)) (hg : g' = .searching) :
    known? stored key p = none ∨ g = .searching ∧ known? stored key p = known? stored key o := by
  cases h with
  | stay _ _ hkeep _ => exact .inr ⟨hg, known?_eq hR hw hkeep⟩
  | miss hread =>
    rw [known?_eq hR hw nofun, ← known?_of_lookUp hR hw]
    exact .inl hread
  | _ => cases hg

theorem hasSearched_mono (h : Stage.Moves key mine g op a g') (hg : g.hasSearched = true) :
    g'.hasSearched = true := by
  cases h with
  | enter => cases hg
  | leave => cases hg
  | hitOutside => cases hg
  | hit => cases hg
  | miss => rfl
  | keep => rfl
  | _ => exact hg

theorem hasSearched_of_op (h : Stage.Moves key mine g op a g') (hmine : mine = true)
    (hop : op.ofSearch = true ∨ ∃ v, op = .keep key v) : g'.hasSearched = true := by
  rcases hop with hop | ⟨v, rfl⟩
  · cases h with
    | stay _ _ _ hg =>
      rw [hg hmine hop]
      rfl
    | _ => cases hop
  · cases h with
    | stay _ _ hkeep _ => exact absurd rfl (hkeep v)
    | keep => rfl

theorem entered (h : Stage.Moves key mine g op a g') (hmine : mine = true) :
    op.isEnter.toNat + (!g.isOutside).toNat ≤ (!g'.isOutside).toNat := by
  cases h with
  | stay henter _ _ _ =>
    have hop : op.isEnter = false := by
      cases op with
      | enter => exact absurd rfl henter
      | _ => rfl
    simp only [hop, Bool.toNat_false, Nat.zero_add, Nat.le_refl]
  | leave hother => exact nomatch hother.symm.trans hmine
  | hitOutside => exact Nat.zero_le 1
  | _ => exact Nat.le_refl 1

theorem kept (h : Stage.Moves key mine g op a g') (hg' : g'.hasSearched = true)
    {outcome : NameOutcome} (ho : g'.outcome? = some outcome) :
    (g.hasSearched = true ∧ g.outcome? = some outcome) ∨ op = .keep key outcome.toJson := by
  cases h with
  | stay => exact .inl ⟨hg', ho⟩
  | leaveSettled => exact .inl ⟨hg', ho⟩
  | keep =>
    cases ho
    exact .inr rfl
  | hitOutside => cases hg'
  | hit => cases hg'
  | _ => cases ho

end Stage.Moves

end

structure Admission (stored : σ → String → Option Json) (key : String) (mine : Nat → Bool)
    (slots : Nat) (s : State σ α) : Prop where
  spare : s.shared.gate.spare + s.holders key mine = slots
  bounded : s.searchers key mine ≤ slots
  unknown : known? stored key s.outside = none →
    ∀ j, mine j = true → (s.stage key mine j).outcome? = none

theorem Stage.holds_of_hasSearched {g : Stage} (h : g.hasSearched = true)
    (ho : g.outcome? = none) : g.holds = true := by
  cases g with
  | searching => rfl
  | outside => cases h
  | admitted => cases h
  | settled source outcome => cases ho
  | ended source outcome => cases ho

theorem Admission.answer (hs : Admission stored key mine slots s) (hR : w.Reliable stored)
    (hi : i < s.calls.length) (hw : w.Serves i op a (s.shared, s.outside) (shared, outside))
    (hm : Stage.Moves key (mine i) (s.stage key mine i) op a
      ((s.goOn i op next a shared outside).stage key mine i)) :
    Admission stored key mine slots (s.goOn i op next a shared outside) := by
  have hspare : shared.gate.spare + (s.goOn i op next a shared outside).holders key mine = slots := by
    have hholders : (s.goOn i op next a shared outside).holders key mine +
        (s.stage key mine i).holds.toNat = s.holders key mine +
          ((s.goOn i op next a shared outside).stage key mine i).holds.toNat :=
      State.holders_goOn hi
    have hstep := hm.spare hw
    have hbefore := hs.spare
    omega
  refine ⟨hspare, ?_, fun hunknown j hj => ?_⟩
  · rcases hm.hasSearched hR hw with hsame | ⟨hsearching, hunknown⟩
    · rw [State.searchers_goOn hsame]
      exact hs.bounded
    · -- Whoever has searched is still at it, and holds a slot.
      refine Nat.le_trans (List.countP_mono_left fun j _ hj => ?_)
        (hspare ▸ Nat.le_add_left _ shared.gate.spare)
      obtain ⟨hmine, hsearched⟩ := Bool.and_eq_true_iff.1 hj
      by_cases hij : i = j
      · subst hij
        rw [hsearching]
        rfl
      · rw [State.stage_goOn_of_ne hij] at hsearched ⊢
        exact Stage.holds_of_hasSearched hsearched (hs.unknown hunknown j hmine)
  · have hbefore : known? stored key s.outside = none := by
      rcases hm.known hR hw with hsame | ⟨-, -, outcome, hsome⟩
      · exact hsame.symm.trans hunknown
      · exact nomatch hsome.symm.trans hunknown
    by_cases hij : i = j
    · subst hij
      rcases hm.outcome hR hw with hnone | hsame | hstored
      · exact hnone
      · exact hsame.trans (hs.unknown hbefore i hj)
      · exact hstored.trans hunknown
    · rw [State.stage_goOn_of_ne hij]
      exact hs.unknown hbefore j hj

/-- What holds besides where there is one slot: outcomes agree, and none is stored while a call
searches. -/
structure Agreement (stored : σ → String → Option Json) (key : String) (mine : Nat → Bool)
    (s : State σ α) : Prop where
  told : ∀ j, mine j = true → ∀ outcome, (s.stage key mine j).outcome? = some outcome →
    known? stored key s.outside = some outcome
  searching : ∀ j, mine j = true → s.stage key mine j = .searching →
    known? stored key s.outside = none

theorem Admission.alone (hs : Admission stored key mine 1 s) {j : Nat} (hi : i < s.calls.length)
    (hj : j < s.calls.length) (hgi : (s.stage key mine i).holds = true)
    (hgj : (s.stage key mine j).holds = true) : i = j := by
  have hle : s.holders key mine ≤ 1 := hs.spare ▸ Nat.le_add_left _ _
  exact eq_of_countP_range_le_one (p := fun i => (s.stage key mine i).holds) hle hi hj hgi hgj

theorem Agreement.answer (hag : Agreement stored key mine s) (hs : Admission stored key mine 1 s)
    (hmine : ∀ j, mine j = true → j < s.calls.length) (hR : w.Reliable stored)
    (hw : w.Serves i op a (s.shared, s.outside) (shared, outside))
    (hm : Stage.Moves key (mine i) (s.stage key mine i) op a
      ((s.goOn i op next a shared outside).stage key mine i)) :
    Agreement stored key mine (s.goOn i op next a shared outside) := by
  refine ⟨fun j hj outcome ho => ?_, fun j hj hsearching => ?_⟩
  · by_cases hij : i = j
    · subst hij
      rcases hm.outcome hR hw with hnone | hsame | hstored
      · exact nomatch hnone.symm.trans ho
      · rcases hm.known hR hw with hknown | ⟨-, hg, -⟩
        · exact hknown.trans (hag.told i hj outcome (hsame.symm.trans ho))
        · rw [hg] at hsame
          exact nomatch hsame.symm.trans ho
      · exact hstored.symm.trans ho
    · rw [State.stage_goOn_of_ne hij] at ho
      have hbefore := hag.told j hj outcome ho
      rcases hm.known hR hw with hknown | ⟨hi, hg, -⟩
      · exact hknown.trans hbefore
      · exact nomatch hbefore.symm.trans (hag.searching i hi hg)
  · by_cases hij : i = j
    · subst hij
      rcases hm.searching hR hw hsearching with hnone | ⟨hg, hsame⟩
      · exact hnone
      · exact hsame.trans (hag.searching i hj hg)
    · rw [State.stage_goOn_of_ne hij] at hsearching
      -- Only who searches keeps an outcome, and two do not search at once.
      rcases hm.known hR hw with hknown | ⟨hi, hg, -⟩
      · exact hknown.trans (hag.searching j hj hsearching)
      · exact absurd (hs.alone (hmine i hi) (hmine j hj) (by rw [hg]; rfl) (by rw [hsearching]; rfl)) hij

structure Searched (key : String) (mine : Nat → Bool) (s : State σ α) : Prop where
  seen : ∀ e ∈ s.log, mine e.caller = true →
    (e.op.ofSearch = true ∨ ∃ v, e.op = .keep key v) →
      (s.stage key mine e.caller).hasSearched = true
  entered : ∀ j, mine j = true →
    s.log.countP (fun e => e.caller == j && e.op.isEnter) ≤ (!(s.stage key mine j).isOutside).toNat
  kept : ∀ j, (s.stage key mine j).hasSearched = true → ∀ outcome,
    (s.stage key mine j).outcome? = some outcome →
      ∃ a, ⟨j, .keep key outcome.toJson, a⟩ ∈ s.log

theorem Searched.answer (hs : Searched key mine s)
    (hm : Stage.Moves key (mine i) (s.stage key mine i) op a
      ((s.goOn i op next a shared outside).stage key mine i)) :
    Searched key mine (s.goOn i op next a shared outside) := by
  refine ⟨fun e he hmine hop => ?_, fun j hj => ?_, fun j hj outcome ho => ?_⟩
  · rcases List.mem_cons.1 he with rfl | he
    · exact hm.hasSearched_of_op hmine hop
    · by_cases hij : i = e.caller
      · rw [← hij] at hmine ⊢
        exact hm.hasSearched_mono (hij ▸ hs.seen e he (hij ▸ hmine) hop)
      · rw [State.stage_goOn_of_ne hij]
        exact hs.seen e he hmine hop
  · have hcount : (s.goOn i op next a shared outside).log.countP
        (fun e => e.caller == j && e.op.isEnter) =
          s.log.countP (fun e => e.caller == j && e.op.isEnter) +
            (i == j && op.isEnter).toNat := by
      rw [State.goOn, List.countP_cons]
      cases i == j && op.isEnter <;> rfl
    rw [hcount]
    by_cases hij : i = j
    · subst hij
      have hmove := hm.entered hj
      have hbefore := hs.entered i hj
      rw [beq_self_eq_true, Bool.true_and]
      omega
    · rw [State.stage_goOn_of_ne hij, beq_eq_false_iff_ne.2 hij]
      exact hs.entered j hj
  · by_cases hij : i = j
    · subst hij
      rcases hm.kept hj ho with ⟨hsearched, hbefore⟩ | rfl
      · obtain ⟨b, hb⟩ := hs.kept i hsearched outcome hbefore
        exact ⟨b, List.mem_cons_of_mem _ hb⟩
      · exact ⟨a, List.mem_cons_self⟩
    · rw [State.stage_goOn_of_ne hij] at hj ho
      obtain ⟨b, hb⟩ := hs.kept j hj outcome ho
      exact ⟨b, List.mem_cons_of_mem _ hb⟩

end

end LegalEntity.Resolver
