import LegalEntity.Proofs.Runs.Budget
import LegalEntity.Proofs.Runs.Ending

namespace LegalEntity.Resolver

section

variable {σ α : Type} [Scalar α] {w : Surroundings σ} {settings : Settings α} {queries : List Query}
  {shared : Shared} {outside : σ} {s : State σ (Except Error Identity)} {i : Nat}

def batch (settings : Settings α) (queries : List Query) :
    List (Dialogue (Except Error Identity)) :=
  queries.map (resolve settings)

theorem batch_getElem {t : Dialogue (Except Error Identity)} :
    (batch settings queries)[i]? = some t ↔ ∃ q, queries[i]? = some q ∧ resolve settings q = t := by
  rw [batch, List.getElem?_map, Option.map_eq_some_iff]

theorem batch_wellBehaved :
    WellBehaved (fun i => queries[i]?.any fun q => (Call.resolve q).needsIndex)
      (batch settings queries) where
  slot i t hi := by
    obtain ⟨q, -, rfl⟩ := batch_getElem.1 hi
    exact (resolve_keeps_search settings q).slot
  index i t hi := by
    obtain ⟨q, hq, rfl⟩ := batch_getElem.1 hi
    rw [hq]
    have hkeeps := (Call.resolve q).keeps_index (s := settings)
    exact (Dialogue.keeps_bind.1 hkeeps).mono fun _ _ hk => hk.1

theorem batch_requests_le (hrun : Run w (.start (batch settings queries) shared outside) s) :
    s.asked.countP Op.isRequest ≤
      queries.length * (3 * (min settings.retry.attempts Retry.Policy.maxAttempts + 1)) := by
  have hlength : s.calls.length = queries.length := by
    rw [hrun.length_calls]
    exact List.length_map _
  have hstart : (State.start (batch settings queries) shared outside).Follows
      (fun _ => .atMost Op.isRequest
        (3 * (min settings.retry.attempts Retry.Policy.maxAttempts + 1)))
      fun _ _ n => n ≤ 3 * (min settings.retry.attempts Retry.Policy.maxAttempts + 1) := by
    apply State.Follows.start
    intro i t hi
    obtain ⟨q, -, rfl⟩ := batch_getElem.1 hi
    apply (resolve_costs q _ 0 (Nat.zero_add _).le).mono
    intro _ n hn
    rwa [Nat.zero_add] at hn
  have hf := hrun.follows (fun _ _ _ _ => trivial) hstart
  rw [← hlength]
  exact State.countP_asked_le_mul (hrun.caller_lt nofun) fun i hi => hf.countP_askedBy_le hi

theorem batch_can_go_on (hw : w.Responsive) (hshared : shared.AtRest settings.slots)
    (hrun : Run w (.start (batch settings queries) shared outside) s) (hnot : ¬s.Finished) :
    s.CanGoOn w :=
  hshared.can_go_on (Nat.le_max_right _ _) hw batch_wellBehaved hrun hnot

theorem batch_completes (hw : w.Responsive) (hshared : shared.AtRest settings.slots) :
    (State.start (batch settings queries) shared outside).Ends w fun s =>
      ∃ rs, s.results? = some rs ∧ rs.length = queries.length where
  finite run _ := exists_not_advance w run
  last s hrun hend := by
    have hfinished := (State.ends_of_canGoOn fun t ht hnot =>
      batch_can_go_on hw hshared ht hnot).last s hrun hend
    obtain ⟨rs, hrs, hlength⟩ := hfinished.results
    refine ⟨rs, hrs, ?_⟩
    rw [hlength, hrun.length_calls]
    exact List.length_map _

/-- Whatever cache and registry answer, some call can go on while a query of the batch has no
result, no run goes on for ever, and the number of its requests is bounded by that of its queries.
-/
theorem batch_ends (hw : w.Responsive) (hshared : shared.AtRest settings.slots) :
    (State.start (batch settings queries) shared outside).Ends w (fun s =>
      ∃ rs, s.results? = some rs ∧ rs.length = queries.length) ∧
    ∀ s, Run w (.start (batch settings queries) shared outside) s →
      (¬s.Finished → s.CanGoOn w) ∧
      s.asked.countP Op.isMetadata ≤ 1 ∧ s.asked.countP Op.isDownload ≤ 1 ∧
      s.asked.countP Op.isRequest ≤
        3 * queries.length * (min settings.retry.attempts 32 + 1) := by
  refine ⟨batch_completes hw hshared, fun s hrun => ⟨batch_can_go_on hw hshared hrun, ?_⟩⟩
  obtain ⟨hload, hf⟩ := hshared.oneLoad batch_wellBehaved hrun
  obtain ⟨hmetadata, hdownload⟩ := hload.asked_le hf
  have hrequests := batch_requests_le hrun
  rw [Nat.mul_left_comm, ← Nat.mul_assoc] at hrequests
  exact ⟨hmetadata, hdownload, hrequests⟩

end

theorem batch_ends_offline :
    ∃ shared s, Shared.ofSettings? (Settings.default (α := Rat)) none = some shared ∧
      (State.start (batch (Settings.default (α := Rat)) [named "Acme", ⟨"U", "Umbrella", some "U1"⟩])
        shared ()).CanGoOn .offline ∧
      Run .offline (.start (batch (Settings.default (α := Rat))
        [named "Acme", ⟨"U", "Umbrella", some "U1"⟩]) shared ()) s ∧
      (∀ t, ¬Advance .offline s t) ∧ (∃ rs, s.results? = some rs ∧ rs.length = 2) ∧
      s.asked.countP Op.isMetadata = 1 ∧ s.asked.countP Op.isDownload ≤ 1 ∧
      s.asked.countP Op.isRequest = 2 ∧
      s.asked.countP Op.isRequest ≤ 3 * 2 * (min 5 32 + 1) := by
  have hshared : Shared.ofSettings? (Settings.default (α := Rat)) none =
      some ⟨⟨1, [], []⟩, .unclaimed, [], 0⟩ := rfl
  obtain ⟨s, hrun, hcalls, hmetadata, hrequest⟩ : ∃ s, Run .offline (.start
      (batch (Settings.default (α := Rat)) [named "Acme", ⟨"U", "Umbrella", some "U1"⟩])
      ⟨⟨1, [], []⟩, .unclaimed, [], 0⟩ ()) s ∧
      s.calls = [.done (.error (.notFound "Acme" none)),
        .done (.error (.notFound "Umbrella" (some "U1")))] ∧
      s.asked.countP Op.isMetadata = 1 ∧ s.asked.countP Op.isRequest = 2 := by
    have hrun : Run .offline (.start (batch (Settings.default (α := Rat))
        [named "Acme", ⟨"U", "Umbrella", some "U1"⟩]) ⟨⟨1, [], []⟩, .unclaimed, [], 0⟩ ()) _ :=
      .answer 0 rfl (.ok none) ⟨rfl, rfl⟩ <| .answer 0 rfl () ⟨rfl, rfl⟩ <|
      .answer 1 rfl .load ⟨rfl, rfl⟩ <| .answer 1 rfl (.ok none) ⟨rfl, rfl⟩ <|
      .answer 1 rfl (.error .io) ⟨rfl, rfl⟩ <| .answer 1 rfl () ⟨rfl, rfl⟩ <|
      .answer 1 rfl (.ok none) ⟨rfl, rfl⟩ <| .wait 1 rfl rfl <|
      .answer 0 rfl (.ok none) ⟨rfl, rfl⟩ <| .answer 0 rfl (0 : UInt64) rfl <|
      .answer 0 rfl (.error .io) ⟨rfl, rfl⟩ <|
      .answer 0 (show _ = some (afterMiss (.default (α := Rat)) (named "Acme")) by
        with_unfolding_all rfl) (.ok ()) ⟨rfl, rfl⟩ <|
      .answer 0 rfl () ⟨rfl, rfl⟩ <| .answer 1 rfl () ⟨rfl, rfl⟩ <|
      .answer 1 rfl (.ok none) ⟨rfl, rfl⟩ <| .answer 1 rfl (0 : UInt64) rfl <|
      .answer 1 rfl (.error .io) ⟨rfl, rfl⟩ <|
      .answer 1 (show _ = some (afterMiss (.default (α := Rat)) ⟨"U", "Umbrella", some "U1"⟩) by
        with_unfolding_all rfl) (.ok ()) ⟨rfl, rfl⟩ <|
      .answer 1 rfl () ⟨rfl, rfl⟩ .refl
    exact ⟨_, hrun, rfl, rfl, rfl⟩
  have hfinished : s.Finished := by
    rw [State.Finished, hcalls]
    simp
  obtain ⟨-, -, hdownload, hrequests⟩ :=
    (batch_ends Surroundings.offline_responsive (.ofSettings hshared)).2 s hrun
  have hnone (t : State Unit (Except Error Identity)) : ¬Advance .offline s t := hfinished.not_advance
  have hresults :=
    (batch_ends Surroundings.offline_responsive (.ofSettings hshared)).1.last s hrun hnone
  refine ⟨_, s, hshared, ?_, hrun, hnone, hresults, hmetadata, hdownload, hrequest, hrequests⟩
  apply ((batch_ends Surroundings.offline_responsive (.ofSettings hshared)).2 _ .refl).1
  intro h
  obtain ⟨r, hr⟩ := h _ List.mem_cons_self
  cases hr

end LegalEntity.Resolver
