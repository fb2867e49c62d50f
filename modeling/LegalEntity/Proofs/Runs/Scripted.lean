import LegalEntity.Proofs.Runs.Contract
import LegalEntity.Rehearsal.World

namespace LegalEntity.Rehearsal

open Resolver

structure Outside (σ : Type) where
  cache : σ
  script : List Rule
  moment : Cache.Moment

def World.outside (w : World σ) : Outside σ := ⟨w.cache, w.script, w.moment⟩

def delivered (url : String) : Registry.Outcome → Except Error Unit × Option (List UInt8)
  | .error e => (.error e, none)
  | .ok reply =>
    if Retry.isSuccess reply.status then (.ok (), some reply.body)
    else (.error (.httpStatus reply.status url), none)

def scripted [Cache.Store σ] : Surroundings (Outside σ) where
  reads o key a p := ∃ cache, Cache.Store.get o.moment key o.cache = (a, cache) ∧ p = { o with cache }
  writes o key v a p :=
    ∃ cache, Cache.Store.put o.moment key v o.cache = (a, cache) ∧ p = { o with cache }
  replies o url parameters a p :=
    ∃ reply script, nextReply (kindOf parameters).1 (kindOf parameters).2 o.script = (reply, script) ∧
      a = (outcomeOf url reply).2 ∧ p = { o with script }
  delivers o url a file p :=
    ∃ reply script, nextReply .download url o.script = (reply, script) ∧
      (a, file) = delivered url (outcomeOf url reply).2 ∧ p = { o with script }
  refuses _ := True

def Running.left : Running α → Dialogue α
  | .active t => t
  | .resting _ t => t
  | .asleep _ t => t
  | .ended a => .done a

section

variable {σ β : Type} {w w' : World σ}

def Turn.Comes (turn : Turn σ β) (a : β) (w : World σ) : Prop :=
  turn = .now a w ∨ ∃ time, turn = .later time a w

theorem Turn.Comes.of_now {a b : β} (h : (Turn.now a w).Comes b w') : b = a ∧ w' = w := by
  rcases h with h | ⟨time, h⟩ <;> cases h
  exact ⟨rfl, rfl⟩

theorem World.after_comes {delay : Nat} {a b : β} (h : (w.after delay a).Comes b w') :
    b = a ∧ w' = w := by
  unfold World.after at h
  split at h
  · exact h.of_now
  · rcases h with h | ⟨time, h⟩ <;> cases h
    exact ⟨rfl, rfl⟩

end

section

variable {σ : Type} [Cache.Store σ] {w w' : World σ} {i : Nat} {op : Op} {a : op.Answer}

theorem World.fetch_comes {url : String} {parameters : Registry.Parameters} {a : Registry.Outcome}
    (h : (w.fetch url parameters).Comes a w') :
    scripted.replies w.outside url parameters a w'.outside ∧ w'.shared = w.shared := by
  obtain ⟨rfl, rfl⟩ := World.after_comes h
  exact ⟨⟨_, _, rfl, rfl, rfl⟩, rfl⟩

theorem World.download_comes {url : String} {scratch : Nat} {a : Except Error Unit}
    (h : (w.download url scratch).Comes a w') :
    ∃ file, scripted.delivers w.outside url a file w'.outside ∧
      w'.shared = w.shared.deliver scratch file := by
  have hdelivers {a : Except Error Unit} {file : Option (List UInt8)}
      (h : delivered url (outcomeOf url (nextReply .download url w.script).1).2 = (a, file)) :
      scripted.delivers w.outside url a file
        { w.outside with script := (nextReply .download url w.script).2 } :=
    ⟨_, _, rfl, h.symm, rfl⟩
  unfold World.download at h
  dsimp only at h
  split at h
  · rename_i e houtcome
    obtain ⟨rfl, rfl⟩ := World.after_comes h
    exact ⟨none, hdelivers (by rw [houtcome, delivered]), rfl⟩
  · rename_i reply houtcome
    split at h
    · rename_i hstatus
      obtain ⟨rfl, rfl⟩ := World.after_comes h
      exact ⟨some reply.body, hdelivers (by rw [houtcome, delivered, if_pos hstatus]), rfl⟩
    · rename_i hstatus
      obtain ⟨rfl, rfl⟩ := World.after_comes h
      exact ⟨none, hdelivers (by rw [houtcome, delivered, if_neg hstatus]), rfl⟩

theorem World.serve_comes (h : (w.serve i op).Comes a w') :
    scripted.Serves i op a (w.shared, w.outside) (w'.shared, w'.outside) := by
  cases op with
  | lookUp key =>
    obtain ⟨rfl, rfl⟩ := h.of_now
    exact ⟨⟨_, rfl, rfl⟩, rfl⟩
  | keep key v =>
    obtain ⟨rfl, rfl⟩ := h.of_now
    exact ⟨⟨_, rfl, rfl⟩, rfl⟩
  | fetch url parameters => exact World.fetch_comes h
  | download url scratch => exact World.download_comes h
  | pause span =>
    obtain ⟨-, rfl⟩ := World.after_comes h
    rfl
  | draw =>
    obtain ⟨-, rfl⟩ := h.of_now
    rfl
  | openScratch =>
    obtain ⟨rfl, rfl⟩ := h.of_now
    exact ⟨.inl rfl, rfl⟩
  | enter | leave | claimIndex | publishIndex | readScratch | closeScratch =>
    simp only [World.serve] at h
    split at h
    · rename_i answer shared hserve
      obtain ⟨rfl, rfl⟩ := h.of_now
      exact ⟨hserve, rfl⟩
    · rcases h with h | ⟨time, h⟩ <;> cases h
    · rcases h with h | ⟨time, h⟩ <;> cases h

theorem World.serve_blocked (h : w.serve i op = .blocked w') :
    w'.outside = w.outside ∧
      (w.shared.serve i op = some (.blocked w'.shared) ∨ w'.shared = w.shared) := by
  have after {delay : Nat} {b : op.Answer} {v : World σ} : v.after delay b ≠ .blocked w' := by
    unfold World.after
    split <;> nofun
  cases op with
  | lookUp | keep | draw => cases h
  | fetch => exact absurd h after
  | pause => exact absurd h after
  | download url scratch =>
    simp only [World.serve, World.download] at h
    split at h
    · exact absurd h after
    · split at h <;> exact absurd h after
  | enter | leave | claimIndex | publishIndex | openScratch | readScratch | closeScratch =>
    simp only [World.serve] at h
    split at h <;> cases h
    · rename_i shared hserve
      exact ⟨rfl, .inl hserve⟩
    · exact ⟨rfl, .inr rfl⟩

end

section

variable {σ α : Type} [Cache.Store σ] {s : State (Outside σ) α} {w : World σ} {i : Nat}

def Leads (s : State (Outside σ) α) (calls : List (Dialogue α)) (w : World σ) : Prop :=
  ∃ t, Run scripted s t ∧ t.calls = calls ∧ t.shared = w.shared ∧ t.outside = w.outside

theorem Leads.refl (hshared : s.shared = w.shared) (houtside : s.outside = w.outside) :
    Leads s s.calls w :=
  ⟨s, .refl, rfl, hshared, houtside⟩

theorem Leads.of_run {t : State (Outside σ) α} {calls : List (Dialogue α)} (hrun : Run scripted s t)
    (h : Leads t calls w) : Leads s calls w := by
  obtain ⟨u, hrun', h⟩ := h
  exact ⟨u, hrun.trans hrun', h⟩

theorem set_eq_self {β : Type} {l : List β} {b : β} (h : l[i]? = some b) : l.set i b = l := by
  obtain ⟨hi, rfl⟩ := List.getElem?_eq_some_iff.1 h
  exact List.set_getElem_self hi

theorem goOn_leads (t : Dialogue α) (isRested : Bool) (hi : s.calls[i]? = some t)
    (hshared : s.shared = w.shared) (houtside : s.outside = w.outside) :
    Leads s (s.calls.set i (goOn i isRested t w).1.left) (goOn i isRested t w).2.1 := by
  induction t generalizing s w isRested with
  | done a =>
    rw [goOn]
    change Leads s (s.calls.set i (.done a)) w
    rw [set_eq_self hi]
    exact .refl hshared houtside
  | ask op next ih =>
    have stays (v : World σ) (hv : v.shared = w.shared) (hv' : v.outside = w.outside) :
        Leads s (s.calls.set i (.ask op next)) v := by
      rw [set_eq_self hi]
      exact .refl (hshared.trans hv.symm) (houtside.trans hv'.symm)
    have answered {a : op.Answer} {v : World σ} (h : (w.serve i op).Comes a v) :
        Step scripted s (s.goOn i op next a v.shared v.outside) := by
      apply Step.answer hi
      rw [hshared, houtside]
      exact World.serve_comes h
    rw [goOn]
    split
    · exact stays w rfl rfl
    · cases hserve : w.serve i op with
      | now a v =>
        have hlead := ih a false (s := s.goOn i op next a v.shared v.outside) (w := v)
          (State.calls_goOn_self hi ..) rfl rfl
        rw [State.goOn, List.set_set] at hlead
        exact hlead.of_run (.single (answered (.inl hserve)))
      | later time a v => exact ⟨_, .single (answered (.inr ⟨time, hserve⟩)), rfl, rfl, rfl⟩
      | blocked v =>
        obtain ⟨hv', hv | hv⟩ := World.serve_blocked hserve
        · have step : Step scripted s { s with shared := v.shared } := by
            apply Step.wait hi
            rw [hshared]
            exact hv
          refine ⟨_, .single step, (set_eq_self hi).symm, rfl, ?_⟩
          rw [hv']
          exact houtside
        · exact stays v hv hv'

theorem turn_leads (r : Running α) (hi : s.calls[i]? = some r.left) (hshared : s.shared = w.shared)
    (houtside : s.outside = w.outside) :
    Leads s (s.calls.set i (turn i r w).1.left) (turn i r w).2.1 := by
  have stays : Leads s (s.calls.set i r.left) w := by
    rw [set_eq_self hi]
    exact .refl hshared houtside
  cases r with
  | active t => exact goOn_leads t false hi hshared houtside
  | resting times t =>
    unfold turn
    dsimp only
    split
    · exact goOn_leads t true hi hshared houtside
    · exact stays
  | asleep wakes t =>
    unfold turn
    dsimp only
    split
    · exact goOn_leads t false hi hshared houtside
    · exact stays
  | ended a => exact stays

theorem turns_leads (rs : List (Running α)) (before : List (Dialogue α))
    (hcalls : s.calls = before ++ rs.map (·.left)) (hshared : s.shared = w.shared)
    (houtside : s.outside = w.outside) :
    Leads s (before ++ (turns before.length rs w).1.map (·.left)) (turns before.length rs w).2.1 := by
  induction rs generalizing s w before with
  | nil =>
    rw [turns, ← hcalls]
    exact .refl hshared houtside
  | cons r rs ih =>
    have hi : s.calls[before.length]? = some r.left := by
      rw [hcalls]
      simp
    obtain ⟨t, hrun, ht, htshared, htoutside⟩ := turn_leads r hi hshared houtside
    have htcalls : t.calls = (before ++ [(turn before.length r w).1.left]) ++ rs.map (·.left) := by
      rw [ht, hcalls]
      simp
    have hlead := ih _ htcalls htshared htoutside
    rw [List.length_append, List.length_singleton, List.append_assoc] at hlead
    rw [turns]
    exact hlead.of_run hrun

theorem rest_left (r : Running α) : (rest r).left = r.left := by
  cases r <;> rfl

theorem settle_leads (fuel : Nat) (rs : List (Running α)) (hcalls : s.calls = rs.map (·.left))
    (hshared : s.shared = w.shared) (houtside : s.outside = w.outside) :
    Leads s ((settle fuel rs w).1.map (·.left)) (settle fuel rs w).2 := by
  induction fuel generalizing s w rs with
  | zero =>
    rw [settle, ← hcalls]
    exact .refl hshared houtside
  | succ fuel ih =>
    obtain ⟨t, hrun, ht, htshared, htoutside⟩ := turns_leads rs [] hcalls hshared houtside
    rw [List.length_nil, List.nil_append] at ht
    rw [settle]
    dsimp only
    split
    · exact (ih _ ht htshared htoutside).of_run hrun
    · split
      · refine (ih _ (ht.trans ?_) htshared htoutside).of_run hrun
        simp [rest_left, Function.comp_def]
      · split
        · exact ⟨t, hrun, ht, htshared, htoutside⟩
        · apply Leads.of_run hrun
          apply ih _ ht
          · exact htshared
          · exact htoutside

theorem value?_of_mapM {rs : List (Running α)} {values : List α} (h : rs.mapM value? = some values)
    (i : Nat) : (rs.map (·.left))[i]?.bind Dialogue.value? = values[i]? := by
  induction rs generalizing i values with
  | nil =>
    cases h
    rfl
  | cons r rs ih =>
    rw [List.mapM_cons] at h
    simp only [Option.bind_eq_bind, Option.bind_eq_some_iff] at h
    obtain ⟨value, hvalue, rest, hrest, h⟩ := h
    cases h
    cases i with
    | zero =>
      cases r with
      | ended a => exact hvalue
      | _ => cases hvalue
    | succ i => exact ih hrest i

/-- Whatever dialogues come to in a rehearsal they come to in a run. -/
theorem runAll_run (ts : List (Dialogue α)) (w : World σ) {values : List α}
    (h : (runAll ts w).1 = some values) :
    ∃ s, Run scripted (.start ts w.shared w.outside) s ∧ (∀ i, s.result? i = values[i]?) ∧
      s.shared = (runAll ts w).2.shared ∧ s.outside = (runAll ts w).2.outside := by
  have hstart : (State.start ts w.shared w.outside).calls = (ts.map Running.active).map (·.left) := by
    simp [State.start, Running.left, Function.comp_def]
  unfold runAll at h ⊢
  dsimp only at h ⊢
  -- The kernel must not count the rounds.
  generalize roundsPerDialogue * (ts.length + 1) = fuel at h ⊢
  obtain ⟨s, hrun, hcalls, hshared, houtside⟩ := settle_leads fuel _ hstart rfl rfl
  refine ⟨s, hrun, fun i => ?_, hshared, houtside⟩
  rw [State.result?, hcalls]
  exact value?_of_mapM h i

end

end LegalEntity.Rehearsal
