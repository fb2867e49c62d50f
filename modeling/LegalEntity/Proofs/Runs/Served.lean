import LegalEntity.Proofs.Runs.Calls

namespace LegalEntity.Resolver

/-- Slots that no caller is in, those handed over included. -/
def Gate.spare (g : Gate) : Nat := g.free + g.handed.length

theorem Gate.spare_enter {g g' : Gate} {caller : Nat} (h : g.enter caller = (true, g')) :
    g'.spare + 1 = g.spare := by
  simp only [Gate.enter] at h
  split at h
  · rename_i hmem
    cases h
    have hlength := List.length_erase_of_mem (List.contains_iff_mem.1 hmem)
    have hpos := List.length_pos_of_mem (List.contains_iff_mem.1 hmem)
    simp only [Gate.spare]
    omega
  · split at h
    · cases h
      simp only [Gate.spare]
      omega
    · split at h <;> cases h

theorem Gate.spare_enter_blocked {g g' : Gate} {caller : Nat} (h : g.enter caller = (false, g')) :
    g'.spare = g.spare := by
  simp only [Gate.enter] at h
  split at h
  · cases h
  · split at h
    · cases h
    · split at h <;> cases h <;> rfl

theorem Gate.spare_leave (g : Gate) : g.leave.spare = g.spare + 1 := by
  unfold Gate.leave
  split
  · exact Nat.add_right_comm ..
  · rfl

variable {σ : Type} {w : Surroundings σ} {i : Nat} {x y : Shared} {o p : σ}

@[simp] theorem Shared.deliver_index (s : Shared) (scratch : Nat) (file : Option (List UInt8)) :
    (s.deliver scratch file).index = s.index := by
  cases file <;> rfl

@[simp] theorem Shared.deliver_gate (s : Shared) (scratch : Nat) (file : Option (List UInt8)) :
    (s.deliver scratch file).gate = s.gate := by
  cases file <;> rfl

namespace Surroundings.Serves

theorem claimIndex_eq {turn : IndexTurn} (h : w.Serves i .claimIndex turn (x, o) (y, p)) :
    (x.index = .unclaimed ∧ turn = .load ∧ y = { x with index := .loading }) ∨
      ∃ r, x.index = .ready r ∧ turn = .ready r ∧ y = x := by
  obtain ⟨h, -⟩ := h
  cases hx : x.index with
  | unclaimed =>
    simp only [Shared.serve, hx, Option.some.injEq, Served.answered.injEq] at h
    exact .inl ⟨rfl, h.1.symm, h.2.symm⟩
  | loading => simp [Shared.serve, hx] at h
  | ready r =>
    simp only [Shared.serve, hx, Option.some.injEq, Served.answered.injEq] at h
    exact .inr ⟨r, rfl, h.1.symm, h.2.symm⟩

theorem enter_eq {u : Unit} (h : w.Serves i .enter u (x, o) (y, p)) :
    ∃ g, x.gate.enter i = (true, g) ∧ y = { x with gate := g } := by
  obtain ⟨h, -⟩ := h
  simp only [Shared.serve, Option.some.injEq] at h
  split at h
  · rename_i hin
    cases h
    exact ⟨_, Prod.ext hin rfl, rfl⟩
  · cases h

theorem openScratch_eq {a : Except Error Nat} (h : w.Serves i .openScratch a (x, o) (y, p)) :
    (a = .ok x.scratches ∧
      y = { x with scratch := (x.scratches, none) :: x.scratch, scratches := x.scratches + 1 }) ∨
    w.refuses o ∧ a = .error .io ∧ y = x := by
  rcases h.1 with hopened | hrefused
  · cases hopened
    exact .inl ⟨rfl, rfl⟩
  · exact .inr hrefused

theorem claimIndex {turn : IndexTurn} (h : w.Serves i .claimIndex turn (x, o) (y, p)) :
    (x.index = .unclaimed ∧ turn = .load ∧ y.index = .loading) ∨
      ∃ r, x.index = .ready r ∧ turn = .ready r ∧ y.index = .ready r := by
  rcases h.claimIndex_eq with ⟨hx, hturn, rfl⟩ | ⟨r, hx, hturn, rfl⟩
  · exact .inl ⟨hx, hturn, rfl⟩
  · exact .inr ⟨r, hx, hturn, hx⟩

theorem publishIndex {r : Option IsinIndex} {u : Unit}
    (h : w.Serves i (.publishIndex r) u (x, o) (y, p)) : y.index = .ready r := by
  obtain ⟨h, -⟩ := h
  cases h
  rfl

theorem index_eq {op : Op} {a : op.Answer} (h : w.Serves i op a (x, o) (y, p)) (hc : op ≠ .claimIndex)
    (hp : ∀ r, op ≠ .publishIndex r) : y.index = x.index := by
  cases op with
  | claimIndex => exact absurd rfl hc
  | publishIndex r => exact absurd rfl (hp r)
  | lookUp key => exact congrArg Shared.index h.2
  | keep key v => exact congrArg Shared.index h.2
  | fetch url parameters => exact congrArg Shared.index h.2
  | download url scratch =>
    obtain ⟨file, -, h⟩ := h
    exact (congrArg Shared.index h).trans (Shared.deliver_index x scratch file)
  | pause span => cases h; rfl
  | draw => cases h; rfl
  | enter =>
    obtain ⟨g, -, rfl⟩ := h.enter_eq
    rfl
  | openScratch => rcases h.openScratch_eq with ⟨-, rfl⟩ | ⟨-, -, rfl⟩ <;> rfl
  | leave | readScratch | closeScratch =>
    obtain ⟨h, -⟩ := h
    cases h
    rfl

theorem scratch_eq {op : Op} {a : op.Answer} (h : w.Serves i op a (x, o) (y, p))
    (hopen : op ≠ .openScratch) (hdownload : op.isDownload = false)
    (hclose : ∀ n, op ≠ .closeScratch n) :
    y.scratch = x.scratch ∧ y.scratches = x.scratches := by
  cases op with
  | openScratch => exact absurd rfl hopen
  | closeScratch n => exact absurd rfl (hclose n)
  | download => cases hdownload
  | lookUp | keep | fetch =>
    obtain ⟨-, rfl⟩ := h
    exact ⟨rfl, rfl⟩
  | pause | draw =>
    cases h
    exact ⟨rfl, rfl⟩
  | enter =>
    obtain ⟨g, -, rfl⟩ := h.enter_eq
    exact ⟨rfl, rfl⟩
  | claimIndex => rcases h.claimIndex_eq with ⟨-, -, rfl⟩ | ⟨r, -, -, rfl⟩ <;> exact ⟨rfl, rfl⟩
  | leave | publishIndex | readScratch =>
    obtain ⟨h, -⟩ := h
    cases h
    exact ⟨rfl, rfl⟩

theorem enter_gate {u : Unit} (h : w.Serves i .enter u (x, o) (y, p)) :
    x.gate.enter i = (true, y.gate) := by
  obtain ⟨g, hg, rfl⟩ := h.enter_eq
  exact hg

theorem leave_gate {u : Unit} (h : w.Serves i .leave u (x, o) (y, p)) : y.gate = x.gate.leave := by
  obtain ⟨h, -⟩ := h
  cases h
  rfl

theorem enter {u : Unit} (h : w.Serves i .enter u (x, o) (y, p)) :
    y.gate.spare + 1 = x.gate.spare :=
  Gate.spare_enter h.enter_gate

theorem leave {u : Unit} (h : w.Serves i .leave u (x, o) (y, p)) :
    y.gate.spare = x.gate.spare + 1 := by
  rw [h.leave_gate, Gate.spare_leave]

theorem gate_eq {op : Op} {a : op.Answer} (h : w.Serves i op a (x, o) (y, p)) (he : op ≠ .enter)
    (hl : op ≠ .leave) : y.gate = x.gate := by
  cases op with
  | enter => exact absurd rfl he
  | leave => exact absurd rfl hl
  | lookUp key => exact congrArg Shared.gate h.2
  | keep key v => exact congrArg Shared.gate h.2
  | fetch url parameters => exact congrArg Shared.gate h.2
  | download url scratch =>
    obtain ⟨file, -, h⟩ := h
    exact (congrArg Shared.gate h).trans (Shared.deliver_gate x scratch file)
  | pause span => cases h; rfl
  | draw => cases h; rfl
  | claimIndex => rcases h.claimIndex_eq with ⟨-, -, rfl⟩ | ⟨r, -, -, rfl⟩ <;> rfl
  | openScratch => rcases h.openScratch_eq with ⟨-, rfl⟩ | ⟨-, -, rfl⟩ <;> rfl
  | publishIndex | readScratch | closeScratch =>
    obtain ⟨h, -⟩ := h
    cases h
    rfl

end Surroundings.Serves

theorem Shared.of_blocked {s t : Shared} {op : Op} (h : s.serve i op = some (.blocked t)) :
    (∃ g, op = .enter ∧ s.gate.enter i = (false, g) ∧ t = { s with gate := g }) ∨ t = s := by
  cases op with
  | enter =>
    simp only [Shared.serve, Option.some.injEq] at h
    split at h
    · cases h
    · rename_i hout
      cases h
      exact .inl ⟨_, rfl, Prod.ext (Bool.not_eq_true _ ▸ hout) rfl, rfl⟩
  | claimIndex =>
    simp only [Shared.serve] at h
    split at h <;> cases h
    exact .inr rfl
  | _ => simp [Shared.serve] at h

theorem Shared.gate_of_blocked {s t : Shared} {op : Op} (h : s.serve i op = some (.blocked t)) :
    (op = .enter ∧ s.gate.enter i = (false, t.gate)) ∨ t.gate = s.gate := by
  rcases Shared.of_blocked h with ⟨g, hop, hgate, rfl⟩ | rfl
  · exact .inl ⟨hop, hgate⟩
  · exact .inr rfl

theorem Shared.spare_of_blocked {s t : Shared} {op : Op} (h : s.serve i op = some (.blocked t)) :
    t.gate.spare = s.gate.spare := by
  cases Shared.gate_of_blocked h with
  | inl h => exact Gate.spare_enter_blocked h.2
  | inr h => rw [h]

theorem Shared.scratch_of_blocked {s t : Shared} {op : Op} (h : s.serve i op = some (.blocked t)) :
    t.scratch = s.scratch ∧ t.scratches = s.scratches := by
  rcases Shared.of_blocked h with ⟨g, -, -, rfl⟩ | rfl <;> exact ⟨rfl, rfl⟩

theorem Shared.index_of_blocked {s t : Shared} {op : Op} (h : s.serve i op = some (.blocked t)) :
    t.index = s.index := by
  rcases Shared.of_blocked h with ⟨g, -, -, rfl⟩ | rfl <;> rfl

structure Surroundings.AddsWritten (w : Surroundings σ) (given : σ → String → Json → Prop) : Prop where
  reads_given : ∀ {o p : σ} {key : String} {a : Except Cache.Error (Option Json)},
    w.reads o key a p → ∀ k u, given p k u → given o k u
  writes : ∀ {o p : σ} {key : String} {v : Json} {a : Except Cache.Error Unit},
    w.writes o key v a p → ∀ k u, given p k u → given o k u ∨ (k = key ∧ u = v)
  replies_given : ∀ {o p : σ} {url : String} {parameters : Registry.Parameters}
    {a : Registry.Outcome}, w.replies o url parameters a p → ∀ k u, given p k u → given o k u
  delivers_given : ∀ {o p : σ} {url : String} {a : Except Error Unit} {file : Option (List UInt8)},
    w.delivers o url a file p → ∀ k u, given p k u → given o k u

theorem Surroundings.AddsWritten.given_of {given : σ → String → Json → Prop}
    (hw : w.AddsWritten given) {op : Op} {a : op.Answer} (h : w.Serves i op a (x, o) (y, p))
    {key : String} {v : Json} (hv : given p key v) : given o key v ∨ op = .keep key v := by
  rcases h.outside with rfl | ⟨k, b, hp⟩ | ⟨k, u, b, rfl, hp⟩ | ⟨url, parameters, b, hp⟩ |
    ⟨url, b, file, hp⟩
  · exact .inl hv
  · exact .inl (hw.reads_given hp key v hv)
  · rcases hw.writes hp key v hv with hv | ⟨rfl, rfl⟩
    · exact .inl hv
    · exact .inr rfl
  · exact .inl (hw.replies_given hp key v hv)
  · exact .inl (hw.delivers_given hp key v hv)

section

variable {α : Type} {settings : Settings α} {given : Option IsinIndex} {shared : Shared}

theorem Shared.ofSettings_eq (h : Shared.ofSettings? settings given = some shared) :
    shared.gate = ⟨settings.slots, [], []⟩ ∧
      shared.index = given.elim .unclaimed fun x => .ready (nonEmptyIndex x) := by
  simp only [Shared.ofSettings?, Option.bind_eq_bind, Option.bind_eq_some_iff] at h
  obtain ⟨gate, hgate, h⟩ := h
  unfold Gate.ofSlots? at hgate
  split at hgate
  · cases hgate
    cases h
    cases given <;> exact ⟨rfl, rfl⟩
  · cases hgate

theorem Shared.ofSettings_index (h : Shared.ofSettings? settings none = some shared) :
    shared.index = .unclaimed :=
  (ofSettings_eq h).2

theorem Shared.ofSettings_scratch (h : Shared.ofSettings? settings given = some shared) :
    shared.scratch = [] := by
  simp only [Shared.ofSettings?, Option.bind_eq_bind, Option.bind_eq_some_iff] at h
  obtain ⟨gate, -, h⟩ := h
  cases h
  rfl

end

end LegalEntity.Resolver
