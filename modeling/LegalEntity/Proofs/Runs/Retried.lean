import LegalEntity.Proofs.Runs.Budget
import LegalEntity.Proofs.Runs.Chain
import LegalEntity.Proofs.Runs.Course
import Mathlib.Data.ENat.Lattice

namespace LegalEntity.Resolver

open Registry (Outcome Parameters Reply itemsOf)

def settles : Outcome → Bool
  | .error _ => true
  | .ok reply => reply.status ∉ [429, 502, 503, 504]

theorem of_eq_transient {status : Nat} :
    Retry.StatusClass.of status = .transient ↔ status ∈ [429, 502, 503, 504] := by
  have hlist : Retry.transientStatuses.contains status = true ↔ status ∈ [429, 502, 503, 504] :=
    List.contains_iff_mem
  rw [Retry.StatusClass.of]
  split
  · rename_i hsuccess
    simp only [Retry.isSuccess, Bool.and_eq_true, decide_eq_true_eq] at hsuccess
    simp only [reduceCtorEq, List.mem_cons, List.not_mem_nil, or_false, false_iff]
    omega
  · rw [← hlist]
    split <;> simp_all

theorem settles_iff {a : Outcome} : settles a = true ↔
    ∀ reply, a = .ok reply → Retry.StatusClass.of reply.status ≠ .transient := by
  cases a with
  | error e => exact ⟨nofun, fun _ => rfl⟩
  | ok reply =>
    simp only [settles, decide_eq_true_eq, Except.ok.injEq, forall_eq', ne_eq, of_eq_transient]

open Classical in
noncomputable def settledAt (o : Nat → Outcome) : ℕ∞ :=
  if h : ∃ k, settles (o k) then (Nat.find h + 1 : Nat) else ⊤

def later (o : Nat → Outcome) (k : Nat) : Outcome := o (k + 1)

noncomputable def sent (o : Nat → Outcome) (n : Nat) : Nat := (min (settledAt o) n).toNat

section

variable {o : Nat → Outcome} {n : Nat}

theorem settledAt_of_settles (h : settles (o 0) = true) : settledAt o = 1 := by
  have hsome : ∃ k, settles (o k) := ⟨0, h⟩
  rw [settledAt, dif_pos hsome, (Nat.find_eq_zero hsome).2 h]
  rfl

theorem settledAt_of_not (h : settles (o 0) = false) : settledAt o = settledAt (later o) + 1 := by
  have hzero : ¬settles (o 0) = true := Bool.eq_false_iff.1 h
  by_cases hsome : ∃ k, settles (later o k)
  · have hsome' : ∃ k, settles (o k) := hsome.imp' (· + 1) fun _ hk => hk
    rw [settledAt, settledAt, dif_pos hsome, dif_pos hsome', Nat.find_comp_succ hsome' hsome hzero]
    rfl
  · have hnone : ¬∃ k, settles (o k) := by
      rintro ⟨k, hk⟩
      cases k with
      | zero => exact hzero hk
      | succ k => exact hsome ⟨k, hk⟩
    rw [settledAt, settledAt, dif_neg hsome, dif_neg hnone]
    rfl

theorem one_le_settledAt (o : Nat → Outcome) : 1 ≤ settledAt o := by
  cases h : settles (o 0) with
  | true => exact (settledAt_of_settles h).ge
  | false =>
    rw [settledAt_of_not h]
    exact le_add_self

theorem coe_sent (o : Nat → Outcome) (n : Nat) : (sent o n : ℕ∞) = min (settledAt o) n :=
  ENat.natCast_toNat (ne_top_of_le_ne_top (ENat.natCast_ne_top n) (min_le_right _ _))

@[simp] theorem sent_zero (o : Nat → Outcome) : sent o 0 = 0 := by
  apply Nat.cast_injective (R := ℕ∞)
  rw [coe_sent, Nat.cast_zero, min_eq_right zero_le]

theorem sent_of_settles (h : settles (o 0) = true) : sent o (n + 1) = 1 := by
  apply Nat.cast_injective (R := ℕ∞)
  rw [coe_sent, settledAt_of_settles h, Nat.cast_add, Nat.cast_one, min_eq_left le_add_self]

theorem sent_of_not (h : settles (o 0) = false) : sent o (n + 1) = sent (later o) n + 1 := by
  apply Nat.cast_injective (R := ℕ∞)
  rw [coe_sent, settledAt_of_not h, Nat.cast_add, Nat.cast_add, coe_sent, Nat.cast_one,
    min_add_add_right]

end

def attempt (i : Nat) (url : String) (parameters : Parameters) (delay : Duration) (a : Outcome) :
    List Event :=
  (if delay = .zero then [] else [⟨i, .pause delay, ()⟩]) ++ [⟨i, .fetch url parameters, a⟩]

def Event.outcome? : Event → Option Outcome
  | ⟨_, .fetch _ _, a⟩ => some a
  | _ => none

def AnsweredWith (o : Nat → Outcome) (l : List Event) : Prop :=
  ∀ k a, (l.filterMap Event.outcome?)[k]? = some a → a = o k

section

variable {i : Nat} {url : String} {parameters : Parameters} {o : Nat → Outcome} {l : List Event}

theorem answeredWith_nil (o : Nat → Outcome) : AnsweredWith o [] := nofun

theorem answeredWith_cons_fetch {a : Outcome} :
    AnsweredWith o (⟨i, .fetch url parameters, a⟩ :: l) ↔ a = o 0 ∧ AnsweredWith (later o) l := by
  constructor
  · intro h
    exact ⟨h 0 a rfl, fun k b hb => h (k + 1) b hb⟩
  · rintro ⟨rfl, h⟩ k b hb
    cases k with
    | zero => exact (Option.some.inj hb).symm
    | succ k => exact h k b hb

theorem answeredWith_cons_of_none {e : Event} (he : e.outcome? = none) :
    AnsweredWith o (e :: l) ↔ AnsweredWith o l := by
  rw [AnsweredWith, AnsweredWith, List.filterMap_cons_none he]

def chain (i : Nat) (url : String) (parameters : Parameters) :
    List Duration → (Nat → Outcome) → List Event
  | [], _ => []
  | delay :: delays, o => attempt i url parameters delay (o 0) ++
      if settles (o 0) then [] else chain i url parameters delays (later o)

def settling? : Nat → (Nat → Outcome) → Option Outcome
  | 0, _ => none
  | n + 1, o => if settles (o 0) then some (o 0) else settling? n (later o)

theorem chain_eq_flatMap (delays : List Duration) (o : Nat → Outcome) :
    chain i url parameters delays o = (List.range (sent o delays.length)).flatMap fun k =>
      attempt i url parameters (delays.getD k .zero) (o k) := by
  induction delays generalizing o with
  | nil => simp [chain]
  | cons delay delays ih =>
    rw [chain, List.length_cons]
    cases h : settles (o 0) with
    | true => simp [sent_of_settles h]
    | false =>
      rw [sent_of_not h, List.range_succ_eq_map, List.flatMap_cons, List.flatMap_map, ih]
      rfl

theorem settling?_eq (n : Nat) (o : Nat → Outcome) : settling? n o =
    if settledAt o ≤ n then some (o ((settledAt o).toNat - 1)) else none := by
  induction n generalizing o with
  | zero =>
    have hnot : ¬settledAt o ≤ (0 : Nat) := fun h =>
      absurd ((one_le_settledAt o).trans h) (by decide)
    rw [if_neg hnot]
    rfl
  | succ n ih =>
    rw [settling?]
    cases h : settles (o 0) with
    | true =>
      rw [settledAt_of_settles h, if_pos rfl, if_pos (by simp)]
      rfl
    | false =>
      have hone := one_le_settledAt (later o)
      rw [settledAt_of_not h, if_neg (by decide), ih]
      generalize settledAt (later o) = m at hone
      cases m with
      | top => rfl
      | coe m =>
        have hpos : 1 ≤ m := Nat.cast_le.1 hone
        have hnext : later o (m - 1) = o m := congrArg o (Nat.sub_add_cancel hpos)
        have hle : (m : ℕ∞) + 1 ≤ (n + 1 : Nat) ↔ (m : ℕ∞) ≤ n := by
          rw [← Nat.cast_succ, Nat.cast_le, Nat.cast_le, Nat.succ_le_succ_iff]
        simp only [hle, ENat.toNat_natCast, hnext]
        rfl

theorem onOutcome_of_settles {a : Outcome} (h : settles a = true) (delays : List Duration) :
    onOutcome url parameters delays a = .done (final? a) := by
  cases a with
  | error e => rfl
  | ok reply =>
    have hnot := settles_iff.1 h reply rfl
    rw [onOutcome, final?, if_neg hnot, if_neg hnot]

theorem onOutcome_of_not {a : Outcome} (h : settles a = false) (delays : List Duration) :
    onOutcome url parameters delays a = attempts url parameters delays := by
  cases a with
  | error e => cases h
  | ok reply =>
    have htransient : Retry.StatusClass.of reply.status = .transient := by
      rw [of_eq_transient]
      exact of_not_not fun hnot => by simp [settles, hnot] at h
    rw [onOutcome, if_pos htransient]

end

def Dialogue.CourseOn (o : Nat → Outcome) (i : Nat) (t : Dialogue α) (l : List Event) (a : α) :
    Prop :=
  t.Course i l a ∧ AnsweredWith o l

section

variable {i : Nat} {url : String} {parameters : Parameters} {o : Nat → Outcome} {l : List Event}

theorem courseOn_done {a b : α} : (Dialogue.done a).CourseOn o i l b ↔ l = [] ∧ b = a := by
  rw [Dialogue.CourseOn, Dialogue.course_done]
  constructor
  · exact And.left
  · rintro ⟨rfl, rfl⟩
    exact ⟨⟨rfl, rfl⟩, answeredWith_nil o⟩

theorem courseOn_fetch {next : Outcome → Dialogue α} {b : α} :
    (Dialogue.ask (.fetch url parameters) next).CourseOn o i l b ↔
      ∃ rest, l = ⟨i, .fetch url parameters, o 0⟩ :: rest ∧
        (next (o 0)).CourseOn (later o) i rest b := by
  rw [Dialogue.CourseOn, Dialogue.course_ask]
  constructor
  · rintro ⟨⟨a, rest, rfl, hrest⟩, hanswers⟩
    obtain ⟨rfl, hlater⟩ := answeredWith_cons_fetch.1 hanswers
    exact ⟨rest, rfl, hrest, hlater⟩
  · rintro ⟨rest, rfl, hrest, hlater⟩
    exact ⟨⟨o 0, rest, rfl, hrest⟩, answeredWith_cons_fetch.2 ⟨rfl, hlater⟩⟩

theorem courseOn_pause {delay : Duration} {next : Unit → Dialogue α} {b : α} :
    (Dialogue.ask (.pause delay) next).CourseOn o i l b ↔
      ∃ rest, l = ⟨i, .pause delay, ()⟩ :: rest ∧ (next ()).CourseOn o i rest b := by
  rw [Dialogue.CourseOn, Dialogue.course_ask]
  constructor
  · rintro ⟨⟨a, rest, rfl, hrest⟩, hanswers⟩
    exact ⟨rest, rfl, hrest, (answeredWith_cons_of_none rfl).1 hanswers⟩
  · rintro ⟨rest, rfl, hrest, hanswers⟩
    exact ⟨⟨(), rest, rfl, hrest⟩, (answeredWith_cons_of_none rfl).2 hanswers⟩

theorem exists_eq_cons {e : Event} {m : List Event} {p : Prop} :
    (∃ rest, l = e :: rest ∧ rest = m ∧ p) ↔ l = e :: m ∧ p := by
  constructor
  · rintro ⟨rest, rfl, rfl, hp⟩
    exact ⟨rfl, hp⟩
  · rintro ⟨rfl, hp⟩
    exact ⟨m, rfl, rfl, hp⟩

theorem attempts_courseOn (delays : List Duration) (r : Option Reply) :
    (attempts url parameters delays).CourseOn o i l r ↔
      l = chain i url parameters delays o ∧ r = (settling? delays.length o).bind final? := by
  induction delays generalizing o l with
  | nil => exact courseOn_done
  | cons delay delays ih =>
    have hsend (l : List Event) :
        (Dialogue.ask (.fetch url parameters) (onOutcome url parameters delays)).CourseOn o i l r ↔
          l = ⟨i, .fetch url parameters, o 0⟩ ::
              (if settles (o 0) then [] else chain i url parameters delays (later o)) ∧
            r = (settling? (delays.length + 1) o).bind final? := by
      rw [courseOn_fetch, settling?]
      cases h : settles (o 0) with
      | true =>
        rw [onOutcome_of_settles h]
        simp only [courseOn_done, exists_eq_cons]
        rfl
      | false =>
        rw [onOutcome_of_not h]
        simp only [ih, exists_eq_cons]
        rfl
    rw [attempts_cons, chain, attempt]
    split
    · exact hsend l
    · simp only [courseOn_pause, hsend, exists_eq_cons]
      rfl

end

/-- A policy without a seed takes a random word. -/
def drawn (i : Nat) (p : Retry.Policy) (entropy : UInt64) : List Event :=
  if p.seed.isNone then [⟨i, .draw, entropy⟩] else []

def Draws (entropy : UInt64) (l : List Event) : Prop :=
  ∀ i (a : UInt64), (⟨i, .draw, a⟩ : Event) ∈ l → a = entropy

def brought (read : Reply → Option (List β)) (n : Nat) (o : Nat → Outcome) : List β :=
  ((settling? n o).map (itemsOf read)).getD []

section

variable {i : Nat} {p : Retry.Policy} {url : String} {parameters : Parameters}
  {read : Reply → Option (List β)} {o : Nat → Outcome} {entropy : UInt64} {l : List Event}
  {items : List β}

def sending (url : String) (parameters : Parameters) (read : Reply → Option (List β))
    (delays : List Duration) : Dialogue (List β) :=
  (attempts url parameters delays).bind fun r =>
    .done ((r.map fun reply =>
      if Retry.isSuccess reply.status then (read reply).getD [] else []).getD [])

theorem request_eq_bind : request p url parameters read =
    (schedule p).bind (sending url parameters read) := by
  rw [request, Dialogue.bind_eq]
  congr 1
  funext delays
  rw [sending, Dialogue.bind_eq]
  congr 1
  funext r
  cases r <;> rfl

theorem courseOn_bind_done {t : Dialogue α} {f : α → β} {b : β} :
    (t.bind fun a => .done (f a)).CourseOn o i l b ↔ ∃ a, t.CourseOn o i l a ∧ b = f a := by
  rw [Dialogue.CourseOn, Dialogue.course_bind]
  constructor
  · rintro ⟨⟨a, front, rest, rfl, hfront, hrest⟩, hanswers⟩
    obtain ⟨rfl, rfl⟩ := Dialogue.course_done.1 hrest
    rw [List.append_nil] at hanswers ⊢
    exact ⟨a, ⟨hfront, hanswers⟩, rfl⟩
  · rintro ⟨a, ⟨hcourse, hanswers⟩, rfl⟩
    exact ⟨⟨a, l, [], l.append_nil.symm, hcourse, Dialogue.course_done.2 ⟨rfl, rfl⟩⟩, hanswers⟩

theorem sending_courseOn (delays : List Duration) :
    (sending url parameters read delays).CourseOn o i l items ↔
      l = chain i url parameters delays o ∧ items = brought read delays.length o := by
  rw [sending, courseOn_bind_done]
  simp only [attempts_courseOn, and_assoc, exists_and_left, exists_eq_left]
  rw [brought]
  cases settling? delays.length o with
  | none => rfl
  | some a =>
    rw [Option.bind_some, itemsOf_final?]
    rfl

theorem schedule_of_seed (h : p.seed.isNone = false) (entropy' : UInt64) :
    p.schedule entropy = p.schedule entropy' := by
  cases hseed : p.seed with
  | none => simp [hseed] at h
  | some seed => simp [Retry.Policy.schedule, Retry.Policy.backoff, hseed]

theorem request_course_iff : (request p url parameters read).Course i l items ↔
    ∃ entropy rest, l = drawn i p entropy ++ rest ∧
      (sending url parameters read (p.schedule entropy)).Course i rest items := by
  rw [request_eq_bind, schedule]
  cases hseed : p.seed with
  | none =>
    have hdrawn (entropy : UInt64) : drawn i p entropy = [⟨i, .draw, entropy⟩] := by
      rw [drawn, hseed]
      rfl
    simp only [hdrawn, List.singleton_append]
    exact Dialogue.course_ask
  | some seed =>
    have hdrawn (entropy : UInt64) : drawn i p entropy = [] := by
      rw [drawn, hseed]
      rfl
    have hschedule (entropy : UInt64) : p.schedule entropy = p.schedule 0 :=
      schedule_of_seed (by rw [hseed]; rfl) 0
    simp only [hdrawn, hschedule, List.nil_append, exists_const, exists_eq_left']
    rfl

theorem not_draw_of_mem_chain (delays : List Duration) {e : Event}
    (he : e ∈ chain i url parameters delays o) : e.op ≠ .draw := by
  rw [chain_eq_flatMap, List.mem_flatMap] at he
  obtain ⟨k, -, hk⟩ := he
  rw [attempt, List.mem_append, List.mem_singleton] at hk
  rcases hk with hk | rfl
  · split at hk
    · cases hk
    · obtain rfl := List.mem_singleton.1 hk
      exact nofun
  · exact nofun

def Retried (p : Retry.Policy) (url : String) (parameters : Parameters)
    (read : Reply → Option (List β)) (i : Nat) (l : List Event) (items : List β) : Prop :=
  ∃ entropy o, l = drawn i p entropy ++ chain i url parameters (p.schedule entropy) o ∧
    items = brought read (p.schedule entropy).length o

theorem answeredWith_drawn_append (p : Retry.Policy) (entropy : UInt64) :
    AnsweredWith o (drawn i p entropy ++ l) ↔ AnsweredWith o l := by
  rw [drawn]
  split
  · exact answeredWith_cons_of_none rfl
  · rfl

theorem exists_answeredWith (l : List Event) : ∃ o, AnsweredWith o l :=
  ⟨fun k => (l.filterMap Event.outcome?)[k]?.getD (.error .io), fun k a h => by simp [h]⟩

theorem request_course : (request p url parameters read).Course i l items ↔
    Retried p url parameters read i l items := by
  rw [request_course_iff]
  constructor
  · rintro ⟨entropy, rest, rfl, hrest⟩
    obtain ⟨o, hanswers⟩ := exists_answeredWith rest
    obtain ⟨rfl, rfl⟩ := (sending_courseOn _).1 ⟨hrest, hanswers⟩
    exact ⟨entropy, o, rfl, rfl⟩
  · rintro ⟨entropy, o, rfl, rfl⟩
    exact ⟨entropy, _, rfl, ((sending_courseOn _).2 ⟨rfl, rfl⟩).1⟩

theorem eq_of_draws {entropy' : UInt64} (h : Draws entropy (drawn i p entropy' ++ l)) :
    drawn i p entropy' = drawn i p entropy ∧ p.schedule entropy' = p.schedule entropy := by
  cases hseed : p.seed.isNone with
  | true =>
    have hmem : (⟨i, .draw, entropy'⟩ : Event) ∈ drawn i p entropy' ++ l := by
      simp [drawn, hseed]
    obtain rfl := h i entropy' hmem
    exact ⟨rfl, rfl⟩
  | false =>
    refine ⟨?_, schedule_of_seed hseed entropy⟩
    simp [drawn, hseed]

theorem draws_drawn_append_chain (delays : List Duration) :
    Draws entropy (drawn i p entropy ++ chain i url parameters delays o) := by
  intro j a hmem
  rcases List.mem_append.1 hmem with hmem | hmem
  · rw [drawn] at hmem
    split at hmem
    · cases List.mem_singleton.1 hmem
      rfl
    · cases hmem
  · exact absurd rfl (not_draw_of_mem_chain delays hmem)

end

/-- A request is sent until an outcome settles it, at most once and as often again as the policy
says, up to 32 times. Nothing is waited before it is first sent, and the delay of the schedule
before each time after that. The items of the outcome that settles it are brought, if it is a
success that can be read, and nothing otherwise. -/
theorem request_retries (p : Retry.Policy) (url : String) (parameters : Parameters)
    (read : Reply → Option (List β)) (entropy : UInt64) (o : Nat → Outcome) (i : Nat)
    (l : List Event) (items : List β) :
    (p.schedule entropy).length = min p.attempts 32 + 1 ∧
    (p.schedule entropy)[0]? = some .zero ∧
    ((request p url parameters read).Course i l items ∧ AnsweredWith o l ∧ Draws entropy l ↔
      l = drawn i p entropy ++
        ((List.range (min (settledAt o) (min p.attempts 32 + 1 : Nat)).toNat).flatMap fun k =>
          attempt i url parameters ((p.schedule entropy).getD k .zero) (o k)) ∧
      items = if settledAt o ≤ (min p.attempts 32 + 1 : Nat)
        then itemsOf read (o ((settledAt o).toNat - 1)) else []) := by
  have hlength : (p.schedule entropy).length = min p.attempts 32 + 1 := length_schedule p entropy
  refine ⟨hlength, rfl, ?_⟩
  have hevents : chain i url parameters (p.schedule entropy) o = _ :=
    chain_eq_flatMap (p.schedule entropy) o
  have hitems : brought read (p.schedule entropy).length o =
      if settledAt o ≤ (min p.attempts 32 + 1 : Nat)
        then itemsOf read (o ((settledAt o).toNat - 1)) else [] := by
    rw [brought, settling?_eq, hlength]
    split <;> rfl
  rw [sent, hlength] at hevents
  rw [← hitems]
  constructor
  · rintro ⟨hcourse, hanswers, hdraws⟩
    obtain ⟨entropy', rest, rfl, hrest⟩ := request_course_iff.1 hcourse
    obtain ⟨hdrawn, hschedule⟩ := eq_of_draws hdraws
    rw [hschedule] at hrest
    have hanswers := (answeredWith_drawn_append p entropy').1 hanswers
    obtain ⟨hrest, hbrought⟩ := (sending_courseOn _).1 ⟨hrest, hanswers⟩
    exact ⟨hdrawn ▸ congrArg _ (hrest.trans hevents), hbrought⟩
  · rintro ⟨hl, rfl⟩
    obtain rfl : l = drawn i p entropy ++ chain i url parameters (p.schedule entropy) o :=
      hl.trans (congrArg _ hevents.symm)
    obtain ⟨hcourse, hanswers⟩ : (sending url parameters read (p.schedule entropy)).CourseOn o i
      (chain i url parameters (p.schedule entropy) o) _ := (sending_courseOn _).2 ⟨rfl, rfl⟩
    exact ⟨request_course_iff.2 ⟨entropy, _, rfl, hcourse⟩,
      (answeredWith_drawn_append p entropy).2 hanswers, draws_drawn_append_chain _⟩

end LegalEntity.Resolver
