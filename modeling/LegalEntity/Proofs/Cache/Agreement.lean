import LegalEntity.Proofs.Cache.Keeping
import Mathlib.Data.List.Induction

namespace LegalEntity.Cache

inductive Kept
  | outcome (o : NameOutcome)
  | index (x : IsinIndex)

inductive Kind
  | outcome
  | index
  deriving DecidableEq

namespace Kept

def kind : Kept → Kind
  | .outcome _ => .outcome
  | .index _ => .index

def toJson : Kept → Json
  | .outcome o => o.toJson
  | .index x => IsinIndex.toJson x

theorem isTexts_toJson (v : Kept) : v.toJson.IsTexts := by
  cases v with
  | outcome o => exact o.isTexts_toJson
  | index x => exact IsinIndex.isTexts_toJson x

end Kept

def Kind.decoder : Kind → Json.Decoder Kept
  | .outcome => fun d => (NameOutcome.ofDocument? d).map .outcome
  | .index => fun d => (IsinIndex.ofDocument? d).map .index

@[simp] theorem Kind.decoder_toJson (v : Kept) : v.kind.decoder v.toJson.toDocument = some v := by
  cases v <;> simp [Kept.kind, Kept.toJson, decoder]

inductive Operation
  | store (key : String) (v : Kept)
  | load (key : String) (kind : Kind)

def Operation.key : Operation → String
  | .store key _ => key
  | .load key _ => key

structure Timed where
  moment : Moment
  operation : Operation

inductive Answer
  | stored (result : Except Error Unit)
  | loaded (v : Option Kept)

namespace Timed

def key (o : Timed) : String := o.operation.key

def now (o : Timed) : Int := o.moment.now.instant

def perform [Store σ] (o : Timed) (s : σ) : Answer × σ :=
  match o.operation with
  | .store key v =>
    let (answer, s) := Store.put o.moment key v.toJson s
    (.stored answer, s)
  | .load key kind =>
    let (answer, s) := Store.get o.moment key s
    (.loaded (decoded? kind.decoder answer), s)

def storing? (key : String) (o : Timed) : Option (Kept × Int) :=
  match o.operation with
  | .store k v => if k = key then some (v, o.now) else none
  | .load _ _ => none

end Timed

def after [Store σ] (s : σ) (ops : List Timed) : σ := ops.foldl (fun s o => (o.perform s).2) s

def answerAfter [Store σ] (s : σ) (before : List Timed) (o : Timed) : Answer :=
  (o.perform (after s before)).1

def lastStored? (key : String) (ops : List Timed) : Option (Kept × Int) :=
  ops.reverse.findSome? (·.storing? key)

def expected (lifetime : Option Duration) (before : List Timed) (o : Timed) : Answer :=
  match o.operation with
  | .store _ _ => .stored (.ok ())
  | .load key kind =>
    .loaded (((lastStored? key before).filter fun e => !isExpired lifetime e.2 o.now).bind fun e =>
      kind.decoder e.1.toJson.toDocument)

section

variable {σ : Type} [Store σ] {lifetime : Option Duration} {s : σ} {ops before : List Timed}
  {o : Timed} {key : String} {kind : Kind} {v : Kept}

theorem lastStored?_append_singleton (key : String) (ops : List Timed) (o : Timed) :
    lastStored? key (ops ++ [o]) = (o.storing? key).or (lastStored? key ops) := by
  rw [lastStored?, List.reverse_append, List.reverse_singleton, List.singleton_append,
    List.findSome?_cons]
  cases o.storing? key <;> rfl

theorem Timed.storing?_of_ne (h : o.key ≠ key) : o.storing? key = none := by
  cases hop : o.operation with
  | store k v =>
    have hk : k ≠ key := by simpa [Timed.key, hop, Operation.key] using h
    simp [storing?, hop, hk]
  | load k kind => simp [storing?, hop]

theorem after_append_singleton (s : σ) (ops : List Timed) (o : Timed) :
    after s (ops ++ [o]) = (o.perform (after s ops)).2 := by
  rw [after, List.foldl_append]
  rfl

theorem lastStored?_filter (key : String) (ops : List Timed) :
    lastStored? key (ops.filter fun o => o.key = key) = lastStored? key ops := by
  induction ops using List.reverseRecOn with
  | nil => rfl
  | append_singleton ops o ih =>
    rw [List.filter_append, lastStored?_append_singleton]
    by_cases hkey : o.key = key
    · rw [List.filter_cons_of_pos (by simpa using hkey), List.filter_nil,
        lastStored?_append_singleton, ih]
    · rw [List.filter_cons_of_neg (by simpa using hkey), List.filter_nil, List.append_nil, ih,
        Timed.storing?_of_ne hkey]
      rfl

theorem expected_filter (lifetime : Option Duration) (before : List Timed) (o : Timed) :
    expected lifetime (before.filter fun p => p.key = o.key) o = expected lifetime before o := by
  cases hop : o.operation with
  | store k v => simp [expected, hop]
  | load k kind =>
    have hkey : o.key = k := by simp [Timed.key, hop, Operation.key]
    simp only [expected, hop, hkey, lastStored?_filter]

theorem expected_loaded (hop : o.operation = .load key kind) {written : Int}
    (hlast : lastStored? key before = some (v, written)) (hkind : kind = v.kind) :
    expected lifetime before o =
      .loaded (if isExpired lifetime written o.now then none else some v) := by
  subst hkind
  simp only [expected, hop, hlast]
  cases hexpired : isExpired lifetime written o.now <;> simp [hexpired, Option.filter_some]

theorem expected_missed (hop : o.operation = .load key kind)
    (hlast : lastStored? key before = none) : expected lifetime before o = .loaded none := by
  simp [expected, hop, hlast]

def lastHeld? (key : String) (ops : List Timed) : Option (Json × Int) :=
  (lastStored? key ops).map fun e => (e.1.toJson, e.2)

theorem lastHeld?_append_of_none (h : o.storing? key = none) :
    lastHeld? key (ops ++ [o]) = lastHeld? key ops := by
  rw [lastHeld?, lastStored?_append_singleton, h]
  rfl

theorem decoded?_unexpired (d : Json.Decoder Kept) (now : Int) (last : Option (Kept × Int)) :
    decoded? d (.ok (unexpired lifetime now (last.map fun e => (e.1.toJson, e.2)))) =
      (last.filter fun e => !isExpired lifetime e.2 now).bind fun e => d e.1.toJson.toDocument := by
  cases last with
  | none => rfl
  | some e =>
    rw [Option.map_some, unexpired_some]
    cases hexpired : isExpired lifetime e.2 now <;> simp [hexpired, decoded?, Option.filter_some]

variable [KeepingStore σ]

open PlacedStore (part place)

/-- A store is right about a key: it holds what has been stored last, or nothing if the lifetime of
that was over at one of the operations. -/
structure Tracks (lifetime : Option Duration) (s : σ) (ops : List Timed) (key : String) : Prop where
  sound : KeepingStore.Sound (part key s)
  lifetime_eq : KeepingStore.lifetime (part key s) = lifetime
  held : ∃ entry, KeepingStore.Holds (part key s) entry ∧ (entry = lastHeld? key ops ∨
    entry = none ∧ ∃ o ∈ ops, unexpired lifetime o.now (lastHeld? key ops) = none)

theorem Tracks.of_part_eq {t : σ} (h : Tracks lifetime s ops key) (hpart : part key t = part key s)
    (ho : o.storing? key = none) : Tracks lifetime t (ops ++ [o]) key := by
  obtain ⟨entry, hentry, hlast⟩ := h.held
  refine ⟨hpart ▸ h.sound, hpart ▸ h.lifetime_eq, entry, hpart ▸ hentry, ?_⟩
  rw [lastHeld?_append_of_none ho]
  exact hlast.imp_right fun ⟨hnone, p, hp, hexpired⟩ =>
    ⟨hnone, p, List.mem_append_left _ hp, hexpired⟩

theorem Tracks.store (h : Tracks lifetime s ops key) (hutc : o.moment.now.IsUtc)
    (hop : o.operation = .store key v) :
    (o.perform s).1 = .stored (.ok ()) ∧ Tracks lifetime (o.perform s).2 (ops ++ [o]) key := by
  obtain ⟨hok, hsound, hlifetime, hheld⟩ :=
    KeepingStore.put_kept o.moment key hutc v.isTexts_toJson h.sound
  have hlast : lastHeld? key (ops ++ [o]) = some (v.toJson, o.now) := by
    rw [lastHeld?, lastStored?_append_singleton]
    simp [Timed.storing?, hop]
  simp only [Timed.perform, hop]
  exact ⟨congrArg Answer.stored hok, hsound, hlifetime.trans h.lifetime_eq, _, hheld,
    .inl hlast.symm⟩

theorem Tracks.load (h : Tracks lifetime s ops key) (hlate : ∀ p ∈ ops, p.now ≤ o.now)
    (hop : o.operation = .load key kind) :
    (o.perform s).1 = expected lifetime ops o ∧
      Tracks lifetime (o.perform s).2 (ops ++ [o]) key := by
  obtain ⟨entry, hentry, hlast⟩ := h.held
  obtain ⟨hsound, hlifetime⟩ := KeepingStore.get_sound o.moment key h.sound
  obtain ⟨hanswer, hheld⟩ := KeepingStore.get_kept o.moment key h.sound hentry
  rw [h.lifetime_eq] at hanswer hheld
  -- an entry that is gone has expired at an earlier operation, so at this one too
  have hsame : unexpired lifetime o.now entry = unexpired lifetime o.now (lastHeld? key ops) := by
    cases hlast with
    | inl hlast => rw [hlast]
    | inr hgone =>
      obtain ⟨rfl, p, hp, hexpired⟩ := hgone
      rw [unexpired_eq_none_mono (hlate p hp) hexpired]
      rfl
  have hstoring : o.storing? key = none := by simp [Timed.storing?, hop]
  simp only [Timed.perform, hop, expected]
  constructor
  · rw [hanswer, ← decoded?_unexpired, ← Timed.now, hsame]
    rfl
  · refine ⟨hsound, hlifetime.trans h.lifetime_eq, ?_⟩
    rw [lastHeld?_append_of_none hstoring]
    cases hheld with
    | inl hheld =>
      exact ⟨entry, hheld, hlast.imp_right fun ⟨hnone, p, hp, hexpired⟩ =>
        ⟨hnone, p, List.mem_append_left _ hp, hexpired⟩⟩
    | inr hgone =>
      exact ⟨none, hgone.1, .inr ⟨rfl, o, List.mem_append_right _ List.mem_cons_self,
        hsame.symm.trans hgone.2⟩⟩

theorem Timed.part_perform_of_ne (o : Timed) (s : σ) (h : place σ key ≠ place σ o.key) :
    part key (o.perform s).2 = part key s := by
  cases hop : o.operation with
  | store k v =>
    simp only [Timed.key, hop, Operation.key] at h
    simp only [perform, hop]
    exact PlacedStore.put_of_ne _ _ _ h
  | load k kind =>
    simp only [Timed.key, hop, Operation.key] at h
    simp only [perform, hop]
    exact PlacedStore.get_of_ne _ _ h

theorem Tracks.perform (h : Tracks lifetime s ops o.key) (hutc : o.moment.now.IsUtc)
    (hlate : ∀ p ∈ ops, p.now ≤ o.now) : (o.perform s).1 = expected lifetime ops o ∧
      Tracks lifetime (o.perform s).2 (ops ++ [o]) o.key := by
  cases hop : o.operation with
  | store k v =>
    have hkey : o.key = k := by simp [Timed.key, hop, Operation.key]
    rw [hkey] at h ⊢
    obtain ⟨hanswer, hafter⟩ := h.store hutc hop
    exact ⟨by rw [hanswer]; simp [expected, hop], hafter⟩
  | load k kind =>
    have hkey : o.key = k := by simp [Timed.key, hop, Operation.key]
    rw [hkey] at h ⊢
    exact h.load hlate hop

structure Clocked (ops : List Timed) : Prop where
  ascending : ops.Pairwise fun o p => o.now ≤ p.now
  utc : ∀ o ∈ ops, o.moment.now.IsUtc

theorem Clocked.sublist {ops before : List Timed} (h : Clocked ops) (hsub : before.Sublist ops) :
    Clocked before := ⟨h.ascending.sublist hsub, fun o ho => h.utc o (hsub.mem ho)⟩

theorem Clocked.le_last (h : Clocked (ops ++ [o])) : ∀ p ∈ ops, p.now ≤ o.now := fun p hp =>
  (List.pairwise_append.1 h.ascending).2.2 p hp o List.mem_cons_self

def Apart (σ : Type) [Store σ] [PlacedStore σ] (keys : List String) : Prop :=
  ∀ k ∈ keys, ∀ l ∈ keys, place σ k = place σ l → k = l

theorem tracks_after {keys : List String} (hapart : Apart σ keys)
    (hstart : ∀ key ∈ keys, Tracks lifetime s [] key) (hclock : Clocked ops)
    (hkeys : ∀ o ∈ ops, o.key ∈ keys) : ∀ key ∈ keys, Tracks lifetime (after s ops) ops key := by
  induction ops using List.reverseRecOn with
  | nil => exact hstart
  | append_singleton ops o ih =>
    have htracks := ih (hclock.sublist (List.sublist_append_left _ _))
      fun p hp => hkeys p (List.mem_append_left _ hp)
    have ho : o ∈ ops ++ [o] := List.mem_append_right _ List.mem_cons_self
    intro key hkey
    rw [after_append_singleton]
    by_cases heq : o.key = key
    · subst heq
      exact ((htracks _ hkey).perform (hclock.utc o ho) hclock.le_last).2
    · have hplace : place σ key ≠ place σ o.key := fun h =>
        heq (hapart key hkey o.key (hkeys o ho) h).symm
      exact (htracks key hkey).of_part_eq (o.part_perform_of_ne _ hplace) (Timed.storing?_of_ne heq)

theorem answerAfter_eq {keys : List String} (hapart : Apart σ keys)
    (hstart : ∀ key ∈ keys, Tracks lifetime s [] key) (hclock : Clocked (before ++ [o]))
    (hkeys : ∀ p ∈ before ++ [o], p.key ∈ keys) :
    answerAfter s before o = expected lifetime before o := by
  have ho : o ∈ before ++ [o] := List.mem_append_right _ List.mem_cons_self
  have htracks := tracks_after hapart hstart (hclock.sublist (List.sublist_append_left _ _))
    (fun p hp => hkeys p (List.mem_append_left _ hp)) o.key (hkeys o ho)
  exact (htracks.perform (hclock.utc o ho) hclock.le_last).1

end

def Disk.IsClear (key : String) (d : Disk) : Prop :=
  ∃ f, d.within (Directory.stem key) = some f ∧ f ".json" = none ∧
    ∀ rest, f rest ≠ some .directory

theorem Memory.tracks_empty (lifetime : Option Duration) (key : String) :
    Tracks lifetime (Memory.empty lifetime) [] key := ⟨trivial, rfl, none, rfl, .inl rfl⟩

theorem Directory.tracks_clear {disk : Disk} {key : String} (h : disk.IsClear key)
    (lifetime : Option Duration) : Tracks lifetime (Directory.mk disk lifetime) [] key := by
  obtain ⟨f, hwithin, hfile, hnone⟩ := h
  exact ⟨⟨f, hwithin, hnone⟩, rfl, none, ⟨f, hwithin, hfile⟩, .inl rfl⟩

theorem exists_of_lastStored? {key : String} {ops : List Timed} {v : Kept} {written : Int}
    (h : lastStored? key ops = some (v, written)) : ∃ o ∈ ops, o.now = written := by
  obtain ⟨o, ho, hstoring⟩ := List.exists_of_findSome?_eq_some h
  refine ⟨o, List.mem_reverse.1 ho, ?_⟩
  simp only [Timed.storing?] at hstoring
  split at hstoring
  · split at hstoring
    · cases hstoring
      rfl
    · cases hstoring
  · cases hstoring

/-- How a typed store answers an operation after others: a value comes back as the type that it was
last stored as until its lifetime is over, and operations on other keys make no difference. -/
structure AnswersRightly [Store σ] (lifetime : Option Duration) (s : σ) (before : List Timed)
    (o : Timed) : Prop where
  stored : ∀ key v, o.operation = .store key v → answerAfter s before o = .stored (.ok ())
  kept : ∀ key v written, o.operation = .load key v.kind →
    lastStored? key before = some (v, written) → (∀ d ∈ lifetime, o.now - written < d.nanoseconds) →
    answerAfter s before o = .loaded (some v)
  expired : ∀ key v written, o.operation = .load key v.kind →
    lastStored? key before = some (v, written) → (∃ d ∈ lifetime, d.nanoseconds ≤ o.now - written) →
    answerAfter s before o = .loaded none
  missed : ∀ key kind, o.operation = .load key kind → lastStored? key before = none →
    answerAfter s before o = .loaded none
  framed : answerAfter s (before.filter fun p => p.key = o.key) o = answerAfter s before o

theorem AnswersRightly.of_tracks [Store σ] [KeepingStore σ] {lifetime : Option Duration} {s : σ}
    {before : List Timed} {o : Timed} {keys : List String} (hapart : Apart σ keys)
    (hstart : ∀ key ∈ keys, Tracks lifetime s [] key) (hclock : Clocked (before ++ [o]))
    (hkeys : ∀ p ∈ before ++ [o], p.key ∈ keys) : AnswersRightly lifetime s before o := by
  have hanswer := answerAfter_eq hapart hstart hclock hkeys
  have hsub := (List.filter_sublist (l := before) (p := fun p => p.key = o.key)).append_right [o]
  have hframe := answerAfter_eq hapart hstart (hclock.sublist hsub)
    fun p hp => hkeys p (hsub.mem hp)
  have hlate {v : Kept} {written : Int} {key : String}
      (hlast : lastStored? key before = some (v, written)) : written ≤ o.now := by
    obtain ⟨p, hp, hnow⟩ := exists_of_lastStored? hlast
    exact hnow ▸ hclock.le_last p hp
  constructor
  · intro key v hop
    rw [hanswer]
    simp [expected, hop]
  · intro key v written hop hlast hfresh
    rw [hanswer, expected_loaded hop hlast rfl,
      (isExpired_eq_false_iff (hlate hlast)).2 hfresh]
    rfl
  · intro key v written hop hlast hover
    obtain ⟨d, hd, hover⟩ := hover
    rw [hanswer, expected_loaded hop hlast rfl]
    cases hexpired : isExpired lifetime written o.now with
    | true => rfl
    | false =>
      have hfresh := (isExpired_eq_false_iff (hlate hlast)).1 hexpired d hd
      omega
  · intro key kind hop hlast
    rw [hanswer, expected_missed hop hlast]
  · rw [hanswer, hframe, expected_filter]

/-- The store in memory and the one in a directory answer every operation alike. -/
theorem stores_agree {lifetime : Option Duration} {disk : Disk} {ops : List Timed}
    (hclock : Clocked ops)
    (hdigest : ∀ o ∈ ops, ∀ p ∈ ops,
      Digest.sha256 (Text.utf8 o.key) = Digest.sha256 (Text.utf8 p.key) → o.key = p.key)
    (hdisk : ∀ o ∈ ops, disk.IsClear o.key) :
    ∀ before o later, ops = before ++ o :: later →
      answerAfter (Memory.empty lifetime) before o =
        answerAfter (Directory.mk disk lifetime) before o ∧
      AnswersRightly lifetime (Memory.empty lifetime) before o ∧
      AnswersRightly lifetime (Directory.mk disk lifetime) before o := by
  intro before o later hops
  have hsub : (before ++ [o]).Sublist ops := by
    rw [hops]
    simp
  have hkeys : ∀ p ∈ before ++ [o], p.key ∈ ops.map Timed.key := fun p hp =>
    List.mem_map_of_mem (hsub.mem hp)
  have hmemory : Apart Memory (ops.map Timed.key) := fun k _ l _ h => h
  have hdirectory : Apart Directory (ops.map Timed.key) := by
    intro k hk l hl h
    obtain ⟨p, hp, rfl⟩ := List.mem_map.1 hk
    obtain ⟨q, hq, rfl⟩ := List.mem_map.1 hl
    exact hdigest p hp q hq (Digest.hex_injective h)
  have hempty : ∀ key ∈ ops.map Timed.key, Tracks lifetime (Memory.empty lifetime) [] key :=
    fun key _ => Memory.tracks_empty lifetime key
  have hclear : ∀ key ∈ ops.map Timed.key, Tracks lifetime (Directory.mk disk lifetime) [] key := by
    intro key hkey
    obtain ⟨p, hp, rfl⟩ := List.mem_map.1 hkey
    exact Directory.tracks_clear (hdisk p hp) lifetime
  have hclock := hclock.sublist hsub
  refine ⟨?_, .of_tracks hmemory hempty hclock hkeys, .of_tracks hdirectory hclear hclock hkeys⟩
  rw [answerAfter_eq hmemory hempty hclock hkeys, answerAfter_eq hdirectory hclear hclock hkeys]

def minute (n : Nat) : Moment := ⟨⟨2026, 7, 1, 12, n, 0, 0, 0⟩, 7⟩

def loadA (n : Nat) : Timed := ⟨minute n, .load "A" .outcome⟩

def threeStored : List Timed :=
  [⟨minute 0, .store "A" (.outcome (.found "L1"))⟩, ⟨minute 1, .store "B" (.outcome .notFound)⟩,
    loadA 2, ⟨minute 2, .store "A" (.outcome (.found "L2"))⟩]

theorem stores_agree_threeStored :
    answerAfter (Directory.mk .absent (some (.ofSeconds 120))) (threeStored.take 2) (loadA 2) =
        .loaded none ∧
      answerAfter (Directory.mk .absent (some (.ofSeconds 120))) threeStored (loadA 3) =
        .loaded (some (.outcome (.found "L2"))) := by
  have hclock : Clocked (threeStored ++ [loadA 3]) := by
    constructor
    · decide
    · decide
  have hdigest : ∀ o ∈ threeStored ++ [loadA 3], ∀ p ∈ threeStored ++ [loadA 3],
      Digest.sha256 (Text.utf8 o.key) = Digest.sha256 (Text.utf8 p.key) → o.key = p.key := by
    decide +kernel
  have hdisk : ∀ o ∈ threeStored ++ [loadA 3], Disk.absent.IsClear o.key := fun o _ =>
    ⟨_, rfl, rfl, by simp⟩
  have hagree := @stores_agree (some (.ofSeconds 120)) _ _ hclock hdigest hdisk
  obtain ⟨-, -, hfirst⟩ := hagree (threeStored.take 2) (loadA 2) _ rfl
  obtain ⟨-, -, hsecond⟩ := hagree threeStored (loadA 3) [] rfl
  exact ⟨hfirst.expired "A" (.outcome (.found "L1")) (minute 0).now.instant rfl rfl
      ⟨_, rfl, by decide⟩,
    hsecond.kept "A" (.outcome (.found "L2")) (minute 2).now.instant rfl rfl (by decide)⟩

end LegalEntity.Cache
