import LegalEntity.Proofs.Cache.Holds
import LegalEntity.Proofs.Reference.Directories

namespace LegalEntity.Resolver

section

variable {σ α : Type} {w : Surroundings σ} {r : StatelessRegistry} {s : Settings α}
  {given : σ → String → Json → Prop} {i : Nat} {x y : Shared} {o p : σ}

def Garbled (s : Settings α) (key : String) (v : Json) : Prop :=
  if s.indexKey = some key then IsinIndex.ofDocument? v.toDocument = none
  else NameOutcome.ofDocument? v.toDocument = none

/-- Any read may fail or find nothing, any write may fail. What is read under a key was `given` for
that key at some time, or nobody can decode it. Nothing but the cache has faults: a scratch directory
is granted to all who ask. -/
structure Surroundings.Faulty (w : Surroundings σ) (r : StatelessRegistry) (s : Settings α)
    (given : σ → String → Json → Prop) : Prop where
  reads : ∀ {o p : σ} {key : String} {v : Json}, w.reads o key (.ok (some v)) p →
    given o key v ∨ Garbled s key v
  reads_given : ∀ {o p : σ} {key : String} {a : Except Cache.Error (Option Json)},
    w.reads o key a p → ∀ k u, given p k u → given o k u
  writes : ∀ {o p : σ} {key : String} {v : Json} {a : Except Cache.Error Unit},
    w.writes o key v a p → ∀ k u, given p k u → given o k u ∨ (k = key ∧ u = v)
  replies : ∀ {o p : σ} {url : String} {parameters : Registry.Parameters} {a : Registry.Outcome},
    w.replies o url parameters a p → a = r.reply url parameters
  replies_given : ∀ {o p : σ} {url : String} {parameters : Registry.Parameters}
    {a : Registry.Outcome}, w.replies o url parameters a p → ∀ k u, given p k u → given o k u
  delivers : ∀ {o p : σ} {url : String} {a : Except Error Unit} {file : Option (List UInt8)},
    w.delivers o url a file p → (a, file) = r.archive url
  delivers_given : ∀ {o p : σ} {url : String} {a : Except Error Unit} {file : Option (List UInt8)},
    w.delivers o url a file p → ∀ k u, given p k u → given o k u
  grants : ∀ o, ¬w.refuses o

def Surroundings.faulty (r : StatelessRegistry) (s : Settings α) :
    Surroundings (List (String × Json)) where
  reads given key a given' := given' = given ∧
    ∀ v, a = .ok (some v) → (key, v) ∈ given ∨ Garbled s key v
  writes given key v _ given' := given' = (key, v) :: given
  replies given url parameters a given' := given' = given ∧ a = r.reply url parameters
  delivers given url a file given' := given' = given ∧ (a, file) = r.archive url
  refuses _ := False

theorem Surroundings.faulty_faulty (r : StatelessRegistry) (s : Settings α) :
    (Surroundings.faulty r s).Faulty r s fun given key v => (key, v) ∈ given where
  reads h := h.2 _ rfl
  reads_given h _ _ hgiven := h.1 ▸ hgiven
  writes h k u hgiven := by
    rw [h] at hgiven
    cases List.mem_cons.1 hgiven with
    | inl heq =>
      cases heq
      exact .inr ⟨rfl, rfl⟩
    | inr hgiven => exact .inl hgiven
  replies h := h.2
  replies_given h _ _ hgiven := h.1 ▸ hgiven
  delivers h := h.2
  delivers_given h _ _ hgiven := h.1 ▸ hgiven
  grants _ := id

def Surroundings.storing [Cache.Store σ] (r : StatelessRegistry) : Surroundings σ where
  reads o key a p := ∃ m, Cache.Store.get m key o = (a, p)
  writes o key v a p := ∃ m, Cache.Store.put m key v o = (a, p)
  replies o url parameters a p := p = o ∧ a = r.reply url parameters
  delivers o url a file p := p = o ∧ (a, file) = r.archive url
  refuses _ := False

theorem Surroundings.storing_memory (r : StatelessRegistry) (s : Settings α) :
    (Surroundings.storing r).Faulty r s Cache.Memory.holds where
  reads := fun ⟨_, h⟩ => .inl ((Cache.Memory.holds_of_get h).1 _ rfl)
  reads_given := fun ⟨_, h⟩ => (Cache.Memory.holds_of_get h).2
  writes := fun ⟨_, h⟩ => Cache.Memory.holds_of_put h
  replies h := h.2
  replies_given h _ _ hgiven := h.1 ▸ hgiven
  delivers h := h.2
  delivers_given h _ _ hgiven := h.1 ▸ hgiven
  grants _ := id

theorem Surroundings.Faulty.addsWritten (hw : w.Faulty r s given) : w.AddsWritten given where
  reads_given := hw.reads_given
  writes := hw.writes
  replies_given := hw.replies_given
  delivers_given := hw.delivers_given

end

section

variable {σ α β : Type} [Scalar α] {w : Surroundings σ} {r : StatelessRegistry} {s : Settings α}
  {given : σ → String → Json → Prop} {names : String → Prop} {i : Nat}

theorem Garbled.sound {key : String} {v : Json} (h : Garbled s key v) : Sound r s names key v where
  index hkey x hx := by
    rw [Garbled, if_pos hkey] at h
    rw [h] at hx
    cases hx
  outcome hkey name hname hname' outcome houtcome := by
    rw [Garbled, if_neg hkey] at h
    rw [h] at houtcome
    cases houtcome

def State.scratches (r : StatelessRegistry) (s : Settings α) (names : String → Prop)
    (t : State σ β) (i : Nat) : Scratch :=
  (valueContract r s names).place i t.log

structure Truthful (r : StatelessRegistry) (s : Settings α) (names : String → Prop)
    (given : σ → String → Json → Prop) (t : State σ β) : Prop where
  given : ∀ key v, given t.outside key v → Sound r s names key v
  index : ∀ x, t.shared.index = .ready x → x = r.index? s
  directories : Directories (t.scratches r s names) t.shared

variable {t : State σ β} {op : Op} {next : op.Answer → Dialogue β} {a : op.Answer}

theorem State.scratches_goOn (shared : Shared) (outside : σ) :
    (t.goOn i op next a shared outside).scratches r s names =
      Function.update (t.scratches r s names) i
        ((valueContract r s names).next (t.scratches r s names i) op a) := by
  funext j
  by_cases hji : j = i
  · subst hji
    rw [Function.update_self]
    exact Contract.place_cons_self ..
  · rw [Function.update_of_ne hji]
    exact Contract.place_cons_of_ne _ (Ne.symm hji) ..

variable {shared : Shared} {outside : σ}

theorem Truthful.expected (ht : Truthful r s names given t) (hw : w.Faulty r s given)
    (h : w.Serves i op a (t.shared, t.outside) (shared, outside)) :
    (valueContract r s names).expects (t.scratches r s names i) op a := by
  cases op with
  | lookUp key =>
    rintro v rfl
    cases hw.reads h.1 with
    | inl hv => exact ht.given key v hv
    | inr hv => exact hv.sound
  | fetch url parameters => exact hw.replies h.1
  | download url scratch =>
    obtain ⟨file, h, -⟩ := h
    exact congrArg Prod.fst (hw.delivers h)
  | claimIndex =>
    rintro x rfl
    rcases h.claimIndex with ⟨-, hload, -⟩ | ⟨y, hcell, hready, -⟩
    · cases hload
    · cases hready
      exact ht.index _ hcell
  | readScratch scratch =>
    intro content hcontent
    obtain ⟨h, -⟩ := h
    cases h
    rw [ht.directories.found hcontent]
    rfl
  | openScratch =>
    rcases h.openScratch_eq with ⟨hopened, -⟩ | ⟨hrefuses, -⟩
    · exact ⟨_, hopened⟩
    · exact absurd hrefuses (hw.grants _)
  | _ => trivial

theorem Truthful.directories_goOn (ht : Truthful r s names given t) (hw : w.Faulty r s given)
    (hop : (valueContract r s names).allows (t.scratches r s names i) op)
    (h : w.Serves i op a (t.shared, t.outside) (shared, outside)) :
    Directories (Function.update (t.scratches r s names) i
      ((valueContract r s names).next (t.scratches r s names i) op a)) shared := by
  have hd := ht.directories
  -- All but three operations leave the directories as they are, here and in the contract.
  have stays (hnext : (valueContract r s names).next (t.scratches r s names i) op a =
      t.scratches r s names i) (hopen : op ≠ .openScratch) (hdownload : op.isDownload = false)
      (hclose : ∀ n, op ≠ .closeScratch n) : Directories (Function.update (t.scratches r s names) i
        ((valueContract r s names).next (t.scratches r s names i) op a)) shared := by
    obtain ⟨hscratch, hscratches⟩ := h.scratch_eq hopen hdownload hclose
    rw [hnext, Function.update_eq_self]
    exact hd.congr hscratch hscratches
  cases op with
  | openScratch =>
    rcases h.openScratch_eq with ⟨rfl, rfl⟩ | ⟨hrefuses, -⟩
    · exact hd.openScratch i
    · exact absurd hrefuses (hw.grants _)
  | download url scratch =>
    obtain ⟨file, hdelivers, hshared⟩ := h
    have hnext : (valueContract r s names).next (t.scratches r s names i) (.download url scratch) a =
        some (scratch, file) := by
      rw [hop]
      show some (scratch, (r.archive url).2) = some (scratch, file)
      rw [← hw.delivers hdelivers]
    rw [hnext, show shared = t.shared.deliver scratch file from hshared]
    exact hd.deliver hop file
  | closeScratch scratch =>
    obtain ⟨content, hcontent⟩ := hop
    obtain ⟨h, -⟩ := h
    cases h
    exact hd.closeScratch hcontent
  | _ => exact stays rfl nofun rfl nofun

theorem Truthful.index_goOn (ht : Truthful r s names given t)
    (hop : (valueContract r s names).allows (t.scratches r s names i) op)
    (h : w.Serves i op a (t.shared, t.outside) (shared, outside)) (x : Option IsinIndex)
    (hx : shared.index = .ready x) : x = r.index? s := by
  by_cases hclaim : op = .claimIndex
  · subst hclaim
    rcases h.claimIndex with ⟨-, -, hcell⟩ | ⟨y, hcell, -, hcell'⟩
    · rw [hcell] at hx
      cases hx
    · rw [hcell'] at hx
      cases hx
      exact ht.index _ hcell
  · cases op with
    | publishIndex y =>
      rw [h.publishIndex] at hx
      cases hx
      exact hop
    | _ =>
      rw [h.index_eq hclaim nofun] at hx
      exact ht.index x hx

theorem Truthful.goOn (ht : Truthful r s names given t) (hw : w.Faulty r s given)
    (hop : (valueContract r s names).allows (t.scratches r s names i) op)
    (h : w.Serves i op a (t.shared, t.outside) (shared, outside)) :
    Truthful r s names given (t.goOn i op next a shared outside) where
  given key v hv := by
    cases hw.addsWritten.given_of h hv with
    | inl hv => exact ht.given key v hv
    | inr hkeep =>
      subst hkeep
      exact hop
  index := ht.index_goOn hop h
  directories := by
    rw [State.scratches_goOn]
    exact ht.directories_goOn hw hop h

theorem Truthful.wait (ht : Truthful r s names given t)
    (hb : t.shared.serve i op = some (.blocked shared)) :
    Truthful r s names given { t with shared } where
  given := ht.given
  index x hx := ht.index x ((Shared.index_of_blocked hb).symm.trans hx)
  directories := by
    obtain ⟨hscratch, hscratches⟩ := Shared.scratch_of_blocked hb
    exact ht.directories.congr hscratch hscratches

theorem Truthful.invariant {post : Nat → β → Scratch → Prop} (hw : w.Faulty r s given) :
    Invariant w (fun _ => valueContract r s names) post (Truthful r s names given) where
  answer ht hf hi h := ⟨ht.expected hw h, ht.goOn hw (hf.allows ⟨_, hi⟩) h⟩
  wait ht _ _ hb := ht.wait hb

end

end LegalEntity.Resolver
