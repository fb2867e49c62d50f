import LegalEntity.Proofs.Written.Strings

namespace LegalEntity.Json

open Text (bytes bytes_cons)

mutual

def isWordy : Json → Bool
  | .number _ => false
  | .array items => areWordy items
  | .object members => areWordyMembers members
  | _ => true

def areWordy : List Json → Bool
  | [] => true
  | v :: vs => v.isWordy && areWordy vs

def areWordyMembers : List (String × Json) → Bool
  | [] => true
  | (_, v) :: ms => v.isWordy && areWordyMembers ms

end

namespace Parser

section

variable {fuel : Nat} {s rest : Bytes}

theorem string?_stringText (text : String) (s : Bytes) :
    ∃ rest, bytes (stringText text) ++ s = 0x22 :: rest ∧ string? rest = some (some text, s) := by
  refine ⟨bytes (text.toList.flatMap escapeChar) ++ 0x22 :: s, ?_, ?_⟩
  · rw [stringText, List.cons_append, bytes_cons, Text.bytes_append, List.append_assoc,
      List.append_assoc]
    rfl
  · rw [string?_written, String.ofList_toList]

theorem string?_memberName (name : String) (tail : List Char) (s : Bytes) :
    ∃ rest, bytes (stringText name ++ ':' :: tail) ++ s = 0x22 :: rest ∧
      string? rest = some (some name, 0x3A :: (bytes tail ++ s)) := by
  obtain ⟨rest, hbytes, hrest⟩ := string?_stringText name (0x3A :: (bytes tail ++ s))
  refine ⟨rest, ?_, hrest⟩
  rw [← hbytes, Text.bytes_append, List.append_assoc]
  rfl

def starts (b : UInt8) : Bool := !isSpace b && b != 0x5D

theorem skipSpace_cons {b : UInt8} (h : isSpace b = false) (s : Bytes) :
    skipSpace (b :: s) = b :: s := by
  simp [skipSpace, h]

theorem print_starts {v : Json} (h : v.isWordy = true) :
    ∃ b rest, bytes v.print = b :: rest ∧ starts b = true := by
  cases v with
  | null => exact ⟨0x6E, _, rfl, rfl⟩
  | bool b => cases b <;> exact ⟨_, _, rfl, rfl⟩
  | number n => cases h
  | string t => exact ⟨0x22, _, rfl, rfl⟩
  | array items => exact ⟨0x5B, _, rfl, rfl⟩
  | object members => exact ⟨0x7B, _, rfl, rfl⟩

section

variable {d : Document} {name : Option String} {t : Bytes}

theorem document?_array (hspace : skipSpace rest = rest) (hend : rest.head? ≠ some 0x5D) :
    document? (fuel + 1) (0x5B :: rest) =
      (items? fuel rest).map fun r => (.array r.1, r.2) := by
  rw [document?, skipSpace_cons rfl]
  simp only [hspace]
  split
  · exact absurd rfl hend
  · cases items? fuel rest <;> rfl

theorem document?_object (hspace : skipSpace rest = rest) (hend : rest.head? ≠ some 0x7D) :
    document? (fuel + 1) (0x7B :: rest) =
      (members? fuel rest).map fun r => (.object r.1, r.2) := by
  rw [document?, skipSpace_cons rfl]
  simp only [hspace]
  split
  · exact absurd rfl hend
  · cases members? fuel rest <;> rfl

theorem items?_last (h : document? fuel s = some (d, 0x5D :: rest)) :
    items? (fuel + 1) s = some ([d], rest) := by
  rw [items?, h]
  rfl

theorem items?_more (h : document? fuel s = some (d, 0x2C :: rest)) :
    items? (fuel + 1) s = (items? fuel rest).map fun r => (d :: r.1, r.2) := by
  have hcomma : isSpace 0x2C = false := rfl
  simp only [items?, h, Option.bind_eq_bind, Option.bind_some, skipSpace_cons hcomma]
  cases items? fuel rest <;> rfl

theorem members?_last (hname : string? s = some (name, 0x3A :: t))
    (h : document? fuel t = some (d, 0x7D :: rest)) :
    members? (fuel + 1) (0x22 :: s) = some ([(name, d)], rest) := by
  have hcolon : isSpace 0x3A = false := rfl
  rw [members?, skipSpace_cons rfl]
  simp only [hname, h, Option.bind_eq_bind, Option.bind_some, skipSpace_cons hcolon]
  rfl

theorem members?_more (hname : string? s = some (name, 0x3A :: t))
    (h : document? fuel t = some (d, 0x2C :: rest)) :
    members? (fuel + 1) (0x22 :: s) =
      (members? fuel rest).map fun r => ((name, d) :: r.1, r.2) := by
  have hcolon : isSpace 0x3A = false := rfl
  have hcomma : isSpace 0x2C = false := rfl
  rw [members?, skipSpace_cons rfl]
  simp only [hname, h, Option.bind_eq_bind, Option.bind_some, skipSpace_cons hcolon,
    skipSpace_cons hcomma]
  cases members? fuel rest <;> rfl

end

theorem items_start {v : Json} (h : v.isWordy = true) (vs : List Json) (s : Bytes) :
    skipSpace (bytes (printItems (v :: vs)) ++ s) = bytes (printItems (v :: vs)) ++ s ∧
      (bytes (printItems (v :: vs)) ++ s).head? ≠ some 0x5D := by
  obtain ⟨b, rest, hv, hb⟩ := print_starts h
  have hcons : ∃ tail, bytes (printItems (v :: vs)) ++ s = b :: tail := by
    cases vs with
    | nil => exact ⟨_, by rw [printItems, Text.bytes_append, hv]; rfl⟩
    | cons w vs => exact ⟨_, by rw [printItems, Text.bytes_append, hv]; rfl⟩
  obtain ⟨tail, htail⟩ := hcons
  simp only [starts, Bool.and_eq_true, Bool.not_eq_true', bne_iff_ne] at hb
  rw [htail]
  exact ⟨skipSpace_cons hb.1 tail, by simpa using hb.2⟩

theorem members_start (name : String) (v : Json) (ms : List (String × Json)) (s : Bytes) :
    ∃ rest, bytes (printMembers ((name, v) :: ms)) ++ s = 0x22 :: rest := by
  cases ms with
  | nil => exact ⟨_, rfl⟩
  | cons m ms => exact ⟨_, rfl⟩

structure Inverse (fuel : Nat) : Prop where
  document : ∀ v : Json, v.isWordy = true → v.print.length ≤ fuel → ∀ s,
    document? fuel (bytes v.print ++ s) = some (v.toDocument, s)
  items : ∀ v vs, areWordy (v :: vs) = true → (printItems (v :: vs)).length ≤ fuel → ∀ s,
    items? fuel (bytes (printItems (v :: vs)) ++ s) = some (toDocuments (v :: vs), s)
  members : ∀ name v ms, areWordyMembers ((name, v) :: ms) = true →
    (printMembers ((name, v) :: ms)).length ≤ fuel → ∀ s,
    members? fuel (bytes (printMembers ((name, v) :: ms)) ++ s) =
      some (toMembers ((name, v) :: ms), s)

theorem Inverse.document_succ (h : Inverse fuel) {v : Json} (hv : v.isWordy = true)
    (hfuel : v.print.length ≤ fuel + 1) (s : Bytes) :
    document? (fuel + 1) (bytes v.print ++ s) = some (v.toDocument, s) := by
  cases v with
  | null => rfl
  | bool b => cases b <;> rfl
  | number n => cases hv
  | string t =>
    obtain ⟨rest, hbytes, hrest⟩ := string?_stringText t s
    rw [print, hbytes, document?, skipSpace_cons rfl]
    simp [hrest, toDocument]
  | array items =>
    cases items with
    | nil => rfl
    | cons w ws =>
      have hw : w.isWordy = true := (Bool.and_eq_true_iff.1 hv).1
      obtain ⟨hspace, hend⟩ := items_start hw ws s
      have hbytes : bytes (print (.array (w :: ws))) ++ s =
          0x5B :: (bytes (printItems (w :: ws)) ++ s) := rfl
      rw [hbytes, document?_array hspace hend,
        h.items w ws hv (Nat.le_of_succ_le_succ hfuel) s]
      rfl
  | object members =>
    cases members with
    | nil => rfl
    | cons m ms =>
      obtain ⟨name, w⟩ := m
      obtain ⟨rest, hrest⟩ := members_start name w ms s
      have hmembers := h.members name w ms hv (Nat.le_of_succ_le_succ hfuel) s
      have hbytes : bytes (print (.object ((name, w) :: ms))) ++ s =
          0x7B :: (bytes (printMembers ((name, w) :: ms)) ++ s) := rfl
      rw [hrest] at hmembers
      rw [hbytes, hrest, document?_object (skipSpace_cons rfl rest) (by simp), hmembers]
      rfl

theorem Inverse.items_succ (h : Inverse fuel) {v : Json} {vs : List Json}
    (hwordy : areWordy (v :: vs) = true) (hfuel : (printItems (v :: vs)).length ≤ fuel + 1)
    (s : Bytes) : items? (fuel + 1) (bytes (printItems (v :: vs)) ++ s) =
      some (toDocuments (v :: vs), s) := by
  obtain ⟨hv, hvs⟩ := Bool.and_eq_true_iff.1 hwordy
  cases vs with
  | nil =>
    rw [printItems, List.length_append] at hfuel
    rw [printItems, Text.bytes_append, List.append_assoc]
    exact items?_last (h.document v hv (Nat.le_of_succ_le_succ hfuel) _)
  | cons w ws =>
    rw [printItems, List.length_append, List.length_cons] at hfuel
    have hitem := h.document v hv (by omega) (0x2C :: (bytes (printItems (w :: ws)) ++ s))
    rw [printItems, Text.bytes_append, List.append_assoc]
    refine (items?_more hitem).trans ?_
    rw [h.items w ws hvs (by omega) s]
    rfl

theorem Inverse.members_succ (h : Inverse fuel) {name : String} {v : Json}
    {ms : List (String × Json)} (hwordy : areWordyMembers ((name, v) :: ms) = true)
    (hfuel : (printMembers ((name, v) :: ms)).length ≤ fuel + 1) (s : Bytes) :
    members? (fuel + 1) (bytes (printMembers ((name, v) :: ms)) ++ s) =
      some (toMembers ((name, v) :: ms), s) := by
  obtain ⟨hv, hms⟩ := Bool.and_eq_true_iff.1 hwordy
  cases ms with
  | nil =>
    simp only [printMembers, List.append_assoc, List.cons_append, List.length_append,
      List.length_cons] at hfuel ⊢
    obtain ⟨rest, hbytes, hname⟩ := string?_memberName name (v.print ++ ['\x7d']) s
    rw [Text.bytes_append, List.append_assoc] at hname
    rw [hbytes, members?_last hname (h.document v hv (by omega) (0x7D :: s))]
    rfl
  | cons m ms =>
    obtain ⟨other, w⟩ := m
    simp only [printMembers, List.append_assoc, List.cons_append, List.length_append,
      List.length_cons] at hfuel ⊢
    obtain ⟨rest, hbytes, hname⟩ :=
      string?_memberName name (v.print ++ ',' :: printMembers ((other, w) :: ms)) s
    rw [Text.bytes_append, List.append_assoc] at hname
    have hvalue := h.document v hv (by omega)
      (0x2C :: (bytes (printMembers ((other, w) :: ms)) ++ s))
    rw [hbytes, members?_more hname hvalue, h.members other w ms hms (by omega) s]
    rfl

/-- One unit of fuel for each character written is enough. The three go down together. -/
theorem inverse (fuel : Nat) : Inverse fuel := by
  induction fuel with
  | zero =>
    constructor
    · intro v hv hfuel
      obtain ⟨b, rest, hbytes, -⟩ := print_starts hv
      rw [List.eq_nil_of_length_eq_zero (Nat.le_zero.1 hfuel)] at hbytes
      cases hbytes
    · intro v vs hv hfuel
      cases vs <;> simp [printItems] at hfuel
    · intro name v ms hv hfuel
      cases ms <;> simp [printMembers] at hfuel
  | succ fuel ih =>
    exact ⟨fun v hv hfuel => ih.document_succ hv hfuel, fun v vs hv hfuel => ih.items_succ hv hfuel,
      fun name v ms hv hfuel => ih.members_succ hv hfuel⟩

end

end Parser

theorem parse?_render {v : Json} (h : v.isWordy = true) :
    parse? (Text.utf8 v.render) = some v.toDocument := by
  have hlength := Text.length_le_bytes v.print
  have hread := (Parser.inverse (2 * (bytes v.print).length + 2)).document v h (by omega) []
  rw [List.append_nil] at hread
  rw [parse?, render, Text.utf8_ofList, hread]
  rfl

end LegalEntity.Json
