import LegalEntity.Json.Parser
import LegalEntity.Json.Printer
import LegalEntity.Proofs.Written.Utf8

namespace LegalEntity.Json.Parser

open Text (bytes bytes_cons)

section

variable {c : Char} {b e : UInt8} {bs s : Bytes} {ps : List Piece} {n : Nat}

def before (ps : List Piece) (r : List Piece × Bytes) : List Piece × Bytes := (ps ++ r.1, r.2)

theorem pieces?_byte (hlow : 0x20 ≤ b.toNat) (hquote : b ≠ 0x22) (hslash : b ≠ 0x5C) :
    pieces? (b :: s) = (pieces? s).map (before [.byte b]) := by
  have hb : ¬b < 0x20 := UInt8.not_lt.2 hlow
  rw [pieces?]
  · simp only [hb, beq_eq_false_iff_ne.2 hslash]
    cases pieces? s <;> rfl
  · exact hquote
  · intro a b c d rest hb
    exact absurd hb hslash
  · intro e rest hb
    exact absurd hb hslash

theorem pieces?_bytes (h : ∀ b ∈ bs, 0x20 ≤ b.toNat ∧ b ≠ 0x22 ∧ b ≠ 0x5C) :
    pieces? (bs ++ s) = (pieces? s).map (before (bs.map .byte)) := by
  induction bs with
  | nil =>
    simp only [List.nil_append, List.map_nil]
    cases pieces? s <;> rfl
  | cons b bs ih =>
    obtain ⟨hlow, hquote, hslash⟩ := h b List.mem_cons_self
    rw [List.cons_append, pieces?_byte hlow hquote hslash,
      ih fun d hd => h d (List.mem_cons_of_mem b hd), Option.map_map]
    rfl

theorem pieces?_escaped (he : escaped? e = some b) (hu : e ≠ 0x75) :
    pieces? (0x5C :: e :: s) = (pieces? s).map (before [.byte b]) := by
  rw [pieces?]
  · simp only [he]
    cases pieces? s <;> rfl
  · intro a b c d rest he
    exact absurd he hu

theorem pieces?_unit {h l : UInt8} (hn : unit? 0x30 0x30 h l = some n) :
    pieces? (0x5C :: 0x75 :: 0x30 :: 0x30 :: h :: l :: s) = (pieces? s).map (before [.unit n]) := by
  simp only [pieces?, hn]
  cases pieces? s <;> rfl

theorem pieceBytes?_bytes (bs : Bytes) (ps : List Piece) :
    pieceBytes? (bs.map .byte ++ ps) = (pieceBytes? ps).map (bs ++ ·) := by
  induction bs with
  | nil => simp
  | cons b bs ih =>
    rw [List.map_cons, List.cons_append, pieceBytes?, ih]
    cases pieceBytes? ps <;> rfl

theorem pieceBytes?_unit (hn : n < 0xD800) (ps : List Piece) :
    pieceBytes? (.unit n :: ps) =
      (pieceBytes? ps).map (String.utf8EncodeChar (Char.ofNat n) ++ ·) := by
  rw [pieceBytes?.eq_def]
  simp only [hn, decide_true, Bool.true_or, if_true]
  cases pieceBytes? ps <;> rfl

structure Spells (ps : List Piece) (c : Char) : Prop where
  read : ∀ s, pieces? (bytes (escapeChar c) ++ s) = (pieces? s).map (before ps)
  encode : ∀ qs, pieceBytes? (ps ++ qs) = (pieceBytes? qs).map (String.utf8EncodeChar c ++ ·)

theorem spells_short {x : Char} (hescape : escapeChar c = ['\\', x])
    (hx : String.utf8EncodeChar x = [e]) (hc : String.utf8EncodeChar c = [b])
    (he : escaped? e = some b) (hu : e ≠ 0x75) : Spells [.byte b] c where
  read s := by
    rw [hescape, bytes_cons, bytes_cons, hx]
    exact pieces?_escaped he hu
  encode qs := by
    rw [hc]
    exact pieceBytes?_bytes [b] qs

def hexByte (n : Nat) : UInt8 := (hexChar n).toNat.toUInt8

theorem unit?_hexByte : ∀ n < 0x20,
    bytes ['\\', 'u', '0', '0', hexChar (n / 16), hexChar (n % 16)] =
      [0x5C, 0x75, 0x30, 0x30, hexByte (n / 16), hexByte (n % 16)] ∧
    unit? 0x30 0x30 (hexByte (n / 16)) (hexByte (n % 16)) = some n := by
  decide

theorem spells_control (hn : c.toNat < 0x20)
    (hescape : escapeChar c =
      ['\\', 'u', '0', '0', hexChar (c.toNat / 16), hexChar (c.toNat % 16)]) :
    Spells [.unit c.toNat] c where
  read s := by
    obtain ⟨hbytes, hunit⟩ := unit?_hexByte _ hn
    rw [hescape, hbytes]
    exact pieces?_unit hunit
  encode qs := by
    rw [List.cons_append, pieceBytes?_unit (by omega), Char.ofNat_toNat]
    rfl

theorem spells_itself (hescape : escapeChar c = [c]) (hlow : 0x20 ≤ c.toNat) (hquote : c ≠ '"')
    (hslash : c ≠ '\\') : Spells ((String.utf8EncodeChar c).map .byte) c where
  read s := by
    rw [hescape, bytes_cons, Text.bytes_nil, List.append_nil]
    apply pieces?_bytes
    intro b hb
    by_cases hc : c.toNat < 0x80
    · rw [Text.utf8EncodeChar_of_lt hc, List.mem_singleton] at hb
      have hb : b.toNat = c.toNat := by
        rw [hb, Nat.toUInt8_eq, UInt8.toNat_ofNat', Nat.mod_eq_of_lt (by omega)]
      refine ⟨by omega, ?_, ?_⟩
      · rintro rfl
        exact hquote (Char.toNat_inj.1 hb.symm)
      · rintro rfl
        exact hslash (Char.toNat_inj.1 hb.symm)
    · have hb := Text.le_of_mem_utf8EncodeChar (Nat.not_lt.1 hc) hb
      refine ⟨by omega, ?_, ?_⟩
      all_goals
        rintro rfl
        exact absurd hb (by decide)
  encode qs := pieceBytes?_bytes _ qs

def lettered : List Nat := [0x08, 0x09, 0x0A, 0x0C, 0x0D]

theorem exists_spells_lettered (h : n ∈ lettered) : ∃ ps, Spells ps (Char.ofNat n) := by
  simp only [lettered, List.mem_cons, List.not_mem_nil, or_false] at h
  rcases h with rfl | rfl | rfl | rfl | rfl
  · exact ⟨_, spells_short (x := 'b') rfl rfl rfl rfl (by decide)⟩
  · exact ⟨_, spells_short (x := 't') rfl rfl rfl rfl (by decide)⟩
  · exact ⟨_, spells_short (x := 'n') rfl rfl rfl rfl (by decide)⟩
  · exact ⟨_, spells_short (x := 'f') rfl rfl rfl rfl (by decide)⟩
  · exact ⟨_, spells_short (x := 'r') rfl rfl rfl rfl (by decide)⟩

theorem escapeChar_of_not_lettered (hquote : c ≠ '"') (hslash : c ≠ '\\')
    (h : c.toNat ∉ lettered) : escapeChar c =
      if c.toNat < 0x20 then
        ['\\', 'u', '0', '0', hexChar (c.toNat / 16), hexChar (c.toNat % 16)]
      else [c] := by
  simp only [lettered, List.mem_cons, List.not_mem_nil, or_false, not_or] at h
  obtain ⟨h8, h9, hA, hC, hD⟩ := h
  rw [escapeChar, if_neg hquote, if_neg hslash, if_neg h8, if_neg h9, if_neg hA, if_neg hC,
    if_neg hD]

theorem exists_spells (c : Char) : ∃ ps, Spells ps c := by
  by_cases hquote : c = '"'
  · subst hquote
    exact ⟨_, spells_short (x := '"') rfl rfl rfl rfl (by decide)⟩
  by_cases hslash : c = '\\'
  · subst hslash
    exact ⟨_, spells_short (x := '\\') rfl rfl rfl rfl (by decide)⟩
  by_cases hletter : c.toNat ∈ lettered
  · have hspells := exists_spells_lettered hletter
    rwa [Char.ofNat_toNat] at hspells
  · have hescape := escapeChar_of_not_lettered hquote hslash hletter
    by_cases hlow : c.toNat < 0x20
    · rw [if_pos hlow] at hescape
      exact ⟨_, spells_control hlow hescape⟩
    · rw [if_neg hlow] at hescape
      exact ⟨_, spells_itself hescape (Nat.not_lt.1 hlow) hquote hslash⟩

theorem exists_pieces (cs : List Char) (s : Bytes) :
    ∃ ps, pieces? (bytes (cs.flatMap escapeChar) ++ 0x22 :: s) = some (ps, s) ∧
      pieceBytes? ps = some (bytes cs) := by
  induction cs with
  | nil => exact ⟨[], rfl, rfl⟩
  | cons c cs ih =>
    obtain ⟨qs, hread, hencode⟩ := ih
    obtain ⟨ps, hc⟩ := exists_spells c
    refine ⟨ps ++ qs, ?_, ?_⟩
    · rw [List.flatMap_cons, Text.bytes_append, List.append_assoc, hc.read, hread]
      rfl
    · rw [hc.encode, hencode]
      rfl

theorem string?_written (cs : List Char) (s : Bytes) :
    string? (bytes (cs.flatMap escapeChar) ++ 0x22 :: s) = some (some (String.ofList cs), s) := by
  obtain ⟨ps, hread, hencode⟩ := exists_pieces cs s
  simp [string?, hread, hencode]

end

end LegalEntity.Json.Parser
