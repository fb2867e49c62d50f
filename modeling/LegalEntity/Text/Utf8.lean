namespace LegalEntity.Text

def ofUtf8? (s : List UInt8) : Option String := String.fromUTF8? ⟨s.toArray⟩

def utf8 (s : String) : List UInt8 := s.toUTF8.data.toList

/-- Length of a well-formed character, or of the longest start of one, at the front; with it
whether the character is whole. -/
def leading : List UInt8 → Nat × Bool
  | [] => (0, false)
  | a :: s =>
    let more (b : UInt8) := 0x80 ≤ b && b ≤ 0xBF
    let second (b : UInt8) :=
      more b && (a != 0xE0 || 0xA0 ≤ b) && (a != 0xED || b ≤ 0x9F) && (a != 0xF0 || 0x90 ≤ b)
        && (a != 0xF4 || b ≤ 0x8F)
    let size := if a < 0x80 then 1 else if a < 0xC2 then 0 else if a < 0xE0 then 2
      else if a < 0xF0 then 3 else if a < 0xF5 then 4 else 0
    if size ≤ 1 then (1, size = 1)
    else
      let rest := s.take (size - 1)
      let fits := match rest with
        | [] => 0
        | b :: bs => if second b then 1 + (bs.takeWhile more).length else 0
      (1 + fits, 1 + fits = size)

def ofUtf8Lossy (s : List UInt8) : String := go s.length s
where
  go : Nat → List UInt8 → String
    | 0, _ => ""
    | fuel + 1, s =>
      if s.isEmpty then ""
      else
        let (n, whole) := leading s
        let c := if whole then (ofUtf8? (s.take n)).getD "\uFFFD" else "\uFFFD"
        c ++ go fuel (s.drop n)

end LegalEntity.Text
