namespace LegalEntity.Text

/-- The property White_Space. -/
def isBlank (c : Char) : Bool :=
  let n := c.toNat
  (9 ≤ n && n ≤ 13) || n == 0x20 || n == 0x85 || n == 0xA0 || n == 0x1680
    || (0x2000 ≤ n && n ≤ 0x200A) || n == 0x2028 || n == 0x2029 || n == 0x202F
    || n == 0x205F || n == 0x3000

def pieces (p : Char → Bool) : List Char → List (List Char)
  | [] => [[]]
  | c :: cs => if p c then [] :: pieces p cs else (pieces p cs).modifyHead (c :: ·)

def words (s : List Char) : List (List Char) :=
  (pieces isBlank s).filter (!·.isEmpty)

def unwords (ws : List (List Char)) : List Char :=
  [' '].intercalate ws

def trimStart (p : Char → Bool) (s : List Char) : List Char := s.dropWhile p

def trimEnd (p : Char → Bool) (s : List Char) : List Char :=
  (s.reverse.dropWhile p).reverse

def trimBoth (p : Char → Bool) (s : List Char) : List Char := trimEnd p (trimStart p s)

def trim (s : List Char) : List Char := trimBoth isBlank s

theorem pieces_ne_nil (p : Char → Bool) (s : List Char) : pieces p s ≠ [] := by
  induction s with
  | nil => simp [pieces]
  | cons c cs ih =>
    simp only [pieces]
    split
    · simp
    · cases h : pieces p cs with
      | nil => exact absurd h ih
      | cons w ws => simp

theorem pieces_append_sep {p : Char → Bool} {c : Char} (h : p c = true) (s t : List Char) :
    pieces p (s ++ c :: t) = pieces p s ++ pieces p t := by
  induction s with
  | nil => simp [pieces, h]
  | cons d ds ih =>
    simp only [List.cons_append, pieces, ih]
    split
    · simp
    · cases hd : pieces p ds with
      | nil => exact absurd hd (pieces_ne_nil p ds)
      | cons w ws => simp

theorem words_append_blank {c : Char} (h : isBlank c = true) (s t : List Char) :
    words (s ++ c :: t) = words s ++ words t := by
  simp [words, pieces_append_sep h]

@[simp] theorem words_nil : words [] = [] := rfl

@[simp] theorem unwords_nil : unwords [] = [] := rfl

end LegalEntity.Text
