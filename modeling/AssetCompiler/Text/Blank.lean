/-! # Blank characters and trimming

A character is blank when it has the White_Space property. Trimming removes blanks
from both ends of a text and leaves the inside alone.
-/
namespace AssetCompiler.Text

/-- The characters of the White_Space property. -/
def isBlank (c : Char) : Bool :=
  let n := c.toNat
  (9 ≤ n && n ≤ 13) || n == 0x20 || n == 0x85 || n == 0xA0 || n == 0x1680 ||
    (0x2000 ≤ n && n ≤ 0x200A) || n == 0x2028 || n == 0x2029 || n == 0x202F || n == 0x205F ||
    n == 0x3000

def dropEndWhile {α : Type} (p : α → Bool) (xs : List α) : List α :=
  (xs.reverse.dropWhile p).reverse

def trim (cs : List Char) : List Char :=
  dropEndWhile isBlank (cs.dropWhile isBlank)

/-- The pieces between the separators; a text without a separator is one piece. -/
def pieces (sep : Char) : List Char → List (List Char)
  | [] => [[]]
  | c :: cs =>
    if c = sep then [] :: pieces sep cs
    else match pieces sep cs with
      | [] => [[c]]
      | p :: ps => (c :: p) :: ps

def unite (sep : List Char) : List (List Char) → List Char
  | [] => []
  | [p] => p
  | p :: q :: ps => p ++ sep ++ unite sep (q :: ps)

/-- The rest of the text after a literal at its start. -/
def strip? : List Char → List Char → Option (List Char)
  | [], cs => some cs
  | _ :: _, [] => none
  | l :: ls, c :: cs => if l = c then strip? ls cs else none

theorem strip?_eq_some_iff {lit cs rest : List Char} :
    strip? lit cs = some rest ↔ cs = lit ++ rest := by
  induction lit generalizing cs with
  | nil => simp [strip?, eq_comm]
  | cons l ls ih =>
    cases cs with
    | nil => simp [strip?]
    | cons c cs =>
      by_cases h : l = c
      · simp [strip?, h, ih]
      · simp [strip?, h, Ne.symm h]

theorem pieces_ne_nil (sep : Char) (cs : List Char) : pieces sep cs ≠ [] := by
  cases cs with
  | nil => simp [pieces]
  | cons c cs =>
    unfold pieces
    split
    · simp
    · split <;> simp

theorem unite_pieces (sep : Char) (cs : List Char) : unite [sep] (pieces sep cs) = cs := by
  induction cs with
  | nil => rfl
  | cons c cs ih =>
    cases hp : pieces sep cs with
    | nil => exact absurd hp (pieces_ne_nil sep cs)
    | cons p ps =>
      rw [hp] at ih
      by_cases h : c = sep
      · simp [pieces, h, hp, unite, ih]
      · cases ps with
        | nil => simp only [unite] at ih; simp [pieces, h, hp, unite, ih]
        | cons q qs => simp only [unite] at ih; simp [pieces, h, hp, unite, ih]

end AssetCompiler.Text
