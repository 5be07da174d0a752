import AssetCompiler.Json.Number
import AssetCompiler.Text.Blank

/-! # JSON tokens

The tokens of a JSON text: marks, words, numbers and strings with their escapes resolved. A
number or a string can be well formed and yet stand for nothing: a number beyond the range, or a
string with half a character. Every scanner leaves a shorter text.
-/
namespace AssetCompiler.Json

open Text (strip?)
open Decimal (spanDigits spanSign)

inductive Token where
  | openArray
  | closeArray
  | openObject
  | closeObject
  | comma
  | colon
  /-- A string, if its characters are complete. -/
  | string (s? : Option String)
  /-- Any other value without parts, if it stands for one. -/
  | scalar (v? : Option Json)
  deriving Inhabited, Repr

def hexDigit? (c : Char) : Option Nat :=
  let n := c.toNat
  if c.isDigit then some (n - 48)
  else if 97 ≤ n && n ≤ 102 then some (n - 87)
  else if 65 ≤ n && n ≤ 70 then some (n - 55)
  else none

def hexFour? : List Char → Option (Nat × List Char)
  | a :: b :: c :: d :: rest => do
    let a ← hexDigit? a
    let b ← hexDigit? b
    let c ← hexDigit? c
    let d ← hexDigit? d
    some (4096 * a + 256 * b + 16 * c + d, rest)
  | _ => none

/-- A part of a string: a character, or half of one that two escapes spell together. -/
inductive Piece where
  | char (c : Char)
  | half (n : Nat)
  deriving DecidableEq, Repr

def Piece.ofUnit (n : Nat) : Piece :=
  if 0xD800 ≤ n && n < 0xE000 then .half n else .char (Char.ofNat n)

/-- The characters of a string. A first half needs a second one right behind it. -/
def joinPieces? : List Piece → Option (List Char)
  | [] => some []
  | .char c :: ps => (joinPieces? ps).map (c :: ·)
  | .half high :: .half low :: ps =>
    if high < 0xDC00 && 0xDC00 ≤ low then
      (joinPieces? ps).map (Char.ofNat (0x10000 + (high - 0xD800) * 0x400 + (low - 0xDC00)) :: ·)
    else none
  | .half _ :: _ => none

def escape? : List Char → Option (Piece × List Char)
  | '"' :: cs => some (.char '"', cs)
  | '\\' :: cs => some (.char '\\', cs)
  | '/' :: cs => some (.char '/', cs)
  | 'b' :: cs => some (.char '\x08', cs)
  | 'f' :: cs => some (.char '\x0c', cs)
  | 'n' :: cs => some (.char '\n', cs)
  | 'r' :: cs => some (.char '\r', cs)
  | 't' :: cs => some (.char '\t', cs)
  | 'u' :: cs => (hexFour? cs).map fun (n, rest) => (Piece.ofUnit n, rest)
  | _ => none

theorem hexFour?_length_lt {cs rest : List Char} {n : Nat} (h : hexFour? cs = some (n, rest)) :
    rest.length < cs.length := by
  unfold hexFour? at h
  split at h
  · simp only [bind, Option.bind_eq_some_iff, Option.some.injEq, Prod.mk.injEq] at h
    obtain ⟨_, _, _, _, _, _, _, _, _, rfl⟩ := h
    simp only [List.length_cons]
    omega
  · simp at h

theorem escape?_length_lt {cs rest : List Char} {p : Piece} (h : escape? cs = some (p, rest)) :
    rest.length < cs.length := by
  unfold escape? at h
  split at h
  case h_9 =>
    simp only [Option.map_eq_some_iff, Prod.exists, Prod.mk.injEq] at h
    obtain ⟨_, _, h, _, rfl⟩ := h
    have := hexFour?_length_lt h
    simp only [List.length_cons]
    omega
  case h_10 => simp at h
  all_goals
    simp only [Option.some.injEq, Prod.mk.injEq] at h
    simp [h.2]

/-- The pieces of a string up to its closing quote, and the rest. Control characters must be
escaped. -/
def stringBody? (cs : List Char) : Option (List Piece × List Char) :=
  match cs with
  | [] => none
  | '"' :: rest => some ([], rest)
  | '\\' :: tail =>
    match h : escape? tail with
    | some (p, rest) =>
      have := escape?_length_lt h
      (stringBody? rest).map fun (s, rest) => (p :: s, rest)
    | none => none
  | c :: tail =>
    if c.toNat < 0x20 then none
    else (stringBody? tail).map fun (s, rest) => (.char c :: s, rest)
  termination_by cs.length

def word? (cs : List Char) : Option (Json × List Char) :=
  match strip? "null".toList cs, strip? "true".toList cs, strip? "false".toList cs with
  | some rest, _, _ => some (.null, rest)
  | _, some rest, _ => some (.bool true, rest)
  | _, _, some rest => some (.bool false, rest)
  | _, _, _ => none

def scalar? : List Char → Option (Token × List Char)
  | '"' :: cs => (stringBody? cs).map fun (ps, rest) =>
      (.string ((joinPieces? ps).map String.ofList), rest)
  | '-' :: cs => (unsignedNumber? true cs).map fun (v?, rest) => (.scalar v?, rest)
  | c :: cs =>
    if c.isDigit then (unsignedNumber? false (c :: cs)).map fun (v?, rest) => (.scalar v?, rest)
    else (word? (c :: cs)).map fun (v, rest) => (.scalar (some v), rest)
  | [] => none

/-- Reads one token from a text that does not begin with a blank. -/
def token? : List Char → Option (Token × List Char)
  | '[' :: cs => some (.openArray, cs)
  | ']' :: cs => some (.closeArray, cs)
  | '\x7b' :: cs => some (.openObject, cs)
  | '\x7d' :: cs => some (.closeObject, cs)
  | ',' :: cs => some (.comma, cs)
  | ':' :: cs => some (.colon, cs)
  | cs => scalar? cs

def isSpace (c : Char) : Bool := c == ' ' || c == '\n' || c == '\t' || c == '\r'

theorem stringBody?_length_le {cs rest : List Char} {s : List Piece} (h : stringBody? cs = some (s, rest)) :
    rest.length ≤ cs.length := by
  fun_induction stringBody? cs generalizing s rest with
  | case1 => simp at h
  | case2 r => simp only [Option.some.injEq, Prod.mk.injEq] at h; simp [h.2]
  | case3 tail c r he _ ih =>
    simp only [Option.map_eq_some_iff, Prod.exists, Prod.mk.injEq] at h
    obtain ⟨_, _, h, _, rfl⟩ := h
    have := ih h
    have := escape?_length_lt he
    simp only [List.length_cons]
    omega
  | case4 => simp at h
  | case5 => simp at h
  | case6 c tail _ _ _ ih =>
    simp only [Option.map_eq_some_iff, Prod.exists, Prod.mk.injEq] at h
    obtain ⟨_, _, h, _, rfl⟩ := h
    have := ih h
    simp only [List.length_cons]
    omega

theorem spanDigits_length (cs : List Char) :
    (spanDigits cs).1.length + (spanDigits cs).2.length = cs.length := by
  rw [spanDigits, ← List.length_append, List.takeWhile_append_dropWhile]

theorem places?_length_le {cs rest : List Char} {ds : Option (List Char)}
    (h : places? cs = some (ds, rest)) : rest.length ≤ cs.length := by
  unfold places? at h
  split at h
  · rename_i tail
    have := spanDigits_length tail
    dsimp only at h
    split at h
    · simp at h
    · simp only [Option.some.injEq, Prod.mk.injEq] at h
      simp only [List.length_cons, ← h.2]
      omega
  · simp only [Option.some.injEq, Prod.mk.injEq] at h
    simp [h.2]

theorem spanSign_length_le (cs : List Char) : (spanSign cs).2.length ≤ cs.length := by
  unfold spanSign
  split <;> simp

theorem spanExponent?_length_le {cs rest : List Char} {e : Int}
    (h : spanExponent? cs = some (e, rest)) : rest.length ≤ cs.length := by
  unfold spanExponent? at h
  have hs := spanSign_length_le cs
  have hd := spanDigits_length (spanSign cs).2
  dsimp only at h
  split at h
  · simp at h
  · simp only [Option.some.injEq, Prod.mk.injEq] at h
    rw [← h.2]
    omega

theorem exponentPart?_length_le {cs rest : List Char} {e : Option Int}
    (h : exponentPart? cs = some (e, rest)) : rest.length ≤ cs.length := by
  have step : ∀ tail, (spanExponent? tail).map (fun p => (some p.1, p.2)) = some (e, rest) →
      rest.length ≤ tail.length := by
    intro tail ht
    simp only [Option.map_eq_some_iff, Prod.exists, Prod.mk.injEq] at ht
    obtain ⟨_, _, ht, _, rfl⟩ := ht
    exact spanExponent?_length_le ht
  unfold exponentPart? at h
  split at h
  · exact Nat.le_trans (step _ h) (by simp)
  · exact Nat.le_trans (step _ h) (by simp)
  · simp only [Option.some.injEq, Prod.mk.injEq] at h
    simp [h.2]

theorem unsignedNumber?_length_lt {negative : Bool} {cs rest : List Char} {v : Option Json}
    (h : unsignedNumber? negative cs = some (v, rest)) : rest.length < cs.length := by
  unfold unsignedNumber? at h
  have hl := spanDigits_length cs
  generalize spanDigits cs = d at h hl
  obtain ⟨ds, tail⟩ := d
  simp only at h hl
  split at h
  · simp at h
  · rename_i hds
    have hpos : 0 < ds.length := by
      cases ds with
      | nil => simp at hds
      | cons => simp
    simp only [bind, Option.bind_eq_some_iff, Prod.exists] at h
    obtain ⟨_, _, h1, _, _, h2, h⟩ := h
    have l1 := places?_length_le h1
    have l2 := exponentPart?_length_le h2
    split at h
    all_goals
      simp only [Option.some.injEq, Prod.mk.injEq] at h
      rw [← h.2]
      omega

theorem word?_length_lt {cs rest : List Char} {v : Json} (h : word? cs = some (v, rest)) :
    rest.length < cs.length := by
  have key : ∀ {lit : List Char}, strip? lit cs = some rest → 0 < lit.length →
      rest.length < cs.length := by
    intro lit h hl
    rw [Text.strip?_eq_some_iff.mp h, List.length_append]
    omega
  unfold word? at h
  split at h
  all_goals simp only [Option.some.injEq, Prod.mk.injEq, reduceCtorEq] at h
  all_goals
    obtain ⟨_, rfl⟩ := h
    exact key (by assumption) (by decide)

theorem scalar?_length_lt {cs rest : List Char} {t : Token} (h : scalar? cs = some (t, rest)) :
    rest.length < cs.length := by
  unfold scalar? at h
  split at h
  · simp only [Option.map_eq_some_iff, Prod.exists, Prod.mk.injEq] at h
    obtain ⟨_, _, h, _, rfl⟩ := h
    have := stringBody?_length_le h
    simp only [List.length_cons]
    omega
  · simp only [Option.map_eq_some_iff, Prod.exists, Prod.mk.injEq] at h
    obtain ⟨_, _, h, _, rfl⟩ := h
    have := unsignedNumber?_length_lt h
    simp only [List.length_cons]
    omega
  · split at h
    all_goals
      simp only [Option.map_eq_some_iff, Prod.exists, Prod.mk.injEq] at h
      obtain ⟨_, _, h, _, rfl⟩ := h
    · exact unsignedNumber?_length_lt h
    · exact word?_length_lt h
  · simp at h

theorem token?_length_lt {cs rest : List Char} {t : Token} (h : token? cs = some (t, rest)) :
    rest.length < cs.length := by
  unfold token? at h
  split at h
  case h_7 => exact scalar?_length_lt h
  all_goals
    simp only [Option.some.injEq, Prod.mk.injEq] at h
    simp [h.2]

/-- The tokens of a whole text. -/
def tokens? (cs : List Char) : Option (List Token) :=
  match cs with
  | [] => some []
  | c :: tail =>
    if isSpace c then tokens? tail
    else match h : token? (c :: tail) with
      | some (t, rest) =>
        have := token?_length_lt h
        (tokens? rest).map (t :: ·)
      | none => none
  termination_by cs.length
  decreasing_by all_goals simp only [List.length_cons] at *; omega

end AssetCompiler.Json
