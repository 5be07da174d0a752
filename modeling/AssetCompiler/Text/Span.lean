/-! # Spans of a text in octets

Positions in a text count UTF-8 octets. Cutting at a position keeps a character whole: a
position inside a character counts as the one after it.
-/
namespace AssetCompiler.Text

/-- The number of octets of a text. -/
def size : List Char → Nat
  | [] => 0
  | c :: cs => c.utf8Size + size cs

/-- The first characters, until `n` octets are reached. -/
def takeOctets : Nat → List Char → List Char
  | 0, _ => []
  | _ + 1, [] => []
  | n + 1, c :: cs => c :: takeOctets (n + 1 - c.utf8Size) cs

def dropOctets : Nat → List Char → List Char
  | 0, cs => cs
  | _ + 1, [] => []
  | n + 1, c :: cs => dropOctets (n + 1 - c.utf8Size) cs

structure Span where
  start : Nat
  stop : Nat
  deriving DecidableEq, Inhabited, Repr

instance : ToString Span := ⟨fun s => toString s.start ++ ".." ++ toString s.stop⟩

def slice (s : Span) (cs : List Char) : List Char :=
  takeOctets (s.stop - s.start) (dropOctets s.start cs)

theorem takeOctets_append_dropOctets (n : Nat) (cs : List Char) :
    takeOctets n cs ++ dropOctets n cs = cs := by
  induction cs generalizing n with
  | nil => cases n <;> rfl
  | cons c cs ih =>
    cases n with
    | zero => simp [takeOctets, dropOctets]
    | succ n => simp [takeOctets, dropOctets, ih]

theorem size_append (as bs : List Char) : size (as ++ bs) = size as + size bs := by
  induction as with
  | nil => simp [size]
  | cons c cs ih => simp [size, ih, Nat.add_assoc]

@[simp] theorem takeOctets_size_append (as bs : List Char) :
    takeOctets (size as) (as ++ bs) = as := by
  induction as with
  | nil => simp [size, takeOctets]
  | cons c cs ih =>
    obtain ⟨n, hn⟩ : ∃ n, c.utf8Size + size cs = n + 1 :=
      ⟨c.utf8Size + size cs - 1, by have := c.utf8Size_pos; omega⟩
    have : n + 1 - c.utf8Size = size cs := by omega
    simp [size, hn, takeOctets, this, ih]

@[simp] theorem dropOctets_size_append (as bs : List Char) :
    dropOctets (size as) (as ++ bs) = bs := by
  have h := takeOctets_append_dropOctets (size as) (as ++ bs)
  rw [takeOctets_size_append] at h
  exact List.append_cancel_left h

end AssetCompiler.Text
