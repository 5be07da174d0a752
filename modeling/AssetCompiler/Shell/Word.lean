import AssetCompiler.Shell.Source

/-! # Words of scripts

A word is text, quotations, parameters, outputs of commands and sums, up to a blank or an
operator. What ends a part, and what is special in it, depends on what the part stands in.
-/
namespace AssetCompiler.Shell

inductive Setting where
  | word
  | quotation
  /-- Behind an operation on a parameter. -/
  | braces (quoted : Bool)
  | sum
  | document
  deriving DecidableEq, Repr

def Setting.isQuoted : Setting → Bool
  | word => false
  | braces quoted => quoted
  | quotation | sum | document => true

/-- Joins texts of one kind that stand side by side. -/
def merge : List Part → Word
  | [] => []
  | .text q s :: ps =>
    match merge ps with
    | .text q' s' :: rest =>
      if q = q' then .text q (s ++ s') :: rest else .text q s :: .text q' s' :: rest
    | rest => .text q s :: rest
  | p :: ps => p :: merge ps

def isQuoted (w : Word) : Bool :=
  w.any fun p =>
    match p with
    | .text q _ => q
    | _ => false

/-- The parts of a quotation. Alone among all parts, the parameters together may turn out to
be nothing; anything else keeps an empty word in being. -/
def quotationParts (w : Word) : Word :=
  match w with
  | [.parameter _ ['@'] .value _ []] => w
  | w => .text true [] :: w

def isSpecialName (c : Char) : Bool := "!#$*-?@".toList.contains c

def endsWord (c : Char) : Bool := "\n \t;&|()<>".toList.contains c

structure Treatment where
  operation : Operation
  emptyToo : Bool := false
  takesWord : Bool := true

namespace Reading

def operation? (c : Char) : Option Operation :=
  ("\x7d-+?=".toList.zip [.value, .orElse, .instead, .orFail, .orAssign]).lookup c

def treatment : Reading Treatment := do
  match ← peek with
  | none => return { operation := .invalid }
  | some ':' =>
    advance
    match ← peek with
    | none => return { operation := .invalid, emptyToo := true }
    | some c =>
      advance
      return { operation := (operation? c).getD .invalid, emptyToo := true }
  | some c =>
    advance
    if c = '%' || c = '#' then
      let longest ← passes c
      return { operation := if c = '#' then .dropFront longest else .dropBack longest }
    else match operation? c with
      | some .value => return { operation := .value, takesWord := false }
      | some operation => return { operation }
      | none => return { operation := .invalid }

/-- Reads the name of a parameter that starts with a letter or a digit. -/
def ordinaryName (c : Char) : Reading Octets := do
  takeWhile (if c.isDigit then Char.isDigit else isNameChar) (← limit)

def lengthOf : Reading (Octets × Treatment) := do
  let c := (← peek).getD '\n'
  if isNameChar c then
    let name ← ordinaryName c
    return (name, { operation := if (← peek) == some '\x7d' then .length else .invalid })
  else do
    advance
    let after ← peek
    if c != '\x7d' && after == some '\x7d' then
      return ([c], { operation := if isSpecialName c then .length else .invalid })
    else do
      modify fun s => { s with rest := if c = '\n' then s.rest else c :: s.rest }
      return (['#'], ← treatment)

/-- Reads a parameter behind an opening brace, up to the word that belongs to it. -/
def braced : Reading (Octets × Treatment) := do
  match ← peek with
  | none => return ([], { operation := .invalid })
  | some c =>
    if isNameChar c then
      let name ← ordinaryName c
      return (name, ← treatment)
    else if c = '#' then
      advance
      lengthOf
    else if isSpecialName c then
      advance
      return ([c], ← treatment)
    else
      if c != '\x7d' then advance
      return ([], { operation := .invalid })

def quotedText : Nat → Reading Octets
  | 0 => throw "Unterminated quoted string"
  | n + 1 => do
    match ← peekRaw with
    | none => throw "Unterminated quoted string"
    | some '\'' => do
      advance
      return []
    | some c => do
      advance
      return c :: (← quotedText n)

/-- Reads a command up to a backquote; backslashes before some characters are dropped. -/
def backquoted (quoted : Bool) : Nat → Reading Octets
  | 0 => throw "EOF in backquote substitution"
  | n + 1 => do
    match ← peek with
    | none => throw "EOF in backquote substitution"
    | some '\x60' => do
      advance
      return []
    | some '\\' => do
      advance
      match ← peekRaw with
      | none => throw "EOF in backquote substitution"
      | some c =>
        advance
        let isDropped := c == '\\' || c == '\x60' || c == '$' || (quoted && c == '"')
        let rest ← backquoted quoted n
        return if isDropped then c :: rest else '\\' :: c :: rest
    | some c => do
      advance
      return c :: (← backquoted quoted n)

def escaped (s : Setting) : Reading Part := do
  match ← peekRaw with
  | none => return .text true ['\\']
  | some c => do
    advance
    let inBraces := match s with
      | .braces _ => true
      | _ => false
    let stays := s.isQuoted && c != '\\' && c != '\x60' && c != '$' &&
      (c != '"' || s == .document) && (c != '\x7d' || !inBraces)
    return .text true (if stays then ['\\', c] else [c])

/-- How the end of a script in the middle of a word is complained about. -/
def cutShort {α : Type} (s : Setting) : Reading α := do
  match s with
  | .sum => throw "Missing '))'"
  | .braces false => throw "Missing '\x7d'"
  | _ =>
    throw (if (← get).inDocument then "Missing '\x7d'" else "Unterminated quoted string")

/-- Reads the command of a substitution, up to its closing parenthesis if it has one. -/
abbrev Substitution := Bool → Reading (Option Command)

def dollar (sub : Substitution) (inner : Setting → Reading Word) (s : Setting) :
    Reading Part := do
  let quoted := s.isQuoted
  if (← get).checks.mark then return .text quoted ['$']
  match ← peek with
  | none => return .text quoted ['$']
  | some c =>
    if c = '(' then
      advance
      if ← passes '(' then return .sum quoted (← inner .sum)
      else return .output quoted (← sub true)
    else if c = '\x7b' then
      advance
      let (name, t) ← braced
      let isTrim := match t.operation with
        | .dropFront _ | .dropBack _ => true
        | _ => false
      let word ← if t.takesWord then inner (.braces (quoted && !isTrim)) else pure []
      return .parameter quoted name t.operation t.emptyToo word
    else if isNameStart c then
      return .parameter quoted (← takeWhile isNameChar (← limit)) .value false []
    else if c.isDigit || isSpecialName c then
      advance
      return .parameter quoted [c] .value false []
    else return .text quoted ['$']

/-- Whether a character ends what parts stand in; it is passed unless it ends a word. -/
def isEnd (s : Setting) (c : Char) : Bool :=
  match s with
  | .word => endsWord c
  | .quotation => c == '"'
  | .braces _ => c == '\x7d'
  | .sum | .document => false

/-- Reads parts up to the end of what they stand in. The depth counts open parentheses of a
sum. -/
def parts (sub : Substitution) : Nat → Setting → Nat → List Part → Reading Word
  | 0, s, _, _ => cutShort s
  | n + 1, s, depth, done => do
    let inner (s : Setting) : Reading Word := parts sub n s 0 []
    let go (depth : Nat) (p : List Part) : Reading Word := parts sub n s depth (p ++ done)
    match ← peek with
    | none => if s == .word || s == .document then return merge done.reverse else cutShort s
    | some c =>
      let plain := Part.text s.isQuoted [c]
      if isEnd s c then
        if s != .word then advance
        return merge done.reverse
      else
        advance
        if c = '\\' then go depth [← escaped s]
        else if c = '$' then go depth [← dollar sub inner s]
        else if c = '\x60' then
          if (← get).checks.mark then go depth [.text true [c]]
          else
            let text ← backquoted s.isQuoted (← limit)
            go depth [.output s.isQuoted (← within text 1 (sub false))]
        else if s == .sum && c == '(' then go (depth + 1) [plain]
        else if s == .sum && c == ')' then
          if depth = 0 then
            if ← passes ')' then return merge done.reverse else go 0 [plain]
          else go (depth - 1) [plain]
        else if c = '\'' && !s.isQuoted then go depth [.text true (← quotedText (← limit))]
        else if c = '"' && (s == .word || s == .braces false || s == .braces true) then
          go depth (quotationParts (← inner .quotation)).reverse
        else go depth [plain]

def partsOf (sub : Substitution) (s : Setting) : Reading Word := do parts sub (← limit) s 0 []

end Reading

end AssetCompiler.Shell
