import AssetCompiler.Shell.Word

/-! # Reading scripts

A script is read one complete command at a time: a list of pipelines, joined by operators, up
to the end of a line. What is read afterwards can depend on what the command has done.
-/
namespace AssetCompiler.Shell.Reading

/-- The kind of a redirection of two characters, with the descriptor that it is for. -/
def doubleArrow? (c next : Char) : Option (Nat × Arrow) :=
  match c, next with
  | '>', '>' => some (1, .file .append)
  | '>', '|' => some (1, .file .clobber)
  | '>', '&' => some (1, .duplicate)
  | '<', '<' => some (0, .document false)
  | '<', '&' => some (0, .duplicate)
  | '<', '>' => some (0, .file .both)
  | _, _ => none

/-- Reads a redirection behind the descriptor in front of it. -/
def arrow (given : Option Nat) (c : Char) : Reading Token := do
  advance
  let double? := (← peek).bind (doubleArrow? c)
  if double?.isSome then advance
  let (descriptor, arrow) := double?.getD (if c = '>' then (1, .file .output) else (0, .file .input))
  let arrow ← match arrow with
    | .document _ => do pure (.document (← passes '-'))
    | arrow => pure arrow
  modify fun s => { s with arrow := (given.getD descriptor, arrow) }
  return .redirection

/-- The descriptor that a word in front of a redirection names; no word names none. -/
def descriptor? (w : Word) : Option (Option Nat) :=
  match w with
  | [] => some none
  | [.text false [d]] => if d.isDigit then some (some (d.toNat - 48)) else none
  | _ => none

def wordOrArrow (sub : Substitution) : Reading Token := do
  let word ← partsOf sub .word
  match ← peek, descriptor? word with
  | some '<', some given => arrow given '<'
  | some '>', some given => arrow given '>'
  | _, _ =>
    modify fun s => { s with word }
    return .word

def operator (c : Char) : Reading Token := do
  advance
  return .operator (if ← passes c then String.ofList [c, c] else String.singleton c)

/-- The token that was put back, or the next one. -/
def anyToken (sub : Substitution) : Reading Token := do
  let s ← get
  if s.isPutBack then
    set { s with isPutBack := false }
    return s.token
  let (rest, line) := Source.blanks s.rest s.line
  set { s with rest, line }
  let token ← match ← peek with
    | none => pure .ending
    | some '\n' => do
      advance
      pure .lineEnd
    | some c =>
      if c = '&' || c = '|' || c = ';' then operator c
      else if c = '(' || c = ')' then do
        advance
        pure (.operator (String.singleton c))
      else wordOrArrow sub
  modify fun s => { s with token }
  return token

def document (sub : Substitution) (d : Announced) : Reading Unit := do
  let s ← get
  let (body, rest) := Source.documentLines d (← limit) false s.rest
  let word ←
    if d.expands then
      within body s.line do
        modify fun s => { s with inDocument := true }
        let word ← partsOf sub .document
        modify fun s => { s with inDocument := s.inDocument && false }
        return word
    else pure [.text true body]
  let passed := s.rest.take (s.rest.length - rest.length)
  modify fun t => { t with
    rest
    line := s.line + passed.count '\n'
    documents := (d.number, word) :: t.documents }

def documents (sub : Substitution) : Reading Unit := do
  let announced := (← get).announced
  modify fun s => { s with announced := [] }
  announced.forM (document sub)

def skipLineEnds (sub : Substitution) : Nat → Token → Reading Token
  | 0, t => return t
  | n + 1, t => do
    if t == .lineEnd then
      documents sub
      skipLineEnds sub n (← anyToken sub)
    else return t

/-- The next token, looked at as it was asked for. -/
def token (sub : Substitution) : Reading Token := do
  let checks := (← get).checks
  let t ← anyToken sub
  let t ← if checks.newlines then skipLineEnds sub (← limit) t else pure t
  check {}
  match t, plainText? (← get).word with
  | .word, some text =>
    if checks.keywords && keywords.contains (String.ofList text) then
      let token := Token.keyword (String.ofList text)
      modify fun s => { s with token }
      return token
    else return t
  | _, _ => return t

def expect (sub : Substitution) (t : Token) : Reading Unit := do
  if (← token sub) != t then unexpected (some t)

def duplicate (descriptor : Nat) (w : Word) : Redirection :=
  match plainText? w with
  | some ['-'] => .close descriptor
  | some [d] =>
    if d.isDigit then .duplicate descriptor (d.toNat - 48) else .duplicateWord descriptor w
  | _ => .duplicateWord descriptor w

def markText (w : Word) : Octets :=
  w.flatMap fun p =>
    match p with
    | .text _ s => s
    | _ => []

def redirection (sub : Substitution) : Reading Redirection := do
  let (descriptor, arrow) := (← get).arrow
  if let .document _ := arrow then check { mark := true }
  if (← token sub) != .word then unexpected none
  let word := (← get).word
  match arrow with
  | .file direction => return .file descriptor direction word
  | .duplicate => return duplicate descriptor word
  | .document stripsTabs =>
    let number := (← get).next
    let d : Announced := ⟨number, markText word, stripsTabs, !isQuoted word⟩
    modify fun s => { s with next := number + 1, announced := s.announced ++ [d] }
    return .document descriptor number

/-- Reads the redirections behind a compound command. -/
def redirections (sub : Substitution) : Nat → Reading (List Redirection)
  | 0 => return []
  | n + 1 => do
    check { keywords := true }
    if (← token sub) == .redirection then
      let r ← redirection sub
      return r :: (← redirections sub n)
    else
      putBack
      return []

/-- Commands that belong to the language and cannot be defined. -/
def specialNames : List String :=
  [".", ":", "break", "continue", "eval", "exec", "exit", "export", "readonly", "return", "set",
    "shift", "times", "trap", "unset"]

/-- Where a command begins: behind line ends, and with a look at keywords. -/
def fresh : Checks := { newlines := true, keywords := true }

/-- The parts of a simple command that were read, the last ones first. -/
structure Simple where
  assignments : List (Octets × Word) := []
  words : List Word := []
  redirections : List Redirection := []

def definition (sub : Substitution) (command : Reading Command) (name : Word) :
    Reading Command := do
  expect sub (.operator ")")
  match plainText? name with
  | some text =>
    if isName text && !specialNames.contains (String.ofList text) then
      check fresh
      return .definition text (← command)
    else throw "Bad function name"
  | none => throw "Bad function name"

def simple (sub : Substitution) (command : Reading Command) (line : Nat) :
    Nat → Simple → Reading Command
  | 0, _ => unexpected none
  | n + 1, found => do
    let stop : Reading Command := do
      putBack
      return .simple line found.assignments.reverse found.words.reverse
        found.redirections.reverse
    match ← token sub with
    | .word =>
      let word := (← get).word
      match found.words, assignment? word with
      | [], some a => simple sub command line n { found with assignments := a :: found.assignments }
      | _, _ => simple sub command line n { found with words := word :: found.words }
    | .redirection =>
      let r ← redirection sub
      simple sub command line n { found with redirections := r :: found.redirections }
    | .operator "(" =>
      match found with
      | ⟨[], [name], []⟩ => definition sub command name
      | _ => stop
    | _ => stop

def branches (sub : Substitution) (list : Reading (Option Command)) : Nat → Reading Command
  | 0 => unexpected none
  | n + 1 => do
    let test ← list
    expect sub (.keyword "then")
    let yes ← list
    let no ← match ← token sub with
      | .keyword "elif" => some <$> branches sub list n
      | .keyword "else" => list
      | _ => do
        putBack
        pure none
    return .condition (test.getD default) (yes.getD default) no

def words (sub : Substitution) : Nat → Reading (List Word)
  | 0 => return []
  | n + 1 => do
    if (← token sub) == .word then
      let word := (← get).word
      return word :: (← words sub n)
    else return []

def eachHead (sub : Substitution) : Reading (Octets × List Word) := do
  let t ← token sub
  match t, plainText? (← get).word with
  | .word, some name =>
    if !isName name then throw "Bad for loop variable"
    check fresh
    if (← token sub) == .keyword "in" then
      let ws ← words sub (← limit)
      let t := (← get).token
      if t != .lineEnd && t != .operator ";" then unexpected none
      return (name, ws)
    else
      if (← get).token != .operator ";" then putBack
      return (name, [[.parameter true ['@'] .value false []]])
  | _, _ => throw "Bad for loop variable"

/-- Reads the patterns of a case, of which the first was just read. -/
def patterns (sub : Substitution) : Nat → Reading (List Word)
  | 0 => return []
  | n + 1 => do
    let word := (← get).word
    if (← token sub) == .operator "|" then
      let _ ← token sub
      return word :: (← patterns sub n)
    else return [word]

def cases (sub : Substitution) (list : Reading (Option Command)) :
    Nat → Reading (List (List Word × Option Command))
  | 0 => return []
  | n + 1 => do
    check fresh
    let t ← token sub
    if t == .keyword "esac" then return []
    if t == .operator "(" then
      let _ ← token sub
    let ps ← patterns sub (← limit)
    if (← get).token != .operator ")" then unexpected (some (.operator ")"))
    let body ← list
    check fresh
    match ← token sub with
    | .keyword "esac" => return [(ps, body)]
    | .operator ";;" => return (ps, body) :: (← cases sub list n)
    | _ => unexpected (some (.operator ";;"))

def selection (sub : Substitution) (list : Reading (Option Command)) (line : Nat) :
    Reading Command := do
  if (← token sub) != .word then unexpected (some .word)
  let subject := (← get).word
  check fresh
  expect sub (.keyword "in")
  return .selection line subject (← cases sub list (← limit))

def pipes (sub : Substitution) (command : Reading Command) : Nat → Reading (List Command)
  | 0 => return []
  | n + 1 => do
    if (← token sub) == .operator "|" then
      check fresh
      let c ← command
      return c :: (← pipes sub command n)
    else
      putBack
      return []

def pipeline (sub : Substitution) (command : Reading Command) : Reading Command := do
  let negated := (← token sub) == .keyword "!"
  if negated then check { keywords := true } else putBack
  let first ← command
  let others ← pipes sub command (← limit)
  let c := if others.isEmpty then first else .pipeline (first :: others) false
  return if negated then .negation c else c

/-- Reads pipelines that depend on each other, of which the first is given. -/
def andOrFrom (sub : Substitution) (command : Reading Command) :
    Nat → Command → Reading Command
  | 0, c => return c
  | n + 1, c => do
    match ← token sub with
    | .operator "&&" => do
      check fresh
      andOrFrom sub command n (.both c (← pipeline sub command))
    | .operator "||" => do
      check fresh
      andOrFrom sub command n (.either c (← pipeline sub command))
    | _ => do
      putBack
      return c

def unwaited (c : Command) : Command :=
  match c with
  | .pipeline cs _ => .pipeline cs true
  | .redirected _ c rs => .background c rs
  | c => .background c []

inductive ListKind where
  /-- Up to the end of a line. -/
  | line
  /-- At least one command. -/
  | filled
  | any
  deriving DecidableEq, Repr

mutual
/-- Reads a list behind the commands that were read of it. -/
def listFrom (sub : Substitution) : Nat → ListKind → Option Command → Reading (Option Command)
  | 0, _, _ => unexpected none
  | n + 1, kind, done => do
    let isLine := kind == .line
    check { newlines := !isLine, keywords := true }
    match ← token sub with
    | .lineEnd =>
      documents sub
      return done
    | .ending =>
      documents sub
      putBack
      return done
    | t =>
      putBack
      if kind == .any && t.endsList then return done
      let first ← pipeline sub (command sub n)
      let c ← andOrFrom sub (command sub n) (← limit) first
      let t ← token sub
      let c := if t == .operator "&" then unwaited c else c
      let done := match done with
        | some d => some (.sequence d c)
        | none => some c
      let kind := if isLine then kind else .any
      if t == .lineEnd || t == .ending then
        putBack
        listFrom sub n kind done
      else if t == .operator "&" || t == .operator ";" then listFrom sub n kind done
      else
        if isLine then unexpected none
        putBack
        return done

def command (sub : Substitution) : Nat → Reading Command
  | 0 => unexpected none
  | n + 1 => do
    let line := (← get).line
    let list := listFrom sub n .filled none
    let closed (c : Option Command) (t : Token) : Reading Command := do
      expect sub t
      return c.getD default
    let loop (untilTrue : Bool) : Reading Command := do
      let test ← list
      expect sub (.keyword "do")
      let body ← list
      closed (some (.loop untilTrue (test.getD default) (body.getD default))) (.keyword "done")
    let c ← match ← token sub with
      | .keyword "if" => do closed (some (← branches sub list (← limit))) (.keyword "fi")
      | .keyword "while" => loop false
      | .keyword "until" => loop true
      | .keyword "for" => do
        let (name, ws) ← eachHead sub
        check fresh
        expect sub (.keyword "do")
        let body ← list
        closed (some (.each line name ws (body.getD default))) (.keyword "done")
      | .keyword "case" => selection sub (listFrom sub n .any none) line
      | .operator "(" => do
        let body ← list
        closed (some (.subshell line (body.getD default) [])) (.operator ")")
      | .keyword "\x7b" => do closed (← list) (.keyword "\x7d")
      | .word | .redirection => do
        putBack
        return ← simple sub (command sub n) line (← limit) {}
      | _ => unexpected none
    match c, ← redirections sub (← limit) with
    | c, [] => return c
    | .subshell line body _, rs => return .subshell line body rs
    | c, rs => return .redirected line c rs
end

def depth : Reading Nat := do return 2 * (← limit) + 2

/-- Reads the command of a substitution; the number bounds how deep substitutions stand in
each other. -/
def substitution : Nat → Substitution
  | 0, _ => unexpected none
  | n + 1, closes => do
    let outer ← get
    set { outer with announced := [], inDocument := false, isPutBack := false }
    let c ← listFrom (substitution n) (← depth) .any none
    if closes then expect (substitution n) (.operator ")")
    modify fun s => { s with
      announced := outer.announced
      inDocument := outer.inDocument
      isPutBack := false
      checks := {} }
    return c

/-- Reads the next complete command. There is none at the end of the script; an empty line
holds an empty one. -/
def complete : Reading (Option (Option Command)) := do
  modify fun s => { s with isPutBack := false, checks := {}, announced := [] }
  let c ← listFrom (substitution (← limit)) (← depth) .line none
  let s ← get
  return if c.isNone && s.token == .ending && s.isPutBack then none else some c

end AssetCompiler.Shell.Reading

namespace AssetCompiler.Shell.Source

def command (s : Source) : Except String (Option (Option Command)) × Source :=
  Reading.complete.run.run s

/-- Whether the last command ended with the script and not with a line. -/
def isAtEnd (s : Source) : Bool := s.isPutBack && s.token == .ending

end AssetCompiler.Shell.Source
