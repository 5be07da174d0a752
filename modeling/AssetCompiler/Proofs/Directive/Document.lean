import AssetCompiler.Directive.Render

/-! # The block structure of a text

A text with its directives is a list of leaves and marks. A mark that opens a block begins
one, which runs to the next end, to the next opening or to the end of the text; every else in
it starts another branch. The reading of such a document needs no flags: a block with a
decided guard comes to every other branch, an undecided one to all of it as written.
-/
namespace AssetCompiler

open Text (Span slice dropOctets)

namespace Document

/-- A part of a text that has no effect on blocks. -/
inductive Leaf where
  | plain (cs : List Char)
  | declare (name : String) (value : Operand)
  | display (name : String) (written : List Char)
  | lookup (o : Occurrence)

inductive Mark where
  | opening (guard : Guard)
  | otherwise
  | closing

/-- A leaf, or a mark as it is written. -/
inductive Token where
  | leaf (l : Leaf)
  | mark (m : Mark) (written : List Char) (span : Span)

namespace Token

def ofOccurrence (text : List Char) (o : Occurrence) : Token :=
  let written := slice o.span text
  match o.directive with
  | .declare name value => leaf (.declare name value)
  | .display name => leaf (.display name written)
  | .openBlock guard => mark (.opening guard) written o.span
  | .elseBranch => mark .otherwise written o.span
  | .closeBlock => mark .closing written o.span
  | _ => leaf (.lookup o)

/-- Whether the open block ends in front of the token or with it. -/
def endsBlock : Token → Bool
  | mark (.opening _) .. | mark .closing .. => true
  | _ => false

end Token

/-- The tokens of a text behind a position: its occurrences and the text between them. -/
def tokensFrom (text : List Char) (cursor : Nat) : List Occurrence → List Token
  | [] => [.leaf (.plain (dropOctets cursor text))]
  | o :: os =>
    .leaf (.plain (slice ⟨cursor, o.span.start⟩ text)) :: .ofOccurrence text o ::
      tokensFrom text o.span.stop os

/-- The mark that starts a branch, as written, and the leaves of the branch. -/
structure Branch where
  mark : List Char
  leaves : List Leaf

structure Block where
  guard : Guard
  /-- Where the block is opened. -/
  span : Span
  /-- The block before it was still open. -/
  cuts : Bool
  branches : List Branch
  /-- The mark that ends the block, as written; empty when it has none. -/
  closing : List Char

inductive Node where
  | leaf (l : Leaf)
  /-- An else or end outside of blocks. -/
  | stray (word : String) (span : Span)
  | block (b : Block)

/-- Cuts the inside of a block at every else: the leaves in front of the first, and the
branches that they start. -/
def splitBranches : List Token → List Leaf × List Branch
  | [] => ([], [])
  | .leaf l :: ts => (l :: (splitBranches ts).1, (splitBranches ts).2)
  | .mark _ written _ :: ts => ([], ⟨written, (splitBranches ts).1⟩ :: (splitBranches ts).2)

def branchesOf (opening : List Char) (inside : List Token) : List Branch :=
  ⟨opening, (splitBranches inside).1⟩ :: (splitBranches inside).2

/-- What stands behind the inside of a block: the mark that ends it, as written, and the tokens
from there on. A block without an end has no such mark. -/
def takeEnd : List Token → List Char × List Token
  | .mark .closing closing _ :: ts => (closing, ts)
  | ts => ([], ts)

def leavesOpen : List Token → Bool
  | .mark .closing .. :: _ => false
  | _ => true

theorem length_takeEnd_le (ts : List Token) : (takeEnd ts).2.length ≤ ts.length := by
  unfold takeEnd
  split
  · exact Nat.le_succ _
  · exact Nat.le_refl _

/-- The document of a list of tokens, where a block may have been left open in front of it. -/
def ofTokens (cuts : Bool) : List Token → List Node
  | [] => []
  | .leaf l :: ts => .leaf l :: ofTokens false ts
  | .mark .otherwise _ span :: ts => .stray "else" span :: ofTokens false ts
  | .mark .closing _ span :: ts => .stray "end" span :: ofTokens false ts
  | .mark (.opening guard) written span :: ts =>
    let branches := branchesOf written (ts.takeWhile fun t => !t.endsBlock)
    let behind := ts.dropWhile fun t => !t.endsBlock
    .block ⟨guard, span, cuts, branches, (takeEnd behind).1⟩ ::
      ofTokens (leavesOpen behind) (takeEnd behind).2
  termination_by ts => ts.length
  decreasing_by
    · exact Nat.lt_succ_self _
    · exact Nat.lt_succ_self _
    · exact Nat.lt_succ_self _
    · have hd := (List.dropWhile_suffix (l := ts) fun t => !t.endsBlock).length_le
      exact Nat.lt_succ_of_le (Nat.le_trans (length_takeEnd_le _) hd)

def ofText (text : String) (os : List Occurrence) : List Node :=
  ofTokens false (tokensFrom text.toList 0 os)

/-- The store of variables and the state of the collaborator, threaded through a document. -/
structure Store (σ : Type) where
  bindings : Bindings := []
  state : σ

variable {σ : Type}

def Store.warn (lookup : Lookup σ) (before : String) (span : Span) (after : String) (r : Store σ) :
    Store σ :=
  { r with state := lookup.warn (before ++ toString span ++ after) r.state }

/-- What a leaf comes to where it is visible. A variable without a value stays as written. -/
def Leaf.read (lookup : Lookup σ) (r : Store σ) : Leaf → List Char × Store σ
  | plain cs => (cs, r)
  | declare name value => ([], { r with bindings := r.bindings.declare name value })
  | display name written => (((r.bindings.get? name).map (·.display.toList)).getD written, r)
  | .lookup o =>
    let (s, state) := lookup.answer o r.state
    (s.toList, { r with state })

def readAll {α : Type} (read : Store σ → α → List Char × Store σ) (r : Store σ) :
    List α → List Char × Store σ
  | [] => ([], r)
  | a :: as =>
    let (cs, r) := read r a
    let (rest, r) := readAll read r as
    (cs ++ rest, r)

/-- Whether the branch of an index is emitted under the value of the guard. -/
def emits (value? : Option Bool) (i : Nat) : Bool :=
  match value? with
  | some v => decide (i % 2 = 0) == v
  | none => true

/-- Reads branches from an index on. The leaves of a branch are read whether it is emitted or
not; marks are emitted only when the guard is undecided. -/
def readBranches (lookup : Lookup σ) (value? : Option Bool) (i : Nat) (r : Store σ) :
    List Branch → List Char × Store σ
  | [] => ([], r)
  | b :: bs =>
    let (body, r) := readAll (Leaf.read lookup) r b.leaves
    let (rest, r) := readBranches lookup value? (i + 1) r bs
    ((if value? = none then b.mark else []) ++ (if emits value? i then body else []) ++ rest, r)

def Block.read (lookup : Lookup σ) (r : Store σ) (b : Block) : List Char × Store σ :=
  let value? := b.guard.evaluate? r.bindings
  let r := if b.cuts then r.warn lookup "conditional at " b.span " opened inside an open block" else r
  let (out, r) := readBranches lookup value? 0 r b.branches
  (out ++ (if value? = none then b.closing else []), r)

def Node.read (lookup : Lookup σ) (r : Store σ) : Node → List Char × Store σ
  | leaf l => l.read lookup r
  | stray word span =>
    ([], r.warn lookup ("`" ++ word ++ "` at ") span " outside a conditional block")
  | block b => b.read lookup r

/-- The reading of a document from a start state of the collaborator: its text and what has
become of the state. -/
def read (lookup : Lookup σ) (nodes : List Node) (s : σ) : String × σ :=
  let (out, r) := readAll (Node.read lookup) { state := s } nodes
  (String.ofList out, r.state)

end Document

end AssetCompiler
