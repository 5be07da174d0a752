import AssetCompiler.Json.Token

/-! # Reading JSON

The reader takes tokens one at a time. Its frames are the arrays and objects that are open,
innermost first, with the parts read so far in reverse; its stage says what may come next.
A limit on the number of open frames is a part of the format, not of the method. A well-formed
text is read into a form in which parts may stand for nothing; its value is complete.
-/
namespace AssetCompiler.Json

/-- The form of a text. A key or a value without parts may stand for nothing. -/
inductive Form where
  | scalar (v? : Option Json)
  | array (items : List Form)
  | object (fields : List (Option String × Form))
  deriving Inhabited, Repr

namespace Form

mutual
/-- The value of a form, if all its parts stand for something. -/
def value? : Form → Option Json
  | scalar v? => v?
  | array items => (values? items).map .array
  | object fields => (fieldValues? fields).map .object

def values? : List Form → Option (List Json)
  | [] => some []
  | f :: fs => do
    let v ← value? f
    let vs ← values? fs
    some (v :: vs)

def fieldValues? : List (Option String × Form) → Option (List (String × Json))
  | [] => some []
  | (key?, f) :: rest => do
    let key ← key?
    let v ← value? f
    let fields ← fieldValues? rest
    some ((key, v) :: fields)
end

end Form

inductive Frame where
  | items (read : List Form)
  | fields (read : List (Option String × Form))
  /-- An object whose next value belongs to a key. -/
  | keyed (read : List (Option String × Form)) (key? : Option String)
  deriving Inhabited, Repr

/-- What the reader waits for. -/
inductive Stage where
  | value
  /-- A value, or the end of an array just opened. -/
  | firstItem
  /-- A key, or the end of an object just opened. -/
  | firstKey
  | key
  | colon
  /-- A comma, or the end of the innermost frame. -/
  | next
  | finished (f : Form)
  deriving Inhabited, Repr

structure Reader where
  stage : Stage := .value
  frames : List Frame := []
  deriving Inhabited, Repr

namespace Reader

/-- Hands a complete part to the innermost frame. -/
def deliver (v : Form) : List Frame → Option Reader
  | [] => some ⟨.finished v, []⟩
  | .items read :: fs => some ⟨.next, .items (v :: read) :: fs⟩
  | .keyed read key? :: fs => some ⟨.next, .fields ((key?, v) :: read) :: fs⟩
  | .fields _ :: _ => none

/-- Opens a frame, unless the limit is reached. -/
def openFrame (limit : Option Nat) (stage : Stage) (f : Frame) (fs : List Frame) : Option Reader :=
  if limit.all (fs.length < ·) then some ⟨stage, f :: fs⟩ else none

def beginValue (limit : Option Nat) (t : Token) (fs : List Frame) : Option Reader :=
  match t with
  | .string s? => deliver (.scalar (s?.map .string)) fs
  | .scalar v? => deliver (.scalar v?) fs
  | .openArray => openFrame limit .firstItem (.items []) fs
  | .openObject => openFrame limit .firstKey (.fields []) fs
  | _ => none

def takeKey (t : Token) (fs : List Frame) : Option Reader :=
  match t, fs with
  | .string key?, .fields read :: fs => some ⟨.colon, .keyed read key? :: fs⟩
  | _, _ => none

def continueFrame (t : Token) (fs : List Frame) : Option Reader :=
  match t, fs with
  | .comma, .items read :: fs => some ⟨.value, .items read :: fs⟩
  | .comma, .fields read :: fs => some ⟨.key, .fields read :: fs⟩
  | .closeArray, .items read :: fs => deliver (.array read.reverse) fs
  | .closeObject, .fields read :: fs => deliver (.object read.reverse) fs
  | _, _ => none

def step (limit : Option Nat) (r : Reader) (t : Token) : Option Reader :=
  match r.stage, t with
  | .value, t => beginValue limit t r.frames
  | .firstItem, .closeArray => continueFrame t r.frames
  | .firstItem, t => beginValue limit t r.frames
  | .firstKey, .closeObject => continueFrame t r.frames
  | .firstKey, t => takeKey t r.frames
  | .key, t => takeKey t r.frames
  | .colon, .colon => some ⟨.value, r.frames⟩
  | .next, t => continueFrame t r.frames
  | _, _ => none

end Reader

def formOfTokens? (limit : Option Nat) (ts : List Token) : Option Form :=
  match ts.foldlM (Reader.step limit) {} with
  | some ⟨.finished f, _⟩ => some f
  | _ => none

def readForm? (limit : Option Nat) (s : String) : Option Form :=
  (tokens? s.toList).bind (formOfTokens? limit)

/-- The value of a text, its objects as written. -/
def read? (limit : Option Nat) (s : String) : Option Json :=
  (readForm? limit s).bind Form.value?

/-- The number of arrays and objects that may be open at a time in a text of no fixed form. -/
def maxDepth : Nat := 127

/-- The value of a text of no fixed form, with sorted objects. -/
def parse? (s : String) : Option Json :=
  (read? (some maxDepth) s).map canonical

end AssetCompiler.Json
