import AssetCompiler.Process.Exchange.Pattern

/-! # Exchanging octets

Octets of one set are replaced by those at the same place of another, deleted, or squeezed to
one where they follow each other. A class of letters of one case can stand against the class
of the other case.
-/
namespace AssetCompiler.Exchange

structure Task where
  complements : Bool := false
  deletes : Bool := false
  squeezes : Bool := false
  /-- Whether the first set is cut to the length of the second. -/
  truncates : Bool := false
  deriving Inhabited, Repr

def options : OptionTable where
  letters := "AcCdst".toList.map fun c => (c, .none, String.singleton c)
  words := [("complement", .none, "c"), ("delete", .none, "d"), ("squeeze-repeats", .none, "s"),
    ("truncate-set1", .none, "t"), ("help", .none, "help"), ("version", .none, "version")]
  anywhere := false

def Task.choose (t : Task) : Choice → Except Octets Task
  | .refused reason => .error reason
  | .option name _ => .ok <|
    match name with
    | "c" | "C" => { t with complements := true }
    | "d" => { t with deletes := true }
    | "s" => { t with squeezes := true }
    | "t" => { t with truncates := true }
    | _ => t

/-- Which letters of one case an octet of a class stands for. -/
inductive Case where
  | none
  | upper
  | lower
  deriving DecidableEq, Repr

def Element.case : Element → Case
  | named "upper" => .upper
  | named "lower" => .lower
  | _ => .none

/-- An octet at a place of a set, the case of its element, whether it is the first of the
element, and how many of the element follow it. -/
structure Slot where
  char : Char
  case : Case
  first : Bool
  following : Nat

def Element.slots (e : Element) : List Slot :=
  let cs := e.members
  cs.zipIdx.map fun (c, i) => ⟨c, e.case, i == 0, cs.length - 1 - i⟩

def slots (es : List Element) : List Slot := es.flatMap Element.slots

def membersOf (es : List Element) : Octets := es.flatMap Element.members

/-- The rest of a set behind a slot, or behind its element. -/
def behind (wholeElement : Bool) (s : Slot) (rest : List Slot) : List Slot :=
  if wholeElement then rest.drop s.following else rest

/-- Whether classes of letters stand against each other wherever the second set has one. -/
def isAligned : Nat → List Slot → List Slot → Bool
  | 0, _, _ => true
  | n + 1, as, bs =>
    match as, bs with
    | a :: as, b :: bs =>
      if b.first && b.case != .none && !(a.first && a.case != .none) then false
      else isAligned n (behind (b.case != .none) a as) (behind (b.case != .none) b bs)
    | [], b :: _ => !(b.first && b.case != .none)
    | _, [] => true

def classPairs : Nat → List Slot → List Slot → Nat
  | 0, _, _ => 0
  | n + 1, as, bs =>
    match as, bs with
    | a :: as, b :: bs =>
      let whole := b.case != .none
      (if whole then 1 else 0) + classPairs n (behind whole a as) (behind whole b bs)
    | _, _ => 0

def pairOf (a b : Slot) : List (Char × Char) :=
  match a.case, b.case with
  | .lower, .upper => (octets.filter Char.isLower).map fun c => (c, c.toUpper)
  | .upper, .lower => (octets.filter Char.isUpper).map fun c => (c, c.toLower)
  | _, _ => [(a.char, b.char)]

def pairs : Nat → List Slot → List Slot → List (Char × Char)
  | 0, _, _ => []
  | n + 1, as, bs =>
    match as, bs with
    | a :: as, b :: bs =>
      let whole := b.case != .none
      pairOf a b ++ pairs n (behind whole a as) (behind whole b bs)
    | _, _ => []

def openEnded (es : List Element) : Nat :=
  (es.filter fun e =>
    match e with
    | .repeated _ none => true
    | _ => false).length

def fill (count : Nat) (es : List Element) : List Element :=
  es.map fun e =>
    match e with
    | .repeated c none => .repeated c (some count)
    | e => e

def hasClass (es : List Element) : Bool :=
  es.any fun e =>
    match e with
    | .named _ => true
    | _ => false

/-- The number of octets that a class of letters adds beyond one. -/
def classSurplus : Nat := 25

/-- The octet that an element without room still stands for. -/
def lastChar? (e : Element) : Option Char :=
  match e with
  | .repeated c _ => some c
  | e => e.members.getLast?

/-- The sets to exchange: the second filled up to the length of the first. -/
def extend (length₁ length₂ : Nat) (es : List Element) : Except Octets (List Element) :=
  let missing := length₁ - length₂
  match es.getLast? with
  | none => .ok es
  | some (.named _) => .error ("when translating with string1 longer than string2,\n".toList ++
      "the latter string must not end with a character class".toList)
  | some e => .ok (es ++ ((lastChar? e).map fun c => .repeated c (some missing)).toList)

def fitted (t : Task) (es₁ es₂ : List Element) : Except Octets (List Element) := do
  let distinct := (octets.filter (membersOf es₁).contains).length
  let length₁ := if t.complements then 256 - distinct else (membersOf es₁).length
  if 1 < openEnded es₂ then
    throw "only one [c*] repeat construct may appear in string2".toList
  let es₂ := fill (length₁ - (membersOf es₂).length) es₂
  let length₂ := (membersOf es₂).length
  if es₂.any fun e => match e with
      | .like _ => true
      | _ => false then
    throw "[=c=] expressions may not appear in string2 when translating".toList
  if hasClass es₂ && es₂.any fun e => match e with
      | .named name => name != "upper" && name != "lower"
      | _ => false then
    throw ("when translating, the only character classes that may appear in\n".toList ++
      "string2 are 'upper' and 'lower'".toList)
  let (s₁, s₂) := (slots es₁, slots es₂)
  let cased := !t.complements && hasClass es₂
  if cased && !isAligned (s₁.length + s₂.length + 1) s₁ s₂ then
    throw "misaligned [:upper:] and/or [:lower:] construct".toList
  let surplus := if cased then classSurplus * classPairs (s₁.length + 1) s₁ s₂ else 0
  let (length₁, length₂) := (length₁ - surplus, length₂ - surplus)
  let es₂ ←
    if length₂ < length₁ && !t.truncates then
      if length₂ = 0 then throw "when not truncating set1, string2 must be non-empty".toList
      else extend length₁ length₂ es₂
    else pure es₂
  let full := if length₂ < length₁ && !t.truncates then length₁ else length₂
  let members := membersOf es₂
  if t.complements && hasClass es₁ &&
      !(full == length₁ && members.all fun c => members.head? == some c) then
    throw ("when translating with complemented character classes,\n".toList ++
      "string2 must map all characters in the domain to one".toList)
  pure es₂

def exchanges (t : Task) (es₁ es₂ : List Element) : List (Char × Char) :=
  if t.complements then (octets.filter fun c => !(membersOf es₁).contains c).zip (membersOf es₂)
  else
    let s₁ := slots es₁
    pairs (s₁.length + 1) s₁ (slots es₂)

/-- One octet for every run of the same octet of a set. -/
def squeeze (set : Octets) : Octets → Octets
  | a :: b :: cs =>
    if a = b && set.contains a then squeeze set (b :: cs) else a :: squeeze set (b :: cs)
  | cs => cs

def filter (t : Task) (es₁ : List Element) (es₂? : Option (List Element)) :
    Except Octets (Octets → Octets) := do
  if 0 < openEnded es₁ then
    throw "the [c*] repeat construct may not appear in string1".toList
  let chosen := octets.filter fun c => (membersOf es₁).contains c != t.complements
  match es₂?, t.deletes with
  | none, false => pure (squeeze chosen)
  | none, true => pure fun text => text.filter fun c => !chosen.contains c
  | some es₂, true =>
    if 1 < openEnded es₂ then
      throw "only one [c*] repeat construct may appear in string2".toList
    if 0 < openEnded es₂ then
      throw "the [c*] construct may appear in string2 only when translating".toList
    let set := membersOf es₂
    pure fun text => squeeze set (text.filter fun c => !chosen.contains c)
  | some es₂, false =>
    let es₂ ← fitted t es₁ es₂
    let table := (exchanges t es₁ es₂).reverse
    let replace (text : Octets) : Octets := text.map fun c => (table.lookup c).getD c
    let set := membersOf es₂
    pure (if t.squeezes then fun text => squeeze set (replace text) else replace)

def countFault? (t : Task) (sets : List Octets) : Option Octets :=
  let least := if t.deletes == t.squeezes then 2 else 1
  let most := if t.deletes && !t.squeezes then 1 else 2
  if sets.length < least then
    some <| match sets.getLast? with
      | none => "missing operand".toList
      | some set => "missing operand after ".toList ++ Quoting.literal set ++
          (if t.squeezes then
            "\nTwo strings must be given when both deleting and squeezing repeats."
          else "\nTwo strings must be given when translating.").toList
  else match sets.drop most with
    | [] => none
    | extra :: _ => some ("extra operand ".toList ++ Quoting.literal extra ++
        if sets.length = 2 then
          ("\nOnly one string may be given when deleting without squeezing repeats.").toList
        else [])

def readSet (text : Octets) : List Octets × Except Octets (List Element) :=
  let (gs, remarks) := glyphs text
  (remarks, elementsOf (gs.length + 1) gs)

def readFilter (t : Task) (sets : List Octets) : List Octets × Except Octets (Octets → Octets) :=
  match sets with
  | [] => ([], .ok id)
  | first :: rest =>
    let (remarks₁, es₁) := readSet first
    match es₁, rest.head?.map readSet with
    | .error e, _ => (remarks₁, .error e)
    | .ok es₁, none => (remarks₁, filter t es₁ none)
    | .ok es₁, some (remarks₂, es₂) =>
      (remarks₁ ++ remarks₂, es₂.bind fun es₂ => filter t es₁ (some es₂))

def run : Program := fun args ds m =>
  let (choices, sets) := options.choose args
  match choices.foldlM Task.choose {} with
  | .error reason => Program.misuse reason ds m
  | .ok t =>
    match countFault? t sets with
    | some text => Program.misuse text ds m
    | none =>
      let (remarks, f) := readFilter t sets
      let m := remarks.foldl (fun m r => Program.complain r ds m) m
      match f with
      | .error text => Program.fail text ds m
      | .ok f =>
        match m.readFrom ds 0 none with
        | .error e => Program.fail ("read error: ".toList ++ e.text.toList) ds m
        | .ok (text, m) => Program.finish .success (f text) ds m

end AssetCompiler.Exchange
