import AssetCompiler.Text.Blank
import AssetCompiler.Text.Octets

/-! # Options of programs

An option is a letter behind a dash or a word behind two dashes, which may be shortened as
long as it stays clear what is meant. Two dashes alone end the options. A program takes its
choices in the order they are written; what is left over are its operands.
-/
namespace AssetCompiler

inductive Argument where
  | none
  | required
  | optional
  deriving DecidableEq, Repr

/-- What may be chosen by an option. Long and short spellings lead to one name. -/
structure OptionTable where
  letters : List (Char × Argument × String)
  words : List (String × Argument × String) := []
  /-- Whether options may follow operands. -/
  anywhere : Bool := true

inductive Choice where
  | option (name : String) (argument : Option Octets)
  /-- An option that cannot be understood, with what is wrong about it. -/
  | refused (reason : Octets)
  deriving DecidableEq, Repr

namespace OptionTable

open Text (strip?)

/-- The choices of letters behind one dash. The last one may take the next argument, which is
then used up. -/
def chooseLetters (t : OptionTable) (next : Option Octets) : Octets → List Choice × Bool
  | [] => ([], false)
  | c :: cs =>
    match t.letters.lookup c with
    | none => ([.refused ("invalid option -- '".toList ++ c :: ['\''])], false)
    | some (.none, name) =>
      let (rest, used) := t.chooseLetters next cs
      (.option name none :: rest, used)
    | some (.optional, name) => ([.option name (if cs = [] then none else some cs)], false)
    | some (.required, name) =>
      if cs ≠ [] then ([.option name (some cs)], false)
      else match next with
        | some argument => ([.option name (some argument)], true)
        | none =>
          ([.refused ("option requires an argument -- '".toList ++ c :: ['\''])], false)

/-- The words that a shortened word may stand for. A complete word stands for itself. -/
def candidates (t : OptionTable) (word : Octets) : List (String × Argument × String) :=
  match t.words.find? fun w => w.1.toList == word with
  | some w => [w]
  | none => t.words.filter fun w => word.isPrefixOf w.1.toList

/-- The choice of a word behind two dashes, and whether the next argument is used up. -/
def chooseWord (t : OptionTable) (next : Option Octets) (text : Octets) : Choice × Bool :=
  let word := text.takeWhile (· != '=')
  let argument := (strip? ['='] (text.dropWhile (· != '=')))
  let dashed (w : String) : Octets := "'--".toList ++ w.toList ++ ['\'']
  match t.candidates word with
  | [] => (.refused ("unrecognized option '--".toList ++ text ++ ['\'']), false)
  | (w, kind, name) :: others =>
    if others.any fun o => o.2 != (kind, name) then
      (.refused ("option '--".toList ++ text ++ "' is ambiguous; possibilities:".toList ++
        ((w, kind, name) :: others).flatMap fun o => ' ' :: dashed o.1), false)
    else match kind, argument, next with
      | .none, some _, _ =>
        (.refused ("option ".toList ++ dashed w ++ " doesn't allow an argument".toList), false)
      | .none, none, _ => (.option name none, false)
      | .optional, a, _ => (.option name a, false)
      | .required, some a, _ => (.option name (some a), false)
      | .required, none, some a => (.option name (some a), true)
      | .required, none, none =>
        (.refused ("option ".toList ++ dashed w ++ " requires an argument".toList), false)

def choose (t : OptionTable) : List Octets → List Choice × List Octets
  | [] => ([], [])
  | arg :: rest =>
    let goOn (choices : List Choice) (used : Bool) : List Choice × List Octets :=
      match used, rest with
      | true, _ :: rest =>
        let (more, operands) := t.choose rest
        (choices ++ more, operands)
      | _, rest =>
        let (more, operands) := t.choose rest
        (choices ++ more, operands)
    match arg with
    | ['-', '-'] => ([], rest)
    | '-' :: '-' :: text =>
      let (choice, used) := t.chooseWord rest.head? text
      goOn [choice] used
    | '-' :: c :: cs =>
      let (choices, used) := t.chooseLetters rest.head? (c :: cs)
      goOn choices used
    | operand =>
      if t.anywhere then
        let (more, operands) := t.choose rest
        (more, operand :: operands)
      else ([], operand :: rest)

end OptionTable

end AssetCompiler
