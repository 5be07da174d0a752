import AssetCompiler.Process.Echo

/-! # Escapes of scripts

A backslash and what stands behind it are replaced by one octet. Formats and arguments have
octal escapes of different form, and only an argument can end the output.
-/
namespace AssetCompiler.Shell.Escape

/-- What an escape behind a backslash stands for, and how many characters belong to it. -/
def one (cs : Octets) : Char × Nat :=
  match cs with
  | [] => ('\\', 0)
  | c :: _ =>
    if Echo.isOctal c then
      let ds := Echo.octalDigits 3 cs
      (Echo.ofDigits 8 ds, ds.length)
    else match Echo.letters.lookup c with
      | some b => (b, 1)
      | none => ('\\', 0)

/-- The same in an argument, where a zero can stand in front of octal digits. -/
def inArgument (cs : Octets) : Char × Nat :=
  match cs with
  | '0' :: d :: rest =>
    if Echo.isOctal d then
      let (c, n) := one (d :: rest)
      (c, n + 1)
    else one cs
  | cs => one cs

/-- An argument with its escapes resolved, and whether one of them ends the output. -/
def argument (cs : Octets) : Octets × Bool :=
  match cs with
  | [] => ([], false)
  | '\\' :: 'c' :: _ => ([], true)
  | '\\' :: cs =>
    let (c, n) := inArgument cs
    let (more, ended) := argument (cs.drop n)
    (c :: more, ended)
  | c :: cs =>
    let (more, ended) := argument cs
    (c :: more, ended)
  termination_by cs.length
  decreasing_by all_goals simp only [List.length_cons, List.length_drop] at *; omega

end AssetCompiler.Shell.Escape
