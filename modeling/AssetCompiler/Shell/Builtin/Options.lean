import AssetCompiler.Shell.State

/-! # Options of a shell's commands

Options are letters behind dashes in front of the arguments. A letter can take the rest of its
argument, or the next one.
-/
namespace AssetCompiler.Shell.Builtin

/-- The letters at the front of arguments with what they take, and the arguments left over. In
`allowed` a colon stands behind a letter that takes something. -/
def letters (allowed : List Char) : List Octets → Act (List (Char × Octets) × List Octets)
  | [] => return ([], [])
  | arg :: rest =>
    match arg with
    | '-' :: '-' :: [] => return ([], rest)
    | '-' :: c :: cs => go rest (c :: cs)
    | _ => return ([], arg :: rest)
where
  go (rest : List Octets) : Octets → Act (List (Char × Octets) × List Octets)
    | [] => letters allowed rest
    | c :: cs => do
      match allowed.dropWhile (· != c) with
      | [] => Act.fail ("Illegal option -".toList ++ [c])
      | _ :: ':' :: _ =>
        match cs, rest with
        | [], [] => Act.fail ("No arg for -".toList ++ c :: " option".toList)
        | [], value :: rest => do
          let (more, args) ← letters allowed rest
          return ((c, value) :: more, args)
        | cs, rest => do
          let (more, args) ← letters allowed rest
          return ((c, cs) :: more, args)
      | _ => do
        let (more, args) ← go rest cs
        return ((c, []) :: more, args)

end AssetCompiler.Shell.Builtin
