/-! # Build order

The dependencies of `n` items are lists of indices below `n`; other indices mean nothing.
The order is built in layers: a layer holds every remaining item none of whose dependencies
remains, in input order. When a layer comes out empty, what remains cannot be ordered.
-/
namespace AssetCompiler

/-- The items that cannot be ordered, ascending. -/
structure Cycle where
  remaining : List Nat
  deriving DecidableEq, Repr

namespace Schedule

abbrev Graph := List (List Nat)

def dependencies (g : Graph) (i : Nat) : List Nat := g.getD i []

def isReady (g : Graph) (remaining : List Nat) (i : Nat) : Bool :=
  (dependencies g i).all fun d => !remaining.contains d

/-- The items that are ready, in input order. -/
def layer (g : Graph) (remaining : List Nat) : List Nat :=
  remaining.filter (isReady g remaining)

/-- The items that have to wait, in input order. -/
def blocked (g : Graph) (remaining : List Nat) : List Nat :=
  remaining.filter fun i => !isReady g remaining i

theorem length_blocked_lt {g : Graph} {remaining : List Nat} (h : layer g remaining ≠ []) :
    (blocked g remaining).length < remaining.length := by
  obtain ⟨i, hi⟩ := List.exists_mem_of_ne_nil _ h
  have hp := List.mem_filter.mp hi
  exact List.length_filter_lt_length_iff_exists.mpr ⟨i, hp.1, by simp [hp.2]⟩

/-- Orders what remains, layer by layer. -/
def orderFrom (g : Graph) (remaining : List Nat) : Except Cycle (List Nat) :=
  if remaining = [] then .ok []
  else if h : layer g remaining = [] then .error ⟨remaining⟩
  else
    have := length_blocked_lt h
    (orderFrom g (blocked g remaining)).map (layer g remaining ++ ·)
  termination_by remaining.length

/-- An order in which every item comes after its dependencies. -/
def order (g : Graph) : Except Cycle (List Nat) :=
  orderFrom g (List.range g.length)

end Schedule

def Cycle.message (c : Cycle) : String :=
  "cyclic dependency among " ++ toString c.remaining.length ++ " assets"

end AssetCompiler
