import AssetCompiler.Proofs.Build.Clean
import AssetCompiler.Proofs.Build.Confined
import Mathlib.Logic.Function.Iterate

/-! # Targets with holes

A fingerprint gets into a target only with the name of another target, by a link. So a target is laid
out before fingerprints are drawn: its links are holes, each of which tells what it links to and how.
Where texts are taken in, their holes come with them.
-/
namespace AssetCompiler

/-! ### Addresses -/

/-- Whether a target has an address depends on its components alone. -/
theorem isSome_publicUrl? (d : Delivery) (p : Path) :
    (publicUrl? d p).isSome = d.path.components.isPrefixOf p.components := by
  unfold publicUrl? Path.stripPrefix?
  rw [Option.isSome_map]
  dsimp only
  split
  · rename_i h
    rw [h]
    split <;> rfl
  · rename_i h
    rw [Bool.not_eq_true] at h
    rw [h]
    rfl

/-- All targets that an asset may get have addresses or none has, unless the served directory lies below
their root. -/
theorem Asset.isSome_publicUrl?_targetPath {c : Config} {a : Asset} {fp? fp?' : Option String}
    (h : a.Placed c) (hbelow : ¬(a.targetRoot c).Below c.delivery.path)
    (hf : FlatFingerprint fp?) (hf' : FlatFingerprint fp?') :
    (publicUrl? c.delivery (a.targetPath c fp?)).isSome =
      (publicUrl? c.delivery (a.targetPath c fp?')).isSome := by
  obtain ⟨dir, stem, extension, h⟩ := h
  have hiff {fp? : Option String} (hf : FlatFingerprint fp?) :
      (publicUrl? c.delivery (a.targetPath c fp?)).isSome = true ↔
        c.delivery.path.components <+: (a.targetRoot c).components ++ dir.map Component.name := by
    rw [isSome_publicUrl?, List.isPrefixOf_iff_prefix, h.components_target hf, List.map_append,
      ← List.append_assoc, List.map_singleton, List.prefix_concat_iff]
    refine or_iff_right fun he => hbelow ⟨_, ?_, h.isNames_target hf, ?_⟩
    · simp
    · rw [he]
      simp
  exact Bool.eq_iff_iff.mpr ((hiff hf).trans (hiff hf').symm)

/-! ### Holes -/

/-- A place for a link to the target of an asset, by its address or by the way from a directory. An
escaped include escapes the links in the text that it takes in. -/
structure Hole where
  kind : Kind
  source : Path
  from? : Option Path := none
  escapes : Nat := 0
  deriving DecidableEq

/-- A part of a text whose links are left open. -/
inductive Piece where
  | text (cs : List Char)
  | hole (h : Hole)
  deriving DecidableEq

/-- A target whose links are left open. -/
inductive Template where
  | copied (bytes : ByteArray)
  | written (pieces : List Piece)
  deriving DecidableEq, Inhabited

namespace Hole

def escaped (h : Hole) : Hole := { h with escapes := h.escapes + 1 }

/-- The target that reports name for the asset of a hole. -/
def target? (reports : List AssetReport) (h : Hole) : Option Path :=
  (reports.find? fun e => decide (e.kind = h.kind ∧ e.source = h.source)).bind AssetReport.target

def link? (d : Delivery) (h : Hole) (target : Path) : Option String :=
  match h.from? with
  | none => publicUrl? d target
  | some dir => some (Naming.relativeLink target dir)

/-- The link in a hole when the targets are known, escaped as often as it was taken in so. -/
def fill? (d : Delivery) (reports : List AssetReport) (h : Hole) : Option (List Char) :=
  ((h.target? reports).bind (h.link? d)).map fun link =>
    (List.flatMap Produce.escapeChar)^[h.escapes] link.toList

theorem fill?_escaped {d : Delivery} {reports : List AssetReport} {h : Hole} {cs : List Char}
    (hf : h.fill? d reports = some cs) :
    h.escaped.fill? d reports = some (cs.flatMap Produce.escapeChar) := by
  obtain ⟨link, hlink, rfl⟩ := Option.map_eq_some_iff.mp hf
  have hsame : (h.escaped.target? reports).bind (h.escaped.link? d) = some link := hlink
  unfold fill?
  rw [hsame, Option.map_some, escaped, Function.iterate_succ_apply']

end Hole

namespace Piece

def escaped : Piece → Piece
  | text cs => text (cs.flatMap Produce.escapeChar)
  | hole h => hole h.escaped

def fill? (fillHole? : Hole → Option (List Char)) : Piece → Option (List Char)
  | text cs => some cs
  | hole h => fillHole? h

/-- A text with its links, if all of them can be made. -/
def fillAll? (fillHole? : Hole → Option (List Char)) : List Piece → Option (List Char)
  | [] => some []
  | p :: ps => (p.fill? fillHole?).bind fun front => (fillAll? fillHole? ps).map (front ++ ·)

variable {fillHole? : Hole → Option (List Char)} {ps qs : List Piece} {cs ds : List Char}

theorem fillAll?_append (hp : fillAll? fillHole? ps = some cs) (hq : fillAll? fillHole? qs = some ds) :
    fillAll? fillHole? (ps ++ qs) = some (cs ++ ds) := by
  induction ps generalizing cs with
  | nil =>
    obtain rfl := Option.some.inj hp
    exact hq
  | cons p ps ih =>
    obtain ⟨front, hfront, hp⟩ := Option.bind_eq_some_iff.mp hp
    obtain ⟨back, hback, rfl⟩ := Option.map_eq_some_iff.mp hp
    rw [List.cons_append, fillAll?, hfront, Option.bind_some, ih hback, Option.map_some,
      List.append_assoc]

theorem fillAll?_escaped (hhole : ∀ h cs, fillHole? h = some cs →
    fillHole? h.escaped = some (cs.flatMap Produce.escapeChar)) (hp : fillAll? fillHole? ps = some cs) :
    fillAll? fillHole? (ps.map escaped) = some (cs.flatMap Produce.escapeChar) := by
  induction ps generalizing cs with
  | nil =>
    obtain rfl := Option.some.inj hp
    rfl
  | cons p ps ih =>
    obtain ⟨front, hfront, hp⟩ := Option.bind_eq_some_iff.mp hp
    obtain ⟨back, hback, rfl⟩ := Option.map_eq_some_iff.mp hp
    have hpiece : p.escaped.fill? fillHole? = some (front.flatMap Produce.escapeChar) := by
      cases p with
      | text ds =>
        obtain rfl := Option.some.inj hfront
        rfl
      | hole h => exact hhole h front hfront
    rw [List.map_cons, fillAll?, hpiece, Option.bind_some, ih hback, Option.map_some, List.flatMap_append]

end Piece

namespace Template

def holes : Template → List Hole
  | copied _ => []
  | written ps => ps.filterMap fun
    | .text _ => none
    | .hole h => some h

/-- The octets of a target when the targets of its links are known, if all links can be made. -/
def fill? (d : Delivery) (reports : List AssetReport) : Template → Option ByteArray
  | copied bytes => some bytes
  | written ps => (Piece.fillAll? (Hole.fill? d reports) ps).map fun cs => (String.ofList cs).toUTF8

variable {ps : List Piece} {h : Hole}

theorem mem_holes_written : h ∈ (written ps).holes ↔ Piece.hole h ∈ ps := by
  unfold holes
  rw [List.mem_filterMap]
  constructor
  · rintro ⟨p, hp, he⟩
    cases p with
    | text cs => cases he
    | hole h' =>
      cases he
      exact hp
  · exact fun hp => ⟨_, hp, rfl⟩

end Template

/-- Whether a directive asks for an address. -/
def Directive.isAddress : Directive → Bool
  | stylesheetUrl _ | scriptUrl _ | imageUrl _ => true
  | _ => false

/-- How a hole gets into the target of an asset: the asset's text asks for the link, or takes in the
target of an asset that has the hole. -/
inductive Reaches (c : Config) (as : Collection) : Nat → Hole → Prop
  | address (i d : Nat) (o : Occurrence) (mem : o ∈ (as.get i).occurrences)
      (directive : o.directive.isAddress = true) (dependency : o.dependency? = some d) :
      Reaches c as i { kind := (as.get d).kind, source := (as.get d).source }
  | relative (i d : Nat) (o : Occurrence) (path : String) (mem : o ∈ (as.get i).occurrences)
      (directive : o.directive = .imagePath path) (dependency : o.dependency? = some d) :
      Reaches c as i { kind := (as.get d).kind, source := (as.get d).source,
                       from? := some ((as.get i).targetDir c) }
  | included (i d : Nat) (o : Occurrence) (path : String) (escaped : Bool) (h : Hole)
      (mem : o ∈ (as.get i).occurrences) (directive : o.directive = .embed path escaped)
      (dependency : o.dependency? = some d) (inner : Reaches c as d h) :
      Reaches c as i (if escaped then h.escaped else h)

/-- A hole of an asset, for a link to a target that may have a fingerprint. -/
structure HoleOf (c : Config) (as : Collection) (i : Nat) (h : Hole) : Prop where
  kind : h.kind ≠ .markup
  reaches : Reaches c as i h

/-! ### Families of texts -/

/-- Texts that are laid out the same in all runs, up to the links in the holes of an asset. -/
def Spells {ι : Type} (c : Config) (as : Collection) (reports : ι → List AssetReport) (i : Nat)
    (f : ι → List Char) : Prop :=
  ∃ ps, (∀ h, .hole h ∈ ps → HoleOf c as i h) ∧
    ∀ r, Piece.fillAll? (Hole.fill? c.delivery (reports r)) ps = some (f r)

namespace Spells

variable {ι : Type} {c : Config} {as : Collection} {reports : ι → List AssetReport} {i : Nat}
  {f : ι → List Char}

theorem composable : Composable (Spells c as reports i) where
  const cs := by
    refine ⟨[.text cs], fun h hh => (by simp at hh), fun r => ?_⟩
    simp [Piece.fillAll?, Piece.fill?]
  append f g hf hg := by
    obtain ⟨ps, hps, hf⟩ := hf
    obtain ⟨qs, hqs, hg⟩ := hg
    refine ⟨ps ++ qs, fun h hh => ?_, fun r => Piece.fillAll?_append (hf r) (hg r)⟩
    exact (List.mem_append.mp hh).elim (hps h) (hqs h)

theorem congr {g : ι → List Char} (h : Spells c as reports i f) (he : ∀ r, g r = f r) :
    Spells c as reports i g :=
  (funext he : g = f) ▸ h

theorem of_hole {h : Hole} (hole : HoleOf c as i h)
    (hf : ∀ r, h.fill? c.delivery (reports r) = some (f r)) : Spells c as reports i f := by
  refine ⟨[.hole h], fun h' hh => ?_, fun r => ?_⟩
  · rw [List.mem_singleton, Piece.hole.injEq] at hh
    exact hh ▸ hole
  · simp [Piece.fillAll?, Piece.fill?, hf r]

/-- The text of an asset that is taken in, escaped or not. -/
theorem included {d : Nat} {o : Occurrence} {path : String} {escaped : Bool} {ps : List Piece}
    (hmem : o ∈ (as.get i).occurrences) (hdirective : o.directive = .embed path escaped)
    (hd : o.dependency? = some d) (hps : ∀ h, .hole h ∈ ps → HoleOf c as d h)
    (hf : ∀ r, Piece.fillAll? (Hole.fill? c.delivery (reports r)) ps = some (f r)) :
    Spells c as reports i fun r => if escaped then (f r).flatMap Produce.escapeChar else f r := by
  have hreaches (h : Hole) (hh : .hole h ∈ ps) : HoleOf c as i (if escaped then h.escaped else h) := by
    refine ⟨?_, .included i d o path escaped h hmem hdirective hd (hps h hh).reaches⟩
    cases escaped <;> exact (hps h hh).kind
  cases escaped with
  | false => exact ⟨ps, hreaches, hf⟩
  | true =>
    refine ⟨ps.map Piece.escaped, fun h hh => ?_, fun r =>
      Piece.fillAll?_escaped (fun _ _ => Hole.fill?_escaped) (hf r)⟩
    obtain ⟨p, hp, he⟩ := List.mem_map.mp hh
    cases p with
    | text cs => cases he
    | hole h' =>
      cases he
      exact hreaches h' hp

end Spells

end AssetCompiler
