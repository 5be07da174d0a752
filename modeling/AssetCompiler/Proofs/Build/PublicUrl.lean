import AssetCompiler.Proofs.Build.Template
import AssetCompiler.Proofs.Path.Relative
import AssetCompiler.Proofs.Path.Siblings

/-! # Public addresses

The address of a target spells the components below the served directory, none of which is empty or has
a separator in it. So an address tells its target, however the target and the directory are spelled.
-/
namespace AssetCompiler

namespace Text

theorem dropEndWhile_append_replicate {base : List Char} {c : Char} (h : base.getLast? ≠ some c) (n : Nat) :
    dropEndWhile (· == c) (base ++ List.replicate n c) = base := by
  induction n with
  | zero =>
    rw [List.replicate_zero, List.append_nil]
    refine dropEndWhile_of_getLast fun x hx => beq_eq_false_iff_ne.mpr ?_
    rintro rfl
    exact h hx
  | succ n ih =>
    rw [List.replicate_succ', ← List.append_assoc, dropEndWhile_append_of_pos _ (by simp), ih]

end Text

namespace Path

variable {p base : Path} {first : List Char} {pieces : List (List Char)} {rest : List Component}

/-- What a path may have behind its first component. -/
def IsInner (c : Component) : Prop := c = .up ∨ ∃ n, c = .name n ∧ IsName n

theorem isInner_of_mem {c : Component} (hflat : ∀ piece ∈ pieces, '/' ∉ piece)
    (h : c ∈ pieces.filterMap (Component.ofPiece? false)) : IsInner c := by
  obtain ⟨piece, hmem, hpiece⟩ := List.mem_filterMap.mp h
  cases c with
  | up => exact .inl rfl
  | name n => exact .inr ⟨n, rfl, isName_of_ofPiece? (hflat piece hmem) hpiece⟩
  | root | here =>
    unfold Component.ofPiece? at hpiece
    split_ifs at hpiece <;> first | contradiction | cases hpiece

/-- A path with a text has a first component, and the others are those of the pieces behind the first. -/
theorem exists_components_cons (h : p.text ≠ "") : ∃ c first pieces, p.parts = first :: pieces ∧
    p.components = c :: pieces.filterMap (Component.ofPiece? false) := by
  obtain ⟨first, pieces, hparts⟩ := List.exists_cons_of_ne_nil p.parts_ne_nil
  have hne : first = [] → pieces ≠ [] := by
    rintro rfl rfl
    have hunite := Text.unite_pieces '/' p.text.toList
    rw [← parts, hparts] at hunite
    exact h (String.toList_eq_nil_iff.mp hunite.symm)
  obtain ⟨c, hc⟩ : ∃ c, leadingComponent? first pieces = some c := by
    by_cases hfirst : first = []
    · exact ⟨.root, by rw [leadingComponent?, if_pos hfirst, if_neg (hne hfirst)]⟩
    · rw [leadingComponent?, if_neg hfirst, Component.ofPiece?, if_neg hfirst, if_pos rfl]
      split_ifs <;> exact ⟨_, rfl⟩
  refine ⟨c, first, pieces, hparts, ?_⟩
  rw [components_of_parts hparts, hc]
  rfl

theorem components_of_not_isFiller (hparts : p.parts = first :: pieces) (hfirst : isFiller first = false) :
    p.components = (first :: pieces).filterMap (Component.ofPiece? false) := by
  obtain ⟨hempty, hdot⟩ : first ≠ [] ∧ first ≠ ['.'] := by simpa [isFiller] using hfirst
  rw [components_of_parts hparts, leadingComponent?, if_neg hempty, List.filterMap_cons]
  unfold Component.ofPiece?
  split_ifs <;> rfl

/-- Pieces without fillers in front, written with separators between them, keep their components. -/
theorem components_unite (hflat : ∀ piece ∈ pieces, '/' ∉ piece)
    (hhead : ∀ piece, pieces.head? = some piece → isFiller piece = false) :
    components ⟨String.ofList (Text.unite ['/'] pieces)⟩ = pieces.filterMap (Component.ofPiece? false) := by
  cases pieces with
  | nil => exact components_of_empty rfl
  | cons first pieces =>
    refine components_of_not_isFiller ?_ (hhead first rfl)
    rw [parts_of_text, Text.pieces_unite (List.cons_ne_nil first pieces) hflat]

theorem head?_dropEndWhile {α : Type} {f : α → Bool} {xs : List α}
    (h : ∀ x, xs.head? = some x → f x = false) :
    ∀ x, (Text.dropEndWhile f xs).head? = some x → f x = false := by
  obtain ⟨back, hxs, _, _⟩ := Text.dropEndWhile_spec f xs
  intro x hx
  refine h x ?_
  rw [hxs, List.head?_append, hx]
  rfl

/-- What is left of a path below a base with a text has the components behind those of the base. -/
theorem exists_stripPrefix? (h : base.text ≠ "") (hrest : p.components = base.components ++ rest) :
    ∃ q, p.stripPrefix? base = some q ∧ q.components = rest ∧ ∀ c ∈ rest, IsInner c := by
  obtain ⟨b, _, _, _, hbase⟩ := exists_components_cons h
  have htext : p.text ≠ "" := fun he => by simp [components_of_empty he, hbase] at hrest
  obtain ⟨c, first, pieces, hparts, hp⟩ := exists_components_cons htext
  have hflat : ∀ piece ∈ pieces, '/' ∉ piece := fun piece hpiece =>
    Text.not_mem_of_mem_pieces (show piece ∈ p.parts from hparts ▸ List.mem_cons_of_mem _ hpiece)
  have hbelow : base.components.isPrefixOf p.components = true :=
    List.isPrefixOf_iff_prefix.mpr ⟨rest, hrest.symm⟩
  obtain ⟨k, hk⟩ : ∃ k, base.components.length = k + 1 := ⟨_, by rw [hbase]; rfl⟩
  -- The first component belongs to the base, so what is left comes from the pieces behind the first.
  have hdrop : (pieces.filterMap (Component.ofPiece? false)).drop k = rest := by
    have hlast := congrArg (List.drop (k + 1)) hrest
    rwa [hp, List.drop_succ_cons, ← hk, List.drop_left] at hlast
  have hleft : ∀ piece ∈ Text.dropEndWhile isFiller ((dropComponents k pieces).dropWhile isFiller),
      '/' ∉ piece := by
    intro piece hpiece
    obtain ⟨back, hback, _, _⟩ :=
      Text.dropEndWhile_spec isFiller ((dropComponents k pieces).dropWhile isFiller)
    have hmem : piece ∈ (dropComponents k pieces).dropWhile isFiller :=
      hback ▸ List.mem_append_left back hpiece
    exact hflat piece ((dropComponents_suffix k pieces).subset ((List.dropWhile_suffix _).subset hmem))
  have hstrip : p.stripPrefix? base = some ⟨String.ofList (Text.unite ['/']
      (Text.dropEndWhile isFiller ((dropComponents k pieces).dropWhile isFiller)))⟩ := by
    simp [stripPrefix?, hbelow, hk, headTail_of_parts hparts]
  refine ⟨_, hstrip, ?_, fun d hd => ?_⟩
  · rw [components_unite hleft (head?_dropEndWhile fun piece hpiece => ?_),
      Text.filterMap_dropEndWhile fun _ hf => ofPiece?_false_eq_none_iff.mpr hf,
      filterMap_dropWhile_isFiller, filterMap_dropComponents, hdrop]
    have hnot := List.head?_dropWhile_not isFiller (dropComponents k pieces)
    rwa [hpiece] at hnot
  · rw [← hdrop] at hd
    exact isInner_of_mem hflat (List.mem_of_mem_drop hd)

end Path

variable {d : Delivery} {target other : Path} {rest : List Component} {url : String}

theorem publicUrl?_eq (h : d.path.text ≠ "") (hrest : target.components = d.path.components ++ rest) :
    publicUrl? d target = some (trimSlashes d.url ++ "/" ++ Path.joinComponents rest) := by
  obtain ⟨q, hq, hcomponents, _⟩ := Path.exists_stripPrefix? h hrest
  rw [publicUrl?, hq, Option.map_some, hcomponents]

theorem exists_components_of_publicUrl? (h : publicUrl? d target = some url) :
    ∃ rest, target.components = d.path.components ++ rest := by
  have hsome := isSome_publicUrl? d target
  rw [h, Option.isSome_some, eq_comm, List.isPrefixOf_iff_prefix] at hsome
  obtain ⟨rest, hrest⟩ := hsome
  exact ⟨rest, hrest.symm⟩

/-- Two targets of one address are the same path. -/
theorem beq_of_publicUrl?_eq (h : d.path.text ≠ "") (ht : publicUrl? d target = some url)
    (ho : publicUrl? d other = some url) : (target == other) = true := by
  obtain ⟨rest, hrest⟩ := exists_components_of_publicUrl? ht
  obtain ⟨more, hmore⟩ := exists_components_of_publicUrl? ho
  obtain ⟨_, _, _, hinner⟩ := Path.exists_stripPrefix? h hrest
  obtain ⟨_, _, _, hinner'⟩ := Path.exists_stripPrefix? h hmore
  rw [publicUrl?_eq h hrest] at ht
  rw [publicUrl?_eq h hmore, ← ht, Option.some.injEq, String.append_right_inj] at ho
  have hjoined := congrArg (fun s => (⟨s⟩ : Path).components) ho
  simp only [Path.components_joinComponents hinner, Path.components_joinComponents hinner'] at hjoined
  rw [Path.beq_iff, hrest, hmore, hjoined]

namespace Produce.Scene

variable {s : Scene} {o : Occurrence} {t : Answering}

/-- What a directive is answered with as an address is the address of a public dependency's target. -/
theorem exists_of_address_eq (h : (s.address o t).1 = url) (hne : url ≠ "") :
    ∃ i target, o.dependency? = some i ∧ (s.assets.get i).isPartial = false ∧
      (s.assets.get i).target = some target ∧ publicUrl? s.context.config.delivery target = some url := by
  unfold address withTarget at h
  split at h
  · exact absurd h.symm hne
  · rename_i i hi
    dsimp only at h
    split at h
    · rename_i target htarget
      split at h
      · exact absurd h.symm hne
      · rename_i hpartial
        split at h
        · rename_i found hfound
          exact ⟨i, target, hi, Bool.eq_false_iff.mpr hpartial, htarget, h ▸ hfound⟩
        · exact absurd h.symm hne
    · exact absurd h.symm hne

/-- A directive that depends on a public asset is answered with the address of the asset's target. -/
theorem address_of_public {i : Nat} (hi : o.dependency? = some i)
    (hpublic : (s.assets.get i).isPartial = false)
    (htarget : (s.assets.get i).target = some target)
    (hurl : publicUrl? s.context.config.delivery target = some url) : (s.address o t).1 = url := by
  simp [address, withTarget, hi, htarget, hpublic, hurl]

end Produce.Scene

/-- A target has an address when it lies below the served directory: the base address without the
slashes at its end, a slash, and the remaining components. Different targets have different addresses,
so two directives that are answered with one address depend on one asset. -/
theorem publicUrl?_exact (d : Delivery) (h : d.path.text ≠ "") :
    (∀ target, (publicUrl? d target).isSome = true ↔ d.path.components <+: target.components) ∧
    (∀ (base : List Char) (n : Nat) (target : Path) (rest : List Component),
      d.url.toList = base ++ List.replicate n '/' → base.getLast? ≠ some '/' →
      target.components = d.path.components ++ rest →
      publicUrl? d target =
        some (String.ofList base ++ "/" ++ "/".intercalate (rest.map Component.text))) ∧
    (∀ target other url, publicUrl? d target = some url → publicUrl? d other = some url →
      (target == other) = true) ∧
    (∀ (s : Produce.Scene) (o : Occurrence) (t : Answering) (i : Nat) (target : Path) (url : String),
      s.context.config.delivery = d → o.dependency? = some i → (s.assets.get i).isPartial = false →
      (s.assets.get i).target = some target → publicUrl? d target = some url →
      (s.address o t).1 = url) ∧
    ∀ (s s' : Produce.Scene) (o o' : Occurrence) (t t' : Answering),
      s.context.config.delivery = d → s'.context.config.delivery = d →
      (∀ i j p q, (s.assets.get i).target = some p → (s'.assets.get j).target = some q →
        (p == q) = true → i = j) →
      (s.address o t).1 = (s'.address o' t').1 → (s.address o t).1 ≠ "" →
      o.dependency? = o'.dependency? := by
  refine ⟨fun target => ?_, ?_, fun _ _ _ => beq_of_publicUrl?_eq h, ?_, ?_⟩
  · rw [isSome_publicUrl?, List.isPrefixOf_iff_prefix]
  · intro base n target rest hurl hlast hrest
    rw [publicUrl?_eq h hrest, trimSlashes, hurl, Text.dropEndWhile_append_replicate hlast]
    rfl
  · rintro s o t i target url rfl hi hpublic htarget hurl
    exact Produce.Scene.address_of_public hi hpublic htarget hurl
  · intro s s' o o' t t' hd hd' hdistinct hsame hne
    obtain ⟨i, p, hi, _, hp, hurl⟩ := Produce.Scene.exists_of_address_eq rfl hne
    obtain ⟨j, q, hj, _, hq, hurl'⟩ := Produce.Scene.exists_of_address_eq hsame.symm hne
    rw [hd] at hurl
    rw [hd'] at hurl'
    rw [hi, hj, hdistinct i j p q hp hq (beq_of_publicUrl?_eq h hurl hurl')]

namespace Sample

def picture (source target : Path) : Asset :=
  { Asset.ofSource .image source none with target := some target }

/-- A page beside two pictures, below a served directory that is spelled at length. -/
def gallery : Produce.Scene where
  context := context { delivery := ⟨⟨"./public//site/."⟩, "https://cdn.example//"⟩ }
  files := { entries := [] }
  assets := [picture ⟨"images/a.png"⟩ ⟨"./public/site/images/./a.png"⟩,
    picture ⟨"images/b.png"⟩ ⟨"./public/site/images/b.png"⟩]
  asset := .ofSource .markup ⟨"html/page.html"⟩ none

end Sample

open Sample in
theorem publicUrl?_exact_gallery :
    let d := gallery.context.config.delivery
    let link (i : Nat) : Occurrence := ⟨⟨0, 0⟩, .imageUrl "", some i⟩
    d.path.text ≠ "" ∧ publicUrl? d ⟨"public/site/images/a.png"⟩ = none ∧
      publicUrl? d ⟨"./public/site/images/./a.png"⟩ = some "https://cdn.example/images/a.png" ∧
      (gallery.address (link 0) default).1 = "https://cdn.example/images/a.png" ∧
      (gallery.address (link 0) default).1 ≠ (gallery.address (link 1) default).1 := by
  intro d link
  have hpath : d.path.text ≠ "" := by decide +kernel
  obtain ⟨hsome, hurl, _, hlinked, hone⟩ := publicUrl?_exact d hpath
  have hone' := hone gallery gallery (link 0) (link 1) default default rfl rfl
  have hpicture : publicUrl? d ⟨"./public/site/images/./a.png"⟩ = some "https://cdn.example/images/a.png" :=
    hurl "https://cdn.example".toList 2 _ [.name "images", .name "a.png"] (by decide +kernel)
      (by decide +kernel) (by decide +kernel)
  have haddress : (gallery.address (link 0) default).1 = "https://cdn.example/images/a.png" :=
    hlinked gallery (link 0) default 0 _ _ rfl rfl (by decide +kernel) rfl hpicture
  refine ⟨hpath, ?_, hpicture, haddress, fun hsame => ?_⟩
  · refine Option.not_isSome_iff_eq_none.mp fun h => ?_
    revert h
    rw [hsome]
    decide +kernel
  · have hdistinct : ∀ i j p q, (gallery.assets.get i).target = some p →
        (gallery.assets.get j).target = some q → (p == q) = true → i = j := by
      rintro (_ | _ | i) (_ | _ | j) p q hp hq hpq <;> cases hp <;> cases hq
      · rfl
      · exact absurd hpq (by decide +kernel)
      · exact absurd hpq (by decide +kernel)
      · rfl
    have hne : (gallery.address (link 0) default).1 ≠ "" := by rw [haddress]; decide
    exact absurd (hone' hdistinct hsame hne) (by decide)

end AssetCompiler
