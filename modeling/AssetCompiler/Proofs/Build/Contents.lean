import AssetCompiler.Proofs.Build.Clean
import AssetCompiler.Proofs.Walk

/-! # Trees with the same contents

Times and locks are no part of what a build makes of its sources. From trees that have the same
directories and the same contents a build plans the same, finds the same tables, and makes the same
directories for its targets. Two builds that start on the same files at different times have such trees
once their caches are open.
-/
namespace AssetCompiler

open AssetCompiler.Tree (Keeps SameDirs SameContents)

namespace Catalog

variable {files files' : Tree} {t : Catalog}

/-- The place of a table ends in the extension of tables, which no target has. -/
theorem tablePath_not_endsIn (dir : Path) (language : String) (home : Location) (kind : Kind) :
    ¬EndsIn kind ((tablePath dir language).resolve home) := by
  have hback : '/' ∉ '.' :: "json".toList := by decide
  obtain ⟨ps, front, hpieces⟩ := Text.exists_pieces_append hback language.toList
  have htext : (⟨language ++ ".json"⟩ : Path).text.toList = language.toList ++ '.' :: "json".toList := by
    rw [String.toList_append]
    rfl
  have hparts : (tablePath dir language).parts.getLast? =
      some (String.ofList (front ++ '.' :: "json".toList)).toList := by
    rw [tablePath, Path.getLast?_parts_join, Path.parts, htext, hpieces, List.getLast?_concat]
    simp
  have hname : IsName (String.ofList (front ++ '.' :: "json".toList)) := by
    refine Path.isName_extended (by decide) (by decide) ?_
    exact Text.not_mem_of_mem_pieces (hpieces ▸ List.mem_append_right _ List.mem_cons_self)
  obtain ⟨above, habove⟩ := Path.exists_resolve_of_getLast? hname hparts home
  intro h
  have hkind := h.kind?_eq front _ habove (by decide)
  revert hkind
  cases kind <;> decide

theorem fst_readTable (directory? : Option Path) (language : String) :
    (readTable files directory? language).1 = (directory?.bind fun dir =>
      (files.readText (tablePath dir language)).toOption.bind tableOf?).getD [] := by
  unfold readTable
  cases directory? with
  | none => rfl
  | some dir =>
    dsimp only [Option.bind_some]
    cases files.readText (tablePath dir language) with
    | error fault => rfl
    | ok text =>
      dsimp only [Except.toOption, Option.bind_some]
      cases tableOf? text <;> rfl

/-- Tables are the same in trees with the same directories that have the same content in their place. -/
theorem readTable_congr {directory? : Option Path} {language : String} (h : SameDirs files files')
    (hfile : ∀ dir ∈ directory?,
      (files'.fileAt? ((tablePath dir language).resolve files.home)).map File.bytes =
        (files.fileAt? ((tablePath dir language).resolve files.home)).map File.bytes) :
    (readTable files' directory? language).1 = (readTable files directory? language).1 := by
  rw [fst_readTable, fst_readTable]
  cases directory? with
  | none => rfl
  | some dir =>
    have hread := h.toOption_read (hfile dir rfl)
    simp only [Option.bind_some, Tree.toOption_readText, hread]

theorem table_congr
    (h : ∀ language, (readTable files' t.directory? language).1 = (readTable files t.directory? language).1)
    (language : String) : (t.table files' language).1 = (t.table files language).1 ∧
      (t.table files' language).2.1 = (t.table files language).2.1 := by
  unfold table
  cases t.tables.lookup language with
  | some table => exact ⟨rfl, rfl⟩
  | none =>
    dsimp only
    rw [h]
    exact ⟨rfl, rfl⟩

/-- Messages are the same where tables are. -/
theorem message_congr
    (h : ∀ language, (readTable files' t.directory? language).1 = (readTable files t.directory? language).1)
    (key : String) (language? : Option String) :
    (t.message files' key language?).1 = (t.message files key language?).1 ∧
      (t.message files' key language?).2.1 = (t.message files key language?).2.1 := by
  cases language? with
  | none => exact ⟨rfl, rfl⟩
  | some language =>
    obtain ⟨htable, hnext⟩ := table_congr h language
    unfold message
    dsimp only
    rw [htable, hnext]
    cases Fields.get? (t.table files language).1 key <;> exact ⟨rfl, rfl⟩

end Catalog

namespace Discovery

variable {files files' : Tree} {c : Config}

/-- Sources are discovered by the names of files. -/
theorem sources_of_sameContents (hw : files.WellFormed) (hw' : files'.WellFormed)
    (h : SameContents files files') : sources files' c = sources files c := by
  have hfile (l : Location) : (files'.fileAt? l).isSome = (files.fileAt? l).isSome := by
    rw [← Option.isSome_map (f := File.bytes), h.bytes, Option.isSome_map]
  have hkind : ofKind files' c = ofKind files c := by
    funext k
    cases hd : files.isDirectory (c.sectionOf k).source with
    | true =>
      obtain ⟨l, hl, hdir⟩ := Tree.isDirectory_iff.mp hd
      obtain ⟨time, ht⟩ := hdir
      obtain ⟨time', ht'⟩ := h.there.dirs l ⟨time, ht⟩
      rw [ofKind_of_find (Tree.find_eq_ok_iff.mpr ⟨hl, ht⟩),
        ofKind_of_find (Tree.find_eq_ok_iff.mpr ⟨h.there.locate hl, ht'⟩)]
      exact mergeSort_sourcesBelow_congr hw hw' fun names => hfile (l ++ names)
    | false =>
      rw [ofKind_of_not_isDirectory hd, ofKind_of_not_isDirectory ((h.isDirectory_eq _).trans hd)]
  rw [sources, sources, hkind]

end Discovery

/-- A plan is made of what the sources hold. -/
theorem Plan.make_of_sameContents {c : Config} {w w' : Workspace} (hw : w.files.WellFormed)
    (hw' : w'.files.WellFormed) (h : SameContents w.files w'.files) : (make c w').1 = (make c w).1 := by
  refine make_congr (Discovery.sources_of_sameContents hw hw' h) fun a ha _ => ?_
  obtain ⟨p, hp, _, _, _, _, rfl⟩ := Collection.exists_of_mem_ofFiles ha
  obtain ⟨_, _, f, _, hf⟩ := Discovery.exists_listed_of_mem_sources hw hp
  have hread : w.files.read p = .ok f.bytes := Tree.read_eq_ok_iff.mpr ⟨f, hf, rfl⟩
  have hsame := h.toOption_read (h.bytes (p.resolve w.files.home))
  rw [hread] at hsame
  cases hread' : w'.files.read p with
  | error fault =>
    rw [hread'] at hsame
    cases hsame
  | ok bytes =>
    rw [hread'] at hsame
    exact (hread'.trans (congrArg _ (Option.some.inj hsame))).trans hread.symm

/-- Directories that are made in trees with the same directories leave the same directories. -/
theorem Workspace.sameDirs_makeDirectories {w w' v v' : Workspace} {p : Path} (h : SameDirs w.files w'.files)
    (hv : w.makeDirectories p = (.ok (), v)) (hv' : w'.makeDirectories p = (.ok (), v')) :
    SameDirs v.files v'.files := by
  have hdirs : SameDirs (w.makeDirectories p).2.files (w'.makeDirectories p).2.files :=
    SameDirs.makeFirst h (congrArg Prod.fst hv) (congrArg Prod.fst hv')
  rwa [hv, hv'] at hdirs

theorem Session.sameDirs_makeParent {w w' v v' : Workspace} {p p' : Path} (h : SameDirs w.files w'.files)
    (hp : p'.parent? = p.parent?) (hv : makeParent w p = (.ok (), v)) (hv' : makeParent w' p' = (.ok (), v')) :
    SameDirs v.files v'.files := by
  unfold makeParent at hv hv'
  rw [hp] at hv'
  cases hparent : p.parent? with
  | none =>
    rw [hparent] at hv hv'
    cases hv
    cases hv'
    exact h
  | some dir =>
    rw [hparent] at hv hv'
    exact Workspace.sameDirs_makeDirectories h hv hv'

namespace Cache

variable {directory : Path} {w w' v v' : Workspace} {cache cache' : Cache}

/-- What opening a cache writes adds no directory to those that it makes. -/
theorem exists_made_of_openAt (h : openAt directory w = (.ok cache, v)) :
    ∃ w1, w.makeDirectories directory = (.ok (), w1) ∧ SameDirs w1.files v.files := by
  cases opens_openAt h with
  | @opened w1 w2 w3 holder made written locked =>
    obtain ⟨_, hkeeps, _⟩ := Workspace.write_eq_ok written
    obtain ⟨_, _, _, hkeeps', _⟩ := Workspace.lock?_eq_some locked
    have hwritten : SameDirs w1.files w2.files := ⟨hkeeps.grows, Workspace.grows_of_write written⟩
    have hlocked : SameDirs w2.files w3.files := ⟨hkeeps'.grows, Workspace.grows_of_lock? locked⟩
    exact ⟨w1, made, hwritten.trans hlocked⟩

/-- Caches that are opened on the same files leave the same contents. -/
theorem sameContents_openAt (hfiles : w'.files = w.files) (h : openAt directory w = (.ok cache, v))
    (h' : openAt directory w' = (.ok cache', v')) : SameContents v.files v'.files := by
  have hopened := opened_of_openAt h
  have hopened' := opened_of_openAt h'
  obtain ⟨w1, hmade, hdirs⟩ := exists_made_of_openAt h
  obtain ⟨w1', hmade', hdirs'⟩ := exists_made_of_openAt h'
  have hstart : SameDirs w.files w'.files := hfiles ▸ .refl w.files
  have hsame := hdirs.symm.trans ((Workspace.sameDirs_makeDirectories hstart hmade hmade').trans hdirs')
  refine ⟨hsame, fun l => ?_⟩
  by_cases hl : l = lockAt w.files.home directory
  · obtain ⟨f, hf, hempty, _⟩ := hopened.lock
    obtain ⟨f', hf', hempty', _⟩ := hopened'.lock
    rw [hfiles] at hf'
    rw [hl, hf, hf', Option.map_some, Option.map_some, hempty, hempty']
  · have hkept' := hopened'.keeps.files l (by rw [hfiles]; exact hl)
    rw [hopened.keeps.files l hl, hkept', hfiles]

end Cache

namespace Build

variable {x x' : Context} {w w' : Workspace} {o o' : Outset}

theorem SetsOut.sameContents {cache : Cache} (h : SetsOut x cache w o) (hrows : cache.rows = []) :
    SameContents w.files o.session.work.files := by
  refine ⟨⟨h.keeps.grows, h.narrows⟩, fun l => congrArg _ (h.keeps.files l ?_)⟩
  rintro ⟨r, hr, _⟩
  rw [hrows] at hr
  cases hr

/-- Builds without rows of the same files plan the same, and set out from the same contents. -/
theorem outset_of_files (hw : w.files.WellFormed) (hrows : Cache.savedRows w.files x.config.cache = [])
    (hfiles : w'.files = w.files) (hconfig : x'.config = x.config) (h : outset? x w = some o)
    (h' : outset? x' w' = some o') : o'.session.assets = o.session.assets ∧ o'.order = o.order ∧
      SameContents o.session.work.files o'.session.work.files := by
  obtain ⟨cache, w1, hopen, hsets, _⟩ := exists_openAt_of_outset h
  obtain ⟨cache', w1', hopen', hsets', _⟩ := exists_openAt_of_outset h'
  rw [hconfig] at hopen'
  have hopened := Cache.opened_of_openAt hopen
  have hopened' := Cache.opened_of_openAt hopen'
  have hstart := hsets.sameContents (hopened.rows.trans hrows)
  have hstart' := hsets'.sameContents (hopened'.rows.trans (hfiles ▸ hrows))
  have hsame := hstart.symm.trans ((Cache.sameContents_openAt hfiles hopen hopen').trans hstart')
  have hformed := hsets.keeps.wellFormed (hopened.keeps.wellFormed hw)
  have hformed' := hsets'.keeps.wellFormed (hopened'.keeps.wellFormed (hfiles ▸ hw))
  obtain ⟨v, hv, hplan⟩ := hsets.planned
  obtain ⟨v', hv', hplan'⟩ := hsets'.planned
  rw [← hv, ← hv'] at hsame
  have hmake := Plan.make_of_sameContents (c := x.config) (hv ▸ hformed) (hv' ▸ hformed') hsame
  rw [hconfig] at hplan'
  rw [hplan, hplan'] at hmake
  rw [hv, hv'] at hsame
  obtain ⟨hassets, horder⟩ := Plan.mk.inj (Except.ok.inj hmake)
  exact ⟨hassets, horder, hsame⟩

end Build

end AssetCompiler
