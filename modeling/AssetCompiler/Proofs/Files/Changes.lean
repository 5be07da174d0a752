import AssetCompiler.Proofs.Files.View

/-! # What operations change

Writing and deleting change one file, making directories none. What an operation does not
change stays as it was, directories are never lost, and a well-formed tree stays well formed.
-/
namespace AssetCompiler

namespace Tree

/-- One tree after another: directories stay, and files outside of some locations. -/
structure Keeps (changed : Location → Prop) (t t' : Tree) : Prop where
  grows : Grows t t'
  files : ∀ l, ¬changed l → t'.fileAt? l = t.fileAt? l
  wellFormed : t.WellFormed → t'.WellFormed

namespace Keeps

variable {changed changed' : Location → Prop} {t t' t'' : Tree}

theorem refl (changed : Location → Prop) (t : Tree) : Keeps changed t t :=
  ⟨.refl t, fun _ _ => rfl, id⟩

theorem trans (h : Keeps changed t t') (h' : Keeps changed t' t'') : Keeps changed t t'' :=
  ⟨h.grows.trans h'.grows, fun l hl => (h'.files l hl).trans (h.files l hl),
    h'.wellFormed ∘ h.wellFormed⟩

theorem mono (h : Keeps changed t t') (hc : ∀ l, changed l → changed' l) : Keeps changed' t t' :=
  ⟨h.grows, fun l hl => h.files l fun hl' => hl (hc l hl'), h.wellFormed⟩

end Keeps

/-- Two trees with the same directories, and the same working directory. -/
structure SameDirs (t t' : Tree) : Prop where
  there : Grows t t'
  back : Grows t' t

namespace SameDirs

variable {t t' t'' : Tree}

theorem refl (t : Tree) : SameDirs t t := ⟨.refl t, .refl t⟩

theorem symm (h : SameDirs t t') : SameDirs t' t := ⟨h.back, h.there⟩

theorem trans (h : SameDirs t t') (h' : SameDirs t' t'') : SameDirs t t'' :=
  ⟨h.there.trans h'.there, h'.back.trans h.back⟩

theorem of_isDir_iff (hhome : t'.home = t.home) (h : ∀ m, t'.IsDir m ↔ t.IsDir m) : SameDirs t t' :=
  ⟨⟨hhome, fun m => (h m).mpr⟩, ⟨hhome.symm, fun m => (h m).mp⟩⟩

end SameDirs

variable {t t' : Tree} {p : Path} {bytes : ByteArray} {now : Nat}

theorem sameDirs_put_file {l : Location} (h : ¬t.IsDir l) (f : File) : SameDirs t (t.put l (.file f)) :=
  .of_isDir_iff rfl (isDir_put_file h)

theorem sameDirs_erase {l : Location} (h : ¬t.IsDir l) : SameDirs t (t.erase l) :=
  .of_isDir_iff rfl (isDir_erase h)

theorem sameDirs_stamp (t : Tree) (l : Location) (now : Nat) : SameDirs t (t.stamp l now) :=
  .of_isDir_iff home_stamp fun _ => isDir_stamp

/-- Noting that a directory has changed changes no file. -/
theorem keeps_stamp (t : Tree) (l : Location) (now : Nat) (changed : Location → Prop) :
    Keeps changed t (t.stamp l now) :=
  ⟨(sameDirs_stamp t l now).there, fun _ _ => fileAt?_stamp, fun hw => hw.stamp l now⟩

theorem keeps_put {dir : Location} {n : String} (hd : t.IsDir dir) (hn : IsName n)
    (h : ¬t.IsDir (dir ++ [n])) (f : File) : Keeps (· = dir ++ [n]) t (t.put (dir ++ [n]) (.file f)) where
  grows := (sameDirs_put_file h f).there
  files _ hm := fileAt?_put_of_ne hm
  wellFormed hw := hw.put hd hn (sameDirs_put_file h f).there.dirs (hw.names_of_isDir hd)

/-- Writing puts a file with the given content at the place of its path, over a file or where
nothing stands. -/
theorem write_cases (h : t.write p bytes now = .ok t') : ∃ l, t.place p = .ok l ∧
    ((∃ f, t.get? l = some (.file f) ∧ t' = t.put l (.file { f with bytes, modified := now })) ∨
      (t.get? l = none ∧ t' = t.add l (.file { bytes, modified := now }) now)) := by
  obtain ⟨l, hp, h⟩ := bind_eq_ok_iff.mp h
  refine ⟨l, hp, ?_⟩
  split at h
  · cases h
  · rename_i f hg
    exact .inl ⟨f, hg, (Except.ok.inj h).symm⟩
  · rename_i hg
    exact .inr ⟨hg, (Except.ok.inj h).symm⟩

/-- A written file is where its path leads, with the given content; a lock on it stays. -/
theorem write_eq_ok (h : t.write p bytes now = .ok t') :
    ∃ l, t.place p = .ok l ∧ Keeps (· = l) t t' ∧
      t'.fileAt? l = some ⟨bytes, now, (t.fileAt? l).bind File.holder?⟩ := by
  obtain ⟨l, hp, hcases⟩ := write_cases h
  obtain ⟨_, dir, n, rfl, hn, hd⟩ := place_eq_ok hp
  have hne : dir ++ [n] ≠ [] := by simp
  refine ⟨_, hp, ?_⟩
  rcases hcases with ⟨f, hg, rfl⟩ | ⟨hg, rfl⟩
  · have hold : t.fileAt? (dir ++ [n]) = some f := fileAt?_eq_some_iff.mpr hg
    refine ⟨keeps_put hd hn (not_isDir_of_file hg) _, ?_⟩
    rw [hold]
    exact fileAt?_eq_some_iff.mpr (get?_put_self hne)
  · have hold : t.fileAt? (dir ++ [n]) = none := by simp [fileAt?, hg]
    refine ⟨(keeps_put hd hn (not_isDir_of_none hg) _).trans (keeps_stamp _ _ _ _), ?_⟩
    rw [add, fileAt?_stamp, hold]
    exact fileAt?_eq_some_iff.mpr (get?_put_self hne)

/-- Writing makes no directory. -/
theorem grows_of_write (h : t.write p bytes now = .ok t') : t'.Grows t := by
  obtain ⟨l, _, ⟨f, hg, rfl⟩ | ⟨hg, rfl⟩⟩ := write_cases h
  · exact (sameDirs_put_file (not_isDir_of_file hg) _).back
  · exact ((sameDirs_put_file (not_isDir_of_none hg) _).trans (sameDirs_stamp _ _ _)).back

theorem keeps_put_file {l : Location} {f g : File} (h : t.get? l = some (.file f)) :
    Keeps (· = l) t (t.put l (.file g)) := by
  have hsame := sameDirs_put_file (not_isDir_of_file h) g
  refine ⟨hsame.there, fun m hm => fileAt?_put_of_ne hm, fun hw => ?_⟩
  have hl : l ≠ [] := by
    rintro rfl
    exact not_isDir_of_file h t.isDir_nil
  have hk : l ∈ t.keys := by
    rw [get?, if_neg hl] at h
    exact List.mem_map.mpr ⟨_, mem_of_lookup_eq_some h, rfl⟩
  have hnames := (hw.names l hk).2
  have hparent := hw.parents l hk
  obtain ⟨dir, n, rfl⟩ : ∃ dir n, l = dir ++ [n] := by
    rcases List.eq_nil_or_concat' l with h | h
    · exact absurd h hl
    · exact h
  rw [List.dropLast_concat] at hparent
  exact hw.put hparent (hnames n (by simp)) hsame.there.dirs
    (fun m hm => hnames m (List.mem_append_left _ hm))

theorem fileAt?_put_file {l : Location} {f g : File} (h : t.get? l = some (.file f)) :
    (t.put l (.file g)).fileAt? l = some g := by
  have hl : l ≠ [] := by
    rintro rfl
    simp [get?] at h
  exact fileAt?_eq_some_iff.mpr (get?_put_self hl)

/-- Deleting takes away the file that a path leads to. -/
theorem remove_cases (h : t.remove p now = .ok t') : ∃ l f, t.locate p = .ok l ∧
    t.get? l = some (.file f) ∧ t' = (t.erase l).stamp l.dropLast now := by
  obtain ⟨⟨l, e⟩, hf, h⟩ := bind_eq_ok_iff.mp h
  obtain ⟨hl, hg⟩ := find_eq_ok_iff.mp hf
  cases e with
  | directory time => cases h
  | file f => exact ⟨l, f, hl, hg, (Except.ok.inj h).symm⟩

theorem remove_eq_ok (h : t.remove p now = .ok t') :
    ∃ l, t.locate p = .ok l ∧ (∃ f, t.fileAt? l = some f) ∧ Keeps (· = l) t t' ∧
      t'.fileAt? l = none := by
  obtain ⟨l, f, hl, hg, rfl⟩ := remove_cases h
  have hndir := not_isDir_of_file hg
  have herase : Keeps (· = l) t (t.erase l) :=
    ⟨(sameDirs_erase hndir).there, fun m hm => fileAt?_erase_of_ne hm, fun hw => hw.erase hndir⟩
  refine ⟨l, hl, ⟨f, fileAt?_eq_some_iff.mpr hg⟩, herase.trans (keeps_stamp _ _ _ _), ?_⟩
  rw [fileAt?_stamp, fileAt?_erase_self]

/-- A deletion makes no directory. -/
theorem grows_of_remove (h : t.remove p now = .ok t') : t'.Grows t := by
  obtain ⟨l, f, _, hg, rfl⟩ := remove_cases h
  exact ((sameDirs_erase (not_isDir_of_file hg)).trans (sameDirs_stamp _ _ _)).back

/-- A deletion fails for want of a file only where no file can be read. -/
theorem file_of_remove_missing (h : t.remove p now = .error .missing) :
    ∀ f, t.file p ≠ .ok f := by
  intro f hf
  obtain ⟨⟨l, e⟩, hfind, hf⟩ := bind_eq_ok_iff.mp hf
  unfold remove at h
  rw [hfind] at h
  cases e with
  | directory time => cases hf
  | file g => cases h

theorem isDirectory_iff {t : Tree} {p : Path} :
    t.isDirectory p = true ↔ ∃ l, t.locate p = .ok l ∧ t.IsDir l := by
  unfold isDirectory
  constructor
  · intro h
    split at h
    · rename_i l time hf
      obtain ⟨hl, hg⟩ := find_eq_ok_iff.mp hf
      exact ⟨l, hl, time, hg⟩
    · cases h
  · rintro ⟨l, hl, time, hg⟩
    rw [find_eq_ok_iff.mpr ⟨hl, hg⟩]

theorem Grows.isDirectory (h : Grows t t') (hd : t.isDirectory p = true) :
    t'.isDirectory p = true := by
  obtain ⟨l, hl, hdir⟩ := isDirectory_iff.mp hd
  exact isDirectory_iff.mpr ⟨l, h.locate hl, h.dirs l hdir⟩

/-- What a directory that is made adds, and where. -/
theorem makeDirectory_cases (h : t.makeDirectory p now = .ok t') : ∃ l piece,
    t.lastPiece p = .ok (l, piece) ∧ isDots piece = false ∧ t.get? (l ++ [String.ofList piece]) = none ∧
      t' = t.add (l ++ [String.ofList piece]) (.directory now) now := by
  obtain ⟨⟨l, piece⟩, hr, h⟩ := bind_eq_ok_iff.mp h
  dsimp only at h
  split at h
  · cases h
  · rename_i hfree
    simp only [Bool.or_eq_true, not_or, Bool.not_eq_true, Option.isSome_eq_false_iff,
      Option.isNone_iff_eq_none] at hfree
    exact ⟨l, piece, hr, hfree.1, hfree.2, (Except.ok.inj h).symm⟩

theorem isDir_put_directory {l : Location} (hl : l ≠ []) (m : Location) :
    (t.put l (.directory now)).IsDir m ↔ m = l ∨ t.IsDir m := by
  by_cases hm : m = l
  · rw [hm]
    exact ⟨fun _ => .inl rfl, fun _ => ⟨now, get?_put_self hl⟩⟩
  · rw [isDir_put_of_ne hm]
    exact ⟨.inr, fun h => h.resolve_left hm⟩

theorem makeDirectory_eq_ok (h : t.makeDirectory p now = .ok t') :
    Keeps (fun _ => False) t t' ∧ t'.isDirectory p = true := by
  obtain ⟨l, piece, hr, hdots, hnone, rfl⟩ := makeDirectory_cases h
  obtain ⟨front, back, hparts, hback, hne, hwalk, hdir⟩ := lastPiece_eq_ok hr hdots
  have hmem : piece ∈ p.parts := by simp [hparts]
  have hname := isName_of_mem_parts hmem hne hdots
  have hnl : l ++ [String.ofList piece] ≠ [] := by simp
  have hnew (m : Location) (hm : t.IsDir m) :
      (t.put (l ++ [String.ofList piece]) (.directory now)).IsDir m :=
    (isDir_put_directory hnl m).mpr (.inr hm)
  have hput : Keeps (fun _ => False) t (t.put (l ++ [String.ofList piece]) (.directory now)) := by
    refine ⟨⟨rfl, hnew⟩, fun m _ => ?_, fun hw => hw.put hdir hname hnew (hw.names_of_isDir hdir)⟩
    by_cases hml : m = l ++ [String.ofList piece]
    · rw [hml, fileAt?_eq_none_of_isDir ⟨now, get?_put_self hnl⟩, fileAt?, hnone]
    · exact fileAt?_put_of_ne hml
  have hadd : Keeps (fun _ => False) t (t.add (l ++ [String.ofList piece]) (.directory now) now) :=
    hput.trans (keeps_stamp _ _ _ _)
  refine ⟨hadd, ?_⟩
  have hhere : (t.add (l ++ [String.ofList piece]) (.directory now) now).IsDir
      (l ++ [String.ofList piece]) := isDir_stamp.mpr ⟨now, get?_put_self hnl⟩
  have hempty : p.text ≠ "" := text_ne_empty_of_mem_parts hmem hne
  refine isDirectory_iff.mpr ⟨_, ?_, hhere⟩
  have hstep := step_name (hadd.grows.dirs l hdir) hname
  rw [String.toList_ofList] at hstep
  rw [locate_eq_foldlM hempty, hparts, List.append_assoc, List.foldlM_append, hadd.grows.start]
  refine bind_eq_ok_iff.mpr ⟨l, hadd.grows.foldlM_step hwalk, ?_⟩
  rw [List.singleton_append, List.foldlM_cons]
  exact bind_eq_ok_iff.mpr ⟨_, hstep, foldlM_step_fillers hhere hback⟩

/-- What is made on the way to a directory, and that it is there afterwards. -/
theorem makeFirst_spec (now : Nat) (paths : List Path) (t : Tree) :
    Keeps (fun _ => False) t (makeFirst now paths t).2 ∧
      ((makeFirst now paths t).1 = .ok () → ∀ p ∈ paths.head?, p.text = "" ∨
        (makeFirst now paths t).2.isDirectory p = true) := by
  induction paths generalizing t with
  | nil => exact ⟨.refl _ t, fun _ p hp => by cases hp⟩
  | cons p above ih =>
    unfold makeFirst
    dsimp only
    split
    · rename_i hempty
      exact ⟨.refl _ t, fun _ q hq => Or.inl ((Option.some.inj hq) ▸ hempty)⟩
    · have settle : ∀ (u : Tree) (fault : Fault),
          (if u.isDirectory p then (.ok () : Except Fault Unit) else .error fault) = .ok () →
            ∀ q ∈ (p :: above).head?, q.text = "" ∨ u.isDirectory q = true := by
        intro u fault hs q hq
        cases hq
        split at hs
        · exact Or.inr ‹_›
        · cases hs
      split
      · rename_i u hu
        obtain ⟨hk, hd⟩ := makeDirectory_eq_ok hu
        exact ⟨hk, fun _ q hq => Or.inr ((Option.some.inj hq) ▸ hd)⟩
      · have habove := ih t
        split
        · rename_i fault u hu
          rw [hu] at habove
          exact ⟨habove.1, fun hf => by cases hf⟩
        · rename_i u hu
          rw [hu] at habove
          split
          · rename_i v hv
            obtain ⟨hk, hd⟩ := makeDirectory_eq_ok hv
            exact ⟨habove.1.trans hk, fun _ q hq => Or.inr ((Option.some.inj hq) ▸ hd)⟩
          · exact ⟨habove.1, settle u _⟩
      · exact ⟨.refl _ t, settle t _⟩

/-- Making directories changes no file, and the directory is there afterwards. -/
theorem makeDirectories_spec (t : Tree) (p : Path) (now : Nat) :
    Keeps (fun _ => False) t (t.makeDirectories p now).2 ∧
      ((t.makeDirectories p now).1 = .ok () →
        p.text = "" ∨ (t.makeDirectories p now).2.isDirectory p = true) := by
  have h := makeFirst_spec now p.ancestors t
  refine ⟨h.1, fun hok => h.2 hok p ?_⟩
  unfold Path.ancestors
  cases p.components.length <;> rfl

/-- The last piece of a path to a directory stands for dots, or is its name. -/
theorem exists_lastPiece_of_isDirectory (h : t.isDirectory p = true) : ∃ l piece,
    t.lastPiece p = .ok (l, piece) ∧ (isDots piece = true ∨ t.IsDir (l ++ [String.ofList piece])) := by
  obtain ⟨l, hl, hd⟩ := isDirectory_iff.mp h
  obtain ⟨_, hne⟩ := locate_eq_ok hl
  obtain ⟨back, hparts, hback, hlast⟩ := Text.dropEndWhile_spec (· == []) p.parts
  unfold lastPiece
  dsimp only
  rw [← Path.parts]
  rcases List.eq_nil_or_concat' (Text.dropEndWhile (· == []) p.parts) with hD | ⟨front, piece, hD⟩
  · rw [hD]
    exact ⟨[], ['.'], if_neg hne, Or.inl rfl⟩
  · rw [hD] at hparts
    rw [locate_eq_foldlM hne, hparts, List.append_assoc, List.foldlM_append] at hl
    obtain ⟨m, hfront, hl⟩ := bind_eq_ok_iff.mp hl
    rw [List.singleton_append, List.foldlM_cons] at hl
    obtain ⟨k, hs, hl⟩ := bind_eq_ok_iff.mp hl
    obtain ⟨hdir, rfl⟩ := step_eq_ok_iff.mp hs
    have hdot : t.step m ['.'] = .ok m := step_eq_ok_iff.mpr ⟨hdir, rfl⟩
    rw [hD, List.getLast?_concat, List.dropLast_concat]
    refine ⟨m, piece, bind_eq_ok_iff.mpr ⟨m, hfront, bind_eq_ok_iff.mpr ⟨m, hdot, rfl⟩⟩,
      or_iff_not_imp_left.mpr fun hdots => ?_⟩
    have hpiece : piece ≠ [] := by simpa using hlast piece (by rw [hD, List.getLast?_concat])
    have hmem : piece ∈ p.parts := by simp [hparts]
    have hfollow := Path.follow_name (isName_of_mem_parts hmem hpiece (by simpa using hdots)) m
    rw [String.toList_ofList] at hfollow
    rw [eq_of_foldlM_step_fillers (fun x hx => by simpa using hback x hx) hl, hfollow] at hd
    exact hd

theorem makeDirectory_of_isDirectory (h : t.isDirectory p = true) :
    t.makeDirectory p now = .error .alreadyExists := by
  obtain ⟨l, piece, hl, hthere⟩ := exists_lastPiece_of_isDirectory h
  unfold makeDirectory
  rw [hl]
  refine if_pos ?_
  rcases hthere with hdots | ⟨time, hget⟩
  · simp [hdots]
  · simp [hget]

theorem makeDirectories_of_isDirectory (h : p.text = "" ∨ t.isDirectory p = true) :
    t.makeDirectories p now = (.ok (), t) := by
  obtain ⟨above, ha⟩ : ∃ above, p.ancestors = p :: above := by
    unfold Path.ancestors
    cases p.components.length with
    | zero => exact ⟨[], rfl⟩
    | succ n => exact ⟨_, rfl⟩
  unfold makeDirectories
  rw [ha]
  unfold makeFirst
  dsimp only
  rcases h with h | h
  · rw [if_pos h]
  · split
    · rfl
    · simp [makeDirectory_of_isDirectory h]

theorem file_eq_ok_iff {f : File} :
    t.file p = .ok f ↔ ∃ l, t.locate p = .ok l ∧ t.fileAt? l = some f := by
  unfold file
  rw [bind_eq_ok_iff]
  constructor
  · rintro ⟨⟨l, e⟩, hf, h⟩
    obtain ⟨hl, hg⟩ := find_eq_ok_iff.mp hf
    cases e with
    | directory time => cases h
    | file g =>
      cases h
      exact ⟨l, hl, fileAt?_eq_some_iff.mpr hg⟩
  · rintro ⟨l, hl, hfile⟩
    exact ⟨(l, .file f), find_eq_ok_iff.mpr ⟨hl, fileAt?_eq_some_iff.mp hfile⟩, rfl⟩

theorem fileAt?_of_file {f : File} (h : t.file p = .ok f) : t.fileAt? (p.resolve t.home) = some f := by
  obtain ⟨l, hl, hf⟩ := file_eq_ok_iff.mp h
  exact (locate_eq_ok hl).1 ▸ hf

theorem isFile_iff : t.isFile p = true ↔ ∃ f, t.file p = .ok f := by
  unfold isFile
  constructor
  · intro h
    split at h
    · rename_i l f hf
      obtain ⟨hl, hg⟩ := find_eq_ok_iff.mp hf
      exact ⟨f, file_eq_ok_iff.mpr ⟨l, hl, fileAt?_eq_some_iff.mpr hg⟩⟩
    · cases h
  · rintro ⟨f, hf⟩
    obtain ⟨l, hl, hfile⟩ := file_eq_ok_iff.mp hf
    rw [find_eq_ok_iff.mpr ⟨hl, fileAt?_eq_some_iff.mp hfile⟩]

theorem read_eq_ok_iff : t.read p = .ok bytes ↔ ∃ f, t.file p = .ok f ∧ f.bytes = bytes := by
  unfold read
  cases t.file p <;> simp [Except.map]

theorem Keeps.file {changed : Location → Prop} {f : File} (h : Keeps changed t t')
    (hf : t.file p = .ok f) (hc : ¬changed (p.resolve t.home)) : t'.file p = .ok f := by
  obtain ⟨l, hl, hfile⟩ := file_eq_ok_iff.mp hf
  rw [← (locate_eq_ok hl).1] at hc
  exact file_eq_ok_iff.mpr ⟨l, h.grows.locate hl, (h.files l hc).trans hfile⟩

/-! ### Trees with the same directories -/

variable {u u' : Tree} {now' : Nat}

namespace SameDirs

theorem isDirectory_eq (h : SameDirs t t') (p : Path) : t'.isDirectory p = t.isDirectory p :=
  Bool.eq_iff_iff.mpr ⟨h.back.isDirectory, h.there.isDirectory⟩

/-- What is read at a path depends on the directories and on the content of the file in its place. -/
theorem toOption_read (h : SameDirs t t')
    (hfile : (t'.fileAt? (p.resolve t.home)).map File.bytes = (t.fileAt? (p.resolve t.home)).map File.bytes) :
    (t'.read p).toOption = (t.read p).toOption := by
  have hiff (bytes : ByteArray) : t'.read p = .ok bytes ↔ t.read p = .ok bytes := by
    constructor <;> intro hr
    all_goals
      obtain ⟨f, hf, hbytes⟩ := read_eq_ok_iff.mp hr
      obtain ⟨l, hl, hat⟩ := file_eq_ok_iff.mp hf
    · have hl' := h.back.locate hl
      obtain ⟨rfl, _⟩ := locate_eq_ok hl'
      rw [hat, Option.map_some, hbytes] at hfile
      obtain ⟨g, hg, hsame⟩ := Option.map_eq_some_iff.mp hfile.symm
      exact read_eq_ok_iff.mpr ⟨g, file_eq_ok_iff.mpr ⟨_, hl', hg⟩, hsame⟩
    · obtain ⟨rfl, _⟩ := locate_eq_ok hl
      rw [hat, Option.map_some, hbytes] at hfile
      obtain ⟨g, hg, hsame⟩ := Option.map_eq_some_iff.mp hfile
      exact read_eq_ok_iff.mpr ⟨g, file_eq_ok_iff.mpr ⟨_, h.there.locate hl, hg⟩, hsame⟩
  cases hr : t.read p with
  | ok bytes => rw [(hiff bytes).mpr hr]
  | error fault =>
    cases hr' : t'.read p with
    | error fault' => rfl
    | ok bytes =>
      rw [(hiff bytes).mp hr'] at hr
      cases hr

end SameDirs

theorem toOption_readText (t : Tree) (p : Path) :
    (t.readText p).toOption = (t.read p).toOption.bind String.fromUTF8? := by
  unfold readText
  cases t.read p with
  | error fault => rfl
  | ok bytes =>
    dsimp only [bind, Except.bind, Except.toOption, Option.bind_some]
    cases String.fromUTF8? bytes <;> rfl

/-- Two trees that may differ in times and in locks. -/
structure SameContents (t t' : Tree) : Prop extends SameDirs t t' where
  bytes : ∀ l, (t'.fileAt? l).map File.bytes = (t.fileAt? l).map File.bytes

namespace SameContents

theorem symm (h : SameContents t t') : SameContents t' t := ⟨h.toSameDirs.symm, fun l => (h.bytes l).symm⟩

theorem trans {t'' : Tree} (h : SameContents t t') (h' : SameContents t' t'') : SameContents t t'' :=
  ⟨h.toSameDirs.trans h'.toSameDirs, fun l => (h'.bytes l).trans (h.bytes l)⟩

end SameContents

/-- What a directory that is made adds to the directories. -/
theorem exists_of_makeDirectory (h : t.makeDirectory p now = .ok u) : ∃ l piece,
    t.lastPiece p = .ok (l, piece) ∧ isDots piece = false ∧ u.home = t.home ∧
      ∀ m, u.IsDir m ↔ m = l ++ [String.ofList piece] ∨ t.IsDir m := by
  obtain ⟨l, piece, hl, hdots, _, rfl⟩ := makeDirectory_cases h
  refine ⟨l, piece, hl, hdots, ?_, fun m => ?_⟩
  · rw [add, home_stamp]
    rfl
  · rw [add, isDir_stamp]
    exact isDir_put_directory (by simp) m

theorem makeDirectory_ne_missing {l : Location} {piece : List Char} (h : t.lastPiece p = .ok (l, piece)) :
    t.makeDirectory p now ≠ .error .missing := by
  unfold makeDirectory
  simp only [bind, Except.bind, h]
  split <;> nofun

theorem SameDirs.makeDirectory (h : SameDirs t t') (hu : t.makeDirectory p now = .ok u)
    (hu' : t'.makeDirectory p now' = .ok u') : SameDirs u u' := by
  obtain ⟨l, piece, hl, _, hhome, hdirs⟩ := exists_of_makeDirectory hu
  obtain ⟨l', piece', hl', _, hhome', hdirs'⟩ := exists_of_makeDirectory hu'
  rw [h.there.lastPiece hl] at hl'
  cases hl'
  refine .of_isDir_iff (by rw [hhome', hhome, h.there.home]) fun m => ?_
  rw [hdirs, hdirs']
  exact or_congr_right ⟨h.back.dirs m, h.there.dirs m⟩

/-- What an attempt to make a directory comes to, when what exists as a directory need not be made. -/
def settled (now : Nat) (p : Path) (t : Tree) : Except Fault Unit × Tree :=
  match t.makeDirectory p now with
  | .ok t => (.ok (), t)
  | .error fault => (if t.isDirectory p then .ok () else .error fault, t)

theorem SameDirs.settled (h : SameDirs t t') (hok : (t.settled now p).1 = .ok ())
    (hok' : (t'.settled now' p).1 = .ok ()) :
    SameDirs (t.settled now p).2 (t'.settled now' p).2 := by
  cases hd : t.isDirectory p with
  | true =>
    have hd' := (h.isDirectory_eq p).trans hd
    unfold Tree.settled
    rw [makeDirectory_of_isDirectory hd, makeDirectory_of_isDirectory hd']
    exact h
  | false =>
    have hd' := (h.isDirectory_eq p).trans hd
    unfold Tree.settled at hok hok' ⊢
    rw [hd] at hok
    rw [hd'] at hok'
    cases hm : t.makeDirectory p now with
    | error fault =>
      rw [hm] at hok
      cases hok
    | ok u =>
      cases hm' : t'.makeDirectory p now' with
      | error fault =>
        rw [hm'] at hok'
        cases hok'
      | ok u' => exact h.makeDirectory hm hm'

theorem SameDirs.ne_missing (h : SameDirs t t') (hok : (t.settled now p).1 = .ok ()) :
    t'.makeDirectory p now' ≠ .error .missing := by
  cases hd : t.isDirectory p with
  | true =>
    rw [makeDirectory_of_isDirectory ((h.isDirectory_eq p).trans hd)]
    nofun
  | false =>
    unfold Tree.settled at hok
    cases hm : t.makeDirectory p now with
    | error fault =>
      rw [hm, hd] at hok
      cases hok
    | ok u =>
      obtain ⟨_, _, hl, _⟩ := exists_of_makeDirectory hm
      exact makeDirectory_ne_missing (h.there.lastPiece hl)

theorem makeFirst_of_missing (h : p.text ≠ "") (hm : t.makeDirectory p now = .error .missing)
    (above : List Path) : makeFirst now (p :: above) t =
      match makeFirst now above t with
      | (.error fault, t) => (.error fault, t)
      | (.ok (), t) => t.settled now p := by
  unfold settled
  rw [makeFirst]
  dsimp only
  rewrite [if_neg h, hm]
  cases makeFirst now above t with
  | mk result u =>
    cases result with
    | error fault => rfl
    | ok _ => cases hu : u.makeDirectory p now <;> simp only [hu]

theorem makeFirst_of_ne_missing (h : p.text ≠ "") (hm : t.makeDirectory p now ≠ .error .missing)
    (above : List Path) : makeFirst now (p :: above) t = t.settled now p := by
  unfold settled
  rw [makeFirst]
  dsimp only
  rw [if_neg h]
  cases hd : t.makeDirectory p now with
  | ok u => rfl
  | error fault =>
    cases fault with
    | missing => exact absurd hd hm
    | _ => rfl

theorem SameDirs.makeFirst {paths : List Path} (h : SameDirs t t')
    (hok : (makeFirst now paths t).1 = .ok ()) (hok' : (makeFirst now' paths t').1 = .ok ()) :
    SameDirs (makeFirst now paths t).2 (makeFirst now' paths t').2 := by
  induction paths with
  | nil => exact h
  | cons p above ih =>
    by_cases hempty : p.text = ""
    · unfold Tree.makeFirst
      dsimp only
      rw [if_pos hempty, if_pos hempty]
      exact h
    by_cases hm : t.makeDirectory p now = .error .missing
    · by_cases hm' : t'.makeDirectory p now' = .error .missing
      · rw [makeFirst_of_missing hempty hm] at hok ⊢
        rw [makeFirst_of_missing hempty hm'] at hok' ⊢
        cases hf : Tree.makeFirst now above t with
        | mk result u =>
          cases hf' : Tree.makeFirst now' above t' with
          | mk result' u' =>
            rw [hf, hf'] at ih
            rw [hf] at hok
            rw [hf'] at hok'
            cases result with
            | error fault => cases hok
            | ok _ =>
              cases result' with
              | error fault => cases hok'
              | ok _ => exact (ih rfl rfl).settled hok hok'
      · rw [makeFirst_of_ne_missing hempty hm'] at hok'
        exact absurd hm (h.symm.ne_missing hok')
    · rw [makeFirst_of_ne_missing hempty hm] at hok ⊢
      have hm' : t'.makeDirectory p now' ≠ .error .missing := h.ne_missing hok
      rw [makeFirst_of_ne_missing hempty hm'] at hok' ⊢
      exact h.settled hok hok'

end Tree

end AssetCompiler
