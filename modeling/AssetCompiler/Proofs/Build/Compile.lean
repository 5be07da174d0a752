import AssetCompiler.Build.Run
import AssetCompiler.Proofs.Asset.References
import AssetCompiler.Proofs.Cache.Disk
import AssetCompiler.Proofs.Cache.Stale

/-! # What compiling one asset does

An asset is kept with its row, written anew and recorded, or left as it was after a failure.
Each outcome says what became of the files, the rows and the assets.
-/
namespace AssetCompiler

open AssetCompiler.Tree (Keeps)

/-- A processor that changes no file. Directories may appear. -/
def Processor.KeepsFiles (p : Processor) : Prop :=
  ∀ calls step input disk, Keeps (fun _ => False) disk.files (p calls step input disk).2.files

theorem Processor.keepsFiles_ofFunction
    (f : List Call → Step → ByteArray → Except ProcessorError ByteArray) :
    (Processor.ofFunction f).KeepsFiles := fun _ _ _ disk => .refl _ disk.files

namespace Produce

section relates

variable {R : Workspace → Workspace → Prop} (hrefl : ∀ w, R w w) (htrans : ∀ u v w, R u v → R v w → R u w)
include hrefl htrans

theorem runSteps_relates {p : Processor} (hcall : ∀ w step input, R w { w with
      toDisk := (p w.calls step input w.toDisk).2, calls := w.calls ++ [⟨step, input⟩] })
    (w : Workspace) (input : ByteArray) (steps : List Step) : R w (runSteps p w input steps).2 := by
  induction steps generalizing w input with
  | nil => exact hrefl w
  | cons step rest ih =>
    have hfirst := hcall w step input
    unfold runSteps
    cases hr : p w.calls step input w.toDisk with
    | mk result disk =>
      rw [hr] at hfirst
      cases result with
      | error e => exact hfirst
      | ok output => exact htrans _ _ _ hfirst (ih _ output)

/-- What each call of the processor does to a workspace, producing a content does. -/
theorem content_relates {s : Scene} (hcall : ∀ w step input, R w { w with
      toDisk := (s.context.processor w.calls step input w.toDisk).2, calls := w.calls ++ [⟨step, input⟩] })
    (catalog : Catalog) (w : Workspace) : R w (content s catalog w).2.2 := by
  unfold content
  cases s.expand { catalog } with
  | mk result t =>
    cases result with
    | error fault => exact hrefl w
    | ok bytes => exact runSteps_relates hrefl htrans hcall w bytes _

end relates

theorem keeps_content {s : Scene} (hp : s.context.processor.KeepsFiles) (catalog : Catalog)
    (w : Workspace) : Keeps (fun _ => False) w.files (content s catalog w).2.2.files :=
  content_relates (R := fun w w' => Keeps (fun _ => False) w.files w'.files) (fun w => .refl _ w.files)
    (fun _ _ _ => Keeps.trans) (fun w step input => hp w.calls step input w.toDisk) catalog w

theorem drawn_content (s : Scene) (catalog : Catalog) (w : Workspace) :
    (content s catalog w).2.2.drawn = w.drawn :=
  content_relates (R := fun w w' => w'.drawn = w.drawn) (fun _ => rfl) (fun _ _ _ h h' => h'.trans h)
    (fun _ _ _ => rfl) catalog w

end Produce

namespace Session

def scene (x : Context) (s : Session) (i : Nat) : Produce.Scene :=
  ⟨x, s.work.files, s.assets, s.assets.get i⟩

def row? (s : Session) (i : Nat) : Option Row :=
  s.cache.find? (s.assets.get i).source (s.assets.get i).language

def Stale (x : Context) (s : Session) (i : Nat) : Prop :=
  x.config.force = true ∨
    ∀ r, s.row? i = some r →
      s.cache.isStale x.digest s.work.files s.assets (s.assets.get i) (some r) = .ok true

/-- Whether a path is a target that an asset can be written to. -/
def IsTarget (x : Context) (a : Asset) (target : Path) : Prop :=
  ∃ fp?, target = a.targetPath x.config fp? ∧ fp?.isSome = a.isFingerprinted ∧
    ∀ fp, fp? = some fp → ∃ draw bytes, fp = x.fingerprint draw bytes

/-- The places where a compile to a target may change a file: the target, and another target
that the asset had before. -/
def Touched (t : Tree) (row? : Option Row) (target : Path) (l : Location) : Prop :=
  l = target.resolve t.home ∨
    ∃ r, row? = some r ∧ (r.target == target) = false ∧ l = r.target.resolve t.home

/-- Away from its target a compile makes no file, and it takes away the one at the target that the
asset had before. -/
structure Replaces (t : Tree) (row? : Option Row) (target : Path) (t' : Tree) : Prop where
  lost : ∀ l, l ≠ target.resolve t.home → t'.fileAt? l = none ∨ t'.fileAt? l = t.fileAt? l
  gone : ∀ r l, row? = some r → (r.target == target) = false → t.locate r.target = .ok l →
    l ≠ target.resolve t.home → t'.fileAt? l = none

/-- What is left when an asset was written to a target and recorded. -/
structure Written (x : Context) (s : Session) (i : Nat) (target : Path) (bytes : ByteArray)
    (s' : Session) : Prop where
  stale : Stale x s i
  content : (Produce.content (s.scene x i) s.catalog s.work).1 = .ok bytes
  isTarget : IsTarget x (s.assets.get i) target
  keeps : Keeps (Touched s.work.files (s.row? i) target) s.work.files s'.work.files
  replaces : Replaces s.work.files (s.row? i) target s'.work.files
  file : ∃ f, s'.work.files.file target = .ok f ∧ f.bytes = bytes
  record : ∃ f, s'.work.files.file (s.assets.get i).source = .ok f ∧
    s'.cache = s.cache.put (s.cache.rowFor x.digest f s.assets (s.assets.get i) target bytes)
  assets : s'.assets = s.assets.update i fun a => { a with target := some target, rebuilt := true }
  catalog : s'.catalog = (Produce.content (s.scene x i) s.catalog s.work).2.1.catalog

theorem Written.get_self {x : Context} {s s' : Session} {i : Nat} {target : Path} {bytes : ByteArray}
    (w : Written x s i target bytes s') (hi : i < s.assets.length) :
    s'.assets.get i = { s.assets.get i with target := some target, rebuilt := true } := by
  rw [w.assets]
  exact Collection.get_update_self hi _

/-- What is left when a processor failed. -/
structure Failed (x : Context) (s : Session) (i : Nat) (s' : Session) : Prop where
  stale : Stale x s i
  keeps : Keeps (fun _ => False) s.work.files s'.work.files
  cache : s'.cache = s.cache
  assets : s'.assets = s.assets
  catalog : s'.catalog = (Produce.content (s.scene x i) s.catalog s.work).2.1.catalog

/-- What is left when a file operation failed. -/
structure Stopped (x : Context) (s : Session) (i : Nat) (s' : Session) : Prop where
  keeps : Keeps (fun l => ∃ target, IsTarget x (s.assets.get i) target ∧
    Touched s.work.files (s.row? i) target l) s.work.files s'.work.files
  cache : s'.cache = s.cache
  assets : s'.assets = s.assets

theorem reusable?_eq_some {x : Context} {s : Session} {a : Asset} {row? : Option Row} {r : Row}
    (h : s.reusable? x a row? = .ok (some r)) : row? = some r ∧ x.config.force = false ∧
      s.cache.isStale x.digest s.work.files s.assets a (some r) = .ok false := by
  unfold reusable? at h
  cases row? with
  | none => cases h
  | some q =>
    dsimp only at h
    split at h
    · cases h
    · rename_i hforce
      cases hs : s.cache.isStale x.digest s.work.files s.assets a (some q) with
      | error e => simp [hs, Except.map] at h
      | ok stale =>
        cases stale with
        | true => simp [hs, Except.map] at h
        | false =>
          simp only [hs, Except.map, Bool.false_eq_true, if_false, Except.ok.injEq,
            Option.some.injEq] at h
          subst h
          exact ⟨rfl, by simpa using hforce, hs⟩

theorem stale_of_reusable? {x : Context} {s : Session} {i : Nat}
    (h : s.reusable? x (s.assets.get i) (s.row? i) = .ok none) : Stale x s i := by
  unfold Stale
  by_cases hforce : x.config.force = true
  · exact Or.inl hforce
  · refine Or.inr fun r hr => ?_
    rw [hr] at h
    unfold reusable? at h
    dsimp only at h
    rw [if_neg hforce] at h
    cases hs : s.cache.isStale x.digest s.work.files s.assets (s.assets.get i) (some r) with
    | error e => simp [hs, Except.map] at h
    | ok stale =>
      cases stale with
      | true => rfl
      | false => simp [hs, Except.map] at h

theorem removeOld_eq_ok {w w' : Workspace} {target : Path} {row? : Option Row}
    (h : removeOld w target row? = .ok w') :
    Keeps (Touched w.files row? target) w.files w'.files := by
  unfold removeOld at h
  cases row? with
  | none =>
    cases h
    exact .refl _ _
  | some r =>
    dsimp only at h
    split at h
    · cases h
      exact .refl _ _
    · rename_i hne
      refine (Workspace.removeIfExists_eq_ok h).1.mono fun l hl => Or.inr ⟨r, rfl, ?_, hl⟩
      simpa using hne

theorem replaces_of_removeOld {w w' : Workspace} {target : Path} {row? : Option Row}
    (h : removeOld w target row? = .ok w') : Replaces w.files row? target w'.files := by
  unfold removeOld at h
  cases row? with
  | none =>
    cases h
    exact ⟨fun _ _ => Or.inr rfl, fun _ _ hr => (by cases hr)⟩
  | some r =>
    dsimp only at h
    split at h
    · rename_i hsame
      cases h
      refine ⟨fun _ _ => Or.inr rfl, fun q l hq hne => ?_⟩
      cases hq
      rw [hsame] at hne
      cases hne
    · refine ⟨fun l _ => Workspace.lost_of_removeIfExists h l, fun q l hq _ hl _ => ?_⟩
      cases hq
      exact Workspace.gone_of_removeIfExists h hl

theorem Replaces.of_keeps {t t1 t2 t3 : Tree} {row? : Option Row} {target : Path}
    (h : Replaces t1 row? target t2) (hbefore : Keeps (fun _ => False) t t1)
    (hafter : Keeps (· = target.resolve t1.home) t2 t3) : Replaces t row? target t3 := by
  have hhome := hbefore.grows.home
  refine ⟨fun l hl => ?_, fun r l hr hne hl hother => ?_⟩
  · rw [← hhome] at hl
    rw [hafter.files l hl, ← hbefore.files l id]
    exact h.lost l hl
  · rw [← hhome] at hother
    rw [hafter.files l hother]
    exact h.gone r l hr hne (hbefore.grows.locate hl) hother

theorem keeps_makeParent (w : Workspace) (target : Path) :
    Keeps (fun _ => False) w.files (makeParent w target).2.files := by
  unfold makeParent
  split
  · exact (w.makeDirectories_spec _).1
  · exact .refl _ _

theorem Touched.of_keeps {t t' : Tree} {changed : Location → Prop} (h : Keeps changed t t')
    {row? : Option Row} {target : Path} {l : Location} (hl : Touched t' row? target l) :
    Touched t row? target l := by
  unfold Touched at hl ⊢
  rwa [h.grows.home] at hl

/-! ### How the steps of a compile end -/

section steps

variable {x : Context} {s s' s₁ s₂ s₃ : Session} {a : Asset} {i : Nat} {row? : Option Row}
  {target : Path} {bytes : ByteArray}

/-- Producing the content of an asset changes the workspace as the processor does, and the tables. -/
structure Produces (x : Context) (s : Session) (i : Nat) (result : Except CompileError ByteArray)
    (s' : Session) : Prop where
  content : (Produce.content (s.scene x i) s.catalog s.work).1 = result
  files : s'.work.files = (Produce.content (s.scene x i) s.catalog s.work).2.2.files
  drawn : s'.work.drawn = s.work.drawn
  catalog : s'.catalog = (Produce.content (s.scene x i) s.catalog s.work).2.1.catalog
  cache : s'.cache = s.cache
  assets : s'.assets = s.assets

theorem produces_of_produce {result : Except CompileError ByteArray}
    (h : s.produce x (s.assets.get i) = (result, s')) : Produces x s i result s' := by
  have hresult : (s.produce x (s.assets.get i)).1 = result := by rw [h]
  have hleft : (s.produce x (s.assets.get i)).2 = s' := by rw [h]
  subst hresult hleft
  exact ⟨rfl, rfl, Produce.drawn_content _ _ _, rfl, rfl, rfl⟩

theorem Produces.keeps {result : Except CompileError ByteArray} (hp : x.processor.KeepsFiles)
    (h : Produces x s i result s') : Keeps (fun _ => False) s.work.files s'.work.files := by
  rw [h.files]
  exact Produce.keeps_content hp _ _

/-- A target takes a fingerprint of the source's content, if it takes one. -/
inductive Aims (x : Context) (s : Session) (a : Asset) : Except Fault Path → Session → Prop
  | unread (fault : Fault) (fingerprinted : a.isFingerprinted = true)
      (read : s.work.files.read a.source = .error fault) : Aims x s a (.error fault) s
  | drawn (bytes : ByteArray) (fingerprinted : a.isFingerprinted = true)
      (read : s.work.files.read a.source = .ok bytes) :
      Aims x s a (.ok (a.targetPath x.config (some (x.fingerprint s.work.drawn bytes))))
        { s with work := { s.work with drawn := s.work.drawn + 1 } }
  | plain (plain : a.isFingerprinted = false) : Aims x s a (.ok (a.targetPath x.config none)) s

theorem aims_of_newTarget {result : Except Fault Path} (h : s.newTarget x a = (result, s')) :
    Aims x s a result s' := by
  unfold newTarget at h
  split at h
  · rename_i hf
    cases hr : s.work.files.read a.source with
    | error fault =>
      rw [hr] at h
      cases h
      exact .unread fault hf hr
    | ok bytes =>
      rw [hr] at h
      cases h
      exact .drawn bytes hf hr
  · rename_i hf
    cases h
    exact .plain (by simpa using hf)

namespace Aims

variable {result : Except Fault Path}

theorem files (h : Aims x s a result s') : s'.work.files = s.work.files := by cases h <;> rfl

theorem cache (h : Aims x s a result s') : s'.cache = s.cache := by cases h <;> rfl

theorem assets (h : Aims x s a result s') : s'.assets = s.assets := by cases h <;> rfl

theorem catalog (h : Aims x s a result s') : s'.catalog = s.catalog := by cases h <;> rfl

theorem isTarget (h : Aims x s a (.ok target) s') : IsTarget x a target := by
  cases h with
  | drawn bytes fingerprinted _ =>
    refine ⟨_, rfl, fingerprinted.symm, ?_⟩
    rintro fp he
    cases he
    exact ⟨_, _, rfl⟩
  | plain plain => exact ⟨none, rfl, plain.symm, fun _ h => by cases h⟩

end Aims

theorem isTarget_of_newTarget (h : (s.newTarget x a).1 = .ok target) : IsTarget x a target := by
  have haims := aims_of_newTarget (Prod.eta (s.newTarget x a)).symm
  rw [h] at haims
  exact haims.isTarget

/-- Content is put in place in four steps. The cache changes in the last one only. -/
inductive Installs (x : Context) (s : Session) (a : Asset) (row? : Option Row) (target : Path)
    (bytes : ByteArray) : Except Fault Unit → Session → Prop
  | unremoved (fault : Fault) (removed : removeOld s.work target row? = .error fault) :
      Installs x s a row? target bytes (.error fault) s
  | unmade {w₁ w₂ : Workspace} (fault : Fault) (removed : removeOld s.work target row? = .ok w₁)
      (made : makeParent w₁ target = (.error fault, w₂)) :
      Installs x s a row? target bytes (.error fault) { s with work := w₂ }
  | unwritten {w₁ w₂ : Workspace} (fault : Fault) (removed : removeOld s.work target row? = .ok w₁)
      (made : makeParent w₁ target = (.ok (), w₂)) (written : w₂.write target bytes = .error fault) :
      Installs x s a row? target bytes (.error fault) { s with work := w₂ }
  | unrecorded {w₁ w₂ w₃ : Workspace} (fault : Fault) (removed : removeOld s.work target row? = .ok w₁)
      (made : makeParent w₁ target = (.ok (), w₂)) (written : w₂.write target bytes = .ok w₃)
      (recorded : s.cache.record x.digest w₃.files s.assets a target bytes = .error fault) :
      Installs x s a row? target bytes (.error fault) { s with work := w₃ }
  | recorded {w₁ w₂ w₃ : Workspace} {cache : Cache} (removed : removeOld s.work target row? = .ok w₁)
      (made : makeParent w₁ target = (.ok (), w₂)) (written : w₂.write target bytes = .ok w₃)
      (recorded : s.cache.record x.digest w₃.files s.assets a target bytes = .ok cache) :
      Installs x s a row? target bytes (.ok ()) { s with work := w₃, cache }

theorem installs_of_install {result : Except Fault Unit}
    (h : s.install x a row? target bytes = (result, s')) : Installs x s a row? target bytes result s' := by
  unfold install sequence onWorkspace at h
  cases removed : removeOld s.work target row? with
  | error fault =>
    simp only [removed] at h
    cases h
    exact .unremoved fault removed
  | ok w₁ =>
    simp only [removed, sequence, inWorkspace] at h
    cases made : makeParent w₁ target with
    | mk parent w₂ =>
      rw [made] at h
      dsimp only at h
      cases parent with
      | error fault =>
        cases h
        exact .unmade fault removed made
      | ok u =>
        dsimp only at h
        cases written : w₂.write target bytes with
        | error fault =>
          simp only [written] at h
          cases h
          exact .unwritten fault removed made written
        | ok w₃ =>
          simp only [written, recordTarget] at h
          cases recorded : Cache.record x.digest w₃.files s.cache s.assets a target bytes with
          | error fault =>
            simp only [recorded] at h
            cases h
            exact .unrecorded fault removed made written recorded
          | ok cache =>
            simp only [recorded] at h
            cases h
            exact .recorded removed made written recorded

theorem keeps_prepared {w w₁ w₂ : Workspace} {parent : Except Fault Unit}
    (removed : removeOld w target row? = .ok w₁) (made : makeParent w₁ target = (parent, w₂)) :
    Keeps (Touched w.files row? target) w.files w₂.files := by
  have hmade := keeps_makeParent w₁ target
  rw [made] at hmade
  exact (removeOld_eq_ok removed).trans (hmade.mono fun _ hl => hl.elim)

theorem keeps_placed {w w₁ w₂ w₃ : Workspace} (removed : removeOld w target row? = .ok w₁)
    (made : makeParent w₁ target = (.ok (), w₂)) (written : w₂.write target bytes = .ok w₃) :
    Keeps (Touched w.files row? target) w.files w₃.files := by
  have hprepared := keeps_prepared removed made
  refine hprepared.trans ((Workspace.write_eq_ok written).2.1.mono fun l hl => Or.inl ?_)
  rw [hl, hprepared.grows.home]

namespace Installs

variable {result : Except Fault Unit}

theorem assets (h : Installs x s a row? target bytes result s') : s'.assets = s.assets := by
  cases h <;> rfl

theorem catalog (h : Installs x s a row? target bytes result s') : s'.catalog = s.catalog := by
  cases h <;> rfl

theorem cache_of_error {fault : Fault} (h : Installs x s a row? target bytes (.error fault) s') :
    s'.cache = s.cache := by
  cases h <;> rfl

theorem keeps (h : Installs x s a row? target bytes result s') :
    Keeps (Touched s.work.files row? target) s.work.files s'.work.files := by
  cases h with
  | unremoved => exact .refl _ _
  | unmade _ removed made => exact keeps_prepared removed made
  | unwritten _ removed made _ => exact keeps_prepared removed made
  | unrecorded _ removed made written _ => exact keeps_placed removed made written
  | recorded removed made written _ => exact keeps_placed removed made written

theorem replaces (h : Installs x s a row? target bytes (.ok ()) s') :
    Replaces s.work.files row? target s'.work.files := by
  cases h with
  | @recorded w₁ w₂ w₃ _ removed made written _ =>
    have hmade := keeps_makeParent w₁ target
    rw [made] at hmade
    refine (replaces_of_removeOld removed).of_keeps (.refl _ _) ((hmade.mono fun _ hl => hl.elim).trans
      ((Workspace.write_eq_ok written).2.1.mono fun l hl => ?_))
    rw [hl, (keeps_prepared removed made).grows.home]

theorem file (h : Installs x s a row? target bytes (.ok ()) s') :
    ∃ f, s'.work.files.file target = .ok f ∧ f.bytes = bytes := by
  cases h with
  | recorded _ _ written _ =>
    obtain ⟨hplace, hkeeps, hfile, _⟩ := Workspace.write_eq_ok written
    exact ⟨_, Tree.file_eq_ok_iff.mpr
      ⟨_, hkeeps.grows.locate (Tree.place_eq_ok hplace).1, hfile⟩, rfl⟩

theorem record (h : Installs x s a row? target bytes (.ok ()) s') :
    ∃ f, s'.work.files.file a.source = .ok f ∧
      s'.cache = s.cache.put (s.cache.rowFor x.digest f s.assets a target bytes) := by
  cases h with
  | recorded _ _ _ recorded => exact Cache.record_eq_ok recorded

end Installs

/-- An asset is produced, given a target and put in place there. Each of the three can fail. -/
inductive Recompiles (x : Context) (s : Session) (i : Nat) (row? : Option Row) :
    Except CompileError Outcome → Session → Prop
  | unproduced {s₁ : Session} (e : CompileError) (produces : Produces x s i (.error e) s₁) :
      Recompiles x s i row? (.error e) s₁
  | unaimed {s₁ s₂ : Session} {bytes : ByteArray} (fault : Fault) (produces : Produces x s i (.ok bytes) s₁)
      (aims : Aims x s₁ (s.assets.get i) (.error fault) s₂) :
      Recompiles x s i row? (.error (.file fault)) s₂
  | uninstalled {s₁ s₂ s₃ : Session} {bytes : ByteArray} {target : Path} (fault : Fault)
      (produces : Produces x s i (.ok bytes) s₁) (aims : Aims x s₁ (s.assets.get i) (.ok target) s₂)
      (installs : Installs x s₂ (s.assets.get i) row? target bytes (.error fault) s₃) :
      Recompiles x s i row? (.error (.file fault)) s₃
  | installed {s₁ s₂ s₃ : Session} {bytes : ByteArray} {target : Path} (lines : List LogLine)
      (produces : Produces x s i (.ok bytes) s₁) (aims : Aims x s₁ (s.assets.get i) (.ok target) s₂)
      (installs : Installs x s₂ (s.assets.get i) row? target bytes (.ok ()) s₃) :
      Recompiles x s i row? (.ok (if row?.isSome then .updated else .created))
        ((s₃.note lines).setWritten i target)

theorem recompiles_of_recompile {result : Except CompileError Outcome}
    (h : s.recompile x i row? = (result, s')) : Recompiles x s i row? result s' := by
  unfold recompile at h
  dsimp only at h
  cases hproduce : s.produce x (s.assets.get i) with
  | mk content s₁ =>
    have produces := produces_of_produce hproduce
    rw [hproduce] at h
    cases content with
    | error e =>
      cases h
      exact .unproduced e produces
    | ok bytes =>
      dsimp only at h
      cases haim : s₁.newTarget x (s.assets.get i) with
      | mk aim s₂ =>
        have aims := aims_of_newTarget haim
        rw [haim] at h
        cases aim with
        | error fault =>
          cases h
          exact .unaimed fault produces aims
        | ok target =>
          dsimp only at h
          cases hinstall : s₂.install x (s.assets.get i) row? target bytes with
          | mk done s₃ =>
            have installs := installs_of_install hinstall
            rw [hinstall] at h
            cases done with
            | error fault =>
              cases h
              exact .uninstalled fault produces aims installs
            | ok u =>
              cases h
              exact .installed _ produces aims installs

/-- Up to the last of the three steps no file has changed. -/
theorem keeps_installed {content : Except CompileError ByteArray} {aim : Except Fault Path}
    {done : Except Fault Unit} (hp : x.processor.KeepsFiles) (produces : Produces x s i content s₁)
    (aims : Aims x s₁ a aim s₂) (installs : Installs x s₂ a row? target bytes done s₃) :
    Keeps (Touched s.work.files row? target) s.work.files s₃.work.files := by
  have hbefore := produces.keeps hp
  rw [← aims.files] at hbefore
  exact (hbefore.mono fun _ hl => hl.elim).trans (installs.keeps.mono fun _ hl => hl.of_keeps hbefore)

theorem written_of_installs {lines : List LogLine} (hp : x.processor.KeepsFiles) (hstale : Stale x s i)
    (produces : Produces x s i (.ok bytes) s₁) (aims : Aims x s₁ (s.assets.get i) (.ok target) s₂)
    (installs : Installs x s₂ (s.assets.get i) (s.row? i) target bytes (.ok ()) s₃) :
    Written x s i target bytes ((s₃.note lines).setWritten i target) := by
  have hbefore := produces.keeps hp
  rw [← aims.files] at hbefore
  obtain ⟨f, hsource, hcache⟩ := installs.record
  rw [aims.cache, aims.assets, produces.cache, produces.assets] at hcache
  have hkeeps := keeps_installed hp produces aims installs
  refine ⟨hstale, produces.content, aims.isTarget, hkeeps, installs.replaces.of_keeps hbefore (.refl _ _),
    installs.file, ⟨f, hsource, hcache⟩, ?_, ?_⟩
  · show s₃.assets.update i _ = _
    rw [installs.assets, aims.assets, produces.assets]
  · show s₃.catalog = _
    rw [installs.catalog, aims.catalog, produces.catalog]

/-- What becomes of a recompile, by its result. -/
theorem recompile_spec (hp : x.processor.KeepsFiles) {result : Except CompileError Outcome}
    (hstale : Stale x s i) (h : s.recompile x i (s.row? i) = (result, s')) :
    (∃ target bytes, result = .ok (if (s.row? i).isSome then .updated else .created) ∧
        Written x s i target bytes s') ∨
      (∃ e, result = .error (.processor e) ∧ Failed x s i s') ∨
      ∃ fault, result = .error (.file fault) ∧ Stopped x s i s' := by
  cases recompiles_of_recompile h with
  | unproduced e produces =>
    have hkeeps := produces.keeps hp
    cases e with
    | file fault =>
      exact Or.inr (Or.inr
        ⟨fault, rfl, hkeeps.mono fun _ hl => hl.elim, produces.cache, produces.assets⟩)
    | processor e =>
      exact Or.inr (Or.inl
        ⟨e, rfl, hstale, hkeeps, produces.cache, produces.assets, produces.catalog⟩)
  | unaimed fault produces aims =>
    have hkeeps := produces.keeps hp
    rw [← aims.files] at hkeeps
    exact Or.inr (Or.inr ⟨fault, rfl, hkeeps.mono fun _ hl => hl.elim,
      aims.cache.trans produces.cache, aims.assets.trans produces.assets⟩)
  | uninstalled fault produces aims installs =>
    refine Or.inr (Or.inr ⟨fault, rfl, ?_, ?_, ?_⟩)
    · exact (keeps_installed hp produces aims installs).mono fun l hl => ⟨_, aims.isTarget, hl⟩
    · exact installs.cache_of_error.trans (aims.cache.trans produces.cache)
    · exact installs.assets.trans (aims.assets.trans produces.assets)
  | installed lines produces aims installs =>
    exact Or.inl ⟨_, _, rfl, written_of_installs hp hstale produces aims installs⟩

/-- An asset is judged by its row, and kept or recompiled. -/
inductive Proceeds (x : Context) (s : Session) (i : Nat) : Except CompileError Outcome → Session → Prop
  | unjudged (fault : Fault) (judged : s.reusable? x (s.assets.get i) (s.row? i) = .error fault) :
      Proceeds x s i (.error (.file fault)) s
  | kept (r : Row) (lines : List LogLine)
      (judged : s.reusable? x (s.assets.get i) (s.row? i) = .ok (some r)) :
      Proceeds x s i (.ok .cached) ((s.note lines).setTarget i (some r.target))
  | recompiled {result : Except CompileError Outcome} {s' : Session}
      (judged : s.reusable? x (s.assets.get i) (s.row? i) = .ok none)
      (recompiled : s.recompile x i (s.row? i) = (result, s')) : Proceeds x s i result s'

theorem proceeds_of_compile {result : Except CompileError Outcome}
    (h : s.compile x i = (result, s')) : Proceeds x s i result s' := by
  have hrow : s.cache.find? (s.assets.get i).source (s.assets.get i).language = s.row? i := rfl
  unfold compile at h
  dsimp only at h
  rw [hrow] at h
  cases judged : s.reusable? x (s.assets.get i) (s.row? i) with
  | error fault =>
    rw [judged] at h
    cases h
    exact .unjudged fault judged
  | ok kept? =>
    rw [judged] at h
    cases kept? with
    | some r =>
      cases h
      exact .kept r _ judged
    | none => exact .recompiled judged h

/-- A processor can fail only while the content is produced. -/
theorem produces_of_compile {e : ProcessorError} (h : s.compile x i = (.error (.processor e), s')) :
    Produces x s i (.error (.processor e)) s' := by
  cases proceeds_of_compile h with
  | recompiled _ recompiled =>
    cases recompiles_of_recompile recompiled with
    | unproduced _ produces => exact produces

theorem failed_of_compile (hp : x.processor.KeepsFiles) {e : ProcessorError}
    (h : s.compile x i = (.error (.processor e), s')) : Failed x s i s' := by
  have produces := produces_of_compile h
  cases proceeds_of_compile h with
  | recompiled judged _ =>
    exact ⟨stale_of_reusable? judged, produces.keeps hp, produces.cache, produces.assets,
      produces.catalog⟩

end steps

theorem compile_of_fresh {x : Context} {s : Session} {i : Nat} {r : Row} (hr : s.row? i = some r)
    (hforce : x.config.force = false)
    (hs : s.cache.isStale x.digest s.work.files s.assets (s.assets.get i) (some r) = .ok false) :
    s.compile x i = (.ok .cached,
      (s.note [outcomeLine .cached (s.assets.get i) r.target]).setTarget i (some r.target)) := by
  unfold compile
  dsimp only
  rw [row?] at hr
  rw [hr]
  unfold reusable?
  dsimp only
  rw [hforce, hs]
  rfl

end Session

namespace Build

open Session

/-- What compiling one asset comes to, and what it leaves. -/
inductive Compiles (x : Context) (s : Session) (i : Nat) :
    Except BuildError AssetReport → Session → Prop
  | cached (r : Row) (lines : List LogLine) (found : s.row? i = some r)
      (force : x.config.force = false)
      (fresh : s.cache.isStale x.digest s.work.files s.assets (s.assets.get i) (some r) = .ok false) :
      Compiles x s i
        (.ok (assetReport (((s.note lines).setTarget i (some r.target)).assets.get i) .cached none))
        ((s.note lines).setTarget i (some r.target))
  | written (target : Path) (bytes : ByteArray) (s' : Session) (w : Written x s i target bytes s') :
      Compiles x s i
        (.ok (assetReport (s'.assets.get i) (if (s.row? i).isSome then .updated else .created) none))
        s'
  | failed (e : ProcessorError) (s' : Session) (policy : x.config.onProcessorError = .proceed)
      (f : Failed x s i s') :
      Compiles x s i
        (.ok (assetReport ((noteFailure s' i e).assets.get i) .failed (some e.message)))
        (noteFailure s' i e)
  | aborted (e : ProcessorError) (s' : Session) (policy : x.config.onProcessorError = .abort)
      (f : Failed x s i s') :
      Compiles x s i (.error (.processor (s'.assets.get i).label e)) s'
  | stopped (fault : Fault) (s' : Session) (f : Stopped x s i s') :
      Compiles x s i (.error (.file fault)) s'

/-- How the result of a compile is reported. -/
inductive Concludes (x : Context) (s : Session) (i : Nat) : Except BuildError AssetReport → Session → Prop
  | compiled {s' : Session} (outcome : Outcome) (compile : s.compile x i = (.ok outcome, s')) :
      Concludes x s i (.ok (assetReport (s'.assets.get i) outcome none)) s'
  | stopped {s' : Session} (fault : Fault) (compile : s.compile x i = (.error (.file fault), s')) :
      Concludes x s i (.error (.file fault)) s'
  | aborted {s' : Session} (e : ProcessorError) (compile : s.compile x i = (.error (.processor e), s'))
      (policy : x.config.onProcessorError = .abort) :
      Concludes x s i (.error (.processor (s'.assets.get i).label e)) s'
  | failed {s' : Session} (e : ProcessorError) (compile : s.compile x i = (.error (.processor e), s'))
      (policy : x.config.onProcessorError = .proceed) :
      Concludes x s i
        (.ok (assetReport ((noteFailure s' i e).assets.get i) .failed (some e.message)))
        (noteFailure s' i e)

theorem concludes_of_compileOne {x : Context} {s s' : Session} {i : Nat}
    {result : Except BuildError AssetReport} (h : compileOne x s i = (result, s')) :
    Concludes x s i result s' := by
  unfold compileOne at h
  cases compile : s.compile x i with
  | mk outcome? s₁ =>
    rw [compile] at h
    cases outcome? with
    | ok outcome =>
      cases h
      exact .compiled outcome compile
    | error e =>
      cases e with
      | file fault =>
        cases h
        exact .stopped fault compile
      | processor e =>
        dsimp only at h
        cases policy : x.config.onProcessorError with
        | abort =>
          rw [policy] at h
          cases h
          exact .aborted e compile policy
        | proceed =>
          rw [policy] at h
          cases h
          exact .failed e compile policy

theorem files_compileOne (x : Context) (s : Session) (i : Nat) :
    (compileOne x s i).2.work.files = (s.compile x i).2.work.files := by
  have hconcludes := concludes_of_compileOne (Prod.eta (compileOne x s i)).symm
  generalize (compileOne x s i).1 = result, (compileOne x s i).2 = s' at hconcludes ⊢
  cases hconcludes with
  | compiled _ compile => rw [compile]
  | stopped _ compile => rw [compile]
  | aborted _ compile => rw [compile]
  | failed _ compile => rw [compile]; rfl

theorem compiles_compileOne {x : Context} (hp : x.processor.KeepsFiles) (s : Session) (i : Nat) :
    Compiles x s i (compileOne x s i).1 (compileOne x s i).2 := by
  have hconcludes := concludes_of_compileOne (Prod.eta (compileOne x s i)).symm
  generalize (compileOne x s i).1 = result, (compileOne x s i).2 = s' at hconcludes ⊢
  cases hconcludes with
  | compiled outcome compile =>
    cases proceeds_of_compile compile with
    | kept r lines judged =>
      obtain ⟨hfound, hforce, hfresh⟩ := reusable?_eq_some judged
      exact .cached r lines hfound hforce hfresh
    | recompiled judged recompiled =>
      rcases recompile_spec hp (stale_of_reusable? judged) recompiled with
        ⟨target, bytes, ho, hw⟩ | ⟨_, ho, _⟩ | ⟨_, ho, _⟩ <;> cases ho
      exact .written target bytes s' hw
  | stopped fault compile =>
    cases proceeds_of_compile compile with
    | unjudged fault judged => exact .stopped fault s ⟨.refl _ _, rfl, rfl⟩
    | recompiled judged recompiled =>
      rcases recompile_spec hp (stale_of_reusable? judged) recompiled with
        ⟨_, _, he, _⟩ | ⟨_, he, _⟩ | ⟨_, he, hf⟩ <;> cases he
      exact .stopped fault s' hf
  | aborted e compile policy =>
    exact .aborted e s' policy (failed_of_compile hp compile)
  | @failed s' e compile policy =>
    exact .failed e s' policy (failed_of_compile hp compile)

end Build

end AssetCompiler
