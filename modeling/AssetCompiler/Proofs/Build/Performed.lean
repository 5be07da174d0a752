import AssetCompiler.Proofs.Build.History
import AssetCompiler.Proofs.Files.Operations

/-! # What a build does to files

Operation by operation, a build works on its lock and its manifest, on targets of planned assets and
on targets of the rows that it finds. So if both are paths of some kind, such as the paths below the
roots of targets, it works on no others, and the rows that it leaves are of that kind again. Processors
may use files of their own.
-/
namespace AssetCompiler

open AssetCompiler.Tree (Keeps Performs)
open Cache (savedRows manifestAt lockAt manifestPath lockPath)

namespace Cache

variable {within : Path → Prop} {rows : List Row}

/-- Rows that a manifest can hold, with targets of some kind. -/
def Bound (within : Path → Prop) (rows : List Row) : Prop :=
  ∀ r ∈ rows, within r.target ∧ Manifest.Fits r

namespace Bound

theorem nil : Bound within [] := fun _ h => by cases h

theorem filter (h : Bound within rows) (p : Row → Bool) : Bound within (rows.filter p) :=
  fun r hr => h r (List.mem_of_mem_filter hr)

theorem put {c : Cache} {r : Row} (h : Bound within c.rows) (hr : within r.target ∧ Manifest.Fits r) :
    Bound within (c.put r).rows := by
  intro q hq
  rcases mem_put hq with rfl | hq
  · exact hr
  · exact h q hq

end Bound

end Cache

open Cache (Bound)

/-! ### The cache -/

namespace Cache

theorem performs_openAt (p : Processor) (directory : Path) (w : Workspace) :
    Performs p (· = lockPath directory) w.files (openAt directory w).2.files := by
  have hmade := w.performs_makeDirectories p (· = lockPath directory) directory
  have hopens := opens_openAt (Prod.eta (openAt directory w)).symm
  generalize (openAt directory w).1 = result, (openAt directory w).2 = w' at hopens ⊢
  cases hopens with
  | unmade made =>
    rw [made] at hmade
    exact hmade
  | unwritten made _ =>
    rw [made] at hmade
    exact hmade
  | busy made written _ =>
    rw [made] at hmade
    exact hmade.trans (Workspace.performs_write written rfl)
  | @opened w1 w2 w3 holder made written locked =>
    rw [made] at hmade
    have hlocked : Performs p (· = lockPath directory) w2.files w3.files :=
      Workspace.performs_lock? locked rfl
    exact (hmade.trans (Workspace.performs_write written rfl)).trans hlocked

theorem performs_dropTargets (p : Processor) {within : Path → Prop} {rs : List Row}
    (h : ∀ r ∈ rs, within r.target) (c : Cache) (w : Workspace) :
    Performs p within w.files (c.dropTargets w rs).2.2.files := by
  refine dropTargets_relates (R := fun w w' => Performs p within w.files w'.files)
    (fun w => .refl p within w.files) (fun _ _ _ hw hw' => hw.trans hw') (fun r hr w w' _ hw => ?_) c w
  have hremoved : Performs p within w.files w'.files := Workspace.performs_removeIfExists hw (h r hr)
  exact hremoved

/-- Pruning deletes targets of rows. -/
theorem performs_prune (p : Processor) {within : Path → Prop} {c : Cache}
    (h : ∀ r ∈ c.rows, within r.target) (w : Workspace) :
    Performs p within w.files (c.prune w).2.2.files :=
  performs_dropTargets p (fun r hr => h r (List.mem_of_mem_filter hr)) _ w

theorem performs_save (p : Processor) (c : Cache) (w : Workspace) :
    Performs p (· = manifestPath c.directory) w.files (c.save w).2.files := by
  unfold save
  split
  · split
    · rename_i w1 hw
      exact Workspace.performs_write hw rfl
    · exact .refl p _ _
  · exact .refl p _ _

end Cache

/-! ### One compile -/

namespace Produce

theorem performs_content (s : Scene) (within : Path → Prop) (catalog : Catalog) (w : Workspace) :
    Performs s.context.processor within w.files (content s catalog w).2.2.files :=
  content_relates (R := fun w w' => Performs s.context.processor within w.files w'.files)
    (fun w => .refl _ within w.files) (fun _ _ _ h h' => h.trans h')
    (fun w step input => .one (.process w.calls step input w.toDisk)) catalog w

end Produce

namespace Session

variable {x : Context} {s s' : Session} {i : Nat} {a : Asset} {within : Path → Prop}

theorem performs_removeOld (p : Processor) {w w' : Workspace} {target : Path} {row? : Option Row}
    (hrow : ∀ r, row? = some r → within r.target) (h : removeOld w target row? = .ok w') :
    Performs p within w.files w'.files := by
  unfold removeOld at h
  cases row? with
  | none =>
    cases h
    exact .refl p within _
  | some r =>
    dsimp only at h
    split at h
    · cases h
      exact .refl p within _
    · exact Workspace.performs_removeIfExists h (hrow r rfl)

theorem performs_makeParent (p : Processor) (within : Path → Prop) (w : Workspace) (target : Path) :
    Performs p within w.files (makeParent w target).2.files := by
  unfold makeParent
  split
  · exact w.performs_makeDirectories p within _
  · exact .refl p within _

theorem performs_prepared (p : Processor) {w w₁ w₂ : Workspace} {target : Path} {row? : Option Row}
    {parent : Except Fault Unit} (hrow : ∀ r, row? = some r → within r.target)
    (removed : removeOld w target row? = .ok w₁) (made : makeParent w₁ target = (parent, w₂)) :
    Performs p within w.files w₂.files := by
  have hmade := performs_makeParent p within w₁ target
  rw [made] at hmade
  exact (performs_removeOld p hrow removed).trans hmade

theorem Produces.performs {result : Except CompileError ByteArray} (within : Path → Prop)
    (h : Produces x s i result s') : Performs x.processor within s.work.files s'.work.files := by
  rw [h.files]
  exact Produce.performs_content (s.scene x i) within s.catalog s.work

/-- Putting a target in place deletes the earlier one and writes the new one. -/
theorem Installs.performs {row? : Option Row} {target : Path} {bytes : ByteArray}
    {result : Except Fault Unit} (p : Processor) (h : Installs x s a row? target bytes result s')
    (hrow : ∀ r, row? = some r → within r.target) (htarget : within target) :
    Performs p within s.work.files s'.work.files := by
  cases h with
  | unremoved => exact .refl p within _
  | unmade _ removed made => exact performs_prepared p hrow removed made
  | unwritten _ removed made _ => exact performs_prepared p hrow removed made
  | unrecorded _ removed made written _ =>
    exact (performs_prepared p hrow removed made).trans (Workspace.performs_write written htarget)
  | recorded removed made written _ =>
    exact (performs_prepared p hrow removed made).trans (Workspace.performs_write written htarget)

/-- What compiling one asset leads to, whatever comes of it. -/
structure Advances (x : Context) (within : Path → Prop) (s s' : Session) : Prop where
  bare : s'.assets.bare = s.assets.bare
  directory : s'.cache.directory = s.cache.directory
  rows : Bound within s'.cache.rows
  performs : Performs x.processor within s.work.files s'.work.files

theorem Advances.trans {s'' : Session} (h : Advances x within s s') (h' : Advances x within s' s'') :
    Advances x within s s'' :=
  ⟨h'.bare.trans h.bare, h'.directory.trans h.directory, h'.rows, h.performs.trans h'.performs⟩

theorem Produces.advances {result : Except CompileError ByteArray} (h : Produces x s i result s')
    (hrows : Bound within s.cache.rows) : Advances x within s s' :=
  ⟨congrArg _ h.assets, congrArg _ h.cache, h.cache ▸ hrows, h.performs within⟩

theorem Aims.advances {result : Except Fault Path} (h : Aims x s a result s')
    (hrows : Bound within s.cache.rows) : Advances x within s s' :=
  ⟨congrArg _ h.assets, congrArg _ h.cache, h.cache ▸ hrows, h.files ▸ .refl _ within _⟩

theorem Installs.advances {row? : Option Row} {target : Path} {bytes : ByteArray}
    {result : Except Fault Unit} (h : Installs x s a row? target bytes result s')
    (hrows : Bound within s.cache.rows) (hrow : ∀ r, row? = some r → within r.target)
    (ht : within target) : Advances x within s s' := by
  have hperforms := h.performs x.processor hrow ht
  have hbare := congrArg Collection.bare h.assets
  cases result with
  | error fault =>
    have hcache := h.cache_of_error
    exact ⟨hbare, congrArg _ hcache, hcache ▸ hrows, hperforms⟩
  | ok u =>
    obtain ⟨f, _, hcache⟩ := h.record
    refine ⟨hbare, ?_, ?_, hperforms⟩ <;> rw [hcache]
    · rfl
    · exact hrows.put ⟨ht, Cache.keptTime_lt f.modified⟩

theorem advances_recompile {result : Except CompileError Outcome}
    (h : s.recompile x i (s.row? i) = (result, s')) (hrows : Bound within s.cache.rows)
    (ht : ∀ target, IsTarget x (s.assets.get i) target → within target) : Advances x within s s' := by
  have hrow : ∀ r, s.row? i = some r → within r.target :=
    fun r hr => (hrows r (Cache.find?_eq_some hr).1).1
  cases recompiles_of_recompile h with
  | unproduced _ produces => exact produces.advances hrows
  | unaimed _ produces aims =>
    have hproduced := produces.advances hrows
    exact hproduced.trans (aims.advances hproduced.rows)
  | uninstalled _ produces aims installs =>
    have hproduced := produces.advances hrows
    have haimed := hproduced.trans (aims.advances hproduced.rows)
    exact haimed.trans (installs.advances haimed.rows hrow (ht _ aims.isTarget))
  | installed lines produces aims installs =>
    have hproduced := produces.advances hrows
    have haimed := hproduced.trans (aims.advances hproduced.rows)
    have hinstalled := haimed.trans (installs.advances haimed.rows hrow (ht _ aims.isTarget))
    refine { hinstalled with bare := Eq.trans ?_ hinstalled.bare }
    exact Collection.bare_update fun _ => rfl

theorem advances_compile {result : Except CompileError Outcome} (h : s.compile x i = (result, s'))
    (hrows : Bound within s.cache.rows)
    (ht : ∀ target, IsTarget x (s.assets.get i) target → within target) : Advances x within s s' := by
  have hidle : Advances x within s s := ⟨rfl, rfl, hrows, .refl _ _ _⟩
  cases proceeds_of_compile h with
  | unjudged => exact hidle
  | kept r lines => exact { hidle with bare := Collection.bare_update fun _ => rfl }
  | recompiled _ recompiled => exact advances_recompile recompiled hrows ht

end Session

namespace Build

open Session

/-! ### Whole builds -/

/-- A context for builds with the given roots, whose processor may change its own files. The
manifest is none of them. -/
structure Uses (c : Config) (own : Location → Prop) (x : Context) (w : Workspace) : Prop where
  roots : c.roots = x.config.roots
  processor : ∀ calls step input disk, Keeps own disk.files (x.processor calls step input disk).2.files
  flat : x.FlatFingerprints
  manifest : ¬own (manifestAt w.files.home c.cache)

/-- What keeps the operations of a build to paths of some kind, none of which leads to the manifest:
its targets are of this kind, and so are those of the rows that it finds. -/
structure Bounds (own : Location → Prop) (within : Path → Prop) (x : Context) (w : Workspace) : Prop where
  uses : Uses x.config own x w
  targets : ∀ files p, Plan.Made x.config files p → files.WellFormed →
    ∀ a ∈ p.assets, ∀ target, IsTarget x a target → within target
  apart : ∀ p, within p → p.resolve w.files.home ≠ manifestAt w.files.home x.config.cache
  wellFormed : w.files.WellFormed
  rows : Bound within (savedRows w.files x.config.cache)

/-- A path that a build of a configuration works on, if its targets are of some kind. -/
def WorksOn (c : Config) (within : Path → Prop) (p : Path) : Prop :=
  within p ∨ p = lockPath c.cache ∨ p = manifestPath c.cache

variable {c : Config} {own : Location → Prop} {within : Path → Prop} {x : Context}
  {w w' : Workspace} {s : Session} {i : Nat}
  {order : List Nat} {cache : Cache} {o : Outset}

/-- Targets depend on what identifies an asset. -/
theorem isTarget_congr {a b : Asset} (h : a.identity = b.identity) {target : Path} :
    IsTarget x a target ↔ IsTarget x b target := by
  unfold IsTarget
  rw [Asset.isFingerprinted_congr h]
  simp only [Asset.targetPath_congr h]

theorem advances_compileOne (hrows : Bound within s.cache.rows)
    (ht : ∀ target, IsTarget x (s.assets.get i) target → within target) :
    Advances x within s (compileOne x s i).2 := by
  have hconcludes := concludes_of_compileOne (Prod.eta (compileOne x s i)).symm
  generalize (compileOne x s i).1 = result, (compileOne x s i).2 = s' at hconcludes ⊢
  cases hconcludes with
  | compiled _ compile => exact advances_compile compile hrows ht
  | stopped _ compile => exact advances_compile compile hrows ht
  | aborted _ compile => exact advances_compile compile hrows ht
  | failed _ compile =>
    have hcompiled := advances_compile compile hrows ht
    exact { hcompiled with bare := (bare_setTarget _ i _).trans hcompiled.bare }

/-- Whatever a run comes to, its compiles work on the targets of its assets and of its rows. -/
theorem advances_compileAll (hrows : Bound within s.cache.rows)
    (ht : ∀ i ∈ order, ∀ target, IsTarget x (s.assets.get i) target → within target) :
    Advances x within s (compileAll x s order).2 := by
  refine (compileAll_invariant (P := Advances x within s) ⟨rfl, rfl, hrows, .refl _ _ _⟩
    fun v hv h => ?_).2
  have hidentity := Asset.identity_eq_of_bare (Collection.bare_get_congr h.bare v.2)
  have hnext := advances_compileOne (i := v.2) h.rows fun target htarget =>
    ht v.2 (mem_order_of_mem_visits hv) target ((isTarget_congr hidentity).mp htarget)
  exact ⟨hnext.bare.trans h.bare, hnext.directory.trans h.directory, hnext.rows,
    h.performs.trans hnext.performs⟩

theorem performs_setOut (p : Processor) {within : Path → Prop} (hr : ∀ r ∈ cache.rows, within r.target)
    {result : Except BuildError Outset} (h : setOut x cache w = (result, w')) :
    Performs p within w.files w'.files := by
  rw [(settingOut_of_setOut h).files]
  exact cache.performs_prune p hr w

namespace Bounds

theorem savedRows_eq (h : Bounds own within x w) {t : Tree} (hp : Performs x.processor within w.files t) :
    savedRows t x.config.cache = savedRows w.files x.config.cache := by
  refine Cache.savedRows_of_keeps (hp.keeps h.uses.processor) _ ?_
  rintro (hown | ⟨p, hp, he⟩)
  · exact h.uses.manifest hown
  · exact h.apart p hp he.symm

theorem of_keeps (h : Bounds own within x w)
    (hk : Keeps (· = lockAt w.files.home x.config.cache) w.files w'.files) : Bounds own within x w' := by
  have hrows := Cache.savedRows_of_keeps hk x.config.cache (Cache.manifestAt_ne_lockAt _ _)
  refine ⟨⟨rfl, h.uses.processor, h.uses.flat, ?_⟩, h.targets, ?_, hk.wellFormed h.wellFormed,
    hrows ▸ h.rows⟩ <;> rw [hk.grows.home]
  · exact h.uses.manifest
  · exact h.apart

theorem performs_close (p : Processor) (within : Path → Prop)
    (hd : cache.directory = x.config.cache) (w : Workspace) :
    Performs p (WorksOn x.config within) w.files (cache.close w).files ∧
      savedRows (cache.close w).files x.config.cache = savedRows w.files x.config.cache := by
  have hclosed := cache.keeps_close w
  rw [hd] at hclosed
  refine ⟨?_, Cache.savedRows_of_keeps hclosed _ (Cache.manifestAt_ne_lockAt _ _)⟩
  unfold Cache.close
  rw [hd]
  exact w.performs_unlock cache.holder (.inr (.inl rfl))

/-- The part of a build after it has set out. The rows on the disk are then those that were there, or
those of the run. -/
theorem performs_finish (h : Bounds own within x w) (hrows : Bound within cache.rows)
    (hd : cache.directory = x.config.cache) (hset : setOut x cache w = (.ok o, w')) :
    Performs x.processor (WorksOn x.config within) w.files (finish x cache o).2.files ∧
      Bound within (savedRows (finish x cache o).2.files x.config.cache) := by
  have hworks : ∀ p, within p → WorksOn x.config within p := fun p => .inl
  have hpruned := performs_setOut x.processor (fun r hr => (hrows r hr).1) hset
  have hsets := setsOut_of_setOut hset
  obtain rfl : o.session.work = w' := by
    cases settingOut_of_setOut hset
    rfl
  have hwellFormed := (hpruned.keeps h.uses.processor).wellFormed h.wellFormed
  have hrun : Advances x within o.session (compileAll x o.session o.order).2 :=
    advances_compileAll (hsets.rows ▸ hrows.filter _) fun i hi =>
      h.targets _ _ hsets.made hwellFormed _ (Collection.mem_get (hsets.made.mem_order.mp hi))
  cases hc : compileAll x o.session o.order with
  | mk result s =>
    rw [hc] at hrun
    have hcompiled := hpruned.trans hrun.performs
    have hsame := h.savedRows_eq hcompiled
    have hdirectory : s.cache.directory = x.config.cache :=
      hrun.directory.trans (hsets.directory.trans hd)
    rcases finish_cases cache hc with ⟨fault, hfinish⟩ | ⟨w2, hsave, hfinish⟩
    all_goals rw [hfinish]
    · obtain ⟨hclosing, hclosed⟩ := performs_close x.processor within hd s.work
      exact ⟨(hcompiled.mono hworks).trans hclosing, hclosed ▸ hsame ▸ h.rows⟩
    · obtain ⟨hclosing, hclosed⟩ := performs_close x.processor within hd w2
      have hsaved := Cache.performs_save x.processor s.cache s.work
      rw [hsave, hdirectory] at hsaved
      refine ⟨((hcompiled.mono hworks).trans (hsaved.mono fun p hp => .inr (.inr hp))).trans hclosing, ?_⟩
      obtain ⟨_, _, hclean, hdirty⟩ := Cache.save_spec hsave
      dsimp only
      rw [hclosed]
      cases hflag : s.cache.dirty with
      | false =>
        rw [hclean hflag, hsame]
        exact h.rows
      | true =>
        have hsavedRows := hdirty hflag fun r hr => (hrun.rows r hr).2
        rw [hdirectory] at hsavedRows
        rw [hsavedRows]
        exact hrun.rows

/-- Whatever a build comes to, it works on paths of the kind, on its lock and on its manifest. -/
theorem performs_build (h : Bounds own within x w) :
    Performs x.processor (WorksOn x.config within) w.files (build x w).2.files ∧
      Bound within (savedRows (build x w).2.files x.config.cache) := by
  have hlock : ∀ p, p = lockPath x.config.cache → WorksOn x.config within p := fun p hp => .inr (.inl hp)
  have hopening := (Cache.performs_openAt x.processor x.config.cache w).mono hlock
  have hgoes := goes_build x w
  generalize outset? x w = out, build x w = result at hgoes ⊢
  cases hgoes with
  | unopened opened =>
    have hrows := Cache.savedRows_of_keeps (Cache.opens_openAt opened).keeps x.config.cache
      (Cache.manifestAt_ne_lockAt _ _)
    rw [opened] at hopening
    exact ⟨hopening, hrows ▸ h.rows⟩
  | @halted cache w1 w2 e opened hset =>
    have hopened := Cache.opened_of_openAt opened
    have hbounds := h.of_keeps hopened.keeps
    have hrows : Bound within cache.rows := hopened.rows ▸ h.rows
    have hpruned := performs_setOut x.processor (fun r hr => (hrows r hr).1) hset
    obtain ⟨hclosing, hclosed⟩ := performs_close x.processor within hopened.directory_eq w2
    rw [opened] at hopening
    exact ⟨hopening.trans ((hpruned.mono fun _ => .inl).trans hclosing),
      hclosed ▸ hbounds.savedRows_eq hpruned ▸ hbounds.rows⟩
  | @compiles cache w1 w2 o opened hset =>
    have hopened := Cache.opened_of_openAt opened
    obtain ⟨hperforms, hbound⟩ := (h.of_keeps hopened.keeps).performs_finish
      (hopened.rows ▸ h.rows) hopened.directory_eq hset
    rw [opened] at hopening
    exact ⟨hopening.trans hperforms, hbound⟩

end Bounds

open Sample in
theorem uses_context (c : Config) (w : Workspace) : Uses c (fun _ => False) (context c) w :=
  ⟨rfl, (suits c).processor, (suits c).flat, id⟩

end Build

end AssetCompiler
