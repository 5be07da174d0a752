import AssetCompiler.Proofs.Build.Complete

/-! # Targets with one owner

When no two identities are ever given the same target, every target has an owner: the identity
that it can be a target of. Then a compile changes no file at the target of another row.
-/
namespace AssetCompiler

open AssetCompiler.Tree (Keeps)
open Cache (Kept Exclusive savedRows)

/-- The identity that a target belongs to, by the components of the target. -/
abbrev Owner := List Component → Path × Option String

namespace Cache

variable {owner : Owner} {c : Config} {cache : Cache} {r q : Row} {rows : List Row}

def Owned (owner : Owner) (rows : List Row) : Prop :=
  ∀ r ∈ rows, owner r.target.components = (r.source, r.language)

theorem Owned.nil (owner : Owner) : Owned owner [] := fun _ h => by cases h

theorem Owned.filter (h : Owned owner rows) (p : Row → Bool) : Owned owner (rows.filter p) :=
  fun r hr => h r (List.mem_of_mem_filter hr)

theorem Owned.put (h : Owned owner cache.rows)
    (hr : owner r.target.components = (r.source, r.language)) : Owned owner (cache.put r).rows := by
  intro q hq
  rcases mem_put hq with rfl | hq
  · exact hr
  · exact h q hq

/-- Rows with one target have one key. -/
theorem Owned.hasKey (h : Owned owner rows) (hr : r ∈ rows) (hq : q ∈ rows)
    (he : r.target.components = q.target.components) : q.hasKey r.source r.language = true := by
  have hrow := h r hr
  rw [he, h q hq] at hrow
  obtain ⟨hs, hl⟩ := Prod.mk.inj hrow
  exact Row.hasKey_iff.mpr ⟨hs ▸ Path.beq_refl _, hl⟩

theorem Owned.exclusive (h : Owned owner rows) (c : Config) : Exclusive c rows :=
  fun _ hr _ hq _ _ _ he => h.hasKey hr hq (congrArg Path.components he)

theorem Owned.resolve_ne {home : Location} (h : Owned owner rows) (hk : Kept c rows) (hr : r ∈ rows)
    (hq : q ∈ rows) (hkey : q.hasKey r.source r.language = false) :
    r.target.resolve home ≠ q.target.resolve home := by
  intro he
  obtain ⟨a, ha⟩ := (hk.formed r hr).of
  obtain ⟨b, hb⟩ := (hk.formed q hq).of
  rw [h.hasKey hr hq (congrArg Path.components (ha.target_eq_of_resolve hb he))] at hkey
  cases hkey

theorem mem_put_self (cache : Cache) (r : Row) : r ∈ (cache.put r).rows := by
  have hfound := find?_put cache r r.source r.language
  rw [if_pos r.hasKey_self] at hfound
  exact (find?_eq_some hfound).1

end Cache

namespace Build

open Session
open Cache (Owned)

variable {owner : Owner} {x : Context} {s s' : Session} {w w' : Workspace} {order : List Nat} {i : Nat}

/-- Whether a run writes every asset to a target of its own. -/
def WritesOwned (owner : Owner) (x : Context) (s : Session) (order : List Nat) : Prop :=
  ∀ v ∈ visits x s order,
    let a := (compileOne x v.1 v.2).2.assets.get v.2
    a.rebuilt = true → ∀ target ∈ a.target, owner target.components = (a.source, a.language)

/-- Whether a build writes every asset to a target of its own, if it writes any. -/
def WritesOwn (owner : Owner) (x : Context) (w : Workspace) : Prop :=
  ∀ o, outset? x w = some o → WritesOwned owner x o.session o.order

instance : Decidable (WritesOwned owner x s order) :=
  inferInstanceAs (Decidable (∀ v ∈ visits x s order,
    let a := (compileOne x v.1 v.2).2.assets.get v.2
    a.rebuilt = true → ∀ target ∈ a.target, owner target.components = (a.source, a.language)))

instance : Decidable (WritesOwn owner x w) :=
  match h : outset? x w with
  | none => isTrue fun o ho => by rw [h] at ho; cases ho
  | some o => decidable_of_iff (WritesOwned owner x o.session o.order)
      ⟨fun hd o' ho => by rw [h] at ho; cases ho; exact hd, fun hf => hf o h⟩

theorem owned_step (hr : Ready x s order) (hw : WritesOwned owner x s order)
    (hv : (s', i) ∈ visits x s order) (hp : Preserves x s s') (h : Owned owner s'.cache.rows) :
    Owned owner (compileOne x s' i).2.cache.rows := by
  have hi := hr.lt i (mem_order_of_mem_visits hv)
  rcases (compiles_compileOne hr.processor s' i).cache with hcache | ⟨target, bytes, hwritten⟩
  · rw [hcache]
    exact h
  · obtain ⟨f, _, hcache⟩ := hwritten.record
    have hget : (compileOne x s' i).2.assets.get i =
        { s'.assets.get i with target := some target, rebuilt := true } := by
      rw [hwritten.assets]
      exact Collection.get_update_self (hp.length_eq.symm ▸ hi) _
    have hown := hw (s', i) hv
    dsimp only at hown
    rw [hget] at hown
    rw [hcache]
    exact h.put (hown rfl target rfl)

theorem owned_run (hr : Ready x s order) (hw : WritesOwned owner x s order)
    (h : Owned owner s.cache.rows) :
    (∀ v ∈ visits x s order, Owned owner v.1.cache.rows) ∧
      Owned owner (compileAll x s order).2.cache.rows := by
  obtain ⟨h1, h2⟩ := compileAll_invariant
    (P := fun t => Preserves x s t ∧ Owned owner t.cache.rows) ⟨.start hr, h⟩
    fun v hv ⟨hp, ho⟩ => ⟨preserves_step hr (hr.lt _ (mem_order_of_mem_visits hv)) hp
      (compiles_compileOne hr.processor v.1 v.2), owned_step hr hw hv hp ho⟩
  exact ⟨fun v hv => (h1 v hv).2, h2.2⟩

theorem report_of_compileOne {report : AssetReport} (h : compileOne x s i = (.ok report, s')) :
    report = assetReport (s'.assets.get i) report.outcome report.error := by
  cases concludes_of_compileOne h <;> rfl

/-- A run that gets to its end reports every asset as it leaves it. -/
theorem forall₂_report (hprocessor : x.processor.KeepsFiles) (hnodup : order.Nodup)
    (hrun : compileAll x s order = (.ok reports, s')) :
    List.Forall₂ (fun i e => e = assetReport (s'.assets.get i) e.outcome e.error) order reports := by
  refine (run_induction (P := fun done reports t => List.Forall₂
    (fun i e => e = assetReport (t.assets.get i) e.outcome e.error) done reports) .nil ?_).2 _ _ hrun
  intro front i back before report t t' he _ hbefore hone
  have hc := compiles_compileOne hprocessor t i
  rw [hone] at hc
  rw [he] at hnodup
  have hfront : i ∉ front := fun hi =>
    (List.nodup_append.mp hnodup).2.2 i hi i List.mem_cons_self rfl
  refine List.rel_append ?_ (.cons (report_of_compileOne hone) .nil)
  refine List.forall₂_iff_zip.mpr ⟨hbefore.length_eq, fun {j e} hmem => ?_⟩
  have hj := (List.of_mem_zip hmem).1
  rw [hc.get_of_ne fun heq => hfront (heq ▸ hj)]
  exact (List.forall₂_iff_zip.mp hbefore).2 hmem

/-- A run that gets to its end reports every asset as its compile has left it. -/
theorem exists_report_of_mem_visits {reports : List AssetReport}
    (h : compileAll x s order = (.ok reports, s')) {v : Session × Nat} (hv : v ∈ visits x s order) :
    ∃ e ∈ reports, e = assetReport ((compileOne x v.1 v.2).2.assets.get v.2) e.outcome e.error := by
  induction order generalizing s reports with
  | nil => cases hv
  | cons i order ih =>
    obtain ⟨report, s₁, rest, hc, hrest, rfl⟩ := compileAll_cons_eq_ok h
    rw [visits_cons_of_ok hc] at hv
    rcases List.mem_cons.mp hv with rfl | hv
    · refine ⟨report, List.mem_cons_self, ?_⟩
      dsimp only
      rw [hc]
      exact report_of_compileOne hc
    · obtain ⟨e, he, heq⟩ := ih hrest hv
      exact ⟨e, List.mem_cons_of_mem _ he, heq⟩

/-- A build whose report gives every asset a target of its own has written them so. -/
theorem writesOwn_of_build {report : BuildReport} (h : Fit x w) (hb : build x w = (.ok report, w'))
    (hreport : ∀ e ∈ report.assets, ∀ target ∈ e.target,
      owner target.components = (e.source, e.language)) : WritesOwn owner x w := by
  obtain ⟨_, _, o, s, _, _, hout, hsucc⟩ := succeeds_of_build h hb
  intro o' ho' v hv a _ target htarget
  obtain rfl : o = o' := Option.some.inj (hout.symm.trans ho')
  obtain ⟨e, he, heq⟩ := exists_report_of_mem_visits hsucc.run hv
  have hown := hreport e he target (by rw [heq]; exact htarget)
  rw [hown, heq]
  rfl

theorem owned_outset (ho : Owned owner (savedRows w.files x.config.cache)) {cache : Cache}
    {w1 : Workspace} {o : Outset} (hopened : Cache.Opened x.config.cache w cache w1)
    (hs : SetsOut x cache w1 o) : Owned owner o.session.cache.rows := by
  rw [hs.rows, hopened.rows]
  exact ho.filter _

/-- Where every asset is written to a target of its own, targets belong to their rows all through
the run of a build. -/
theorem owned_visits (h : Fit x w) (hw : WritesOwn owner x w)
    (ho : Owned owner (savedRows w.files x.config.cache)) {o : Outset} (hout : outset? x w = some o) :
    (∀ v ∈ visits x o.session o.order, Owned owner v.1.cache.rows) ∧
      Owned owner (compileAll x o.session o.order).2.cache.rows := by
  obtain ⟨cache, w1, hopened, hsets, _⟩ := build_of_outset hout
  exact owned_run (ready_of_setsOut h hopened hsets) (hw o hout) (owned_outset ho hopened hsets)

theorem owned_build (h : Fit x w) (hw : WritesOwn owner x w)
    (ho : Owned owner (savedRows w.files x.config.cache)) :
    Owned owner (savedRows (build x w).2.files x.config.cache) := by
  rcases h.able.savedRows_build with hrows | ⟨o, hout, hrows⟩
  · rw [hrows]
    exact ho
  · rw [hrows]
    exact (owned_visits h hw ho hout).2

/-- Where every build writes assets to targets of their own, so do the rows of every state. -/
theorem Reached.owned {c : Config} {edits : Workspace → Workspace → Prop}
    {runs : Context → Workspace → Prop} (h : Reached c edits runs w)
    (he : ∀ w w', edits w w' → Disturbs c w w')
    (hr : ∀ x w, runs x w → Suits c x ∧ WritesOwn owner x w) :
    Owned owner (savedRows w.files c.cache) := by
  induction h with
  | start w _ _ rows =>
    rw [rows]
    exact .nil owner
  | edit w w' _ edited ih =>
    rcases (he w w' edited).rows with hrows | hrows <;> rw [hrows]
    · exact ih
    · exact .nil owner
  | build x w before run ih =>
    obtain ⟨hx, hw⟩ := hr x w run
    have hfit := (before.standing he fun x w hrun => (hr x w hrun).1).fit hx
    rw [Config.cache_eq_of_roots hx.roots] at ih ⊢
    exact owned_build hfit hw ih

/-- The target of a row that stays is not the target of one that is pruned. -/
theorem resolve_ne_of_pruned {cache : Cache} {w1 : Workspace} {o : Outset} (h : Fit x w)
    (hopened : Cache.Opened x.config.cache w cache w1) (hs : SetsOut x cache w1 o)
    (ho : Owned owner (savedRows w.files x.config.cache)) {r q : Row}
    (hr : r ∈ o.session.cache.rows) (hq : q ∈ cache.rows) (hgone : w1.files.isFile q.source = false)
    (home : Location) : r.target.resolve home ≠ q.target.resolve home := by
  rw [hs.rows, List.mem_filter] at hr
  obtain ⟨hmem, hfile⟩ := hr
  have hkept : Kept x.config cache.rows := hopened.rows ▸ h.kept
  have hne : r ≠ q := by
    rintro rfl
    rw [hfile] at hgone
    cases hgone
  exact (hopened.rows ▸ ho).resolve_ne hkept hmem hq (hkept.keyed.forall hq hmem hne.symm)

theorem not_touched_of_other {s₀ : Session} {target : Path} {bytes : ByteArray} (hr : Ready x s₀ order)
    (hi : i < s₀.assets.length) (h : Preserves x s₀ s) (ho : Owned owner s'.cache.rows)
    (ho' : Owned owner s.cache.rows) (hw : Written x s i target bytes s') {r : Row}
    (hrow : r ∈ s.cache.rows)
    (hkey : r.hasKey (s.assets.get i).source (s.assets.get i).language = false) :
    ¬Touched s.work.files (s.row? i) target (r.target.resolve s.work.files.home) := by
  obtain ⟨g, _, hcache⟩ := hw.record
  rintro (hl | ⟨q, hq, _, hl⟩)
  · have hplaced := h.placed hr hi
    obtain ⟨hof, hformed⟩ := formed_rowFor (s := s) (i := i) hr.flat hplaced hw.isTarget g bytes
    obtain ⟨a, ha⟩ := (h.kept.formed r hrow).of
    have htarget := ha.target_eq_of_resolve hof hl
    have hown := ho _ (hcache ▸ Cache.mem_put_self _ _)
    rw [← congrArg Path.components htarget, ho' r hrow] at hown
    obtain ⟨hs, hlang⟩ := Prod.mk.inj hown
    have hkey' : r.hasKey (s.assets.get i).source (s.assets.get i).language = true :=
      Row.hasKey_iff.mpr ⟨hs ▸ Path.beq_refl _, hlang⟩
    rw [hkey'] at hkey
    cases hkey
  · obtain ⟨hmem, hqkey⟩ := Cache.find?_eq_some hq
    refine ho'.resolve_ne h.kept hmem hrow ?_ hl.symm
    cases hrq : r.hasKey q.source q.language with
    | false => rfl
    | true =>
      rw [Row.hasKey_trans hrq hqkey] at hkey
      cases hkey

/-- A compile that no file operation stops keeps the files at the targets of other rows. -/
theorem file_target_of_compiles {s₀ : Session} {result : Except BuildError AssetReport}
    (hr : Ready x s₀ order) (hi : i < s₀.assets.length) (h : Preserves x s₀ s)
    (ho : Owned owner s'.cache.rows) (ho' : Owned owner s.cache.rows)
    (hc : Compiles x s i result s') (hresult : ∀ fault, result ≠ .error (.file fault)) {r : Row}
    (hrow : r ∈ s.cache.rows)
    (hkey : r.hasKey (s.assets.get i).source (s.assets.get i).language = false) {f : File}
    (hf : s.work.files.file r.target = .ok f) : s'.work.files.file r.target = .ok f := by
  rcases hc.written_or_idle hresult with ⟨target, bytes, hw⟩ | ⟨hidle, _⟩
  · exact hw.keeps.file hf (not_touched_of_other hr hi h ho ho' hw hrow hkey)
  · exact hidle.file hf id

/-- After a compile, every row but the one that it records is an older one with another key. -/
theorem mem_rows_of_written {target : Path} {bytes : ByteArray} (hr : Ready x s₀ order)
    (hi : i < s₀.assets.length) (hp : Preserves x s₀ s) (hw : Written x s i target bytes s') :
    ∃ f, s'.work.files.file (s.assets.get i).source = .ok f ∧ ∀ q ∈ s'.cache.rows,
      q = s.cache.rowFor x.digest f s.assets (s.assets.get i) target bytes ∨
        q ∈ s.cache.rows ∧ q.hasKey (s.assets.get i).source (s.assets.get i).language = false := by
  have hkept := (preserves_step hr hi hp (.written target bytes s' hw)).kept
  obtain ⟨f, hf, hcache⟩ := hw.record
  refine ⟨f, hf, fun q hq => ?_⟩
  by_cases he : q = s.cache.rowFor x.digest f s.assets (s.assets.get i) target bytes
  · exact Or.inl he
  · have hmem := hcache ▸ Cache.mem_put_self s.cache
      (s.cache.rowFor x.digest f s.assets (s.assets.get i) target bytes)
    have hkey := hkept.keyed.forall hq hmem he
    rw [hcache] at hq
    exact Or.inr ⟨(Cache.mem_put hq).resolve_left he, hkey⟩

/-- After a compile, too, the files at the targets of rows are those that the rows have the checksums
of. -/
theorem stored_of_written {target : Path} {bytes : ByteArray} (hr : Ready x s₀ order)
    (hi : i < s₀.assets.length) (hp : Preserves x s₀ s) (ho : Owned owner s'.cache.rows)
    (ho' : Owned owner s.cache.rows) (hw : Written x s i target bytes s')
    (h : ∀ r ∈ s.cache.rows, ∀ f, s.work.files.fileAt? (r.target.resolve s.work.files.home) = some f →
      x.digest f.bytes = r.outputChecksum) :
    ∀ r ∈ s'.cache.rows, ∀ f, s'.work.files.fileAt? (r.target.resolve s'.work.files.home) = some f →
      x.digest f.bytes = r.outputChecksum := by
  obtain ⟨_, _, hrows⟩ := mem_rows_of_written hr hi hp hw
  intro q hq g hg
  rcases hrows q hq with rfl | ⟨hold, hkey⟩
  · obtain ⟨g', hg', hbytes⟩ := hw.file
    obtain rfl : g' = g := Option.some.inj ((Tree.fileAt?_of_file hg').symm.trans hg)
    rw [hbytes]
    rfl
  · have hother := not_touched_of_other hr hi hp ho ho' hw hold hkey
    rw [hw.keeps.grows.home, hw.keeps.files _ hother] at hg
    exact h q hold g hg

end Build

end AssetCompiler
