import AssetCompiler.Proofs.Build.Recorded

/-! # No output without a row

A compile makes no file but its target, and takes away the one at the target that its asset had
before. Pruning takes away the targets of the rows that it drops. So a file at an output never
outlives the row that says where it comes from.
-/
namespace AssetCompiler

open AssetCompiler.Tree (Keeps)
open Cache (Kept savedRows manifestAt lockAt)

/-- The places of outputs: below the root of a kind's targets, or among the partials. -/
def OutputAt (home : Location) (c : Config) (l : Location) : Prop :=
  (∃ k, (c.sectionOf k).target.resolve home <+: l) ∨ c.partialsDir.resolve home <+: l

/-- A layout in which the roots of targets also lie apart from the cache. -/
structure Separate (home : Location) (c : Config) : Prop extends Layout home c where
  outputs : ∀ k, Apart ((c.sectionOf k).target.resolve home) (c.cache.resolve home)

section outputs

variable {home l : Location} {c c' : Config}

theorem Config.resolve_partialsDir (c : Config) (home : Location) :
    c.partialsDir.resolve home = c.cache.resolve home ++ ["partials"] :=
  Path.resolve_join_name ⟨by decide, by decide, by decide⟩

theorem OutputAt.not_inSources (hl : Layout home c) (h : OutputAt home c l) : ¬InSources home c l := by
  rintro ⟨k, hk⟩
  rcases h with ⟨k', rest, rfl⟩ | ⟨rest, rfl⟩
  · exact (hl.targets k k').not_prefix_append rest hk
  · rw [c.resolve_partialsDir, List.append_assoc] at hk
    exact (hl.cache k).not_prefix_append _ hk

theorem OutputAt.ne_cache (hs : Separate home c) (h : OutputAt home c l) {n : String}
    (hn : n ≠ "partials") : l ≠ c.cache.resolve home ++ [n] := by
  rintro rfl
  rcases h with ⟨k, hk⟩ | hk
  · exact (hs.outputs k).not_prefix_append [n] hk
  · rw [c.resolve_partialsDir, List.prefix_append_right_inj, List.cons_prefix_cons] at hk
    exact hn hk.1.symm

theorem OutputAt.ne_lock (hs : Separate home c) (h : OutputAt home c l) : l ≠ lockAt home c.cache := by
  rw [Cache.lockAt_eq]
  exact h.ne_cache hs (by decide)

theorem OutputAt.ne_manifest (hs : Separate home c) (h : OutputAt home c l) :
    l ≠ manifestAt home c.cache := by
  rw [Cache.manifestAt_eq]
  exact h.ne_cache hs (by decide)

theorem OutputAt.of_roots (hr : c.roots = c'.roots) (h : OutputAt home c l) : OutputAt home c' l := by
  unfold OutputAt Config.partialsDir at h ⊢
  simp only [← Config.sectionOf_eq_of_roots hr, ← Config.cache_eq_of_roots hr]
  exact h

theorem Separate.of_roots (hr : c.roots = c'.roots) (h : Separate home c) : Separate home c' where
  toLayout := h.toLayout.of_roots hr
  outputs k := by
    rw [← Config.sectionOf_eq_of_roots hr, ← Config.cache_eq_of_roots hr]
    exact h.outputs k

end outputs

/-- Rows of which one tells of every file at an output. -/
def Covered (c : Config) (t : Tree) (rows : List Row) : Prop :=
  ∀ l f, OutputAt t.home c l → t.fileAt? l = some f → ∃ r ∈ rows, t.locate r.target = .ok l

section covered

variable {c c' : Config} {t t' : Tree} {rows : List Row}

/-- Where no output is made and rows still lead to their targets, files stay covered. -/
theorem Covered.of_lost (h : Covered c t rows) (hhome : t'.home = t.home)
    (hways : ∀ r ∈ rows, ∀ l, t.locate r.target = .ok l → t'.locate r.target = .ok l)
    (hfiles : ∀ l, OutputAt t.home c l → t'.fileAt? l = none ∨ t'.fileAt? l = t.fileAt? l) :
    Covered c t' rows := by
  intro l f hout hf
  rw [hhome] at hout
  rcases hfiles l hout with hl | hl <;> rw [hl] at hf
  · cases hf
  · obtain ⟨r, hr, hlocate⟩ := h l f hout hf
    exact ⟨r, hr, hways r hr l hlocate⟩

theorem Covered.of_keeps {changed : Location → Prop} (h : Covered c t rows) (hk : Keeps changed t t')
    (hc : ∀ l, changed l → ¬OutputAt t.home c l) : Covered c t' rows :=
  h.of_lost hk.grows.home (fun _ _ _ => hk.grows.locate) fun l hout =>
    Or.inr (hk.files l fun hl => hc l hl hout)

theorem Covered.of_roots (hr : c.roots = c'.roots) (h : Covered c t rows) : Covered c' t rows :=
  fun l f hout => h l f (hout.of_roots hr.symm)

end covered

theorem Cache.mem_put_of_hasKey {cache : Cache} {r q : Row} (hk : Keyed cache.rows) (hq : q ∈ cache.rows)
    (hkey : r.hasKey q.source q.language = false) : q ∈ (cache.put r).rows := by
  have hfound := find?_put cache r q.source q.language
  rw [hkey, if_neg (by decide), find?_of_mem hk hq q.hasKey_self] at hfound
  exact (find?_eq_some hfound).1

namespace Build

open Session

variable {c : Config} {x : Context} {s s' s₀ : Session} {i : Nat} {order : List Nat}
  {w w' w1 : Workspace} {cache : Cache} {o : Outset}

/-- A compile that no file operation stops leaves every file at an output covered. -/
theorem covered_step {result : Except BuildError AssetReport} (hr : Ready x s₀ order)
    (hi : i < s₀.assets.length) (hp : Preserves x s₀ s) (hc : Compiles x s i result s')
    (hresult : ∀ fault, result ≠ .error (.file fault))
    (h : Covered x.config s.work.files s.cache.rows) :
    Covered x.config s'.work.files s'.cache.rows := by
  rcases hc.written_or_idle hresult with ⟨target, bytes, hw⟩ | ⟨hkeeps, hcache, _⟩
  · have hhome := hw.keeps.grows.home
    obtain ⟨f, _, hcache⟩ := hw.record
    have hplaced := hp.placed hr hi
    obtain ⟨hof, _⟩ := formed_rowFor (s := s) (i := i) hr.flat hplaced hw.isTarget f bytes
    intro l g hout hg
    rw [hhome] at hout
    by_cases hl : l = target.resolve s.work.files.home
    · refine ⟨_, hcache ▸ Cache.mem_put_self _ _, ?_⟩
      obtain ⟨g', hg', _⟩ := hw.file
      obtain ⟨m, hm, _⟩ := Tree.file_eq_ok_iff.mp hg'
      rw [hl, ← hhome, ← (Tree.locate_eq_ok hm).1]
      exact hm
    · have hold : s.work.files.fileAt? l = some g := by
        rcases hw.replaces.lost l hl with hlost | hsame
        · rw [hlost] at hg
          cases hg
        · exact hsame.symm.trans hg
      obtain ⟨r, hrow, hlocate⟩ := h l g hout hold
      refine ⟨r, ?_, hw.keeps.grows.locate hlocate⟩
      rw [hcache]
      refine Cache.mem_put_of_hasKey hp.kept.keyed hrow ?_
      -- The asset's own row would have lost its target, or have the new one.
      cases hkey : (s.cache.rowFor x.digest f s.assets (s.assets.get i) target bytes).hasKey r.source
          r.language with
      | false => rfl
      | true =>
        have hown := Row.hasKey_symm hkey
        have hrow? : s.row? i = some r := Cache.find?_of_mem hp.kept.keyed hrow hown
        have hne : (r.target == target) = false := by
          cases hsame : r.target == target with
          | false => rfl
          | true =>
            have htarget := (hp.kept.of_find? hplaced hrow?).target_eq_of_beq hof hsame
            exact absurd ((Tree.locate_eq_ok hlocate).1.trans (congrArg (Path.resolve _) htarget)) hl
        rw [hw.replaces.gone r l hrow? hne hlocate hl] at hg
        cases hg
  · rw [hcache]
    exact h.of_keeps hkeeps fun _ hl => hl.elim

section run

variable (h : Fit x w) (ho : Cache.Opened x.config.cache w cache w1) (hs : SetsOut x cache w1 o)
  (hl : Separate w.files.home x.config)
  (hcovered : Covered x.config w.files (savedRows w.files x.config.cache))
include h ho hs hl hcovered

omit h in
/-- The rows that pruning drops have no targets left. -/
theorem covered_outset : Covered x.config o.session.work.files o.session.cache.rows := by
  have hopened : Covered x.config w1.files cache.rows := by
    rw [ho.rows]
    refine hcovered.of_keeps ho.keeps ?_
    rintro l rfl hout
    exact hout.ne_lock hl rfl
  intro l f hout hf
  rw [hs.keeps.grows.home] at hout
  rcases hs.lost l with hlost | hsame
  · rw [hlost] at hf
    cases hf
  · rw [hsame] at hf
    obtain ⟨r, hr, hlocate⟩ := hopened l f hout hf
    refine ⟨r, ?_, hs.keeps.grows.locate hlocate⟩
    rw [hs.rows]
    refine List.mem_filter.mpr ⟨hr, ?_⟩
    cases hfile : w1.files.isFile r.source with
    | true => rfl
    | false =>
      rw [← hsame, hs.dropped r hr hfile l hlocate] at hf
      cases hf

theorem covered_run (hresult : ∀ fault, (compileAll x o.session o.order).1 ≠ .error (.file fault)) :
    Covered x.config (compileAll x o.session o.order).2.work.files
      (compileAll x o.session o.order).2.cache.rows := by
  have hr := ready_of_setsOut h ho hs
  refine (compileAll_invariant (P := fun t => Preserves x o.session t ∧
    Covered x.config t.work.files t.cache.rows)
    ⟨.start hr, covered_outset ho hs hl hcovered⟩ ?_).2.2
  rintro ⟨t, i⟩ hv ⟨hp, hc⟩
  have hi := hr.lt i (mem_order_of_mem_visits hv)
  have hcompiles := compiles_compileOne hr.processor t i
  exact ⟨preserves_step hr hi hp hcompiles, covered_step hr hi hp hcompiles
    (fun fault he => hresult fault (compileAll_error hv he)) hc⟩

end run

/-- Whatever a build comes to, as long as no file operation fails, every file at an output is covered
by the rows in the manifest. -/
theorem covered_build (h : Fit x w) (hl : Separate w.files.home x.config)
    (hoperations : ∀ fault, (build x w).1 ≠ .error (.file fault) ∧
      (build x w).1 ≠ .error (.cache (.file fault)))
    (hcovered : Covered x.config w.files (savedRows w.files x.config.cache)) :
    Covered x.config (build x w).2.files (savedRows (build x w).2.files x.config.cache) := by
  cases comesTo_build h hoperations with
  | unset grows lost rows =>
    rw [rows]
    exact hcovered.of_lost grows.home (fun _ _ _ => grows.locate) fun l hout => lost l (hout.ne_lock hl)
  | saved outset opened sets result keeps rows =>
    rw [rows]
    refine (covered_run h opened sets hl hcovered result).of_keeps keeps ?_
    rw [h.able.home_run opened sets]
    rintro l (rfl | rfl) hout
    · exact hout.ne_lock hl rfl
    · exact hout.ne_manifest hl rfl

end Build

end AssetCompiler
