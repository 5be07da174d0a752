import Mathlib.Data.List.Nodup
import AssetCompiler.Proofs.Cache.Disk
import AssetCompiler.Proofs.Cache.Stale

/-! # Caches with an index

An index tells the position of each key's row. It is made anew when a cache is opened or pruned, and
recording keeps it up. A cache that finds its rows through an index does what the cache does that
searches for them, and the row that it finds is the one recorded last, as long as that was not pruned.
-/
namespace AssetCompiler

instance : Hashable Component := ⟨fun c => hash c.rank⟩

/-- What rows are found under. -/
abbrev Key := List Component × Option String

namespace Row

def key (r : Row) : Key := (r.source.components, r.language)

theorem hasKey_iff_key {r : Row} {source : Path} {language : Option String} :
    r.hasKey source language = true ↔ r.key = (source.components, language) := by
  rw [hasKey_iff, Path.beq_iff, key, Prod.mk.injEq]

theorem hasKey_eq {r : Row} {source : Path} {language : Option String} :
    r.hasKey source language = decide (r.key = (source.components, language)) :=
  Bool.eq_iff_iff.mpr (hasKey_iff_key.trans decide_eq_true_iff.symm)

end Row

namespace Cache

theorem keyed_iff_nodup {rows : List Row} : Keyed rows ↔ (rows.map Row.key).Nodup := by
  unfold Keyed List.Nodup
  rw [List.pairwise_map]
  refine List.Pairwise.iff fun r q => ?_
  rw [Row.hasKey_eq, decide_eq_false_iff_not]
  rfl

abbrev Positions := Std.HashMap Key Nat

/-- Whether a map leads from each of a list of different keys to its position, and from nothing else. -/
structure InStep (keys : List Key) (positions : Positions) : Prop where
  nodup : keys.Nodup
  getElem?_iff : ∀ (k : Key) (i : Nat), positions[k]? = some i ↔ keys[i]? = some k

/-- Maps keys to their positions. Of several the last one counts. -/
def positionsOf (keys : List Key) : Positions :=
  keys.zipIdx.foldl (fun positions (k, i) => positions.insert k i) ∅

theorem positionsOf_append (keys : List Key) (k : Key) :
    positionsOf (keys ++ [k]) = (positionsOf keys).insert k keys.length := by
  simp [positionsOf, List.zipIdx_append]

namespace InStep

variable {keys : List Key} {positions : Positions} {k : Key} {i : Nat}

theorem getElem?_eq_none (h : InStep keys positions) (hk : positions[k]? = none) : k ∉ keys := by
  intro hmem
  obtain ⟨i, hi⟩ := List.mem_iff_getElem?.mp hmem
  rw [(h.getElem?_iff k i).mpr hi] at hk
  cases hk

/-- A new key goes to the end. -/
theorem append (h : InStep keys positions) (hk : k ∉ keys) :
    InStep (keys ++ [k]) (positions.insert k keys.length) := by
  refine ⟨List.concat_eq_append ▸ h.nodup.concat hk, fun q i => ?_⟩
  simp only [Std.HashMap.getElem?_insert, beq_iff_eq]
  by_cases hq : k = q
  · subst hq
    rw [if_pos rfl, Option.some.injEq]
    refine ⟨fun hi => hi ▸ List.getElem?_concat_length, fun hi => ?_⟩
    rcases Nat.lt_trichotomy i keys.length with hlt | heq | hgt
    · rw [List.getElem?_append_left hlt] at hi
      exact absurd (List.mem_of_getElem? hi) hk
    · exact heq.symm
    · rw [List.getElem?_eq_none (List.length_append ▸ hgt)] at hi
      cases hi
  · rw [if_neg hq, h.getElem?_iff]
    rcases Nat.lt_or_ge i keys.length with hlt | hge
    · rw [List.getElem?_append_left hlt]
    · rw [List.getElem?_append_right hge, List.getElem?_eq_none hge, List.getElem?_singleton]
      split
      · simpa using hq
      · rfl

theorem positionsOf (h : keys.Nodup) : InStep keys (positionsOf keys) := by
  induction keys using List.reverseRecOn with
  | nil => exact ⟨List.nodup_nil, fun k i => by simp [Cache.positionsOf]⟩
  | append_singleton keys k ih =>
    obtain ⟨hkeys, _, hdisjoint⟩ := List.nodup_append.mp h
    rw [positionsOf_append]
    exact (ih hkeys).append fun hk => hdisjoint k hk k (List.mem_singleton_self k) rfl

end InStep

/-- Putting a row leaves the rows of other keys, in their order. -/
theorem filter_put (c : Cache) (r : Row) :
    ((c.put r).rows.filter fun q => !q.hasKey r.source r.language) =
      c.rows.filter fun q => !q.hasKey r.source r.language := by
  unfold put
  rcases replaceLast_cases (fun q => q.hasKey r.source r.language) r c.rows with
    ⟨_, h⟩ | ⟨front, y, back, hrows, hy, _, h⟩
  · rw [h]
    simp [Row.hasKey_self]
  · rw [h, hrows]
    simp [Row.hasKey_self, hy]

/-- A cache with the positions of its rows. -/
structure Indexed where
  cache : Cache
  positions : Positions

namespace Indexed

/-- An index of a cache, made anew. -/
def ofCache (c : Cache) : Indexed := ⟨c, positionsOf (c.rows.map Row.key)⟩

def openAt (directory : Path) (w : Workspace) : Except CacheError Indexed × Workspace :=
  let (result, w) := Cache.openAt directory w
  (result.map ofCache, w)

def find? (x : Indexed) (source : Path) (language : Option String) : Option Row :=
  x.positions[(source.components, language)]?.bind fun i => x.cache.rows[i]?

def prune (x : Indexed) (w : Workspace) : Except Fault (List Row) × Indexed × Workspace :=
  let (result, c, w) := x.cache.prune w
  (result, ofCache c, w)

def stamps (x : Indexed) (as : Collection) (a : Asset) : List Stamp :=
  a.dependencies.filterMap fun i =>
    let d := as.get i
    (x.find? d.source d.language).map Row.stamp

/-- Puts a row at the position of its key, or at the end. -/
def put (x : Indexed) (r : Row) : Indexed :=
  match x.positions[r.key]? with
  | some i => ⟨{ x.cache with rows := x.cache.rows.set i r, dirty := true }, x.positions⟩
  | none =>
    ⟨{ x.cache with rows := x.cache.rows ++ [r], dirty := true },
      x.positions.insert r.key x.cache.rows.length⟩

def record (digest : ByteArray → String) (files : Tree) (x : Indexed) (as : Collection) (a : Asset)
    (target : Path) (output : ByteArray) : Except Fault Unit × Indexed :=
  match files.file a.source with
  | .error fault => (.error fault, x)
  | .ok f =>
    (.ok (), x.put {
      source := a.source
      target
      language := a.language
      modified := keptTime f.modified
      checksum := digest f.bytes
      outputChecksum := digest output
      dependencies := x.stamps as a })

variable {x x₀ : Indexed} {r : Row}

theorem prune_eq (x : Indexed) (w : Workspace) :
    x.prune w = ((x.cache.prune w).1, ofCache (x.cache.prune w).2.1, (x.cache.prune w).2.2) := rfl

theorem inStep_ofCache {c : Cache} (h : Keyed c.rows) :
    InStep ((ofCache c).cache.rows.map Row.key) (ofCache c).positions :=
  .positionsOf (keyed_iff_nodup.mp h)

section InStep

variable (h : InStep (x.cache.rows.map Row.key) x.positions)

include h

/-- The index leads to the row that a search finds. -/
theorem find?_eq (source : Path) (language : Option String) :
    x.find? source language = x.cache.find? source language := by
  unfold find?
  cases hp : x.positions[((source.components, language) : Key)]? with
  | none =>
    refine (find?_eq_none_iff.mpr fun r hr => ?_).symm
    have habsent := h.getElem?_eq_none hp
    rw [Row.hasKey_eq, decide_eq_false_iff_not]
    exact fun hkey => habsent (List.mem_map.mpr ⟨r, hr, hkey⟩)
  | some i =>
    have hi := (h.getElem?_iff _ i).mp hp
    rw [List.getElem?_map, Option.map_eq_some_iff] at hi
    obtain ⟨r, hr, hkey⟩ := hi
    rw [Option.bind_some, hr]
    exact (find?_of_mem (keyed_iff_nodup.mpr h.nodup) (List.mem_of_getElem? hr)
      (Row.hasKey_iff_key.mpr hkey)).symm

theorem stamps_eq (as : Collection) (a : Asset) : x.stamps as a = x.cache.stamps as a := by
  unfold stamps Cache.stamps
  simp only [find?_eq h]

theorem keys_put : InStep ((x.put r).cache.rows.map Row.key) (x.put r).positions := by
  unfold put
  cases hp : x.positions[r.key]? with
  | none =>
    have hrow := h.append (h.getElem?_eq_none hp)
    rw [List.length_map] at hrow
    rwa [List.map_append]
  | some i =>
    have hkeys : (x.cache.rows.set i r).map Row.key = x.cache.rows.map Row.key := by
      have hi := (h.getElem?_iff _ i).mp hp
      obtain ⟨hlt, hget⟩ := List.getElem?_eq_some_iff.mp hi
      rw [List.map_set, ← hget, List.set_getElem_self]
    rwa [hkeys]

/-- Putting a row at its position is putting it in place of the last row of its key. -/
theorem cache_put : (x.put r).cache = x.cache.put r := by
  unfold put Cache.put
  rcases replaceLast_cases (fun q => q.hasKey r.source r.language) r x.cache.rows with
    ⟨hnone, he⟩ | ⟨front, y, back, hrows, hy, _, he⟩
  · rw [he]
    cases hp : x.positions[r.key]? with
    | none => rfl
    | some i =>
      obtain ⟨q, hq, hkey⟩ := List.mem_map.mp (List.mem_of_getElem? ((h.getElem?_iff _ i).mp hp))
      have hno := hnone q hq
      rw [Row.hasKey_eq, decide_eq_false_iff_not] at hno
      exact absurd hkey hno
  · have hp : x.positions[r.key]? = some front.length := by
      rw [h.getElem?_iff, hrows, List.getElem?_map, List.getElem?_append_right (Nat.le_refl _), Nat.sub_self]
      exact congrArg some (Row.hasKey_iff_key.mp hy)
    rw [he, hp]
    dsimp only
    rw [hrows, List.set_append_right _ _ (Nat.le_refl _), Nat.sub_self, List.set_cons_zero]

end InStep

theorem openAt_eq_ok {directory : Path} {w w₀ : Workspace} (h : openAt directory w = (.ok x₀, w₀)) :
    Cache.openAt directory w = (.ok x₀.cache, w₀) ∧ x₀ = ofCache x₀.cache := by
  unfold openAt at h
  cases ho : Cache.openAt directory w with
  | mk result w₁ =>
    rw [ho] at h
    cases result with
    | error e => cases h
    | ok c =>
      cases h
      exact ⟨rfl, rfl⟩

variable {digest : ByteArray → String} {files : Tree} {as : Collection} {a : Asset} {target : Path}
  {output : ByteArray}

/-- A source that cannot be read is not recorded, with an index or without. -/
theorem record_of_fault {fault : Fault} (hf : files.file a.source = .error fault) :
    x.record digest files as a target output = (.error fault, x) ∧
      Cache.record digest files x.cache as a target output = .error fault := by
  unfold record Cache.record
  rw [hf]
  exact ⟨rfl, rfl⟩

theorem record_of_file (h : InStep (x.cache.rows.map Row.key) x.positions) {f : File}
    (hf : files.file a.source = .ok f) :
    x.record digest files as a target output =
        (.ok (), x.put (x.cache.rowFor digest f as a target output)) ∧
      Cache.record digest files x.cache as a target output =
        .ok (x.cache.put (x.cache.rowFor digest f as a target output)) := by
  unfold record Cache.record
  rw [hf]
  dsimp only
  rw [stamps_eq h]
  exact ⟨rfl, rfl⟩

/-- Recording with an index is recording without. One that fails changes nothing, another one changes
the row of its key only. -/
theorem record_spec (h : InStep (x.cache.rows.map Row.key) x.positions) :
    (∀ fault y, x.record digest files as a target output = (.error fault, y) →
        y = x ∧ Cache.record digest files x.cache as a target output = .error fault) ∧
      ∀ y, x.record digest files as a target output = (.ok (), y) →
        Cache.record digest files x.cache as a target output = .ok y.cache ∧
          (y.cache.rows.filter fun r => !r.hasKey a.source a.language) =
            x.cache.rows.filter fun r => !r.hasKey a.source a.language := by
  cases hf : files.file a.source with
  | error e =>
    obtain ⟨hindexed, hrun⟩ := record_of_fault (x := x) hf
    rw [hindexed, hrun]
    refine ⟨fun fault y he => ?_, fun y he => ?_⟩
    · obtain ⟨hfault, rfl⟩ := Prod.mk.inj he
      exact ⟨rfl, congrArg _ (Except.error.inj hfault)⟩
    · cases (Prod.mk.inj he).1
  | ok f =>
    obtain ⟨hindexed, hrun⟩ := record_of_file h hf
    rw [hindexed, hrun]
    refine ⟨fun fault y he => ?_, fun y he => ?_⟩
    · cases (Prod.mk.inj he).1
    · obtain ⟨_, rfl⟩ := Prod.mk.inj he
      rw [cache_put h]
      exact ⟨rfl, filter_put x.cache (x.cache.rowFor digest f as a target output)⟩

end Indexed

/-- What happens to the rows of a cache. -/
inductive Event where
  | recorded (r : Row)
  | dropped (rows : List Row)

/-- The last row of a key, by what has happened since the cache was opened, the latest first. -/
def latest? (loaded : List Row) (source : Path) (language : Option String) : List Event → Option Row
  | [] => loaded.find? fun r => r.hasKey source language
  | .recorded r :: events =>
    if r.hasKey source language then some r else latest? loaded source language events
  | .dropped rows :: events =>
    if rows.any fun r => r.hasKey source language then none else latest? loaded source language events

/-- A cache with an index in use. Pruning drops rows also where it cannot delete all their targets,
and anything may happen to the files in between. -/
inductive History (x₀ : Indexed) (w₀ : Workspace) : List Event → Indexed → Workspace → Prop
  | start : History x₀ w₀ [] x₀ w₀
  | prune {events : List Event} {x : Indexed} {w : Workspace} (before : History x₀ w₀ events x w) :
      History x₀ w₀ (.dropped (x.cache.rows.filter fun r => !w.files.isFile r.source) :: events)
        (x.prune w).2.1 (x.prune w).2.2
  | record {events : List Event} {x : Indexed} {w : Workspace} (digest : ByteArray → String)
      (as : Collection) (a : Asset) (target : Path) (output : ByteArray) (f : File)
      (before : History x₀ w₀ events x w) (source : w.files.file a.source = .ok f) :
      History x₀ w₀ (.recorded (x.cache.rowFor digest f as a target output) :: events)
        (x.record digest w.files as a target output).2 w
  | unrecorded {events : List Event} {x : Indexed} {w : Workspace} (digest : ByteArray → String)
      (as : Collection) (a : Asset) (target : Path) (output : ByteArray) (fault : Fault)
      (before : History x₀ w₀ events x w) (source : w.files.file a.source = .error fault) :
      History x₀ w₀ events (x.record digest w.files as a target output).2 w
  | change {events : List Event} {x : Indexed} {w : Workspace} (w' : Workspace)
      (before : History x₀ w₀ events x w) : History x₀ w₀ events x w'

/-- Dropping a key's row leaves none of it, and dropping others leaves it. -/
theorem find?_filter {c c' : Cache} {p : Row → Bool} (hk : Keyed c.rows) (h : c'.rows = c.rows.filter p)
    (source : Path) (language : Option String) :
    c'.find? source language =
      if (c.rows.filter fun r => !p r).any fun r => r.hasKey source language then none
      else c.find? source language := by
  have hk' : Keyed c'.rows := h ▸ List.Pairwise.filter p hk
  cases hc : c.find? source language with
  | none =>
    have hnone := find?_eq_none_iff.mp hc
    rw [ite_self]
    refine find?_eq_none_iff.mpr fun r hr => hnone r ?_
    rw [h] at hr
    exact List.mem_of_mem_filter hr
  | some r =>
    obtain ⟨hr, hkey⟩ := find?_eq_some hc
    cases hp : p r with
    | true =>
      have hkeep : ((c.rows.filter fun r => !p r).any fun r => r.hasKey source language) = false := by
        rw [List.any_eq_false]
        intro q hq hqkey
        obtain ⟨hq, hpq⟩ := List.mem_filter.mp hq
        have hfound := find?_of_mem hk hq hqkey
        rw [hc] at hfound
        cases hfound
        rw [hp] at hpq
        cases hpq
      rw [hkeep]
      refine find?_of_mem hk' ?_ hkey
      rw [h]
      exact List.mem_filter.mpr ⟨hr, hp⟩
    | false =>
      have hdrop : ((c.rows.filter fun r => !p r).any fun r => r.hasKey source language) = true := by
        rw [List.any_eq_true]
        exact ⟨r, List.mem_filter.mpr ⟨hr, by rw [hp]; rfl⟩, hkey⟩
      rw [hdrop, if_pos rfl]
      refine find?_eq_none_iff.mpr fun q hq => ?_
      rw [h] at hq
      obtain ⟨hq, hpq⟩ := List.mem_filter.mp hq
      cases hqkey : q.hasKey source language with
      | false => rfl
      | true =>
        have hfound := find?_of_mem hk hq hqkey
        rw [hc] at hfound
        cases hfound
        rw [hp] at hpq
        cases hpq

/-- A manifest that is missing or invalid, or whose rows have different keys. -/
def Unrepeated (t : Tree) (l : Location) : Prop :=
  ∀ f text rows, t.fileAt? l = some f → String.fromUTF8? f.bytes = some text →
    Manifest.parse? text = some (Manifest.version, rows) → Keyed rows

theorem keyed_rowsAt {t : Tree} {l : Location} (h : Unrepeated t l) : Keyed (rowsAt t l) := by
  unfold rowsAt
  split
  · exact List.Pairwise.nil
  · rename_i text htext
    obtain ⟨f, hf, htext⟩ := Option.bind_eq_some_iff.mp htext
    split
    · exact List.Pairwise.nil
    · rename_i v rows hp
      split
      · rename_i hv
        subst hv
        exact h f text rows hf htext hp
      · exact List.Pairwise.nil

/-- After a prune that succeeds no target of a dropped row is a file. -/
theorem isFile_target_of_prune {c : Cache} {w : Workspace} {gone : List Row} (h : (c.prune w).1 = .ok gone)
    {r : Row} (hr : r ∈ c.rows) (hsource : w.files.isFile r.source = false) :
    (c.prune w).2.2.files.isFile r.target = false := by
  cases ht : (c.prune w).2.2.files.isFile r.target with
  | false => rfl
  | true =>
    obtain ⟨f, hf⟩ := Tree.isFile_iff.mp ht
    obtain ⟨l, hl, hfile⟩ := Tree.file_eq_ok_iff.mp hf
    rw [gone_target_of_prune h hr hsource ((grows_of_prune c w).locate hl)] at hfile
    cases hfile

/-- What a history has led to: an index that is in step, and for every key the row that the events
tell of. -/
structure Answers (loaded : List Row) (events : List Event) (x : Indexed) : Prop where
  inStep : InStep (x.cache.rows.map Row.key) x.positions
  latest : ∀ source language, x.cache.find? source language = latest? loaded source language events

namespace Answers

variable {loaded : List Row} {events : List Event} {x : Indexed}

theorem ofCache {c : Cache} (h : Keyed c.rows) : Answers c.rows [] (.ofCache c) := by
  refine ⟨Indexed.inStep_ofCache h, fun source language => ?_⟩
  show c.find? source language = c.rows.find? fun r => r.hasKey source language
  cases hf : c.rows.find? fun r => r.hasKey source language with
  | none => exact find?_eq_none_iff.mpr fun r hr => by simpa using List.find?_eq_none.mp hf r hr
  | some r =>
    have hkey := List.find?_some (p := fun r : Row => r.hasKey source language) hf
    exact find?_of_mem h (List.mem_of_find?_eq_some hf) hkey

theorem prune (h : Answers loaded events x) (w : Workspace) :
    Answers loaded (.dropped (x.cache.rows.filter fun r => !w.files.isFile r.source) :: events)
      (x.prune w).2.1 := by
  have hkeyed := keyed_iff_nodup.mpr h.inStep.nodup
  have hrows := (x.cache.prune_spec w).1
  have hkept : Keyed (x.cache.prune w).2.1.rows := hrows ▸ List.Pairwise.filter _ hkeyed
  rw [Indexed.prune_eq]
  refine ⟨Indexed.inStep_ofCache hkept, fun source language => ?_⟩
  rw [latest?, ← h.latest]
  exact find?_filter hkeyed hrows source language

theorem put (h : Answers loaded events x) (r : Row) : Answers loaded (.recorded r :: events) (x.put r) := by
  refine ⟨Indexed.keys_put h.inStep, fun source language => ?_⟩
  rw [Indexed.cache_put h.inStep, find?_put, latest?, h.latest]

theorem of_history {x₀ : Indexed} {w₀ w : Workspace} (h₀ : Answers loaded [] x₀)
    (h : History x₀ w₀ events x w) : Answers loaded events x := by
  induction h with
  | start => exact h₀
  | prune _ ih => exact ih.prune _
  | record digest as a target output f _ source ih =>
    rw [(Indexed.record_of_file ih.inStep source).1]
    exact ih.put _
  | unrecorded digest as a target output fault _ source ih =>
    rw [(Indexed.record_of_fault source).1]
    exact ih
  | change _ _ ih => exact ih

end Answers

/-- However an opened cache is pruned and recorded in, its rows have different keys, the index is in step
with them, and the row found for a key is the one that the events tell of. Recording touches no other
key's row, and pruning leaves the rows whose source is a file and no target of another. -/
theorem store_exact {directory : Path} {w w₀ w' : Workspace} {x₀ x : Indexed} {events : List Event}
    (hm : Unrepeated w.files (manifestAt w.files.home directory))
    (ho : Indexed.openAt directory w = (.ok x₀, w₀)) (h : History x₀ w₀ events x w') :
    InStep (x.cache.rows.map Row.key) x.positions ∧
      (∀ source language,
        x.find? source language = latest? (savedRows w.files directory) source language events ∧
        x.cache.find? source language = x.find? source language) ∧
      (∀ digest as a target output,
        (∀ fault y, x.record digest w'.files as a target output = (.error fault, y) →
          y = x ∧ record digest w'.files x.cache as a target output = .error fault) ∧
        ∀ y, x.record digest w'.files as a target output = (.ok (), y) →
          record digest w'.files x.cache as a target output = .ok y.cache ∧
            (y.cache.rows.filter fun r => !r.hasKey a.source a.language) =
              x.cache.rows.filter fun r => !r.hasKey a.source a.language) ∧
      ∀ gone y v, x.prune w' = (.ok gone, y, v) →
        y.cache.rows = (x.cache.rows.filter fun r => w'.files.isFile r.source) ∧
          ∀ r ∈ x.cache.rows, w'.files.isFile r.source = false → v.files.isFile r.target = false := by
  obtain ⟨hopen, hx₀⟩ := Indexed.openAt_eq_ok ho
  have hloaded : x₀.cache.rows = savedRows w.files directory := (opened_of_openAt hopen).rows
  have hanswers : Answers (savedRows w.files directory) events x := by
    have hkeyed : Keyed x₀.cache.rows := by
      rw [hloaded]
      exact keyed_rowsAt hm
    have hstart := Answers.ofCache hkeyed
    rw [← hx₀, hloaded] at hstart
    exact .of_history hstart h
  have hfind := Indexed.find?_eq hanswers.inStep
  refine ⟨hanswers.inStep, fun source language => ⟨?_, (hfind source language).symm⟩, ?_, ?_⟩
  · rw [hfind, hanswers.latest]
  · exact fun digest as a target output => Indexed.record_spec hanswers.inStep
  · intro gone y v hp
    rw [Indexed.prune_eq, Prod.mk.injEq, Prod.mk.injEq] at hp
    obtain ⟨hgone, rfl, rfl⟩ := hp
    exact ⟨(x.cache.prune_spec w').1, fun r hr => isFile_target_of_prune hgone hr⟩

end Cache

namespace Sample

open Cache

def shelfRow (source target : String) : Row where
  source := ⟨source⟩
  target := ⟨target⟩
  language := none
  modified := 5
  checksum := "old"
  outputChecksum := "old"
  dependencies := []

def shelfRows : List Row := [shelfRow "gone.html" "gone.out", shelfRow "page.html" "page.out"]

def manifestFile (rows : List Row) : File := { bytes := (Manifest.render rows).toUTF8, modified := 5 }

def shelfPage : File := { bytes := ByteArray.empty, modified := 5 }

/-- A cache directory with a row whose source is gone and one whose source is there. -/
def shelf : Workspace where
  files := { entries := [
    (["build"], .directory 0),
    (["build", "cache.json"], .file (manifestFile shelfRows)),
    (["page.html"], .file shelfPage)] }

theorem fromUTF8?_manifestFile (rows : List Row) :
    String.fromUTF8? (manifestFile rows).bytes = some (Manifest.render rows) := fromUTF8?_toUTF8 _

theorem openAt_shelf : ∃ x w, Indexed.openAt ⟨"build"⟩ shelf = (.ok x, w) := by
  have hfree : shelf.files.fileAt? (lockAt shelf.files.home ⟨"build"⟩) = none := by decide +kernel
  obtain ⟨c, w, ho⟩ : ∃ c w, Cache.openAt ⟨"build"⟩ shelf = (.ok c, w) := by
    refine exists_openAt_eq_ok (.inr (by decide +kernel)) (by decide +kernel) (by decide +kernel) ?_
    intro f hf
    rw [hfree] at hf
    cases hf
  exact ⟨.ofCache c, w, by rw [Indexed.openAt, ho]; rfl⟩

theorem fileAt?_shelf :
    shelf.files.fileAt? (manifestAt shelf.files.home ⟨"build"⟩) = some (manifestFile shelfRows) := by
  have hat : manifestAt shelf.files.home ⟨"build"⟩ = ["build", "cache.json"] := by decide +kernel
  rw [hat]
  rfl

theorem fits_shelfRows : ∀ r ∈ shelfRows, Manifest.Fits r := by
  simp [shelfRows, shelfRow, Manifest.Fits]

theorem savedRows_shelf : savedRows shelf.files ⟨"build"⟩ = shelfRows :=
  rowsAt_of_render fileAt?_shelf (by rw [manifestFile]) fits_shelfRows

theorem unrepeated_shelf : Unrepeated shelf.files (manifestAt shelf.files.home ⟨"build"⟩) := by
  intro f text rows hf htext hp
  rw [fileAt?_shelf, Option.some.injEq] at hf
  rw [← hf, fromUTF8?_manifestFile, Option.some.injEq] at htext
  rw [← htext, Manifest.parse?_render fits_shelfRows] at hp
  obtain ⟨_, rfl⟩ := Prod.mk.inj (Option.some.inj hp)
  exact keyed_iff_nodup.mpr (by decide +kernel)

end Sample

namespace Cache

open Sample

theorem hasKey_rowFor (c : Cache) (digest : ByteArray → String) (f : File) (as : Collection) (a : Asset)
    (target : Path) (output : ByteArray) (source : Path) (language : Option String) :
    (c.rowFor digest f as a target output).hasKey source language =
      (a.source == source && a.language == language) := rfl

/-- Of two rows the one whose source is gone is pruned, and the other is recorded anew. It is found
under any spelling of its source. -/
theorem store_exact_shelf : Unrepeated shelf.files (manifestAt shelf.files.home ⟨"build"⟩) ∧
    ∃ x₀ w₀ events x, Indexed.openAt ⟨"build"⟩ shelf = (.ok x₀, w₀) ∧ History x₀ w₀ events x shelf ∧
      events.length = 2 ∧ x.find? ⟨"gone.html"⟩ none = none ∧
      ∃ r, x.find? ⟨"page.html/."⟩ none = some r ∧ r.checksum = "new" := by
  obtain ⟨x₀, w₀, ho⟩ := openAt_shelf
  have hloaded : x₀.cache.rows = shelfRows :=
    (opened_of_openAt (Indexed.openAt_eq_ok ho).1).rows.trans savedRows_shelf
  have hpruned : History x₀ w₀ _ _ _ := .prune (.change shelf .start)
  have hpage : shelf.files.file (Asset.ofSource .markup ⟨"page.html"⟩ none).source = .ok shelfPage := by
    decide +kernel
  have hrecorded := (hpruned.change shelf).record (fun _ => "new") [] _ ⟨"page.out"⟩ ByteArray.empty
    shelfPage hpage
  obtain ⟨_, hfind, _⟩ := store_exact unrepeated_shelf ho hrecorded
  have hgone := (hfind ⟨"gone.html"⟩ none).1
  have hkept := (hfind ⟨"page.html/."⟩ none).1
  rw [latest?, hasKey_rowFor, if_neg (by decide +kernel), hloaded, latest?, if_pos (by decide +kernel)]
    at hgone
  rw [latest?, hasKey_rowFor, if_pos (by decide +kernel)] at hkept
  exact ⟨unrepeated_shelf, x₀, w₀, _, _, ho, hrecorded, rfl, hgone, _, hkept, rfl⟩

end Cache

end AssetCompiler
