import AssetCompiler.Proofs.Build.Coherent

/-! # Rows that can be trusted

A row keeps the checksum of the content that was written. The content may be wanted again long
after, when other assets have come and gone. A row is faithful when its checksum is right wherever
the row is not stale: that is said of the row alone and of every session, so no later step of a
history can make it false.
-/
namespace AssetCompiler

open AssetCompiler.Tree (Keeps)
open Cache (Kept Owned)
open Plan (unread)

namespace Build

open Session

variable {tables : String → MessageTable} {owner : Owner} {out : Step → ByteArray → ByteArray}
  {x₀ x x' : Context} {s s' t : Session} {i i' d : Nat} {r q : Row} {rows : List Row}
  {files files' : Tree} {order done : List Nat}

namespace Coherent

theorem exists_read (h : Coherent tables owner x s i) {a : Answering} {bytes : ByteArray}
    (hok : (s.scene x i).output out a = .ok bytes) :
    ∃ source, s.work.files.read (s.assets.get i).source = .ok source := by
  obtain ⟨log, hparse⟩ := h.read
  by_cases hkind : (unread (s.assets.get i)).kind = .image
  · -- An image has no text, so its content is its source.
    rw [Collection.parse_image hkind] at hparse
    simp only [Except.ok.injEq, Prod.mk.injEq] at hparse
    have hnone : (s.assets.get i).content = none := (congrArg Asset.content hparse.1).symm
    unfold Produce.Scene.output Produce.Scene.expand scene at hok
    dsimp only at hok
    rw [hnone] at hok
    cases hread : s.work.files.read (s.assets.get i).source with
    | error fault =>
      rw [hread] at hok
      cases hok
    | ok source => exact ⟨source, rfl⟩
  · exact (Collection.parse_eq_ok hparse).1 hkind

theorem exists_output (out : Step → ByteArray → ByteArray) (x : Context) {source : ByteArray}
    (hread : s.work.files.read (s.assets.get i).source = .ok source) (a : Answering) :
    ∃ bytes, (s.scene x i).output out a = .ok bytes := by
  unfold Produce.Scene.output Produce.Scene.expand scene
  dsimp only
  cases (s.assets.get i).content with
  | some text => exact ⟨_, rfl⟩
  | none =>
    dsimp only
    rw [hread]
    exact ⟨_, rfl⟩

end Coherent

/-- Whether a row says how an asset is: it has the asset's key, the checksum of its source and
the stamps of its dependencies. -/
structure Applies (tables : String → MessageTable) (owner : Owner) (x : Context) (s : Session) (i : Nat)
    (r : Row) : Prop where
  coherent : Coherent tables owner x s i
  lt : i < s.assets.length
  key : r.hasKey (s.assets.get i).source (s.assets.get i).language = true
  source : ∃ bytes, s.work.files.read (s.assets.get i).source = .ok bytes ∧ x.digest bytes = r.checksum
  stamps : Stamp.sameAll (s.cache.stamps s.assets (s.assets.get i)) r.dependencies = true
  readable : Readable x s i

/-- Wherever a row applies, the content is the same. -/
theorem Applies.output_eq (h : Applies tables owner x s i r) (h' : Applies tables owner x' s' i' r)
    (hx : x.Continues x') (hinj : Function.Injective x.digest) (out : Step → ByteArray → ByteArray) :
    (s'.scene x' i').output out { catalog := s'.catalog } =
      (s.scene x i).output out { catalog := s.catalog } := by
  obtain ⟨bytes, hread, hchecksum⟩ := h.source
  obtain ⟨bytes', hread', hchecksum'⟩ := h'.source
  rw [hx.digest, ← hchecksum] at hchecksum'
  obtain rfl := hinj hchecksum'
  have hid : (s'.assets.get i').identity = (s.assets.get i).identity := by
    obtain ⟨hsource, hlanguage⟩ := Row.hasKey_iff.mp h.key
    obtain ⟨hsource', hlanguage'⟩ := Row.hasKey_iff.mp h'.key
    obtain ⟨heq, hkind⟩ := Asset.source_eq_of_beq
      ((h'.coherent.continues hx.symm).placed i' h'.lt) (h.coherent.placed i h.lt)
      (Path.beq_trans (Path.beq_symm hsource') hsource)
    exact Asset.identity_eq_iff.mpr ⟨hkind, heq, hlanguage'.symm.trans hlanguage⟩
  exact h.coherent.output_eq h'.coherent hx hinj hid hread hread' h.stamps h'.stamps h.readable
    h'.readable out

/-- Whether a row has the checksum of the right content, wherever it applies. -/
def Faithful (out : Step → ByteArray → ByteArray) (tables : String → MessageTable) (owner : Owner)
    (x₀ : Context) (r : Row) : Prop :=
  ∀ x s i bytes, x₀.Continues x → Applies tables owner x s i r →
    (s.scene x i).output out { catalog := s.catalog } = .ok bytes → x₀.digest bytes = r.outputChecksum

theorem Applies.faithful (h : Applies tables owner x s i r) (hx : x₀.Continues x)
    (hinj : Function.Injective x₀.digest) {bytes : ByteArray}
    (hout : (s.scene x i).output out { catalog := s.catalog } = .ok bytes)
    (hchecksum : x.digest bytes = r.outputChecksum) : Faithful out tables owner x₀ r := by
  intro x' s' i' bytes' hx' h' hout'
  have hinj' : Function.Injective x.digest := hx.digest ▸ hinj
  rw [h.output_eq h' (hx.symm.trans hx') hinj', hout] at hout'
  rw [← Except.ok.inj hout', ← hx.digest]
  exact hchecksum

/-- A written asset has a faithful row. -/
theorem faithful_of_written {target : Path} {bytes : ByteArray} {f : File}
    (h : Coherent tables owner x s i) (hi : i < s.assets.length) (hx : x₀.Continues x)
    (hinj : Function.Injective x₀.digest) (hfollows : x.processor.Follows out)
    (hreadable : Readable x s i) (hw : Written x s i target bytes s')
    (hstay : ∀ f, s.work.files.file (s.assets.get i).source = .ok f →
      s'.work.files.file (s.assets.get i).source = .ok f)
    (hf : s'.work.files.file (s.assets.get i).source = .ok f) :
    Faithful out tables owner x₀
      (s.cache.rowFor x.digest f s.assets (s.assets.get i) target bytes) := by
  have hout : (s.scene x i).output out { catalog := s.catalog } = .ok bytes :=
    Produce.output_of_content hfollows hw.content
  obtain ⟨source, hread⟩ := h.exists_read hout
  obtain ⟨g, hg, rfl⟩ := Tree.read_eq_ok_iff.mp hread
  obtain rfl : g = f := Except.ok.inj ((hstay g hg).symm.trans hf)
  have happlies : Applies tables owner x s i
      (s.cache.rowFor x.digest g s.assets (s.assets.get i) target bytes) :=
    ⟨h, hi, Row.hasKey_self _, ⟨_, hread, rfl⟩, Stamp.sameAll_refl _, hreadable⟩
  exact happlies.faithful hx hinj hout rfl

/-- Rows and files of a site whose outputs can be relied on: targets have owners, files at targets
are what rows say, and the rows are faithful. -/
structure Sound (out : Step → ByteArray → ByteArray) (tables : String → MessageTable) (owner : Owner)
    (x₀ : Context) (files : Tree) (rows : List Row) : Prop where
  owned : Owned owner rows
  stored : ∀ r ∈ rows, ∀ f, files.fileAt? (r.target.resolve files.home) = some f →
    x₀.digest f.bytes = r.outputChecksum
  faithful : ∀ r ∈ rows, Faithful out tables owner x₀ r

namespace Sound

theorem nil : Sound out tables owner x₀ files [] :=
  ⟨.nil owner, fun _ h => (by cases h), fun _ h => (by cases h)⟩

theorem filter (h : Sound out tables owner x₀ files rows) (p : Row → Bool) :
    Sound out tables owner x₀ files (rows.filter p) :=
  ⟨h.owned.filter p, fun r hr => h.stored r (List.mem_of_mem_filter hr),
    fun r hr => h.faithful r (List.mem_of_mem_filter hr)⟩

theorem of_files (h : Sound out tables owner x₀ files rows) (hhome : files'.home = files.home)
    (hfiles : ∀ r ∈ rows, files'.fileAt? (r.target.resolve files.home) = none ∨
      files'.fileAt? (r.target.resolve files.home) = files.fileAt? (r.target.resolve files.home)) :
    Sound out tables owner x₀ files' rows := by
  refine ⟨h.owned, fun r hr f hf => ?_, h.faithful⟩
  rw [hhome] at hf
  rcases hfiles r hr with hl | hl <;> rw [hl] at hf
  · cases hf
  · exact h.stored r hr f hf

theorem of_keeps {changed : Location → Prop} (h : Sound out tables owner x₀ files rows)
    (hk : Keeps changed files files')
    (hrows : ∀ r ∈ rows, ¬changed (r.target.resolve files.home)) :
    Sound out tables owner x₀ files' rows :=
  h.of_files hk.grows.home fun r hr => Or.inr (hk.files _ (hrows r hr))

/-- A compile that no file operation stops keeps rows and files sound. -/
theorem compiles {s₀ : Session} {result : Except BuildError AssetReport}
    (h : Sound out tables owner x₀ s.work.files s.cache.rows) (hr : Ready x s₀ order)
    (hi : i < s₀.assets.length) (hp : Preserves x s₀ s) (hx : x₀.Continues x)
    (hinj : Function.Injective x₀.digest) (hfollows : x.processor.Follows out)
    (hcoherent : Coherent tables owner x s i) (hreadable : Stale x s i → Readable x s i)
    (howned : Owned owner s'.cache.rows) (hc : Compiles x s i result s')
    (hresult : ∀ fault, result ≠ .error (.file fault)) :
    Sound out tables owner x₀ s'.work.files s'.cache.rows := by
  rcases hc.written_or_idle hresult with ⟨target, bytes, hw⟩ | ⟨hidle, hcache, _⟩
  · have hstay := fun f => file_of_compiles (f := f) hr hi hp hc (Asset.inSources_source (hp.placed hr hi))
    obtain ⟨f, hf, hrows⟩ := mem_rows_of_written hr hi hp hw
    have hstored := stored_of_written hr hi hp howned h.owned hw (hx.digest ▸ h.stored)
    refine ⟨howned, hx.digest ▸ hstored, fun q hq => ?_⟩
    rcases hrows q hq with rfl | ⟨hold, _⟩
    · exact faithful_of_written hcoherent (hp.length_eq.symm ▸ hi) hx hinj hfollows
        (hreadable hw.stale) hw hstay hf
    · exact h.faithful q hold
  · rw [hcache]
    exact h.of_keeps hidle fun _ _ => id

end Sound

end Build

end AssetCompiler
