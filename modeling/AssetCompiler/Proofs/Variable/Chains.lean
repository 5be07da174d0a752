import AssetCompiler.Variable
import Mathlib.Data.List.Dedup
import Mathlib.Data.List.Induction
import Mathlib.Data.List.Perm.Subperm
import Mathlib.Logic.Relation

/-! # Chains of names

A name has the value that its links lead to within the hop limit. A chain of links that never ends
comes back to a name, so where no more names are bound than operands are looked at, only unbound
names and loops are without a value. The limit cannot be lowered: one name more, and a chain can be
too long.
-/
namespace AssetCompiler

open Relation (ReflTransGen TransGen)

/-- Whether an operand stands for itself, and not for what a name is bound to. -/
def Operand.IsValue (o : Operand) : Prop := ∀ ident, o ≠ .name ident

namespace Bindings

variable {b : Bindings} {name next last : String} {v w : Operand} {k j hops : Nat}

/-- The bindings that declarations, one after the other, leave. -/
def ofDeclarations (declarations : List (String × Operand)) : Bindings :=
  declarations.foldl (fun b d => b.declare d.1 d.2) []

def boundNames (b : Bindings) : List String := (b.map Prod.fst).dedup

theorem bound?_eq_none_iff : b.bound? name = none ↔ name ∉ b.boundNames := by
  rw [bound?, List.lookup_eq_none_iff, boundNames, List.mem_dedup, List.mem_map]
  grind

def IsLink (b : Bindings) (name next : String) : Prop := b.bound? name = some (.name next)

/-- From a name, `k` links lead to an operand. -/
inductive Leads (b : Bindings) : Nat → String → Operand → Prop
  | bound {name : String} {v : Operand} (h : b.bound? name = some v) : Leads b 0 name v
  | link {k : Nat} {name next : String} {v : Operand} (h : b.IsLink name next)
      (rest : Leads b k next v) : Leads b (k + 1) name v

/-- Whether links lead from a name to one that is not bound. -/
def MeetsUnbound (b : Bindings) (name : String) : Prop :=
  ∃ last, ReflTransGen b.IsLink name last ∧ b.bound? last = none

/-- Whether links lead from a name into a loop. -/
def MeetsLoop (b : Bindings) (name : String) : Prop :=
  ∃ last, ReflTransGen b.IsLink name last ∧ TransGen b.IsLink last last

theorem follow_of_isValue (h : v.IsValue) : b.follow (hops + 1) v = some v := by
  cases v with
  | name ident => exact absurd rfl (h ident)
  | number _ | flag _ | text _ => rfl

/-- What a name is bound to is followed to where fewer links lead than operands may be looked at. -/
theorem bind_follow_eq_some_iff :
    (b.bound? name).bind (b.follow hops) = some v ↔ v.IsValue ∧ ∃ k < hops, b.Leads k name v := by
  induction hops generalizing name with
  | zero =>
    have hnone : (b.bound? name).bind (b.follow 0) = none := by
      cases b.bound? name <;> rfl
    simp [hnone]
  | succ hops ih =>
    constructor
    · intro h
      obtain ⟨o, ho, hf⟩ := Option.bind_eq_some_iff.mp h
      cases o with
      | name next =>
        obtain ⟨hv, k, hk, hleads⟩ := ih.mp hf
        exact ⟨hv, k + 1, Nat.succ_lt_succ hk, .link ho hleads⟩
      | number _ | flag _ | text _ =>
        cases hf
        exact ⟨fun _ he => (by cases he), 0, Nat.succ_pos _, .bound ho⟩
    · rintro ⟨hv, k, hk, hleads⟩
      cases hleads with
      | bound h => rw [h, Option.bind_some, follow_of_isValue hv]
      | link h rest =>
        rw [h, Option.bind_some]
        exact ih.mpr ⟨hv, _, Nat.lt_of_succ_lt_succ hk, rest⟩

theorem get?_eq_some_iff : b.get? name = some v ↔ v.IsValue ∧ ∃ k < hopLimit, b.Leads k name v :=
  bind_follow_eq_some_iff

/-! ### Chains that end -/

namespace Leads

theorem bound?_ne_none (h : b.Leads k name v) : b.bound? name ≠ none := by
  cases h with
  | bound h => rw [h]; exact Option.some_ne_none v
  | link h _ => rw [h]; exact Option.some_ne_none _

/-- A link is the first step of every chain from its name that ends with a value. -/
theorem of_isLink (h : b.Leads k name v) (hv : v.IsValue) (hl : b.IsLink name next) :
    ∃ j < k, b.Leads j next v := by
  cases h with
  | bound h => exact absurd (Option.some.inj (h.symm.trans hl)) (hv next)
  | link h rest =>
    cases h.symm.trans hl
    exact ⟨_, Nat.lt_succ_self _, rest⟩

theorem of_transGen (h : b.Leads k name v) (hv : v.IsValue) (hl : TransGen b.IsLink name last) :
    ∃ j < k, b.Leads j last v := by
  induction hl with
  | single hl => exact h.of_isLink hv hl
  | tail _ hl ih =>
    obtain ⟨i, hi, hleads⟩ := ih
    obtain ⟨j, hj, hrest⟩ := hleads.of_isLink hv hl
    exact ⟨j, Nat.lt_trans hj hi, hrest⟩

theorem of_reflTransGen (h : b.Leads k name v) (hv : v.IsValue) (hl : ReflTransGen b.IsLink name last) :
    ∃ j ≤ k, b.Leads j last v := by
  rcases Relation.reflTransGen_iff_eq_or_transGen.mp hl with rfl | hl
  · exact ⟨k, Nat.le_refl k, h⟩
  · obtain ⟨j, hj, hleads⟩ := h.of_transGen hv hl
    exact ⟨j, Nat.le_of_lt hj, hleads⟩

theorem not_meetsUnbound (h : b.Leads k name v) (hv : v.IsValue) : ¬b.MeetsUnbound name := by
  rintro ⟨last, hl, hnone⟩
  obtain ⟨_, _, hleads⟩ := h.of_reflTransGen hv hl
  exact hleads.bound?_ne_none hnone

/-- Round a loop a chain would get ever shorter. -/
theorem not_transGen_self (h : b.Leads k name v) (hv : v.IsValue) : ¬TransGen b.IsLink name name := by
  intro hround
  induction k using Nat.strongRecOn with
  | _ k ih =>
    obtain ⟨j, hj, hleads⟩ := h.of_transGen hv hround
    exact ih j hj hleads

theorem not_meetsLoop (h : b.Leads k name v) (hv : v.IsValue) : ¬b.MeetsLoop name := by
  rintro ⟨last, hl, hround⟩
  obtain ⟨_, _, hleads⟩ := h.of_reflTransGen hv hl
  exact hleads.not_transGen_self hv hround

/-- A chain has one length. -/
theorem length_unique (h : b.Leads k name v) (hv : v.IsValue) (h' : b.Leads j name w)
    (hw : w.IsValue) : k = j := by
  induction h generalizing j with
  | bound h =>
    cases h' with
    | bound _ => rfl
    | link hl _ => exact absurd (Option.some.inj (h.symm.trans hl)) (hv _)
  | link hl _ ih =>
    cases h' with
    | bound h' => exact absurd (Option.some.inj (h'.symm.trans hl)) (hw _)
    | link hl' rest' =>
      cases hl.symm.trans hl'
      rw [ih hv rest']

end Leads

/-! ### Chains that do not end -/

theorem MeetsUnbound.of_isLink (hl : b.IsLink name next) (h : b.MeetsUnbound next) : b.MeetsUnbound name := by
  obtain ⟨last, hreach, hnone⟩ := h
  exact ⟨last, hreach.head hl, hnone⟩

theorem MeetsLoop.of_isLink (hl : b.IsLink name next) (h : b.MeetsLoop next) : b.MeetsLoop name := by
  obtain ⟨last, hreach, hround⟩ := h
  exact ⟨last, hreach.head hl, hround⟩

/-- A search that has passed distinct names, and may pass as many more as are bound, fails for good
reason only. -/
theorem meets_of_bind_follow_eq_none {seen : List String} (hnodup : seen.Nodup)
    (hseen : ∀ s ∈ seen, s ∈ b.boundNames ∧ TransGen b.IsLink s name)
    (hroom : b.boundNames.length ≤ seen.length + hops)
    (h : (b.bound? name).bind (b.follow hops) = none) : b.MeetsUnbound name ∨ b.MeetsLoop name := by
  induction hops generalizing seen name with
  | zero =>
    by_cases hmem : name ∈ seen
    · exact .inr ⟨name, .refl, (hseen name hmem).2⟩
    · left
      refine ⟨name, .refl, bound?_eq_none_iff.mpr ?_⟩
      intro hbound
      have hall : name :: seen ⊆ b.boundNames :=
        List.cons_subset.mpr ⟨hbound, fun s hs => (hseen s hs).1⟩
      have hlength := ((List.nodup_cons.mpr ⟨hmem, hnodup⟩).subperm hall).length_le
      simp only [List.length_cons] at hlength
      omega
  | succ hops ih =>
    by_cases hmem : name ∈ seen
    · exact .inr ⟨name, .refl, (hseen name hmem).2⟩
    · cases hbound : b.bound? name with
      | none => exact .inl ⟨name, .refl, hbound⟩
      | some o =>
        rw [hbound] at h
        cases o with
        | number _ | flag _ | text _ => cases h
        | name next =>
          have hl : b.IsLink name next := hbound
          have hname : name ∈ b.boundNames := by
            by_contra hnot
            rw [bound?_eq_none_iff.mpr hnot] at hbound
            cases hbound
          refine (ih (List.nodup_cons.mpr ⟨hmem, hnodup⟩) ?_ ?_ h).imp (.of_isLink hl) (.of_isLink hl)
          · refine List.forall_mem_cons.mpr ⟨⟨hname, .single hl⟩, ?_⟩
            intro s hs
            exact ⟨(hseen s hs).1, (hseen s hs).2.tail hl⟩
          · simp only [List.length_cons]
            omega

theorem get?_eq_none_iff_of_length_le (h : b.boundNames.length ≤ hopLimit) :
    b.get? name = none ↔ b.MeetsUnbound name ∨ b.MeetsLoop name := by
  constructor
  · exact meets_of_bind_follow_eq_none List.nodup_nil (by simp) (by simpa using h)
  · intro hmeets
    cases hget : b.get? name with
    | none => rfl
    | some v =>
      obtain ⟨hv, _, _, hleads⟩ := get?_eq_some_iff.mp hget
      rcases hmeets with hmeets | hmeets
      · exact absurd hmeets (hleads.not_meetsUnbound hv)
      · exact absurd hmeets (hleads.not_meetsLoop hv)

/-! ### Long chains -/

/-- Distinct names, one for each number. -/
def rung (i : Nat) : String := String.ofList (List.replicate i 'a')

/-- What a name of a ladder is bound to: the name below it, and at the foot a value. -/
def rungValue : Nat → Operand
  | 0 => .flag true
  | i + 1 => .name (rung i)

def ladderDeclarations (n : Nat) : List (String × Operand) :=
  (List.range (n + 1)).map fun i => (rung i, rungValue i)

/-- A chain of `n` links from the last of its names to a value. -/
def ladder (n : Nat) : Bindings := ofDeclarations (ladderDeclarations n)

theorem rung_injective : Function.Injective rung := by
  intro i j h
  simpa [rung] using congrArg (fun s : String => s.toList.length) h

theorem ofDeclarations_eq_reverse (declarations : List (String × Operand)) :
    ofDeclarations declarations = declarations.reverse := by
  induction declarations using List.reverseRecOn with
  | nil => rfl
  | append_singleton ds d ih =>
    rw [ofDeclarations, List.foldl_append, ← ofDeclarations, ih, List.reverse_append]
    rfl

theorem bound?_ladder {n i : Nat} (h : i ≤ n) : (ladder n).bound? (rung i) = some (rungValue i) := by
  induction n with
  | zero =>
    obtain rfl : i = 0 := Nat.le_zero.mp h
    exact bound?_declare_self [] _ _
  | succ n ih =>
    have hstep : ladder (n + 1) = (ladder n).declare (rung (n + 1)) (rungValue (n + 1)) := by
      rw [ladder, ladderDeclarations, List.range_succ, List.map_append, ofDeclarations,
        List.foldl_append]
      rfl
    rw [hstep]
    rcases Nat.lt_or_eq_of_le h with hlt | rfl
    · rw [bound?_declare_ne _ _ fun he => Nat.ne_of_lt hlt (rung_injective he)]
      exact ih (Nat.le_of_lt_succ hlt)
    · exact bound?_declare_self _ _ _

theorem length_boundNames_ladder (n : Nat) : (ladder n).boundNames.length = n + 1 := by
  have hnames : (ladder n).map Prod.fst = ((List.range (n + 1)).map rung).reverse := by
    rw [ladder, ofDeclarations_eq_reverse, List.map_reverse, ladderDeclarations, List.map_map]
    rfl
  have hnodup : ((ladder n).map Prod.fst).Nodup := by
    rw [hnames]
    exact List.nodup_reverse.mpr (List.nodup_range.map rung_injective)
  rw [boundNames, hnodup.dedup, hnames]
  simp

theorem leads_ladder {n i : Nat} (h : i ≤ n) : (ladder n).Leads i (rung i) (.flag true) := by
  induction i with
  | zero => exact .bound (bound?_ladder h)
  | succ i ih => exact .link (bound?_ladder h) (ih (Nat.le_of_succ_le h))

/-- Of a ladder that is too long, the last name has no value. -/
theorem get?_ladder {n : Nat} (h : hopLimit ≤ n) : (ladder n).get? (rung n) = none := by
  have hv : (Operand.flag true).IsValue := fun _ he => (by cases he)
  cases hget : (ladder n).get? (rung n) with
  | none => rfl
  | some v =>
    obtain ⟨hw, k, hk, hleads⟩ := get?_eq_some_iff.mp hget
    have hlength := (leads_ladder (Nat.le_refl n)).length_unique hv hleads hw
    omega

/-- A name has the value, and only the value, that at most 31 links lead to. So as long as no more
than 32 names are bound, it has none exactly when links lead to an unbound name or into a loop; and
with 33 names this may fail. -/
theorem get?_exact :
    (∀ declarations name v, (ofDeclarations declarations).get? name = some v ↔
      v.IsValue ∧ ∃ k ≤ 31, (ofDeclarations declarations).Leads k name v) ∧
    (∀ declarations name, (ofDeclarations declarations).boundNames.length ≤ 32 →
      ((ofDeclarations declarations).get? name = none ↔
        (ofDeclarations declarations).MeetsUnbound name ∨
          (ofDeclarations declarations).MeetsLoop name)) ∧
    ∃ declarations name, (ofDeclarations declarations).boundNames.length = 33 ∧
      ¬(ofDeclarations declarations).MeetsUnbound name ∧
      ¬(ofDeclarations declarations).MeetsLoop name ∧
      (ofDeclarations declarations).get? name = none := by
  refine ⟨?_, fun declarations name h => get?_eq_none_iff_of_length_le h, ladderDeclarations 32, rung 32, ?_⟩
  · intro declarations name v
    rw [get?_eq_some_iff]
    simp only [hopLimit, Nat.lt_succ_iff]
  · have hv : (Operand.flag true).IsValue := fun _ he => (by cases he)
    have hleads := leads_ladder (Nat.le_refl 32)
    exact ⟨length_boundNames_ladder 32, hleads.not_meetsUnbound hv, hleads.not_meetsLoop hv,
      get?_ladder (Nat.le_refl 32)⟩

/-- Two names bound to each other, one of them again after a value. -/
theorem get?_exact_loop :
    (ofDeclarations [("size", .text "xl"), ("theme", .name "size"), ("size", .name "theme")]).boundNames.length
        ≤ 32 ∧
      ((ofDeclarations [("size", .text "xl"), ("theme", .name "size"), ("size", .name "theme")]).MeetsUnbound
          "size" ∨
        (ofDeclarations [("size", .text "xl"), ("theme", .name "size"), ("size", .name "theme")]).MeetsLoop
          "size") := by
  have hlength : (ofDeclarations
      [("size", .text "xl"), ("theme", .name "size"), ("size", .name "theme")]).boundNames.length ≤ 32 := by
    decide
  exact ⟨hlength, (get?_exact.2.1 _ "size" hlength).mp rfl⟩

end Bindings

end AssetCompiler
