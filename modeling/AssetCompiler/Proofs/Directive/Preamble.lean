import AssetCompiler.Proofs.Directive.Spans

/-! # Declarations in front of a text

A declaration is read in the same way whatever stands behind it, since the character after a body
never belongs to it. So a text with declarations in front has the directives of the text, moved,
behind those declarations, and is rendered as the text is under what they bind.
-/
namespace AssetCompiler

open Text (Span size slice dropOctets takeOctets strip? strip?_eq_some_iff)

namespace Form

variable {cs rest t : List Char} {d : Directive} {o : Operand}

theorem span_append {p : Char → Bool} (h : cs.dropWhile p ≠ []) (more : List Char) :
    (cs ++ more).takeWhile p = cs.takeWhile p ∧ (cs ++ more).dropWhile p = cs.dropWhile p ++ more := by
  have hstop : ¬(cs.takeWhile p).length = cs.length := by
    intro hlen
    have happend := congrArg List.length (List.takeWhile_append_dropWhile (p := p) (l := cs))
    rw [List.length_append, hlen] at happend
    exact h (List.length_eq_zero_iff.mp (by omega))
  have hempty : (cs.dropWhile p).isEmpty = false := List.isEmpty_eq_false_iff.mpr h
  simp [List.takeWhile_append, List.dropWhile_append, hstop, hempty]

theorem run_append {α : Type} {p : Char → Bool} {make : List Char → Option α} {a : α}
    (h : run p make cs = some (a, rest)) (hne : rest ≠ []) (more : List Char) :
    run p make (cs ++ more) = some (a, rest ++ more) := by
  simp only [run, Option.map_eq_some_iff, Prod.mk.injEq] at h
  obtain ⟨b, hb, rfl, rfl⟩ := h
  obtain ⟨htake, hdrop⟩ := span_append hne more
  rw [run, htake, hdrop, hb, Option.map_some]

theorem strip?_append {lit : List Char} (h : strip? lit cs = some rest) (more : List Char) :
    strip? lit (cs ++ more) = some (rest ++ more) := by
  rw [strip?_eq_some_iff] at h ⊢
  rw [h, List.append_assoc]

/-- A point at the end of a text could still begin decimal places, a space cannot. -/
theorem fraction_append (h : fraction cs = (t, ' ' :: rest)) (more : List Char) :
    fraction (cs ++ more) = (t, ' ' :: rest ++ more) := by
  unfold fraction at h
  split at h
  · rename_i r
    dsimp only at h
    split at h
    · cases h
    · rename_i hdigits
      obtain ⟨rfl, hrest⟩ := Prod.mk.inj h
      have hne : r.dropWhile Char.isDigit ≠ [] := by simp [hrest]
      obtain ⟨htake, hdrop⟩ := span_append hne more
      simp [fraction, htake, hdrop, hdigits, hrest]
  · obtain ⟨rfl, rfl⟩ := Prod.mk.inj h
    rfl

theorem unsigned_append (h : unsigned cs = some (t, ' ' :: rest)) (more : List Char) :
    unsigned (cs ++ more) = some (t, ' ' :: rest ++ more) := by
  unfold unsigned at h
  split at h
  · cases h
  · rename_i hdigits
    obtain ⟨rfl, hrest⟩ := Prod.mk.inj (Option.some.inj h)
    have hfraction : fraction (cs.dropWhile Char.isDigit) =
        ((fraction (cs.dropWhile Char.isDigit)).1, ' ' :: rest) := Prod.ext rfl hrest
    have hne : cs.dropWhile Char.isDigit ≠ [] := by
      intro hempty
      rw [hempty] at hrest
      cases hrest
    obtain ⟨htake, hdrop⟩ := span_append hne more
    unfold unsigned
    rw [htake, hdrop, fraction_append hfraction]
    split
    · exact absurd (by assumption) hdigits
    · rfl

theorem quoted_append (h : quoted cs = some (t, rest)) (more : List Char) :
    quoted (cs ++ more) = some (t, rest ++ more) := by
  unfold quoted at h
  split at h
  · rename_i r hr
    obtain ⟨rfl, rfl⟩ := Prod.mk.inj (Option.some.inj h)
    have hne : (cs.dropWhile fun c => c != '"' && c != '\n') ≠ [] := by simp [hr]
    obtain ⟨htake, hdrop⟩ := span_append hne more
    simp [quoted, htake, hdrop, hr]
  · cases h

theorem operandText_append (h : operandText cs = some (t, ' ' :: rest)) (more : List Char) :
    operandText (cs ++ more) = some (t, ' ' :: rest ++ more) := by
  unfold operandText at h
  split at h
  · exact quoted_append h more
  · simp only [Option.map_eq_some_iff, Prod.exists, Prod.mk.injEq] at h
    obtain ⟨ds, r, hu, rfl, rfl⟩ := h
    simp [operandText, unsigned_append hu more]
  · rename_i c _ hquote hminus
    split at h
    · rename_i hdigit
      have hu := unsigned_append h more
      rw [List.cons_append] at hu
      simp [operandText, hdigit, hu]
    · rename_i hdigit
      have hr := run_append h (by simp) more
      rw [List.cons_append] at hr
      simp [operandText, hdigit, hr]
  · cases h

theorem operand_append (h : operand cs = some (o, ' ' :: rest)) (more : List Char) :
    operand (cs ++ more) = some (o, ' ' :: rest ++ more) := by
  simp only [operand, Option.map_eq_some_iff, Prod.exists, Prod.mk.injEq] at h
  obtain ⟨t, r, ht, rfl, rfl⟩ := h
  simp [operand, operandText_append ht more]

theorem declaration_append (h : declaration cs = some (d, ' ' :: rest)) (more : List Char) :
    declaration (cs ++ more) = some (d, ' ' :: rest ++ more) := by
  simp only [declaration, bind, Option.bind_eq_some_iff, Prod.exists, Option.some.injEq,
    Prod.mk.injEq] at h
  obtain ⟨name, r1, h1, r2, h2, value, r3, h3, rfl, rfl⟩ := h
  have hne : r1 ≠ [] := by
    rintro rfl
    cases h2
  simp only [declaration, bind, run_append h1 hne more, strip?_append h2 more,
    operand_append h3 more, Option.bind_some]

theorem read?_declare_append (h : declare.read? cs = some (d, [])) (more : List Char) :
    declare.read? (cs ++ more) = some (d, more) := by
  simp only [read?, bind, Option.bind_eq_some_iff, Prod.exists, Option.some.injEq,
    Prod.mk.injEq] at h
  obtain ⟨r1, h1, d', r2, h2, r3, h3, rfl, rfl⟩ := h
  have hclosing : r2 = ' ' :: '%' :: ']' :: [] := strip?_eq_some_iff.mp h3
  rw [hclosing] at h2
  have hbody : declaration _ = some (d', ' ' :: ['%', ']'] ++ more) := declaration_append h2 more
  have hopening := strip?_append h1 more
  simp only [read?, bind, hopening, Option.bind_some]
  rw [body, hbody]
  rfl

theorem read?_eq_none_of_ne_declare {f : Form} (hf : f ≠ declare) (cs : List Char) :
    f.read? (declare.opening.toList ++ cs) = none := by
  cases f
  case declare => exact absurd rfl hf
  all_goals rfl

theorem readFirst?_declare {forms : List Form} (hmem : declare ∈ forms)
    (h : declare.read? cs = some (d, [])) (more : List Char) :
    readFirst? forms (cs ++ more) = some (d, more) := by
  obtain ⟨inside, hopening, _⟩ := Option.bind_eq_some_iff.mp h
  rw [strip?_eq_some_iff] at hopening
  have hread := read?_declare_append h more
  induction forms with
  | nil => cases hmem
  | cons f forms ih =>
    unfold readFirst? at ih ⊢
    rw [List.findSome?_cons]
    by_cases hf : f = declare
    · rw [hf, hread]
    · have hnone : f.read? (cs ++ more) = none := by
        rw [hopening, List.append_assoc]
        exact read?_eq_none_of_ne_declare hf _
      rw [hnone]
      exact ih ((List.mem_cons.mp hmem).resolve_left fun he => hf he.symm)

theorem declare_mem_ofKind {kind : Kind} (h : kind ≠ .image) : declare ∈ ofKind kind := by
  cases kind
  case image => exact absurd rfl h
  all_goals decide

end Form

/-- An occurrence with `k` octets more in front of it. -/
def Occurrence.shift (k : Nat) (o : Occurrence) : Occurrence :=
  { o with span := ⟨k + o.span.start, k + o.span.stop⟩ }

/-- What scans as one directive from the front comes first in a longer text. -/
theorem scanFrom_of_readFirst? {forms : List Form} {cs rest : List Char} {d : Directive}
    (h : Form.readFirst? forms cs = some (d, rest)) (position : Nat) :
    scanFrom forms position cs = ⟨⟨position, position + (size cs - size rest)⟩, d, none⟩ ::
      scanFrom forms (position + (size cs - size rest)) rest := by
  cases cs with
  | nil =>
    have hlt := Form.readFirst?_length_lt h
    cases hlt
  | cons c tail =>
    rw [scanFrom]
    split
    · rename_i d' rest' h'
      rw [h] at h'
      cases h'
      rfl
    · rename_i h'
      rw [h] at h'
      cases h'

theorem scanFrom_of_readFirst?_eq_none {forms : List Form} {c : Char} {tail : List Char}
    (h : Form.readFirst? forms (c :: tail) = none) (position : Nat) :
    scanFrom forms position (c :: tail) = scanFrom forms (position + c.utf8Size) tail := by
  rw [scanFrom]
  split
  · rename_i d' rest' h'
    rw [h] at h'
    cases h'
  · rfl

theorem scanFrom_add (forms : List Form) (k position : Nat) (cs : List Char) :
    scanFrom forms (k + position) cs = (scanFrom forms position cs).map (.shift k) := by
  fun_induction scanFrom forms position cs with
  | case1 => simp [scanFrom]
  | case2 position c tail d rest h stop _ ih =>
    have hstop : k + position + (size (c :: tail) - size rest) = k + stop := by omega
    rw [scanFrom_of_readFirst? h, hstop, ih]
    rfl
  | case3 position c tail h ih =>
    rw [scanFrom_of_readFirst?_eq_none h, Nat.add_assoc, ih]

namespace Text

theorem dropOctets_size_add (front cs : List Char) (a : Nat) :
    dropOctets (size front + a) (front ++ cs) = dropOctets a cs := by
  induction front with
  | nil => simp [size]
  | cons c front ih =>
    have hpos := c.utf8Size_pos
    obtain ⟨n, hn⟩ : ∃ n, size (c :: front) + a = n + 1 := ⟨size (c :: front) + a - 1, by
      simp only [size]
      omega⟩
    have hrest : n + 1 - c.utf8Size = size front + a := by
      simp only [size] at hn
      omega
    rw [hn, List.cons_append, dropOctets, hrest, ih]

theorem slice_size_add (front cs : List Char) (a b : Nat) :
    slice ⟨size front + a, size front + b⟩ (front ++ cs) = slice ⟨a, b⟩ cs := by
  have hwidth : size front + b - (size front + a) = b - a := by omega
  simp only [slice, dropOctets_size_add, hwidth]

theorem slice_between (front middle back : List Char) :
    slice ⟨size front, size (front ++ middle)⟩ (front ++ (middle ++ back)) = middle := by
  have hslice := slice_size_add front (middle ++ back) 0 (size middle)
  rw [Nat.add_zero, ← size_append] at hslice
  rw [hslice, slice, Nat.sub_zero, dropOctets, takeOctets_size_append]

end Text

/-- A text of declarations of values that are no names, and what they bind. -/
inductive Preamble : List Char → Bindings → Prop
  | nil : Preamble [] []
  | cons (cs rest : List Char) (name : String) (value : Operand) (b : Bindings)
      (declares : Form.declare.read? cs = some (.declare name value, []))
      (literal : ∀ other, value ≠ .name other) (behind : Preamble rest b) :
      Preamble (cs ++ rest) (b ++ [(name, value)])

namespace Preamble

variable {σ : Type} {cs : List Char} {b : Bindings} {kind : Kind}

theorem bound?_ne_name (h : Preamble cs b) (name other : String) : b.bound? name ≠ some (.name other) := by
  induction h with
  | nil => simp [Bindings.bound?]
  | cons cs rest n value b _ literal _ ih =>
    unfold Bindings.bound? at ih ⊢
    rw [List.lookup_append]
    cases hb : b.lookup name with
    | some v =>
      rw [hb] at ih
      exact ih
    | none =>
      rw [Option.none_or, List.lookup_cons]
      split
      · intro he
        exact literal other (Option.some.inj he)
      · simp

/-- A rendering passes over a preamble without output and is behind it with what it binds. -/
theorem renderFrom_eq (h : Preamble cs b) (lookup : Lookup σ) (hk : kind ≠ .image)
    (front more : List Char) (p : Progress σ) :
    Progress.renderFrom lookup (front ++ (cs ++ more)) (size front) p
        (scanFrom (Form.ofKind kind) (size front) (cs ++ more)) =
      Progress.renderFrom lookup (front ++ (cs ++ more)) (size (front ++ cs))
        { p with bindings := b ++ p.bindings }
        (scanFrom (Form.ofKind kind) (size (front ++ cs)) more) := by
  induction h generalizing front p with
  | nil => simp
  | cons cs rest name value b declares literal _ ih =>
    have hread := Form.readFirst?_declare (Form.declare_mem_ofKind hk) declares (rest ++ more)
    rw [← List.append_assoc] at hread
    have hstop : size front + (size (cs ++ rest ++ more) - size (rest ++ more)) = size (front ++ cs) := by
      simp only [Text.size_append]
      omega
    have hfits : Progress.fits (front ++ (cs ++ rest ++ more)) (size front)
        ⟨size front, size (front ++ cs)⟩ = true := by
      simp only [Progress.fits, Bool.and_eq_true, decide_eq_true_eq, Text.size_append]
      omega
    have hgap : slice ⟨size front, size front⟩ (front ++ (cs ++ rest ++ more)) = [] := by
      simp [slice, takeOctets]
    have hnext := ih (front ++ cs) { p with bindings := p.bindings.declare name value }
    have happend : front ++ (cs ++ rest ++ more) = front ++ cs ++ (rest ++ more) := by
      simp only [List.append_assoc]
    rw [scanFrom_of_readFirst? hread, hstop, Progress.renderFrom_of_fits hfits, hgap, happend]
    simp only [Progress.evaluate, Progress.shown, String.toList_empty, Progress.unlessElided,
      ite_self, List.nil_append]
    rw [hnext]
    simp only [Bindings.declare, List.append_assoc, List.cons_append, List.nil_append]

end Preamble

end AssetCompiler
