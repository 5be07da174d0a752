import AssetCompiler.Proofs.Directive.Spelling

/-! # Operands in a text

The text of an operand is a number, a quoted text or a name. Reading it from the front of a text
stops at the space behind it, and the value read from it is the one it spells.
-/
namespace AssetCompiler

open Text (pieces unite strip? strip?_eq_some_iff)

namespace Text

/-- A text whose ends are no blanks is left alone. -/
theorem trim_eq_self {cs : List Char} (hhead : ∀ c, cs.head? = some c → isBlank c = false)
    (hlast : ∀ c, cs.getLast? = some c → isBlank c = false) : trim cs = cs := by
  have hfront : cs.dropWhile isBlank = cs := by
    cases cs with
    | nil => rfl
    | cons c tail => simp [hhead c rfl]
  have hback : cs.reverse.dropWhile isBlank = cs.reverse := by
    cases hr : cs.reverse with
    | nil => rfl
    | cons c tail =>
      have hc : cs.getLast? = some c := by rw [← List.head?_reverse, hr, List.head?_cons]
      simp [hlast c hc]
  rw [trim, hfront, dropEndWhile, hback, List.reverse_reverse]

end Text

namespace Form

variable {cs rest t : List Char} {o : Operand}

/-- Digits, perhaps with decimal places. -/
def IsUnsigned (t : List Char) : Prop :=
  ∃ whole places, Filled Char.isDigit whole ∧ (∀ c ∈ places, c.isDigit = true) ∧
    t = whole ++ pointed places

theorem fraction_eq_iff : fraction cs = (t, ' ' :: rest) ↔
    cs = t ++ ' ' :: rest ∧ ∃ places, (∀ c ∈ places, c.isDigit = true) ∧ t = pointed places := by
  constructor
  · intro h
    unfold fraction at h
    split at h
    · rename_i r
      dsimp only at h
      split at h
      · cases h
      · rename_i hne
        obtain ⟨rfl, hrest⟩ := Prod.mk.inj h
        obtain ⟨hr, hall, -⟩ := takeWhile_dropWhile_eq_iff.mp ⟨rfl, hrest⟩
        exact ⟨congrArg ('.' :: ·) hr, _, hall, (if_neg hne).symm⟩
    · obtain ⟨rfl, rfl⟩ := Prod.mk.inj h
      exact ⟨rfl, [], by simp, rfl⟩
  · rintro ⟨rfl, places, hall, rfl⟩
    by_cases hplaces : places = []
    · subst hplaces
      rfl
    · have hends : Ends Char.isDigit (' ' :: rest) := by
        rintro c tail ⟨⟩
        decide
      obtain ⟨htake, hdrop⟩ := takeWhile_dropWhile_eq_iff.mpr ⟨rfl, hall, hends⟩
      simp [pointed, hplaces, fraction, htake, hdrop]

theorem unsigned_eq_some_iff :
    unsigned cs = some (t, ' ' :: rest) ↔ cs = t ++ ' ' :: rest ∧ IsUnsigned t := by
  constructor
  · intro h
    unfold unsigned at h
    split at h
    · cases h
    · rename_i hne
      cases hf : fraction (cs.dropWhile Char.isDigit) with
      | mk ds r =>
        rw [hf] at h
        obtain ⟨rfl, rfl⟩ := Prod.mk.inj (Option.some.inj h)
        obtain ⟨hdrop, places, hplaces, rfl⟩ := fraction_eq_iff.mp hf
        refine ⟨?_, cs.takeWhile Char.isDigit, places,
          ⟨hne, List.all_eq_true.mp List.all_takeWhile⟩, hplaces, rfl⟩
        rw [List.append_assoc, ← hdrop, List.takeWhile_append_dropWhile]
  · rintro ⟨rfl, whole, places, ⟨hne, hwhole⟩, hplaces, rfl⟩
    have hends : Ends Char.isDigit (pointed places ++ ' ' :: rest) := by
      unfold pointed
      split <;> rintro c tail ⟨⟩ <;> decide
    obtain ⟨htake, hdrop⟩ := takeWhile_dropWhile_eq_iff.mpr ⟨rfl, hwhole, hends⟩
    have hfraction : fraction (pointed places ++ ' ' :: rest) = _ :=
      fraction_eq_iff.mpr ⟨rfl, places, hplaces, rfl⟩
    unfold unsigned
    rw [List.append_assoc, htake, hdrop, hfraction]
    split
    · exact absurd rfl hne
    · rfl

theorem quoted_eq_some_iff {t : List Char} :
    quoted cs = some (t, rest) ↔
      ∃ inside, cs = inside ++ '"' :: rest ∧ (∀ c ∈ inside, c ≠ '"' ∧ c ≠ '\n') ∧
        t = '"' :: inside ++ ['"'] := by
  constructor
  · intro h
    unfold quoted at h
    split at h
    · rename_i r hr
      obtain ⟨rfl, rfl⟩ := Prod.mk.inj (Option.some.inj h)
      obtain ⟨hcs, hall, -⟩ := takeWhile_dropWhile_eq_iff.mp ⟨rfl, hr⟩
      exact ⟨_, hcs, fun c hc => by simpa using hall c hc, rfl⟩
    · cases h
  · rintro ⟨inside, rfl, hall, rfl⟩
    have hends : Ends (fun c => c != '"' && c != '\n') ('"' :: rest) := by
      rintro c tail ⟨⟩
      decide
    obtain ⟨htake, hdrop⟩ := takeWhile_dropWhile_eq_iff.mpr
      ⟨rfl, fun c hc => by simpa using hall c hc, hends⟩
    simp [quoted, htake, hdrop]

/-- An operand's text is a number, a quoted text or a name. -/
inductive IsOperandText : List Char → Prop
  | number (negative : Bool) (ds : List Char) (h : IsUnsigned ds) :
      IsOperandText (signed negative ds)
  | quoted (inside : List Char) (h : ∀ c ∈ inside, c ≠ '"' ∧ c ≠ '\n') :
      IsOperandText ('"' :: inside ++ ['"'])
  | name (t : List Char) (h : IsIdent t) : IsOperandText t

theorem isDigit_eq_false_of_isNameStart {c : Char} (h : isNameStart c = true) :
    c.isDigit = false := by
  have hunderscore : '_'.isDigit = false := by decide
  unfold isNameStart Char.isAlpha Char.isUpper Char.isLower at h
  simp only [Bool.or_eq_true, beq_iff_eq] at h
  rcases h with h | rfl
  · simp only [Char.isDigit]
    grind
  · exact hunderscore

theorem operandText_cons {c : Char} (hquote : c ≠ '"') (hminus : c ≠ '-') :
    operandText (c :: cs) = if c.isDigit then unsigned (c :: cs) else run isNameChar nameText (c :: cs) := by
  unfold operandText
  split
  · rename_i heq
    exact absurd (List.cons.inj heq).1 hquote
  · rename_i heq
    exact absurd (List.cons.inj heq).1 hminus
  · rename_i heq
    rw [(List.cons.inj heq).1]
  · rename_i heq
    cases heq

theorem operandText_cons_of_isDigit {c : Char} (h : c.isDigit = true) :
    operandText (c :: cs) = unsigned (c :: cs) := by
  have hquote : c ≠ '"' := by
    rintro rfl
    cases h
  have hminus : c ≠ '-' := by
    rintro rfl
    cases h
  rw [operandText_cons hquote hminus, if_pos h]

theorem operandText_cons_of_isNameStart {c : Char} (h : isNameStart c = true) :
    operandText (c :: cs) = run isNameChar nameText (c :: cs) := by
  have hquote : c ≠ '"' := by
    rintro rfl
    cases h
  have hminus : c ≠ '-' := by
    rintro rfl
    cases h
  rw [operandText_cons hquote hminus, if_neg (by simp [isDigit_eq_false_of_isNameStart h])]

theorem ends_isNameChar_space : Ends isNameChar (' ' :: rest) := by
  rintro c tail ⟨⟩
  decide

theorem operandText_eq_some_iff :
    operandText cs = some (t, ' ' :: rest) ↔ cs = t ++ ' ' :: rest ∧ IsOperandText t := by
  constructor
  · intro h
    unfold operandText at h
    split at h
    · obtain ⟨inside, rfl, hall, rfl⟩ := quoted_eq_some_iff.mp h
      exact ⟨by simp, .quoted inside hall⟩
    · simp only [Option.map_eq_some_iff, Prod.exists, Prod.mk.injEq] at h
      obtain ⟨ds, r, hu, rfl, rfl⟩ := h
      obtain ⟨rfl, hds⟩ := unsigned_eq_some_iff.mp hu
      exact ⟨rfl, .number true ds hds⟩
    · split at h
      · obtain ⟨hcs, hds⟩ := unsigned_eq_some_iff.mp h
        exact ⟨hcs, .number false t hds⟩
      · obtain ⟨hcs, hident, -⟩ := run_nameText_eq_some_iff.mp h
        exact ⟨hcs, .name t hident⟩
    · cases h
  · rintro ⟨rfl, h⟩
    cases h with
    | number negative ds h =>
      have hu : unsigned (ds ++ ' ' :: rest) = _ := unsigned_eq_some_iff.mpr ⟨rfl, h⟩
      cases negative with
      | true => simp [signed, operandText, hu]
      | false =>
        obtain ⟨whole, places, ⟨hne, hwhole⟩, -, rfl⟩ := h
        cases whole with
        | nil => exact absurd rfl hne
        | cons c tail => exact (operandText_cons_of_isDigit (hwhole c (by simp))).trans hu
    | quoted inside h =>
      have hq : quoted (inside ++ '"' :: ' ' :: rest) = _ :=
        quoted_eq_some_iff.mpr ⟨inside, rfl, h, rfl⟩
      simp [operandText, hq]
    | name t h =>
      have hrun : run isNameChar nameText (t ++ ' ' :: rest) = _ :=
        run_nameText_eq_some_iff.mpr ⟨rfl, h, ends_isNameChar_space⟩
      obtain ⟨c, tail, rfl, hstart, -⟩ := h
      exact (operandText_cons_of_isNameStart hstart).trans hrun

end Form

/-! ### The value of an operand's text -/

namespace Text

/-- No printable ASCII character is blank. -/
theorem isBlank_eq_false {c : Char} (h : 0x21 ≤ c.toNat ∧ c.toNat ≤ 0x7E) : isBlank c = false := by
  simp only [isBlank, Bool.or_eq_false_iff, Bool.and_eq_false_iff, decide_eq_false_iff_not,
    beq_eq_false_iff_ne]
  omega

theorem trim_eq_self_of_forall {cs : List Char} (h : ∀ c ∈ cs, isBlank c = false) : trim cs = cs :=
  trim_eq_self (fun c hc => h c (List.mem_of_head? hc)) fun c hc => h c (List.mem_of_getLast? hc)

end Text

namespace Operand

open Form (IsOperandText IsUnsigned isNameChar isNameStart)

variable {cs t : List Char}

theorem isBlank_eq_false_of_isAlphanum {c : Char} (h : c.isAlphanum = true) :
    Text.isBlank c = false := by
  apply Text.isBlank_eq_false
  unfold Char.isAlphanum Char.isAlpha Char.isUpper Char.isLower Char.isDigit at h
  simp only [Bool.or_eq_true, Bool.and_eq_true, decide_eq_true_eq, ge_iff_le, Char.reduceVal,
    UInt32.le_iff_toNat_le, Char.toNat_val, UInt32.reduceToNat] at h
  omega

theorem isBlank_eq_false_of_isDigit {c : Char} (h : c.isDigit = true) : Text.isBlank c = false :=
  isBlank_eq_false_of_isAlphanum (by simp [Char.isAlphanum, h])

theorem isBlank_eq_false_of_isNameChar {c : Char} (h : isNameChar c = true) :
    Text.isBlank c = false := by
  simp only [isNameChar, Bool.or_eq_true, beq_iff_eq] at h
  rcases h with h | rfl
  · exact isBlank_eq_false_of_isAlphanum h
  · decide

/-- A text is read as a name or a number when it is not one of the words and not quoted. -/
theorem read_of_unquoted {c : Char} {tail : List Char} (hblank : ∀ x ∈ c :: tail, Text.isBlank x = false)
    (hquote : c ≠ '"') (htrue : c :: tail ≠ "true".toList) (hfalse : c :: tail ≠ "false".toList) :
    Operand.read (String.ofList (c :: tail)) =
      match Decimal.readLiteral? (c :: tail) with
      | some d => .number d.toBinary64
      | none => .name (String.ofList (c :: tail)) := by
  have hunquote : unquote? (c :: tail) = none := by
    unfold unquote?
    split
    · rename_i heq
      exact absurd (List.cons.inj heq).1 hquote
    · rfl
  simp only [Operand.read, String.toList_ofList, Text.trim_eq_self_of_forall hblank, hunquote]
  exact (if_neg htrue).trans (if_neg hfalse)

theorem readLiteral?_signed (negative : Bool) {whole places : List Char}
    (hwhole : Filled Char.isDigit whole) (hplaces : ∀ c ∈ places, c.isDigit = true) :
    Decimal.readLiteral? (signed negative (whole ++ pointed places)) =
      some ⟨negative, Decimal.natOfDigits (whole ++ places), -Int.ofNat places.length⟩ := by
  obtain ⟨hne, hdigits⟩ := hwhole
  have hends : Ends Char.isDigit (pointed places) := by
    unfold pointed
    split
    · exact nofun
    · rintro c tail ⟨⟩
      decide
  obtain ⟨htake, hdrop⟩ := Form.takeWhile_dropWhile_eq_iff.mpr ⟨rfl, hdigits, hends⟩
  have hfraction : Decimal.spanFraction (pointed places) = (places, []) := by
    by_cases hp : places = []
    · subst hp
      rfl
    · have hnil : Ends Char.isDigit [] := nofun
      obtain ⟨htake, hdrop⟩ := Form.takeWhile_dropWhile_eq_iff.mpr
        ⟨(List.append_nil _).symm, hplaces, hnil⟩
      simp [pointed, hp, Decimal.spanFraction, Decimal.spanDigits, htake, hdrop]
  cases negative with
  | true =>
    simp [signed, Decimal.readLiteral?, Decimal.spanDigits, htake, hdrop, hne, hfraction,
      Decimal.readExponent?]
  | false =>
    cases whole with
    | nil => exact absurd rfl hne
    | cons c tail =>
      have hminus : c ≠ '-' := by
        rintro rfl
        exact absurd (hdigits '-' (by simp)) (by decide)
      rw [List.cons_append] at htake hdrop
      simp [signed, Decimal.readLiteral?, Decimal.spanDigits, htake, hdrop, hfraction, hminus,
        Decimal.readExponent?]

theorem read_number (negative : Bool) {whole places : List Char}
    (hwhole : Filled Char.isDigit whole) (hplaces : ∀ c ∈ places, c.isDigit = true) :
    Operand.read (String.ofList (signed negative (whole ++ pointed places))) =
      .number (Decimal.Literal.toBinary64 ⟨negative, Decimal.natOfDigits (whole ++ places),
        -Int.ofNat places.length⟩) := by
  have hchars : ∀ c ∈ signed negative (whole ++ pointed places),
      c = '-' ∨ c = '.' ∨ c.isDigit = true := by
    intro c hc
    have hcases : c = '-' ∨ c ∈ whole ∨ c = '.' ∨ c ∈ places := by
      grind [signed, pointed]
    rcases hcases with hc | hc | hc | hc
    · exact .inl hc
    · exact .inr (.inr (hwhole.2 c hc))
    · exact .inr (.inl hc)
    · exact .inr (.inr (hplaces c hc))
  have hliteral := readLiteral?_signed negative hwhole hplaces
  cases ht : signed negative (whole ++ pointed places) with
  | nil =>
    have := hwhole.1
    cases negative <;> simp_all [signed]
  | cons c tail =>
    rw [ht] at hchars hliteral
    have hblank : ∀ x ∈ c :: tail, Text.isBlank x = false := by
      intro x hx
      rcases hchars x hx with rfl | rfl | hdigit
      · decide
      · decide
      · exact isBlank_eq_false_of_isDigit hdigit
    have hhead : ∀ x, x ≠ '-' → x ≠ '.' → x.isDigit = false → c ≠ x := by
      rintro x hminus hpoint hdigit rfl
      simp_all
    rw [read_of_unquoted hblank (hhead '"' (by decide) (by decide) (by decide)), hliteral]
    · exact fun h => hhead 't' (by decide) (by decide) (by decide) (List.cons.inj h).1
    · exact fun h => hhead 'f' (by decide) (by decide) (by decide) (List.cons.inj h).1

theorem read_quoted {inside : List Char} :
    Operand.read (String.ofList ('"' :: inside ++ ['"'])) = .text (String.ofList inside) := by
  have htrim : Text.trim ('"' :: (inside ++ ['"'])) = '"' :: (inside ++ ['"']) := by
    apply Text.trim_eq_self
    · rintro c ⟨⟩
      decide
    · intro c hc
      rw [← List.cons_append, List.getLast?_concat] at hc
      obtain rfl := Option.some.inj hc
      decide
  simp [Operand.read, htrim, unquote?]

theorem read_ident {t : List Char} (h : IsIdent t) :
    Operand.read (String.ofList t) =
      if t = "true".toList then .flag true
      else if t = "false".toList then .flag false
      else .name (String.ofList t) := by
  split
  · rename_i ht
    rw [ht]
    rfl
  · rename_i ht
    split
    · rename_i hf
      rw [hf]
      rfl
    · rename_i hf
      obtain ⟨c, tail, rfl, hstart, htail⟩ := h
      have hdigit := Form.isDigit_eq_false_of_isNameStart hstart
      have hminus : c ≠ '-' := by
        rintro rfl
        cases hstart
      have hnone : Decimal.readLiteral? (c :: tail) = none := by
        simp [Decimal.readLiteral?, hminus, Decimal.spanDigits, hdigit]
      have hquote : c ≠ '"' := by
        rintro rfl
        cases hstart
      have hblank : ∀ x ∈ c :: tail, Text.isBlank x = false := by
        rintro x (_ | ⟨_, hx⟩)
        · exact isBlank_eq_false_of_isNameChar (Form.isNameChar_of_isNameStart hstart)
        · exact isBlank_eq_false_of_isNameChar (htail x hx)
      rw [read_of_unquoted hblank hquote ht hf, hnone]

/-- What an operand's text spells is what is read from it. -/
theorem spelled_iff {o : Operand} :
    o.Spelled t ↔ IsOperandText t ∧ Operand.read (String.ofList t) = o := by
  constructor
  · intro h
    cases h with
    | number negative whole places hwhole hplaces =>
      exact ⟨.number negative _ ⟨whole, places, hwhole, hplaces, rfl⟩,
        read_number negative hwhole hplaces⟩
    | text inside h => exact ⟨.quoted inside h, read_quoted⟩
    | flag b =>
      have hident : IsIdent (if b then "true".toList else "false".toList) := by
        cases b <;> exact ⟨_, _, rfl, by decide, List.all_eq_true.mp (by decide)⟩
      refine ⟨.name _ hident, (read_ident hident).trans ?_⟩
      cases b
      · rw [if_neg (by decide)]
        exact if_pos rfl
      · exact if_pos rfl
    | name cs h ht hf => exact ⟨.name t h, by rw [read_ident h, if_neg ht, if_neg hf]⟩
  · rintro ⟨htext, rfl⟩
    cases htext with
    | number negative ds h =>
      obtain ⟨whole, places, hwhole, hplaces, rfl⟩ := h
      exact read_number negative hwhole hplaces ▸ .number negative whole places hwhole hplaces
    | quoted inside h => exact read_quoted ▸ .text inside h
    | name t h =>
      rw [read_ident h]
      split
      · rename_i ht
        exact ht ▸ .flag true
      · split
        · rename_i hf
          exact hf ▸ .flag false
        · exact .name t h (by assumption) (by assumption)

end Operand

end AssetCompiler
