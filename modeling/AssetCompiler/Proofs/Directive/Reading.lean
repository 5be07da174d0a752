import AssetCompiler.Proofs.Directive.Operands

/-! # Forms are read exactly

Each body is read up to its closing, since the closing begins with a character that cannot belong
to the body. So a form reads from the front of a text exactly the texts that spell its directives.
-/
namespace AssetCompiler

open Text (pieces strip? strip?_eq_some_iff)

namespace Form

variable {cs rest t : List Char} {d : Directive}

/-- What stands behind an operand begins with a space, so the operand is read to its end. -/
theorem operand_eq_some_iff {o : Operand} {behind : String}
    (hspace : behind.toList.head? = some ' ') :
    operand cs = some (o, behind.toList ++ rest) ↔
      ∃ t, cs = t ++ (behind.toList ++ rest) ∧ o.Spelled t := by
  obtain ⟨tail, htail⟩ := List.head?_eq_some_iff.mp hspace
  simp only [htail, List.cons_append, operand, Option.map_eq_some_iff, Prod.exists, Prod.mk.injEq]
  constructor
  · rintro ⟨t, r, ht, ho, rfl⟩
    obtain ⟨hcs, htext⟩ := operandText_eq_some_iff.mp ht
    exact ⟨t, hcs, Operand.spelled_iff.mpr ⟨htext, ho⟩⟩
  · rintro ⟨t, hcs, ht⟩
    obtain ⟨htext, ho⟩ := Operand.spelled_iff.mp ht
    exact ⟨t, _, operandText_eq_some_iff.mpr ⟨hcs, htext⟩, ho, rfl⟩

theorem operand_of_spelled {o : Operand} (h : o.Spelled t) (behind : String)
    (hspace : behind.toList.head? = some ' ') (rest : List Char) :
    operand (t ++ (behind.toList ++ rest)) = some (o, behind.toList ++ rest) :=
  (operand_eq_some_iff hspace).mpr ⟨t, rfl, h⟩

theorem guard_eq_some_iff {g : Guard} :
    guard cs = some (g, " %]".toList ++ rest) ↔
      ∃ t, cs = t ++ (" %]".toList ++ rest) ∧ g.Spelled t := by
  constructor
  · intro h
    simp only [guard, bind, Option.bind_eq_some_iff, Prod.exists] at h
    obtain ⟨l, r, hl, h⟩ := h
    split at h
    · rename_i r' hequal
      simp only [Option.map_eq_some_iff, Prod.exists, Prod.mk.injEq] at h
      obtain ⟨o, r'', ho, rfl, rfl⟩ := h
      obtain ⟨u, rfl, hu⟩ := (operand_eq_some_iff rfl).mp ho
      rw [strip?_eq_some_iff.mp hequal, operand_eq_some_iff rfl] at hl
      obtain ⟨t, rfl, ht⟩ := hl
      exact ⟨_, by simp only [List.append_assoc], .equal l o t u ht hu⟩
    · rename_i r' _ hdiffer
      simp only [Option.map_eq_some_iff, Prod.exists, Prod.mk.injEq] at h
      obtain ⟨o, r'', ho, rfl, rfl⟩ := h
      obtain ⟨u, rfl, hu⟩ := (operand_eq_some_iff rfl).mp ho
      rw [strip?_eq_some_iff.mp hdiffer, operand_eq_some_iff rfl] at hl
      obtain ⟨t, rfl, ht⟩ := hl
      exact ⟨_, by simp only [List.append_assoc], .differ l o t u ht hu⟩
    · obtain ⟨rfl, rfl⟩ := Prod.mk.inj (Option.some.inj h)
      obtain ⟨t, hcs, ht⟩ := (operand_eq_some_iff rfl).mp hl
      exact ⟨t, hcs, .holds l t ht⟩
  · rintro ⟨t, rfl, ht⟩
    cases ht with
    | holds o t ht =>
      simp only [guard, bind, operand_of_spelled ht " %]" rfl rest, Option.bind_some]
      rfl
    | equal l r t u ht hu =>
      have hl := operand_of_spelled ht " == " rfl (u ++ (" %]".toList ++ rest))
      have hr := operand_of_spelled hu " %]" rfl rest
      have hequal := strip?_eq_some_iff.mpr
        (rfl : " == ".toList ++ (u ++ (" %]".toList ++ rest)) = _)
      simp only [List.append_assoc, guard, bind, hl, Option.bind_some, hequal, hr, Option.map_some]
    | differ l r t u ht hu =>
      have hl := operand_of_spelled ht " != " rfl (u ++ (" %]".toList ++ rest))
      have hr := operand_of_spelled hu " %]" rfl rest
      have hequal : strip? " == ".toList (" != ".toList ++ (u ++ (" %]".toList ++ rest))) = none :=
        rfl
      have hdiffer := strip?_eq_some_iff.mpr
        (rfl : " != ".toList ++ (u ++ (" %]".toList ++ rest)) = _)
      simp only [List.append_assoc, guard, bind, hl, Option.bind_some, hequal, hdiffer, hr,
        Option.map_some]

theorem declaration_eq_some_iff :
    declaration cs = some (d, " %]".toList ++ rest) ↔
      ∃ name value t, cs = name ++ (" = ".toList ++ (t ++ (" %]".toList ++ rest))) ∧
        IsIdent name ∧ value.Spelled t ∧ d = .declare (String.ofList name) value := by
  simp only [declaration, bind, Option.bind_eq_some_iff, Prod.exists, Option.some.injEq,
    Prod.mk.injEq]
  constructor
  · rintro ⟨name, r1, h1, r2, h2, value, r3, h3, rfl, rfl⟩
    obtain ⟨t, rfl, ht⟩ := (operand_eq_some_iff rfl).mp h3
    obtain ⟨rfl, hname, -⟩ := run_nameText_eq_some_iff.mp h1
    exact ⟨name, value, t, by rw [strip?_eq_some_iff.mp h2], hname, ht, rfl⟩
  · rintro ⟨name, value, t, rfl, hname, ht, rfl⟩
    exact ⟨name, _, run_nameText_eq_some_iff.mpr ⟨rfl, hname, ends_isNameChar_space⟩, _,
      strip?_eq_some_iff.mpr rfl, value, _, (operand_eq_some_iff rfl).mpr ⟨t, rfl, ht⟩, rfl, rfl⟩

theorem ends_append {p : Char → Bool} {closing : List Char} {c : Char}
    (hhead : closing.head? = some c) (hc : p c = false) : Ends p (closing ++ rest) := by
  obtain ⟨tail, rfl⟩ := List.head?_eq_some_iff.mp hhead
  rintro x r h
  rw [List.cons_append] at h
  exact (List.cons.inj h).1 ▸ hc

theorem settingBody_eq_some_iff :
    settingBody cs = some (d, "]".toList ++ rest) ↔
      ∃ key filter, cs = key ++ ("!".toList ++ (filter ++ ("]".toList ++ rest))) ∧
        Joined '.' isWordChar key ∧ (∀ c ∈ filter, isWordChar c = true) ∧ filter.length ≤ 25 ∧
        d = .setting (String.ofList key) (String.ofList filter) := by
  simp only [settingBody, bind, Option.bind_eq_some_iff, Prod.exists, Option.some.injEq,
    Prod.mk.injEq, run_eq_some_iff, segmented_eq_some_iff, filterName_eq_some_iff,
    strip?_eq_some_iff, joined_iff (show isWordChar '.' = false by decide)]
  constructor
  · rintro ⟨key, r1, ⟨_, rfl, hkey, -, rfl, hsegments⟩, r2, rfl, filter, r3,
      ⟨_, rfl, hfilter, -, rfl, hlength⟩, rfl, rfl⟩
    exact ⟨key, filter, rfl, ⟨hkey, hsegments⟩, hfilter, hlength, rfl⟩
  · rintro ⟨key, filter, rfl, ⟨hkey, hsegments⟩, hfilter, hlength, rfl⟩
    have hmark : Ends (fun c => isWordChar c || c == '.')
        ("!".toList ++ (filter ++ ("]".toList ++ rest))) := ends_append rfl (by decide)
    have hclosing : Ends isWordChar ("]".toList ++ rest) := ends_append rfl (by decide)
    exact ⟨key, _, ⟨key, rfl, hkey, hmark, rfl, hsegments⟩, _, rfl, filter, _,
      ⟨filter, rfl, hfilter, hclosing, rfl, hlength⟩, rfl, rfl⟩

theorem single_nonempty_eq_some_iff {make : String → Directive} :
    single isPathChar nonempty make cs = some (d, rest) ↔
      ∃ path, cs = path ++ rest ∧ Filled isPathChar path ∧ Ends isPathChar rest ∧
        d = make (String.ofList path) := by
  simp only [single_eq_some_iff, nonempty_eq_some_iff]
  constructor
  · rintro ⟨path, r, hcs, hall, hends, ⟨rfl, hne⟩, rfl⟩
    exact ⟨r, hcs, ⟨hne, hall⟩, hends, rfl⟩
  · rintro ⟨path, hcs, ⟨hne, hall⟩, hends, rfl⟩
    exact ⟨path, path, hcs, hall, hends, ⟨rfl, hne⟩, rfl⟩

theorem isPathChar_of_mem_extensions (kind : Kind) :
    ∀ e ∈ kind.extensions, ∀ c ∈ '.' :: e.toList, isPathChar c = true := by
  have hall : (kind.extensions.all fun e => ('.' :: e.toList).all isPathChar) = true := by
    cases kind <;> decide
  exact fun e he => List.all_eq_true.mp (List.all_eq_true.mp hall e he)

theorem single_withExtension_eq_some_iff {kind : Kind} {make : String → Directive} :
    single isPathChar (withExtension kind.extensions) make cs = some (d, rest) ↔
      ∃ path, cs = path ++ rest ∧ HasExtension kind.extensions path ∧ Ends isPathChar rest ∧
        d = make (String.ofList path) := by
  have hclass := isPathChar_of_mem_extensions kind
  simp only [single_eq_some_iff, withExtension_eq_some_iff]
  constructor
  · rintro ⟨path, _, hcs, hall, hends, ⟨rfl, stem, e, he, hne, rfl⟩, rfl⟩
    have hstem : Filled isPathChar stem := ⟨hne, fun c hc => hall c (List.mem_append_left _ hc)⟩
    exact ⟨_, hcs, ⟨stem, e, he, hstem, rfl⟩, hends, rfl⟩
  · rintro ⟨path, hcs, ⟨stem, e, he, ⟨hne, hstem⟩, rfl⟩, hends, rfl⟩
    have hall : ∀ c ∈ stem ++ '.' :: e.toList, isPathChar c = true := fun c hc =>
      (List.mem_append.mp hc).elim (hstem c) (hclass e he c)
    exact ⟨_, _, hcs, hall, hends, ⟨rfl, stem, e, he, hne, rfl⟩, rfl⟩

theorem single_segmented_eq_some_iff {make : String → Directive} :
    single (fun c => isWordChar c || c == '/') (segmented '/') make cs = some (d, rest) ↔
      ∃ key, cs = key ++ rest ∧ Joined '/' isWordChar key ∧
        Ends (fun c => isWordChar c || c == '/') rest ∧ d = make (String.ofList key) := by
  simp only [single_eq_some_iff, segmented_eq_some_iff,
    joined_iff (show isWordChar '/' = false by decide)]
  constructor
  · rintro ⟨key, r, hcs, hall, hends, ⟨rfl, hsegments⟩, rfl⟩
    exact ⟨r, hcs, ⟨hall, hsegments⟩, hends, rfl⟩
  · rintro ⟨key, hcs, ⟨hall, hsegments⟩, hends, rfl⟩
    exact ⟨key, key, hcs, hall, hends, ⟨rfl, hsegments⟩, rfl⟩

theorem single_spacedWords_eq_some_iff {make : String → Directive} :
    single (fun c => isWordChar c || c == '.' || c == ' ') spacedWords make cs = some (d, rest) ↔
      ∃ key, cs = key ++ (" ".toList ++ rest) ∧ Joined ' ' isLocalizedChar key ∧
        Ends (fun c => isWordChar c || c == '.' || c == ' ') rest ∧
        d = make (String.ofList key) := by
  simp only [single_eq_some_iff, spacedWords_eq_some_iff,
    joined_iff (show isLocalizedChar ' ' = false by decide)]
  constructor
  · rintro ⟨_, key, hcs, hall, hends, ⟨rfl, hsegments⟩, rfl⟩
    exact ⟨key, by simpa using hcs, ⟨fun c hc => hall c (List.mem_append_left _ hc), hsegments⟩,
      hends, rfl⟩
  · rintro ⟨key, hcs, ⟨hall, hsegments⟩, hends, rfl⟩
    refine ⟨key ++ [' '], key, by simpa using hcs, fun c hc => ?_, hends, ⟨rfl, hsegments⟩, rfl⟩
    rcases List.mem_append.mp hc with hc | hc
    · exact hall c hc
    · rw [List.mem_singleton.mp hc]
      decide

theorem single_nameText_eq_some_iff {make : String → Directive} :
    single isNameChar nameText make cs = some (d, rest) ↔
      ∃ name, cs = name ++ rest ∧ IsIdent name ∧ Ends isNameChar rest ∧
        d = make (String.ofList name) := by
  simp only [single_eq_some_iff]
  constructor
  · rintro ⟨name, r, hcs, hall, hends, hname, rfl⟩
    obtain ⟨rfl, hident⟩ := nameText_eq_some_iff.mp ⟨hall, hname⟩
    exact ⟨r, hcs, hident, hends, rfl⟩
  · rintro ⟨name, hcs, hident, hends, rfl⟩
    obtain ⟨hall, hname⟩ := nameText_eq_some_iff.mpr ⟨rfl, hident⟩
    exact ⟨name, name, hcs, hall, hends, hname, rfl⟩

theorem openBlock_body_eq_some_iff :
    (guard cs).map (fun (g, cs) => (Directive.openBlock g, cs)) = some (d, " %]".toList ++ rest) ↔
      ∃ g t, cs = t ++ (" %]".toList ++ rest) ∧ g.Spelled t ∧ d = .openBlock g := by
  simp only [Option.map_eq_some_iff, Prod.exists, Prod.mk.injEq]
  constructor
  · rintro ⟨g, r, hg, rfl, rfl⟩
    obtain ⟨t, hcs, ht⟩ := guard_eq_some_iff.mp hg
    exact ⟨g, t, hcs, ht, rfl⟩
  · rintro ⟨g, t, hcs, ht, rfl⟩
    exact ⟨g, _, guard_eq_some_iff.mpr ⟨t, hcs, ht⟩, rfl, rfl⟩

theorem read?_eq_some_iff_body {f : Form} :
    f.read? cs = some (d, rest) ↔
      ∃ inside, cs = f.opening.toList ++ inside ∧
        f.body inside = some (d, f.closing.toList ++ rest) := by
  simp only [read?, bind, Option.bind_eq_some_iff, Prod.exists, Option.some.injEq, Prod.mk.injEq,
    strip?_eq_some_iff]
  constructor
  · rintro ⟨inside, rfl, d', r, hbody, r', rfl, rfl, rfl⟩
    exact ⟨inside, rfl, hbody⟩
  · rintro ⟨inside, rfl, hbody⟩
    exact ⟨inside, rfl, d, _, hbody, rest, rfl, rfl, rfl⟩

/-- What a form reads is a text that spells the directive. -/
theorem exists_spelled_of_read? {f : Form} (hread : f.read? cs = some (d, rest)) :
    ∃ u, f.Spelled d u ∧ cs = u ++ rest := by
  obtain ⟨inside, rfl, h⟩ := read?_eq_some_iff_body.mp hread
  clear hread
  cases f <;> simp only [body, opening, closing] at h ⊢
  case markupInclude =>
    obtain ⟨path, rfl, hpath, -, rfl⟩ := single_nonempty_eq_some_iff.mp h
    exact ⟨_, .markupInclude path hpath, by simp only [List.append_assoc]⟩
  case escapedInclude =>
    obtain ⟨path, rfl, hpath, -, rfl⟩ := single_nonempty_eq_some_iff.mp h
    exact ⟨_, .escapedInclude path hpath, by simp only [List.append_assoc]⟩
  case stylesheetInclude =>
    obtain ⟨path, rfl, hpath, -, rfl⟩ := single_withExtension_eq_some_iff.mp h
    exact ⟨_, .stylesheetInclude path hpath, by simp only [List.append_assoc]⟩
  case scriptInclude =>
    obtain ⟨path, rfl, hpath, -, rfl⟩ := single_withExtension_eq_some_iff.mp h
    exact ⟨_, .scriptInclude path hpath, by simp only [List.append_assoc]⟩
  case stylesheetUrl =>
    obtain ⟨path, rfl, hpath, -, rfl⟩ := single_withExtension_eq_some_iff.mp h
    exact ⟨_, .stylesheetUrl path hpath, by simp only [List.append_assoc]⟩
  case scriptUrl =>
    obtain ⟨path, rfl, hpath, -, rfl⟩ := single_withExtension_eq_some_iff.mp h
    exact ⟨_, .scriptUrl path hpath, by simp only [List.append_assoc]⟩
  case imageUrl =>
    obtain ⟨path, rfl, hpath, -, rfl⟩ := single_withExtension_eq_some_iff.mp h
    exact ⟨_, .imageUrl path hpath, by simp only [List.append_assoc]⟩
  case imagePath =>
    obtain ⟨path, rfl, hpath, -, rfl⟩ := single_withExtension_eq_some_iff.mp h
    exact ⟨_, .imagePath path hpath, by simp only [List.append_assoc]⟩
  case resourceUrl =>
    obtain ⟨key, rfl, hkey, -, rfl⟩ := single_segmented_eq_some_iff.mp h
    exact ⟨_, .resourceUrl key hkey, by simp only [List.append_assoc]⟩
  case setting =>
    obtain ⟨key, filter, rfl, hkey, hfilter, hlength, rfl⟩ := settingBody_eq_some_iff.mp h
    exact ⟨_, .setting key filter hkey hfilter hlength, by simp only [List.append_assoc]⟩
  case declare =>
    obtain ⟨name, value, t, rfl, hname, ht, rfl⟩ := declaration_eq_some_iff.mp h
    exact ⟨_, .declare name value t hname ht, by simp only [List.append_assoc]⟩
  case openBlock =>
    obtain ⟨g, t, rfl, ht, rfl⟩ := openBlock_body_eq_some_iff.mp h
    exact ⟨_, .openBlock g t ht, by simp only [List.append_assoc]⟩
  case elseBranch =>
    obtain ⟨rfl, rfl⟩ := Prod.mk.inj (Option.some.inj h)
    exact ⟨_, .elseBranch, rfl⟩
  case closeBlock =>
    obtain ⟨rfl, rfl⟩ := Prod.mk.inj (Option.some.inj h)
    exact ⟨_, .closeBlock, rfl⟩
  case display =>
    obtain ⟨name, rfl, hname, -, rfl⟩ := single_nameText_eq_some_iff.mp h
    exact ⟨_, .display name hname, by simp only [List.append_assoc]⟩
  case localize =>
    obtain ⟨key, rfl, hkey, -, rfl⟩ := single_spacedWords_eq_some_iff.mp h
    refine ⟨_, .localize key hkey, ?_⟩
    simp only [List.append_assoc]
    rfl

/-- A text that spells a directive is read from the front of any longer text. -/
theorem read?_of_spelled {f : Form} {u : List Char} (h : f.Spelled d u) (rest : List Char) :
    f.read? (u ++ rest) = some (d, rest) := by
  rw [read?_eq_some_iff_body]
  cases h <;> simp only [body, opening, closing, List.append_assoc]
  case markupInclude path hpath =>
    exact ⟨_, rfl, single_nonempty_eq_some_iff.mpr
      ⟨path, rfl, hpath, ends_append rfl (by decide), rfl⟩⟩
  case escapedInclude path hpath =>
    exact ⟨_, rfl, single_nonempty_eq_some_iff.mpr
      ⟨path, rfl, hpath, ends_append rfl (by decide), rfl⟩⟩
  case stylesheetInclude path hpath =>
    exact ⟨_, rfl, single_withExtension_eq_some_iff.mpr
      ⟨path, rfl, hpath, ends_append rfl (by decide), rfl⟩⟩
  case scriptInclude path hpath =>
    exact ⟨_, rfl, single_withExtension_eq_some_iff.mpr
      ⟨path, rfl, hpath, ends_append rfl (by decide), rfl⟩⟩
  case stylesheetUrl path hpath =>
    exact ⟨_, rfl, single_withExtension_eq_some_iff.mpr
      ⟨path, rfl, hpath, ends_append rfl (by decide), rfl⟩⟩
  case scriptUrl path hpath =>
    exact ⟨_, rfl, single_withExtension_eq_some_iff.mpr
      ⟨path, rfl, hpath, ends_append rfl (by decide), rfl⟩⟩
  case imageUrl path hpath =>
    exact ⟨_, rfl, single_withExtension_eq_some_iff.mpr
      ⟨path, rfl, hpath, ends_append rfl (by decide), rfl⟩⟩
  case imagePath path hpath =>
    exact ⟨_, rfl, single_withExtension_eq_some_iff.mpr
      ⟨path, rfl, hpath, ends_append rfl (by decide), rfl⟩⟩
  case resourceUrl key hkey =>
    exact ⟨_, rfl, single_segmented_eq_some_iff.mpr
      ⟨key, rfl, hkey, ends_append rfl (by decide), rfl⟩⟩
  case setting key filter hkey hfilter hlength =>
    exact ⟨_, rfl, settingBody_eq_some_iff.mpr ⟨key, filter, rfl, hkey, hfilter, hlength, rfl⟩⟩
  case declare name value t hname ht =>
    exact ⟨_, rfl, declaration_eq_some_iff.mpr ⟨name, value, t, rfl, hname, ht, rfl⟩⟩
  case openBlock g t ht =>
    exact ⟨_, rfl, openBlock_body_eq_some_iff.mpr ⟨g, t, rfl, ht, rfl⟩⟩
  case elseBranch => exact ⟨" %]".toList ++ rest, rfl, rfl⟩
  case closeBlock => exact ⟨" %]".toList ++ rest, rfl, rfl⟩
  case display name hname =>
    exact ⟨_, rfl, single_nameText_eq_some_iff.mpr
      ⟨name, rfl, hname, ends_append rfl (by decide), rfl⟩⟩
  case localize key hkey =>
    exact ⟨_, rfl, single_spacedWords_eq_some_iff.mpr
      ⟨key, rfl, hkey, ends_append rfl (by decide), rfl⟩⟩

/-- Reading a form from the front of a text gives exactly what the text's front spells. -/
theorem read?_eq_some_iff {f : Form} :
    f.read? cs = some (d, rest) ↔ ∃ u, f.Spelled d u ∧ cs = u ++ rest := by
  constructor
  · exact exists_spelled_of_read?
  · rintro ⟨u, hu, rfl⟩
    exact read?_of_spelled hu rest

end Form

end AssetCompiler
