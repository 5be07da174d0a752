import AssetCompiler.Proofs.Directive.Preamble
import AssetCompiler.Proofs.Directive.Reading

/-! # The directives of a text are its grammar's

At one position of a text at most one form of its kind spells a directive, and with only one end:
no opening begins another, except that a displayed name could begin like a keyword, and there the
texts part behind the keyword. So the order of the forms decides nothing, and a scan finds every
place where a form spells a directive, unless it lies inside a directive found before.
-/
namespace AssetCompiler

open Text (Span size strip? strip?_eq_some_iff)

namespace Form

variable {kind : Kind} {f g : Form} {cs rest rest' : List Char} {d d' : Directive}

/-- Behind its keyword an instruction goes on with what it is about, where a displayed name
comes to its closing. -/
theorem display_read?_keyword {word inside : List Char} (hword : IsIdent word)
    (h : display.read? ("[%= ".toList ++ (word ++ ' ' :: inside)) = some (d, rest)) :
    ∃ tail, inside = '%' :: tail := by
  obtain ⟨inside', hopening, hbody⟩ := read?_eq_some_iff_body.mp h
  obtain rfl := List.append_cancel_left hopening
  obtain ⟨name, hname, hident, -, -⟩ := single_nameText_eq_some_iff.mp hbody
  have hspace : Ends isNameChar (' ' :: inside) := ends_isNameChar_space
  have hkeyword := run_nameText_eq_some_iff.mpr ⟨rfl, hword, hspace⟩
  have hclosing : Ends isNameChar (" %]".toList ++ rest) := ends_append rfl (by decide)
  have hdisplay := run_nameText_eq_some_iff.mpr ⟨hname, hident, hclosing⟩
  rw [hkeyword] at hdisplay
  obtain ⟨-, hbehind⟩ := Prod.mk.inj (Option.some.inj hdisplay)
  exact ⟨_, (List.cons.inj hbehind).2⟩

theorem eq_display_of_opening_prefix :
    ∀ f ∈ ofKind kind, ∀ g ∈ ofKind kind, f ≠ g → f.opening.toList <+: g.opening.toList →
      f = display := by
  cases kind <;> decide

/-- Where another form is read no name is displayed. -/
theorem display_excludes {inside : List Char} (hne : g ≠ display)
    (hd : display.read? (g.opening.toList ++ inside) = some (d, rest))
    (hg : g.body inside = some (d', rest')) : False := by
  have hkeyword (word : String) (hword : IsIdent word.toList)
      (h : display.read? ("[%= ".toList ++ (word.toList ++ ' ' :: inside)) = some (d, rest)) :
      ∃ tail, inside = '%' :: tail := display_read?_keyword hword h
  have hident (c : Char) (tail : List Char) (h : isNameStart c = true)
      (htail : tail.all isNameChar = true) : IsIdent (c :: tail) :=
    ⟨c, tail, rfl, h, List.all_eq_true.mp htail⟩
  cases g with
  | display => exact hne rfl
  | markupInclude =>
    obtain ⟨tail, rfl⟩ := hkeyword "include" (hident _ _ (by decide) (by decide)) hd
    cases hg
  | escapedInclude =>
    obtain ⟨tail, rfl⟩ := hkeyword "include_escaped" (hident _ _ (by decide) (by decide)) hd
    cases hg
  | stylesheetUrl =>
    obtain ⟨tail, rfl⟩ := hkeyword "stylesheet_url" (hident _ _ (by decide) (by decide)) hd
    cases hg
  | scriptUrl =>
    obtain ⟨tail, rfl⟩ := hkeyword "script_url" (hident _ _ (by decide) (by decide)) hd
    cases hg
  | imageUrl =>
    obtain ⟨tail, rfl⟩ := hkeyword "image_url" (hident _ _ (by decide) (by decide)) hd
    cases hg
  | resourceUrl =>
    obtain ⟨tail, rfl⟩ := hkeyword "resource_url" (hident _ _ (by decide) (by decide)) hd
    cases hg
  | scriptInclude => cases hd
  | imagePath => cases hd
  | stylesheetInclude => cases hd
  | setting => cases hd
  | declare => cases hd
  | openBlock => cases hd
  | elseBranch => cases hd
  | closeBlock => cases hd
  | localize => cases hd

/-- At most one form of a kind can be read from the front of a text. -/
theorem eq_of_read? (hf : f ∈ ofKind kind) (hg : g ∈ ofKind kind)
    (h : f.read? cs = some (d, rest)) (h' : g.read? cs = some (d', rest')) : f = g := by
  by_contra hne
  obtain ⟨inside, hcs, hbody⟩ := read?_eq_some_iff_body.mp h
  obtain ⟨inside', hcs', hbody'⟩ := read?_eq_some_iff_body.mp h'
  have hprefix : f.opening.toList <+: cs := ⟨inside, hcs.symm⟩
  have hprefix' : g.opening.toList <+: cs := ⟨inside', hcs'.symm⟩
  rcases List.prefix_or_prefix_of_prefix hprefix hprefix' with hle | hle
  · obtain rfl := eq_display_of_opening_prefix f hf g hg hne hle
    exact display_excludes (Ne.symm hne) (hcs' ▸ h) hbody'
  · obtain rfl := eq_display_of_opening_prefix g hg f hf (Ne.symm hne) hle
    exact display_excludes hne (hcs ▸ h') hbody

/-- What a form of the kind spells at the front of a text is what is read there. -/
theorem readFirst?_eq_some_iff :
    readFirst? (ofKind kind) cs = some (d, rest) ↔
      ∃ f ∈ ofKind kind, ∃ u, f.Spelled d u ∧ cs = u ++ rest := by
  constructor
  · intro h
    obtain ⟨f, hf, hread⟩ := List.exists_of_findSome?_eq_some h
    exact ⟨f, hf, read?_eq_some_iff.mp hread⟩
  · rintro ⟨f, hf, hspelled⟩
    have hread := read?_eq_some_iff.mpr hspelled
    cases hfirst : readFirst? (ofKind kind) cs with
    | none => rw [List.findSome?_eq_none_iff.mp hfirst f hf] at hread; cases hread
    | some found =>
      obtain ⟨g, hg, hread'⟩ := List.exists_of_findSome?_eq_some hfirst
      obtain rfl := eq_of_read? hf hg hread hread'
      exact hread'.symm.trans hread

end Form

/-- A form of the kind spells a directive in the text at the span. -/
def Form.Stands (kind : Kind) (text : List Char) (f : Form) (d : Directive) (s : Span) : Prop :=
  ∃ front u back, text = front ++ (u ++ back) ∧ f ∈ Form.ofKind kind ∧ f.Spelled d u ∧
    s = ⟨size front, size front + size u⟩

theorem Text.size_pos {cs : List Char} (h : cs ≠ []) : 0 < size cs := by
  cases cs with
  | nil => exact absurd rfl h
  | cons c tail =>
    have := c.utf8Size_pos
    simp only [size]
    omega

/-- Fronts of one text with the same number of octets are the same. -/
theorem Text.front_eq_of_size_eq {a b x y : List Char} (h : a ++ x = b ++ y)
    (hsize : size a = size b) : a = b ∧ x = y := by
  have hfront := congrArg (Text.takeOctets (size a)) h
  rw [Text.takeOctets_size_append, hsize, Text.takeOctets_size_append] at hfront
  subst hfront
  exact ⟨rfl, List.append_cancel_left h⟩

namespace Form

variable {kind : Kind} {f g : Form} {d e : Directive}

theorem Spelled.ne_nil {u : List Char} (h : f.Spelled d u) : u ≠ [] := by
  cases h <;> exact nofun

theorem Spelled.readFirst? {u : List Char} (h : f.Spelled d u) (hf : f ∈ ofKind kind)
    (rest : List Char) : readFirst? (ofKind kind) (u ++ rest) = some (d, rest) :=
  readFirst?_eq_some_iff.mpr ⟨f, hf, u, h, rfl⟩

/-- At one position of a text one form at most spells a directive, and to one end only. -/
theorem Stands.unique {text : List Char} {s t : Span} (hs : Stands kind text f d s)
    (ht : Stands kind text g e t) (hstart : s.start = t.start) : f = g ∧ d = e ∧ s = t := by
  obtain ⟨front, u, back, rfl, hf, hu, rfl⟩ := hs
  obtain ⟨front', v, back', htext, hg, hv, rfl⟩ := ht
  obtain ⟨rfl, hbehind⟩ := Text.front_eq_of_size_eq htext hstart
  have hread := read?_of_spelled hu back
  have hread' := read?_of_spelled hv back'
  rw [← hbehind] at hread'
  obtain rfl := eq_of_read? hf hg hread hread'
  rw [hread] at hread'
  obtain ⟨rfl, rfl⟩ := Prod.mk.inj (Option.some.inj hread')
  obtain rfl := List.append_cancel_right hbehind
  exact ⟨rfl, rfl, rfl⟩

end Form

/-- Every occurrence of a scan is a directive that a form of the kind spells. -/
theorem stands_of_mem_scanFrom {kind : Kind} {o : Occurrence} (front cs : List Char)
    (h : o ∈ scanFrom (Form.ofKind kind) (size front) cs) :
    o.dependency? = none ∧ ∃ f, Form.Stands kind (front ++ cs) f o.directive o.span := by
  generalize hposition : size front = position at h
  fun_induction scanFrom (Form.ofKind kind) position cs generalizing front with
  | case1 => cases h
  | case2 position c tail d rest hread stop this ih =>
    obtain ⟨f, hf, u, hu, hcs⟩ := Form.readFirst?_eq_some_iff.mp hread
    have hstop : stop = position + size u := by
      simp only [stop, hcs, Text.size_append]
      omega
    rw [hcs]
    rcases List.mem_cons.mp h with rfl | hmem
    · exact ⟨rfl, f, front, u, rest, rfl, hf, hu, by simp only [hstop, hposition]⟩
    · have hfront : size (front ++ u) = stop := by rw [Text.size_append, hstop, hposition]
      have hrest := ih (front ++ u) hfront hmem
      rwa [List.append_assoc] at hrest
  | case3 position c tail hread ih =>
    have hfront : size (front ++ [c]) = position + c.utf8Size := by
      simp [Text.size_append, size, hposition]
    have hrest := ih (front ++ [c]) hfront h
    rwa [List.append_assoc] at hrest

/-- Where a form of the kind spells a directive an occurrence of the scan begins, or one that
began before goes on. -/
theorem exists_covering_of_spelled {kind : Kind} {f : Form} (hf : f ∈ Form.ofKind kind)
    {d : Directive} {u : List Char} (hu : f.Spelled d u) (position : Nat)
    (cs front back : List Char) (hcs : cs = front ++ (u ++ back)) :
    ∃ o ∈ scanFrom (Form.ofKind kind) position cs,
      o.span.start ≤ position + size front ∧ position + size front < o.span.stop := by
  fun_induction scanFrom (Form.ofKind kind) position cs generalizing front with
  | case1 =>
    have hempty := List.append_eq_nil_iff.mp (List.append_eq_nil_iff.mp hcs.symm).2
    exact absurd hempty.1 hu.ne_nil
  | case2 position c tail e rest hread stop this ih =>
    obtain ⟨g, hg, v, hv, hcs'⟩ := Form.readFirst?_eq_some_iff.mp hread
    have hstop : stop = position + size v := by
      simp only [stop, hcs', Text.size_append]
      omega
    have hfronts : v <+: front ∨ front <+: v :=
      List.prefix_or_prefix_of_prefix ⟨rest, hcs'.symm⟩ ⟨u ++ back, hcs.symm⟩
    by_cases hlt : size front < size v
    · exact ⟨_, List.mem_cons_self, by dsimp only; omega, by dsimp only; omega⟩
    · have hbehind : v <+: front := by
        rcases hfronts with hbehind | ⟨w, hw⟩
        · exact hbehind
        have hw' : w = [] := by
          by_contra hne
          have := Text.size_pos hne
          rw [← hw, Text.size_append] at hlt
          omega
        rw [hw', List.append_nil] at hw
        exact hw ▸ List.prefix_rfl
      obtain ⟨front', rfl⟩ := hbehind
      have hrest : rest = front' ++ (u ++ back) := by
        rw [hcs', List.append_assoc] at hcs
        exact List.append_cancel_left hcs
      obtain ⟨o, hmem, hstart, hend⟩ := ih front' hrest
      rw [Text.size_append]
      exact ⟨o, List.mem_cons_of_mem _ hmem, by omega, by omega⟩
  | case3 position c tail hread ih =>
    cases front with
    | nil =>
      rw [hcs, List.nil_append, hu.readFirst? hf] at hread
      cases hread
    | cons x front =>
      obtain ⟨rfl, htail⟩ := List.cons.inj hcs
      obtain ⟨o, hmem, hstart, hend⟩ := ih front htail
      simp only [size]
      exact ⟨o, hmem, by omega, by omega⟩

theorem InOrder.pairwise {limit cursor : Nat} {os : List Occurrence} (h : InOrder limit cursor os) :
    os.Pairwise fun o p => o.span.stop ≤ p.span.start := by
  have hle : ∀ (os : List Occurrence) (cursor : Nat), InOrder limit cursor os →
      ∀ o ∈ os, cursor ≤ o.span.start := by
    intro os
    induction os with
    | nil => exact fun _ _ _ h => nomatch h
    | cons o os ih =>
      intro cursor h p hp
      obtain ⟨hstart, hlen, -, hrest⟩ := h
      rcases List.mem_cons.mp hp with rfl | hp
      · exact hstart
      · have := ih _ hrest p hp
        omega
  induction os generalizing cursor with
  | nil => exact .nil
  | cons o os ih =>
    obtain ⟨-, -, -, hrest⟩ := h
    exact .cons (hle os _ hrest) (ih hrest)

/-- What a form of the kind spells is one directive when it stands alone. -/
theorem occurrences_of_spelled {kind : Kind} {f : Form} (hf : f ∈ Form.ofKind kind) {d : Directive}
    {u : List Char} (hu : f.Spelled d u) :
    occurrences kind (String.ofList u) = [⟨⟨0, size u⟩, d, none⟩] := by
  have hread := hu.readFirst? hf []
  rw [List.append_nil] at hread
  simp only [occurrences, String.toList_ofList, scanFrom_of_readFirst? hread, size, Nat.zero_add,
    Nat.sub_zero, scanFrom]

/-- The directives of a text are those its kind's forms spell in it. At a position at most one
form spells a directive, and to one end. The directives found are such, with nothing resolved
yet, and stand one behind the other; none begins outside them; and what a form spells is found
when it stands alone. -/
theorem occurrences_exact (kind : Kind) (text : String) :
    (∀ f g d e s t, Form.Stands kind text.toList f d s → Form.Stands kind text.toList g e t →
      s.start = t.start → f = g ∧ d = e ∧ s = t) ∧
    (∀ o ∈ occurrences kind text, o.span.start < o.span.stop ∧ o.dependency? = none ∧
      ∃ f, Form.Stands kind text.toList f o.directive o.span) ∧
    (occurrences kind text).Pairwise (fun o p => o.span.stop ≤ p.span.start) ∧
    (∀ f d s, Form.Stands kind text.toList f d s →
      ∃ o ∈ occurrences kind text, o.span.start ≤ s.start ∧ s.start < o.span.stop) ∧
    (∀ f ∈ Form.ofKind kind, ∀ d u, f.Spelled d u →
      occurrences kind (String.ofList u) = [⟨⟨0, size u⟩, d, none⟩]) := by
  refine ⟨fun f g d e s t hs ht => hs.unique ht, ?_, (occurrences_inOrder kind text).pairwise, ?_,
    fun f hf d u hu => occurrences_of_spelled hf hu⟩
  · intro o ho
    obtain ⟨hdependency, f, hstands⟩ := stands_of_mem_scanFrom [] text.toList ho
    obtain ⟨front, u, back, htext, hf, hu, hspan⟩ := hstands
    refine ⟨?_, hdependency, f, front, u, back, htext, hf, hu, hspan⟩
    have := Text.size_pos hu.ne_nil
    rw [hspan]
    dsimp only
    omega
  · rintro f d s ⟨front, u, back, htext, hf, hu, rfl⟩
    obtain ⟨o, ho, hstart, hstop⟩ := exists_covering_of_spelled hf hu 0 text.toList front back htext
    rw [Nat.zero_add] at hstart hstop
    exact ⟨o, ho, hstart, hstop⟩

/-- A directive written in the quotes of another one is found as part of that one. -/
theorem occurrences_exact_in_quotes :
    let text := "<p>[% set a = \"[% end %]\" %]"
    let inside : Span := ⟨15, 24⟩
    Form.Stands .markup text.toList .closeBlock .closeBlock inside ∧
      ∃ o ∈ occurrences .markup text, o.span.start ≤ inside.start ∧ inside.start < o.span.stop := by
  intro text inside
  have h : Form.Stands .markup text.toList .closeBlock .closeBlock inside :=
    ⟨"<p>[% set a = \"".toList, "[% end %]".toList, "\" %]".toList, by decide +kernel, by decide,
      .closeBlock, by decide +kernel⟩
  exact ⟨h, (occurrences_exact .markup text).2.2.2.1 _ _ _ h⟩

end AssetCompiler
