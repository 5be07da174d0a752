import AssetCompiler.Json.Printer
import AssetCompiler.Json.Reader
import AssetCompiler.Json.Token
import Mathlib.Tactic.NormNum

/-! # Written values are read back

Scalars are spelled without loss, and so are the values made of them.
-/

/-! ## Written scalars are read back

A string is written with escapes that spell its characters again, and a whole number below
`2 ^ 64` with digits that have its value. Behind a number there must not stand a character
that would go on with it.
-/

namespace AssetCompiler.Json

theorem hexDigit?_hexChar {n : Nat} (h : n < 16) : hexDigit? (hexChar n) = some n := by
  have hall : ∀ k < 16, hexDigit? (hexChar k) = some k := by decide
  exact hall n h

theorem escape?_control {c : Char} (h : c.toNat < 0x20) (rest : List Char) :
    escape? ('u' :: '0' :: '0' :: hexChar (c.toNat / 16) :: hexChar (c.toNat % 16) :: rest) =
      some (.char c, rest) := by
  have h1 := hexDigit?_hexChar (n := c.toNat / 16) (by omega)
  have h2 := hexDigit?_hexChar (n := c.toNat % 16) (by omega)
  have h0 : hexDigit? '0' = some 0 := by decide
  have hsum : 16 * (c.toNat / 16) + c.toNat % 16 = c.toNat := by omega
  have hunit : Piece.ofUnit c.toNat = .char c := by
    rw [Piece.ofUnit, if_neg (by simp; omega), Char.ofNat_toNat]
  simp [escape?, hexFour?, h0, h1, h2, hsum, hunit]

theorem stringBody?_quote (rest : List Char) : stringBody? ('"' :: rest) = some ([], rest) := by
  rw [stringBody?]

/-- An escape in front of a string's body is one more piece. -/
theorem stringBody?_escape {tail rest : List Char} {p : Piece} (h : escape? tail = some (p, rest)) :
    stringBody? ('\\' :: tail) = (stringBody? rest).map fun (s, rest) => (p :: s, rest) := by
  rw [stringBody?]
  split
  · rename_i q r hq
    rw [h] at hq
    cases hq
    rfl
  · rename_i hn
    rw [h] at hn
    cases hn

theorem stringBody?_plain {c : Char} (hq : c ≠ '"') (hb : c ≠ '\\') (hc : ¬c.toNat < 0x20)
    (tail : List Char) :
    stringBody? (c :: tail) = (stringBody? tail).map fun (s, rest) => (.char c :: s, rest) := by
  rw [stringBody?, if_neg hc]
  · exact hq
  · exact hb

theorem stringBody?_escapeChar (c : Char) (tail : List Char) :
    stringBody? (escapeChar c ++ tail) =
      (stringBody? tail).map fun (s, rest) => (.char c :: s, rest) := by
  unfold escapeChar
  split
  · subst_vars
    exact stringBody?_escape rfl
  split
  · subst_vars
    exact stringBody?_escape rfl
  split
  · subst_vars
    exact stringBody?_escape rfl
  split
  · subst_vars
    exact stringBody?_escape rfl
  split
  · subst_vars
    exact stringBody?_escape rfl
  split
  · subst_vars
    exact stringBody?_escape rfl
  split
  · subst_vars
    exact stringBody?_escape rfl
  split
  · rename_i h
    exact stringBody?_escape (escape?_control h tail)
  · rename_i hq hb _ _ _ _ _ hc
    exact stringBody?_plain hq hb hc tail

theorem stringBody?_flatMap (cs rest : List Char) :
    stringBody? (cs.flatMap escapeChar ++ '"' :: rest) = some (cs.map Piece.char, rest) := by
  induction cs with
  | nil => exact stringBody?_quote rest
  | cons c cs ih =>
    rw [List.flatMap_cons, List.append_assoc, stringBody?_escapeChar, ih]
    rfl

theorem joinPieces?_map_char (cs : List Char) : joinPieces? (cs.map Piece.char) = some cs := by
  induction cs with
  | nil => rfl
  | cons c cs ih => simp [joinPieces?, ih]

theorem token?_quote (s : String) (rest : List Char) :
    token? (quote s ++ rest) = some (.string (some s), rest) := by
  have hbody := stringBody?_flatMap s.toList rest
  have hq : quote s ++ rest = '"' :: (s.toList.flatMap escapeChar ++ '"' :: rest) := by
    simp [quote]
  rw [hq]
  simp [token?, scalar?, hbody, joinPieces?_map_char]

/-- Whether a text does not go on with a number. -/
def EndsNumber (rest : List Char) : Prop :=
  ∀ c ∈ rest.head?, c.isDigit = false ∧ c ≠ '.' ∧ c ≠ 'e' ∧ c ≠ 'E'

theorem spanDigits_append {ds rest : List Char} (hd : ∀ c ∈ ds, c.isDigit = true)
    (hr : EndsNumber rest) : Decimal.spanDigits (ds ++ rest) = (ds, rest) := by
  have htake : rest.takeWhile Char.isDigit = [] := by
    cases rest with
    | nil => rfl
    | cons c cs => simp [(hr c rfl).1]
  have hdrop : rest.dropWhile Char.isDigit = rest := by
    cases rest with
    | nil => rfl
    | cons c cs => simp [(hr c rfl).1]
  rw [Decimal.spanDigits, List.takeWhile_append_of_pos hd, List.dropWhile_append_of_pos hd, htake, hdrop,
    List.append_nil]

theorem digitValue_digitChar {d : Nat} (h : d < 10) :
    Significand.digitValue (Nat.digitChar d) = d := by
  have hall : ∀ k < 10, Significand.digitValue (Nat.digitChar k) = k := by decide
  exact hall d h

theorem ofWhole_toDigits {n : Nat} (h : n < 2 ^ 64) :
    Significand.ofWhole (Nat.toDigits 10 n) = ⟨n, 0, false⟩ := by
  induction n using Nat.strongRecOn with
  | ind n ih =>
    by_cases hn : n < 10
    · rw [Nat.toDigits_of_lt_base hn]
      have hv := digitValue_digitChar hn
      simp only [Significand.ofWhole, List.foldl_cons, List.foldl_nil, Significand.pushWhole, hv]
      rw [if_neg (by simp; omega)]
      simp
    · have hlt : n / 10 < n := by omega
      have hi := ih (n / 10) hlt (by omega)
      have hv := digitValue_digitChar (d := n % 10) (by omega)
      rw [Nat.toDigits_of_base_le (by omega) (by omega)]
      simp only [Significand.ofWhole] at hi ⊢
      rw [List.foldl_append, hi]
      have hsum : 10 * (n / 10) + n % 10 = n := by omega
      simp only [List.foldl_cons, List.foldl_nil, Significand.pushWhole, hv, hsum]
      rw [if_neg (by simp; omega)]

theorem head?_toDigits {n : Nat} (h : 0 < n) : (Nat.toDigits 10 n).head? ≠ some '0' := by
  induction n using Nat.strongRecOn with
  | ind n ih =>
    by_cases hn : n < 10
    · rw [Nat.toDigits_of_lt_base hn]
      have hall : ∀ k < 10, 0 < k → [Nat.digitChar k].head? ≠ some '0' := by decide
      exact hall n hn h
    · rw [Nat.toDigits_of_base_le (by omega) (by omega)]
      have hi := ih (n / 10) (by omega) (by omega)
      cases hd : Nat.toDigits 10 (n / 10) with
      | nil => exact absurd hd Nat.toDigits_ne_nil
      | cons c cs =>
        rw [hd] at hi
        exact hi

theorem unsignedNumber?_toDigits {n : Nat} {rest : List Char} (h : n < 2 ^ 64) (hr : EndsNumber rest) :
    unsignedNumber? false (Nat.toDigits 10 n ++ rest) = some (some (.integer n), rest) := by
  have hspan : Decimal.spanDigits (Nat.toDigits 10 n ++ rest) = (Nat.toDigits 10 n, rest) :=
    spanDigits_append (fun c hc => Nat.isDigit_of_mem_toDigits (by decide) (by decide) hc) hr
  have hplaces : places? rest = some (none, rest) := by
    unfold places?
    split
    · exact absurd rfl (hr _ rfl).2.1
    · rfl
  have hexp : exponentPart? rest = some (none, rest) := by
    unfold exponentPart?
    split
    · exact absurd rfl (hr _ rfl).2.2.1
    · exact absurd rfl (hr _ rfl).2.2.2
    · rfl
  have hlead : ¬((Nat.toDigits 10 n = [] || ((Nat.toDigits 10 n).head? = some '0' &&
      (Nat.toDigits 10 n).length ≠ 1)) = true) := by
    by_cases hn : 0 < n
    · simp [head?_toDigits hn]
    · obtain rfl : n = 0 := by omega
      simp
  unfold unsignedNumber?
  simp only [hspan]
  rw [if_neg hlead]
  simp [hplaces, hexp, ofWhole_toDigits h, ofWhole?]

theorem token?_toDigits {n : Nat} {rest : List Char} (h : n < 2 ^ 64) (hr : EndsNumber rest) :
    token? (Nat.toDigits 10 n ++ rest) = some (.scalar (some (.integer n)), rest) := by
  have hnum := unsignedNumber?_toDigits h hr
  cases hd : Nat.toDigits 10 n with
  | nil => exact absurd hd Nat.toDigits_ne_nil
  | cons c cs =>
    have hc : c.isDigit = true :=
      Nat.isDigit_of_mem_toDigits (b := 10) (n := n) (by decide) (by decide) (by rw [hd]; simp)
    rw [hd, List.cons_append] at hnum
    have hmark : ∀ m : Char, m.isDigit = false → c ≠ m := by
      rintro m hm rfl
      rw [hc] at hm
      cases hm
    rw [List.cons_append]
    unfold token?
    split
    any_goals
      rename_i he
      injection he with he _
      exact absurd he (hmark _ (by decide))
    unfold scalar?
    split
    · rename_i he
      injection he with he _
      exact absurd he (hmark _ (by decide))
    · rename_i he
      injection he with he _
      exact absurd he (hmark _ (by decide))
    · rename_i he
      injection he with he1 he2
      subst he1 he2
      rw [if_pos hc, hnum]
      rfl
    · rename_i he
      cases he

end AssetCompiler.Json

/-! ## Indented texts are read back

A value of strings, whole numbers below `2 ^ 64`, words, arrays and objects is written as a text
whose tokens spell it, and the reader puts the value together again from these tokens.
-/

namespace AssetCompiler.Json

open Text (unite)

mutual
/-- Whether a value is made of parts that are written without loss. -/
def isPlain : Json → Bool
  | .array items => arePlain items
  | .object fields => haveOnlyPlain fields
  | .integer i => 0 ≤ i && i < 2 ^ 64
  | .float _ => false
  | _ => true

def arePlain : List Json → Bool
  | [] => true
  | v :: vs => isPlain v && arePlain vs

def haveOnlyPlain : List (String × Json) → Bool
  | [] => true
  | (_, v) :: rest => isPlain v && haveOnlyPlain rest
end

theorem arePlain_map {α : Type} {f : α → Json} {xs : List α} (h : ∀ x ∈ xs, isPlain (f x) = true) :
    arePlain (xs.map f) = true := by
  induction xs with
  | nil => rfl
  | cons x xs ih =>
    have hx := h x (by simp)
    have hxs := ih (fun y hy => h y (List.mem_cons_of_mem _ hy))
    simp [arePlain, hx, hxs]

mutual
/-- The tokens that spell a value. -/
def spelled : Json → List Token
  | .array [] => [.openArray, .closeArray]
  | .array (v :: vs) => .openArray :: (spelled v ++ (moreItems vs ++ [.closeArray]))
  | .object [] => [.openObject, .closeObject]
  | .object ((k, v) :: rest) =>
    .openObject :: .string (some k) :: .colon :: (spelled v ++ (moreFields rest ++ [.closeObject]))
  | .string s => [.string (some s)]
  | v => [.scalar (some v)]

def moreItems : List Json → List Token
  | [] => []
  | v :: vs => .comma :: (spelled v ++ moreItems vs)

def moreFields : List (String × Json) → List Token
  | [] => []
  | (k, v) :: rest => .comma :: .string (some k) :: .colon :: (spelled v ++ moreFields rest)
end

mutual
def form : Json → Form
  | .array items => .array (forms items)
  | .object fields => .object (fieldForms fields)
  | v => .scalar (some v)

def forms : List Json → List Form
  | [] => []
  | v :: vs => form v :: forms vs

def fieldForms : List (String × Json) → List (Option String × Form)
  | [] => []
  | (k, v) :: rest => (some k, form v) :: fieldForms rest
end

/-! ## Tokens of a text -/

theorem tokens?_space {c : Char} (h : isSpace c = true) (cs : List Char) :
    tokens? (c :: cs) = tokens? cs := by
  rw [tokens?, if_pos h]

theorem tokens?_newline (level : Nat) (rest : List Char) :
    tokens? (newline level ++ rest) = tokens? rest := by
  have hblanks : ∀ n, tokens? (List.replicate n ' ' ++ rest) = tokens? rest := by
    intro n
    induction n with
    | zero => rfl
    | succ n ih =>
      rw [List.replicate_succ, List.cons_append, tokens?_space (by decide), ih]
  rw [newline, List.cons_append, tokens?_space (by decide), hblanks]

/-- A token at the front of a text is its first one. -/
theorem tokens?_token {cs rest : List Char} {t : Token} (h : token? cs = some (t, rest))
    (hs : ∀ c ∈ cs.head?, isSpace c = false) : tokens? cs = (tokens? rest).map (t :: ·) := by
  cases cs with
  | nil => cases h
  | cons c tail =>
    have hc := hs c rfl
    rw [tokens?, if_neg (by simp [hc])]
    split
    · rename_i u r hr
      rw [h] at hr
      cases hr
      rfl
    · rename_i hr
      rw [h] at hr
      cases hr

theorem tokens?_mark {c : Char} {t : Token} {rest : List Char} (h : token? (c :: rest) = some (t, rest))
    (hc : isSpace c = false) : tokens? (c :: rest) = (tokens? rest).map (t :: ·) :=
  tokens?_token h fun _ hd => (Option.some.inj hd) ▸ hc

theorem tokens?_quote (s : String) (rest : List Char) :
    tokens? (quote s ++ rest) = (tokens? rest).map (.string (some s) :: ·) := by
  refine tokens?_token (token?_quote s rest) fun c hc => ?_
  have h : '"' = c := by simpa [quote] using hc
  exact h ▸ rfl

theorem tokens?_word (s : String) (v : Json) (rest : List Char)
    (h : token? (s.toList ++ rest) = some (.scalar (some v), rest))
    (hs : ((s.toList ++ rest).head?.map isSpace).getD false = false) :
    tokens? (s.toList ++ rest) = (tokens? rest).map ([.scalar (some v)] ++ ·) := by
  refine tokens?_token h fun c hc => ?_
  rw [Option.mem_def.mp hc] at hs
  exact hs

theorem tokens?_toDigits {n : Nat} {rest : List Char} (h : n < 2 ^ 64) (hr : EndsNumber rest) :
    tokens? (Nat.toDigits 10 n ++ rest) = (tokens? rest).map ([.scalar (some (.integer n))] ++ ·) := by
  refine tokens?_token (token?_toDigits h hr) fun c hc => ?_
  have hmem : c ∈ Nat.toDigits 10 n := by
    cases hd : Nat.toDigits 10 n with
    | nil => exact absurd hd Nat.toDigits_ne_nil
    | cons d ds =>
      rw [hd] at hc
      simp [Option.some.inj hc]
  have hdigit := Nat.isDigit_of_mem_toDigits (by decide) (by decide) hmem
  cases hs : isSpace c with
  | false => rfl
  | true =>
    simp only [isSpace, Bool.or_eq_true, beq_iff_eq] at hs
    rcases hs with ((rfl | rfl) | rfl) | rfl <;> cases hdigit

theorem unite_cons (sep p : List Char) (ps : List (List Char)) :
    unite sep (p :: ps) = p ++ ps.flatMap (sep ++ ·) := by
  induction ps generalizing p with
  | nil => simp [unite]
  | cons q qs ih => simp [unite, ih q]

theorem endsNumber_cons {c : Char} {rest : List Char} (h : c.isDigit = false) (hp : c ≠ '.')
    (he : c ≠ 'e') (hE : c ≠ 'E') : EndsNumber (c :: rest) := by
  intro d hd
  obtain rfl : c = d := Option.some.inj hd
  exact ⟨h, hp, he, hE⟩

theorem endsNumber_newline (level : Nat) (rest : List Char) : EndsNumber (newline level ++ rest) :=
  endsNumber_cons (by decide) (by decide) (by decide) (by decide)

theorem endsNumber_more (level : Nat) (parts : List (List Char)) {rest : List Char}
    (h : EndsNumber rest) : EndsNumber (parts.flatMap (fun p => ',' :: (newline level ++ p)) ++ rest) := by
  cases parts with
  | nil => exact h
  | cons p ps => exact endsNumber_cons (by decide) (by decide) (by decide) (by decide)

mutual
theorem tokens?_indentedChars (level : Nat) (v : Json) (rest : List Char) (hv : isPlain v = true)
    (hr : EndsNumber rest) :
    tokens? (indentedChars level v ++ rest) = (tokens? rest).map (spelled v ++ ·) := by
  match v with
  | .null => exact tokens?_word "null" .null rest (by simp [token?, scalar?, word?, Text.strip?]) rfl
  | .bool true =>
    exact tokens?_word "true" (.bool true) rest (by simp [token?, scalar?, word?, Text.strip?]) rfl
  | .bool false =>
    exact tokens?_word "false" (.bool false) rest (by simp [token?, scalar?, word?, Text.strip?]) rfl
  | .integer i =>
    simp only [isPlain, Bool.and_eq_true, decide_eq_true_eq] at hv
    obtain ⟨n, rfl⟩ := Int.eq_ofNat_of_zero_le hv.1
    have hn : n < 2 ^ 64 := by
      have h64 := hv.2
      norm_cast at h64
    have hdigits : indentedChars level (.integer n) = Nat.toDigits 10 n := Nat.toList_repr
    rw [hdigits]
    exact tokens?_toDigits hn hr
  | .float f => simp [isPlain] at hv
  | .string s => exact tokens?_quote s rest
  | .array [] =>
    rw [indentedChars, indentedItems, block, if_pos rfl, List.cons_append, tokens?_mark rfl rfl,
      List.cons_append, tokens?_mark rfl rfl, spelled]
    simp [Option.map_map, Function.comp_def]
  | .array (v :: vs) =>
    simp only [isPlain, arePlain, Bool.and_eq_true] at hv
    have hend : EndsNumber (newline level ++ (']' :: rest)) := endsNumber_newline level _
    have h1 := tokens?_indentedChars (level + 1) v _ hv.1 (endsNumber_more (level + 1)
      (indentedItems (level + 1) vs) hend)
    have h2 := tokens?_indentedItems (level + 1) vs _ hv.2 hend
    rw [indentedChars, indentedItems, block, if_neg (by simp), unite_cons]
    simp only [List.cons_append, List.append_assoc, List.nil_append]
    rw [tokens?_mark rfl rfl, tokens?_newline, h1, h2, tokens?_newline, tokens?_mark rfl rfl, spelled]
    simp [Option.map_map, Function.comp_def]
  | .object [] =>
    rw [indentedChars, indentedFields, block, if_pos rfl, List.cons_append, tokens?_mark rfl rfl,
      List.cons_append, tokens?_mark rfl rfl, spelled]
    simp [Option.map_map, Function.comp_def]
  | .object ((k, v) :: kvs) =>
    simp only [isPlain, haveOnlyPlain, Bool.and_eq_true] at hv
    have hend : EndsNumber (newline level ++ ('\x7d' :: rest)) := endsNumber_newline level _
    have h1 := tokens?_indentedChars (level + 1) v _ hv.1 (endsNumber_more (level + 1)
      (indentedFields (level + 1) kvs) hend)
    have h2 := tokens?_indentedFields (level + 1) kvs _ hv.2 hend
    rw [indentedChars, indentedFields, block, if_neg (by simp), unite_cons]
    simp only [List.cons_append, List.append_assoc, List.nil_append]
    rw [tokens?_mark rfl rfl, tokens?_newline, tokens?_quote, tokens?_mark rfl rfl,
      tokens?_space rfl, h1, h2, tokens?_newline, tokens?_mark rfl rfl, spelled]
    simp [Option.map_map, Function.comp_def]

theorem tokens?_indentedItems (level : Nat) (vs : List Json) (rest : List Char)
    (hv : arePlain vs = true) (hr : EndsNumber rest) :
    tokens? ((indentedItems level vs).flatMap (fun p => ',' :: (newline level ++ p)) ++ rest) =
      (tokens? rest).map (moreItems vs ++ ·) := by
  match vs with
  | [] => simp [indentedItems, moreItems]
  | v :: vs =>
    simp only [arePlain, Bool.and_eq_true] at hv
    have h1 := tokens?_indentedChars level v
      ((indentedItems level vs).flatMap (fun p => ',' :: (newline level ++ p)) ++ rest) hv.1
      (endsNumber_more level _ hr)
    have h2 := tokens?_indentedItems level vs rest hv.2 hr
    rw [indentedItems, List.flatMap_cons]
    simp only [List.cons_append, List.append_assoc]
    rw [tokens?_mark rfl rfl, tokens?_newline, h1, h2, moreItems]
    simp [Option.map_map, Function.comp_def]

theorem tokens?_indentedFields (level : Nat) (kvs : List (String × Json)) (rest : List Char)
    (hv : haveOnlyPlain kvs = true) (hr : EndsNumber rest) :
    tokens? ((indentedFields level kvs).flatMap (fun p => ',' :: (newline level ++ p)) ++ rest) =
      (tokens? rest).map (moreFields kvs ++ ·) := by
  match kvs with
  | [] => simp [indentedFields, moreFields]
  | (k, v) :: kvs =>
    simp only [haveOnlyPlain, Bool.and_eq_true] at hv
    have h1 := tokens?_indentedChars level v
      ((indentedFields level kvs).flatMap (fun p => ',' :: (newline level ++ p)) ++ rest) hv.1
      (endsNumber_more level _ hr)
    have h2 := tokens?_indentedFields level kvs rest hv.2 hr
    rw [indentedFields, List.flatMap_cons]
    simp only [List.cons_append, List.append_assoc]
    rw [tokens?_mark rfl rfl, tokens?_newline, tokens?_quote, tokens?_mark rfl rfl,
      tokens?_space rfl, h1, h2, moreFields]
    simp [Option.map_map, Function.comp_def]
end

/-! ## Values from tokens -/

open Reader (step deliver)

/-- Takes tokens without a limit on open frames. -/
def takeAll (r : Reader) (ts : List Token) : Option Reader := ts.foldlM (step none) r

theorem takeAll_cons (r : Reader) (t : Token) (ts : List Token) :
    takeAll r (t :: ts) = (step none r t).bind (takeAll · ts) := List.foldlM_cons

theorem takeAll_firstItem (v : Json) (fs : List Frame) (ts : List Token) :
    takeAll ⟨.firstItem, fs⟩ (spelled v ++ ts) = takeAll ⟨.value, fs⟩ (spelled v ++ ts) := by
  cases v with
  | array items => cases items <;> rfl
  | object fields =>
    cases fields with
    | nil => rfl
    | cons f fields => rfl
  | _ => rfl

mutual
/-- The tokens of a value deliver its form to the innermost frame. -/
theorem takeAll_spelled (v : Json) (fs : List Frame) (ts : List Token) :
    takeAll ⟨.value, fs⟩ (spelled v ++ ts) = (deliver (form v) fs).bind (takeAll · ts) := by
  match v with
  | .null | .bool _ | .integer _ | .float _ | .string _ => rfl
  | .array [] => rfl
  | .array (v :: vs) =>
    have h1 := takeAll_spelled v (.items [] :: fs) (moreItems vs ++ (.closeArray :: ts))
    have h2 := takeAll_moreItems vs [form v] fs (.closeArray :: ts)
    rw [spelled]
    simp only [List.cons_append, List.append_assoc, List.nil_append]
    rw [takeAll_cons]
    change takeAll ⟨.firstItem, .items [] :: fs⟩ _ = _
    rw [takeAll_firstItem, h1]
    change takeAll ⟨.next, .items [form v] :: fs⟩ _ = _
    rw [h2, takeAll_cons]
    change (deliver (.array ((forms vs).reverse ++ [form v]).reverse) fs).bind _ = _
    simp [form, forms]
  | .object [] => rfl
  | .object ((k, v) :: kvs) =>
    have h1 := takeAll_spelled v (.keyed [] (some k) :: fs) (moreFields kvs ++ (.closeObject :: ts))
    have h2 := takeAll_moreFields kvs [(some k, form v)] fs (.closeObject :: ts)
    rw [spelled]
    simp only [List.cons_append, List.append_assoc, List.nil_append]
    rw [takeAll_cons]
    change takeAll ⟨.value, .keyed [] (some k) :: fs⟩ _ = _
    rw [h1]
    change takeAll ⟨.next, .fields [(some k, form v)] :: fs⟩ _ = _
    rw [h2, takeAll_cons]
    change (deliver (.object ((fieldForms kvs).reverse ++ [(some k, form v)]).reverse) fs).bind _ = _
    simp [form, fieldForms]

theorem takeAll_moreItems (vs : List Json) (read : List Form) (fs : List Frame) (ts : List Token) :
    takeAll ⟨.next, .items read :: fs⟩ (moreItems vs ++ ts) =
      takeAll ⟨.next, .items ((forms vs).reverse ++ read) :: fs⟩ ts := by
  match vs with
  | [] => rfl
  | v :: vs =>
    have h1 := takeAll_spelled v (.items read :: fs) (moreItems vs ++ ts)
    have h2 := takeAll_moreItems vs (form v :: read) fs ts
    rw [moreItems]
    simp only [List.cons_append, List.append_assoc]
    rw [takeAll_cons]
    change takeAll ⟨.value, .items read :: fs⟩ _ = _
    rw [h1]
    change takeAll ⟨.next, .items (form v :: read) :: fs⟩ _ = _
    rw [h2]
    simp [forms]

theorem takeAll_moreFields (kvs : List (String × Json)) (read : List (Option String × Form))
    (fs : List Frame) (ts : List Token) :
    takeAll ⟨.next, .fields read :: fs⟩ (moreFields kvs ++ ts) =
      takeAll ⟨.next, .fields ((fieldForms kvs).reverse ++ read) :: fs⟩ ts := by
  match kvs with
  | [] => rfl
  | (k, v) :: kvs =>
    have h1 := takeAll_spelled v (.keyed read (some k) :: fs) (moreFields kvs ++ ts)
    have h2 := takeAll_moreFields kvs ((some k, form v) :: read) fs ts
    rw [moreFields]
    simp only [List.cons_append, List.append_assoc]
    rw [takeAll_cons]
    change takeAll ⟨.value, .keyed read (some k) :: fs⟩ _ = _
    rw [h1]
    change takeAll ⟨.next, .fields ((some k, form v) :: read) :: fs⟩ _ = _
    rw [h2]
    simp [fieldForms]
end

/-- A value without floats is found again in its indented text. -/
theorem readForm?_indented (v : Json) (hv : isPlain v = true) :
    readForm? none v.indented = some (form v) := by
  have ht := tokens?_indentedChars 0 v [] hv (fun c hc => by cases hc)
  have hr := takeAll_spelled v [] []
  rw [List.append_nil] at ht hr
  have hnil : tokens? [] = some [] := by rw [tokens?]
  rw [hnil] at ht
  simp only [Option.map_some, List.append_nil] at ht
  rw [readForm?, indented, String.toList_ofList, ht, Option.bind_some, formOfTokens?]
  have hfold : (spelled v).foldlM (Reader.step none) {} = some ⟨.finished (form v), []⟩ := hr
  rw [hfold]

end AssetCompiler.Json
