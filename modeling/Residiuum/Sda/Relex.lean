import Residiuum.Sda.Printed

/-!
# Lexing what was formatted

The text of a formatted program is read as the tokens of the program: every word, number and symbol
is followed by a character that does not continue it.

* **`piece_expr`**: the text of an expression, in front of a character that ends it.
* **`lexes_program`**: the text of a program.
-/

namespace Residiuum.Sda

open Bool CharTables Expr List Option

variable {T : CharTables}

variable (T) in
/-- The characters are read as these tokens, from every position and with any fuel that suffices. -/
def Lexes (cs : Text) (ts : List TokenKind) : Prop :=
  ∀ pos fuel, cs.length ≤ fuel → ∃ tokens, lexLoop T fuel pos cs = .ok tokens ∧
    tokens.map Token.kind = ts

theorem lexes_nil : Lexes T [] [] := fun _ fuel _ => ⟨[], by cases fuel <;> rfl, rfl⟩

variable {kind long short : TokenKind} {next : Char} {w : Text} {cs s : Text} {c : Char}

section Step

variable {c : Char} {cs rest : Text} {ts : List TokenKind}

/-- One turn of the loop, with or without a token. -/
theorem lexes_scan {k : Option TokenKind} (hscan : ∀ pos, scan T pos c cs = .ok (k, rest))
    (hlen : rest.length ≤ cs.length) (h : Lexes T rest ts) :
    Lexes T (c :: cs) (k.toList ++ ts) := by
  intro pos fuel hfuel
  rw [length_cons] at hfuel
  obtain ⟨fuel, rfl⟩ := Nat.exists_eq_succ_of_ne_zero (show fuel ≠ 0 by omega)
  obtain ⟨tokens, hlex, hkinds⟩ := h (pos + ((c :: cs).length - rest.length)) fuel (by omega)
  refine ⟨k.toList.map (⟨·, pos⟩) ++ tokens, ?_, by cases k <;> simp [hkinds]⟩
  rw [lexLoop, hscan pos]
  change lexLoop T fuel _ rest >>= _ = _
  rw [hlex]
  cases k <;> rfl

theorem lexes_token (hscan : ∀ pos, scan T pos c cs = .ok (some kind, rest))
    (hlen : rest.length ≤ cs.length) (h : Lexes T rest ts) : Lexes T (c :: cs) (kind :: ts) :=
  lexes_scan hscan hlen h

/-! ## Blanks and symbols -/

theorem lexes_space (hc : isWhitespace c = true) (h : Lexes T cs ts) : Lexes T (c :: cs) ts :=
  lexes_scan (fun _ => if_pos hc) le_rfl h

theorem lexes_blank (h : Lexes T cs ts) : Lexes T (' ' :: cs) ts := lexes_space rfl h

/-- The characters that start a symbol the formatter writes. -/
def symbolChars : Text := "-=!<>|+*/()[]\x7b\x7d?:,;".toList

theorem symbolChars_facts : ∀ c ∈ symbolChars, c.toNat < 128 ∧ c.isAlpha = false ∧ c ≠ '_' ∧
    isWhitespace c = false ∧ c.isDigit = false ∧ c ≠ '.' ∧ c ≠ '"' :=
  forall_mem_of_all rfl

theorem lexes_symbol (hc : c ∈ symbolChars)
    (hsymbol : scanSymbol c cs = some (kind, rest)) (hcomment : c = ';' → cs.head? ≠ some ';')
    (hlen : rest.length ≤ cs.length) (h : Lexes T rest ts) : Lexes T (c :: cs) (kind :: ts) := by
  obtain ⟨hascii, halpha, hunder, hspace, hdigit, hdot, hquote⟩ := symbolChars_facts c hc
  refine lexes_token (fun pos => ?_) hlen h
  have hnumber : ¬ (c.isDigit = true ∨ c = '.' ∧ (cs.head?.any Char.isDigit) = true) := by
    rintro (hd | ⟨hd, -⟩)
    · rw [hdigit] at hd
      cases hd
    · exact hdot hd
  rw [scan, if_neg (by rw [hspace]; exact false_ne_true), if_neg fun h => hcomment h.1 h.2,
    if_neg hnumber, if_neg hquote, if_neg (by
      rw [isWordStart_ascii hascii halpha hunder]
      exact false_ne_true), hsymbol]

theorem lexes_char (hc : c ∈ symbolChars ∧ c ≠ ';')
    (hsymbol : ∀ cs, scanSymbol c cs = some (kind, cs)) (h : Lexes T cs ts) :
    Lexes T (c :: cs) (kind :: ts) :=
  lexes_symbol hc.1 (hsymbol cs) (fun h => absurd h hc.2) le_rfl h

theorem pairSymbol_short (h : cs.head? ≠ some next) :
    pairSymbol next long short cs = (short, cs) := by
  cases cs with
  | nil => rfl
  | cons d cs => exact if_neg fun hd => h (by rw [hd]; rfl)

theorem lexes_short (hc : c ∈ symbolChars ∧ c ≠ ';')
    (hsymbol : ∀ cs, scanSymbol c cs = some (pairSymbol next long short cs))
    (hnext : cs.head? ≠ some next) (h : Lexes T cs ts) : Lexes T (c :: cs) (short :: ts) :=
  lexes_symbol hc.1 ((hsymbol cs).trans (by rw [pairSymbol_short hnext])) (fun h => absurd h hc.2)
    le_rfl h

theorem lexes_long (hc : c ∈ symbolChars ∧ c ≠ ';')
    (hsymbol : ∀ cs, scanSymbol c cs = some (pairSymbol next long short cs)) (h : Lexes T cs ts) :
    Lexes T (c :: next :: cs) (long :: ts) := by
  refine lexes_symbol hc.1 ((hsymbol _).trans (congrArg some (if_pos rfl))) (fun h => absurd h hc.2)
    ?_ h
  rw [length_cons]
  omega

end Step

/-! ## Words, numbers and strings -/

/-- The characters that may follow a word or a number. -/
def boundaryChars : Text := " ),;]\x7d(<?!:[\x7b".toList

theorem boundaryChars_facts : ∀ c ∈ boundaryChars, c.toNat < 128 ∧ c.isAlpha = false ∧
    c.isDigit = false ∧ c ≠ '_' ∧ isDecimalChar c = false ∧ c ≠ 'e' ∧ c ≠ 'E' ∧ c ≠ '>' ∧
      c ≠ '=' :=
  forall_mem_of_all rfl

/-- The text starts with a character that ends a word or a number. -/
def Boundary (cs : Text) : Prop := ∀ c ∈ cs.head?, c ∈ boundaryChars

theorem boundary_cons (h : c ∈ boundaryChars) : Boundary (c :: cs) := by
  intro d hd
  cases hd
  exact h

section Tokens

variable {rest : Text} {ts : List TokenKind}

theorem takeWhile_boundary {p : Char → Bool} (hw : ∀ c ∈ w, p c = true)
    (hrest : ∀ c ∈ rest.head?, p c = false) :
    (w ++ rest).takeWhile p = w ∧ (w ++ rest).dropWhile p = rest := by
  have hnone : rest.takeWhile p = [] ∧ rest.dropWhile p = rest := by
    cases rest with
    | nil => exact ⟨rfl, rfl⟩
    | cons c cs =>
      have hc := hrest c rfl
      exact ⟨takeWhile_cons_of_neg (by simp [hc]), dropWhile_cons_of_neg (by simp [hc])⟩
  rw [takeWhile_append_of_pos hw, dropWhile_append_of_pos hw, hnone.1, hnone.2,
    append_nil]
  exact ⟨rfl, rfl⟩

theorem Boundary.isWordChar (h : Boundary rest) : ∀ c ∈ rest.head?, T.isWordChar c = false := by
  intro c hc
  obtain ⟨hascii, halpha, hdigit, hne, -⟩ := boundaryChars_facts c (h c hc)
  exact isWordChar_ascii hascii halpha hdigit hne

theorem isWordStart_facts (h : T.isWordStart c = true) :
    isWhitespace c = false ∧ c.isDigit = false ∧ c ≠ '.' ∧ c ≠ '"' ∧ c ≠ ';' ∧ c ≠ '>' := by
  have hascii : ∀ d : Char, d.toNat < 128 → d.isAlpha = false → d ≠ '_' → c ≠ d := by
    rintro d hd halpha hne rfl
    rw [isWordStart_ascii hd halpha hne] at h
    cases h
  refine ⟨?_, ?_, hascii '.' (by decide) rfl (by decide), hascii '"' (by decide) rfl (by decide),
    hascii ';' (by decide) rfl (by decide), hascii '>' (by decide) rfl (by decide)⟩
  · rw [eq_false_iff]
    intro hspace
    rw [isWordStart, T.isAlphabetic_space c hspace, Bool.false_or, beq_iff_eq] at h
    rw [h] at hspace
    exact absurd hspace (by decide)
  · rw [eq_false_iff]
    intro hdigit
    obtain ⟨hlo, hhi⟩ := isDigit_toNat hdigit
    refine hascii c (by omega) ?_ ?_ rfl
    · rw [eq_false_iff]
      intro halpha
      have := isAlpha_toNat halpha
      omega
    · rintro rfl
      exact absurd hdigit (by decide)

theorem lexes_word (hw : isIdentifier T w = true) (hne : w ≠ ['_'])
    (hrest : Boundary rest) (h : Lexes T rest ts) : Lexes T (w ++ rest) (wordKind w :: ts) := by
  cases w with
  | nil => cases hw
  | cons c w =>
    rw [isIdentifier, and_eq_true, List.all_eq_true] at hw
    obtain ⟨hstart, hall⟩ := hw
    obtain ⟨hspace, hdigit, hdot, hquote, hsemi, -⟩ := isWordStart_facts hstart
    have hnumber :
        ¬ (c.isDigit = true ∨ c = '.' ∧ ((w ++ rest).head?.any Char.isDigit) = true) := by
      rintro (hd | ⟨hd, -⟩)
      · rw [hdigit] at hd
        cases hd
      · exact hdot hd
    have hmore : ¬ (c = '_' ∧ ((w ++ rest).head?.all fun next => !T.isWordChar next) = true) := by
      rintro ⟨rfl, hend⟩
      cases w with
      | nil => exact hne rfl
      | cons d w =>
        have hd := hall d mem_cons_self
        simp [hd] at hend
    obtain ⟨htake, hdrop⟩ := takeWhile_boundary hall hrest.isWordChar
    rw [cons_append]
    refine lexes_token (fun pos => ?_) (by rw [length_append]; omega) h
    rw [scan, if_neg (by rw [hspace]; exact false_ne_true), if_neg fun h => hsemi h.1,
      if_neg hnumber, if_neg hquote, if_pos hstart, if_neg hmore, htake, hdrop]

theorem lexes_placeholder (hrest : Boundary rest) (h : Lexes T rest ts) :
    Lexes T ('_' :: rest) (.placeholder :: ts) := by
  have hstart : T.isWordStart '_' = true := by
    rw [isWordStart, beq_self_eq_true, Bool.or_true]
  have hend : (rest.head?.all fun next => !T.isWordChar next) = true := by
    have hword := hrest.isWordChar (T := T)
    cases hhead : rest.head? with
    | none => rfl
    | some c => simp [hword c hhead]
  refine lexes_token (fun pos => ?_) le_rfl h
  rw [scan, if_neg (by decide), if_neg (fun h => absurd h.1 (by decide)), if_neg ?_,
    if_neg (by decide), if_pos hstart, if_pos ⟨rfl, hend⟩]
  rintro (hd | ⟨hd, -⟩)
  all_goals exact absurd hd (by decide)

theorem lexes_keyword (hw : w ≠ [] ∧ isLetters w = true) (hkind : wordKind w = kind)
    (hrest : Boundary rest) (h : Lexes T rest ts) : Lexes T (w ++ rest) (kind :: ts) := by
  have hunder : w ≠ ['_'] := by
    rintro rfl
    exact absurd hw (by decide)
  rw [← hkind]
  exact lexes_word (isIdentifier_letters hw.1 hw.2) hunder hrest h

theorem scanString_formatChar (c : Char) (cs : Text) : scanString (formatChar c ++ cs) =
    (scanString cs).map fun sr => (c :: sr.1, sr.2) := by
  unfold formatChar
  split_ifs with hslash hquote hn hr ht
  · subst hslash
    rfl
  · subst hquote
    rfl
  · subst hn
    rfl
  · subst hr
    rfl
  · subst ht
    rfl
  · rw [singleton_append, scanString.eq_def]
    dsimp only
    rw [if_neg hquote, if_neg hslash]

theorem scanString_format (s : Text) :
    scanString (s.flatMap formatChar ++ '"' :: rest) = some (s, rest) := by
  induction s with
  | nil =>
    rw [flatMap_nil, nil_append, scanString.eq_def]
    exact if_pos rfl
  | cons c s ih =>
    rw [flatMap_cons, append_assoc, scanString_formatChar, ih]
    rfl

theorem lexes_string (s : Text) (h : Lexes T rest ts) :
    Lexes T (formatString s ++ rest) (.str s :: ts) := by
  have htext : formatString s ++ rest = '"' :: (s.flatMap formatChar ++ '"' :: rest) := by
    simp [formatString]
  rw [htext]
  refine lexes_token (fun pos => ?_) (by simp only [length_append, length_cons]; omega) h
  rw [scan, if_neg (by decide), if_neg (fun h => absurd h.1 (by decide)), if_neg ?_, if_pos rfl,
    scanString_format]
  rintro (hd | ⟨hd, -⟩)
  all_goals exact absurd hd (by decide)

theorem lexes_number {q : ExactNum} (hq : IsLiteral q) (hexact : Exact q) (hrest : Boundary rest)
    (h : Lexes T rest ts) : Lexes T (canonicalString q ++ rest) (.num q :: ts) := by
  obtain ⟨a, b, -, -, hden⟩ := hq.finite
  obtain ⟨n, scale, htext, hparse⟩ := finiteDecimalString_of_den hden
  rw [(mkRat_exchanged_iff hden).mpr hexact] at hparse
  have hsign : decide (q.num < 0) = false := by
    rw [decide_eq_false_iff_not, not_lt]
    exact Rat.num_nonneg.mpr hq.nonneg
  rw [hsign] at htext hparse
  obtain ⟨int, frac, hpoint, hne, hint, hfrac, -, -⟩ := decimalText_eq false n scale
  have hcanon : canonicalString q = decimalText false n scale := by
    rw [canonicalString, htext]
    rfl
  obtain ⟨d, int, rfl⟩ := exists_cons_of_ne_nil hne
  have hd : d.isDigit = true := hint d mem_cons_self
  have hall : ∀ c ∈ decimalText false n scale, isDecimalChar c = true := by
    intro c hc
    rw [hpoint, pointText, if_neg Bool.false_ne_true, nil_append, mem_append] at hc
    rcases hc with hc | hc
    · rw [isDecimalChar, hint c hc]
      rfl
    · split_ifs at hc with hfr
      · cases hc
      · rcases mem_cons.mp hc with rfl | hc
        · rfl
        · rw [isDecimalChar, hfrac c hc]
          rfl
  obtain ⟨more, hmore⟩ : ∃ more, decimalText false n scale = d :: more :=
    ⟨_, by rw [hpoint, pointText, if_neg Bool.false_ne_true, nil_append, cons_append]⟩
  have hstop : ∀ c ∈ rest.head?, isDecimalChar c = false := fun c hc =>
    (boundaryChars_facts c (hrest c hc)).2.2.2.2.1
  have hexp : scanExponent rest = ([], rest) := by
    cases rest with
    | nil => rfl
    | cons c cs =>
      obtain ⟨-, -, -, -, -, he, hE, -⟩ := boundaryChars_facts c (hrest c rfl)
      exact if_neg fun h => h.elim he hE
  obtain ⟨htake, hdrop⟩ := takeWhile_boundary hall hstop
  have hscan : scanNumber (decimalText false n scale ++ rest) =
      (decimalText false n scale, rest) := by
    rw [scanNumber, htake, hdrop, hexp]
    simp
  rw [hcanon, hmore, cons_append]
  rw [hmore, cons_append] at hscan
  rw [hmore] at hparse
  refine lexes_token (fun pos => ?_) (by rw [length_append]; omega) h
  rw [scan, if_neg (by rw [isWhitespace_of_isDigit hd]; exact false_ne_true),
    if_neg (fun h => ne_of_isDigit hd rfl h.1), if_pos (.inl hd), hscan]
  dsimp only
  rw [hparse]

end Tokens

/-! ## Pieces of text -/

variable (T) in
/-- In front of a character that ends it, the text `s` is read as the tokens `t`. -/
def Piece (s : Text) (t : List TokenKind) : Prop :=
  ∀ ⦃rest : Text⦄ ⦃ts : List TokenKind⦄, Boundary rest → Lexes T rest ts →
    Lexes T (s ++ rest) (t ++ ts)

section Pieces

variable {s s' : Text} {t t' : List TokenKind}

theorem piece_name {name : Text} (h : IsName T name) : Piece T name [.ident name] := by
  intro rest ts hrest hlex
  have hword := lexes_word h.word h.ne hrest hlex
  rwa [h.kind] at hword

theorem piece_keyword (hw : w ≠ [] ∧ isLetters w = true) (hkind : wordKind w = kind) :
    Piece T w [kind] :=
  fun _ _ hrest hlex => lexes_keyword hw hkind hrest hlex

theorem piece_string (s : Text) : Piece T (formatString s) [.str s] := fun _ _ _ hlex =>
  lexes_string s hlex

theorem lexes_lParen {ts : List TokenKind} (h : Lexes T cs ts) :
    Lexes T ('(' :: cs) (.lParen :: ts) :=
  lexes_char (by decide) (fun _ => rfl) h

theorem lexes_rParen {ts : List TokenKind} (h : Lexes T cs ts) :
    Lexes T (')' :: cs) (.rParen :: ts) :=
  lexes_char (by decide) (fun _ => rfl) h

theorem Piece.wrap (h : Piece T s t) (prec minPrec : ℕ) :
    Piece T (wrapIfNeeded s prec minPrec) (wrapTokens t prec minPrec) := by
  intro rest ts hrest hlex
  unfold wrapIfNeeded wrapTokens
  split_ifs
  · have hclose : Boundary (')' :: rest) := boundary_cons (by decide)
    have := lexes_lParen (h hclose (lexes_rParen hlex))
    simpa using this
  · exact h hrest hlex

theorem piece_join {α : Type} {f : α → Text} {g : α → List TokenKind} {xs : List α}
    (h : ∀ x ∈ xs, Piece T (f x) (g x)) :
    Piece T (joinList (xs.map f)) (joinTokens (xs.map g)) := by
  induction xs with
  | nil => exact fun _ _ _ hlex => hlex
  | cons x xs ih =>
    obtain ⟨hx, hxs⟩ := forall_mem_cons.mp h
    intro rest ts hrest hlex
    cases xs with
    | nil => exact hx hrest hlex
    | cons y ys =>
      have hcomma : Boundary (',' :: ' ' :: (joinList ((y :: ys).map f) ++ rest)) :=
        boundary_cons (by decide)
      have hblank : Lexes T (' ' :: (joinList ((y :: ys).map f) ++ rest))
          (joinTokens ((y :: ys).map g) ++ ts) :=
        lexes_blank (ih hxs hrest hlex)
      have hlexcomma : Lexes T (',' :: ' ' :: (joinList ((y :: ys).map f) ++ rest))
          (.comma :: (joinTokens ((y :: ys).map g) ++ ts)) :=
        lexes_char (by decide) (fun _ => rfl) hblank
      have htext : joinList ((x :: y :: ys).map f) ++ rest =
          f x ++ ',' :: ' ' :: (joinList ((y :: ys).map f) ++ rest) := by
        change (f x ++ [',', ' '] ++ joinList ((y :: ys).map f)) ++ rest = _
        simp
      have htokens : joinTokens ((x :: y :: ys).map g) ++ ts =
          g x ++ .comma :: (joinTokens ((y :: ys).map g) ++ ts) := by
        change (g x ++ .comma :: joinTokens ((y :: ys).map g)) ++ ts = _
        rw [append_assoc, cons_append]
      rw [htext, htokens]
      exact hx hcomma hlexcomma

theorem piece_bracket {c c' : Char} {k k' : TokenKind} (hw : w ≠ [] ∧ isLetters w = true)
    (hkind : wordKind w = kind) (hc : (c ∈ symbolChars ∧ c ≠ ';') ∧ c ∈ boundaryChars)
    (hc' : (c' ∈ symbolChars ∧ c' ≠ ';') ∧ c' ∈ boundaryChars)
    (hk : ∀ cs, scanSymbol c cs = some (k, cs)) (hk' : ∀ cs, scanSymbol c' cs = some (k', cs))
    (h : Piece T s t) : Piece T (w ++ c :: s ++ [c']) (kind :: k :: t ++ [k']) := by
  intro rest ts hrest hlex
  have hclose := lexes_char hc'.1 hk' hlex
  have hopen := lexes_char hc.1 hk (h (boundary_cons hc'.2) hclose)
  have := lexes_keyword hw hkind (boundary_cons hc.2) hopen
  simpa using this

theorem piece_braces (hw : w ≠ [] ∧ isLetters w = true) (h : Piece T s t) :
    Piece T (w ++ '{' :: s ++ ['}']) (wordKind w :: .lBrace :: t ++ [.rBrace]) :=
  piece_bracket hw rfl (by decide) (by decide) (fun _ => rfl) (fun _ => rfl) h

theorem piece_parens (hw : w ≠ [] ∧ isLetters w = true) (h : Piece T s t) :
    Piece T (w ++ '(' :: s ++ [')']) (wordKind w :: .lParen :: t ++ [.rParen]) :=
  piece_bracket hw rfl (by decide) (by decide) (fun _ => rfl) (fun _ => rfl) h

theorem Piece.between {symbol : Text} (h : Piece T s t) (h' : Piece T s' t')
    (hsymbol : ∀ {cs : Text} {ts : List TokenKind}, Lexes T cs ts →
      Lexes T (symbol ++ ' ' :: cs) (kind :: ts)) :
    Piece T (s ++ ' ' :: symbol ++ ' ' :: s') (t ++ kind :: t') := by
  intro rest ts hrest hlex
  have hright := hsymbol (h' hrest hlex)
  have hblank : Boundary (' ' :: (symbol ++ ' ' :: (s' ++ rest))) := boundary_cons (by decide)
  have := h hblank (lexes_blank hright)
  simpa using this

end Pieces

theorem lexes_binop (op : BinOpKind) {ts : List TokenKind} (h : Lexes T cs ts) :
    Lexes T (formatBinop op ++ ' ' :: cs) (op.token :: ts) := by
  have hblank : Lexes T (' ' :: cs) ts := lexes_blank h
  have hnext : ∀ {c : Char}, c ≠ ' ' → (' ' :: cs).head? ≠ some c := fun hc heq =>
    hc (some.inj heq).symm
  have hword : ∀ {w : Text} {kind : TokenKind}, w ≠ [] ∧ isLetters w = true → wordKind w = kind →
      Lexes T (w ++ ' ' :: cs) (kind :: ts) := fun hw hkind =>
    lexes_keyword hw hkind (boundary_cons (by decide)) hblank
  cases op with
  | add | sub | eq | lt | gt =>
    exact lexes_short (by decide) (fun _ => rfl) (hnext (by decide)) hblank
  | mul | div => exact lexes_char (by decide) (fun _ => rfl) hblank
  | concat | neq | le | ge => exact lexes_long (by decide) (fun _ => rfl) hblank
  | and | or | union | inter | diff | bUnion | bDiff | in_ => exact hword (by decide) rfl

/-! ## Expressions -/

theorem exists_first {e : Expr} (hn : Named T e) (m : ℕ) :
    ∃ c cs, formatExpr T e m = c :: cs ∧ c ≠ '>' := by
  have hname : ∀ {name : Text}, isIdentifier T name = true → ∃ c cs, name = c :: cs ∧ c ≠ '>' := by
    intro name h
    cases name with
    | nil => cases h
    | cons c cs =>
      rw [isIdentifier, and_eq_true] at h
      exact ⟨c, cs, rfl, (isWordStart_facts h.1).2.2.2.2.2⟩
  have hwrap : ∀ {s : Text} {prec m : ℕ}, (∃ c cs, s = c :: cs ∧ c ≠ '>') →
      ∃ c cs, wrapIfNeeded s prec m = c :: cs ∧ c ≠ '>' := by
    intro s prec m h
    unfold wrapIfNeeded
    split_ifs
    · exact ⟨'(', s ++ [')'], rfl, by decide⟩
    · exact h
  induction e using ind generalizing m with
  | step e ih =>
    have happ : ∀ {o : Expr} (m' : ℕ) (more : Text), o ∈ e.operands →
        ∃ c cs, formatExpr T o m' ++ more = c :: cs ∧ c ≠ '>' := by
      intro o m' more ho
      obtain ⟨c, cs, heq, hc⟩ := ih o (mem_parts_of_operands ho) (hn.operand ho) m'
      exact ⟨c, cs ++ more, by rw [heq, cons_append], hc⟩
    cases e with
    | bool b => cases b <;> exact ⟨_, _, rfl, by decide⟩
    | num q =>
      obtain ⟨a, b, -, -, hden⟩ := hn.here.finite
      obtain ⟨n, scale, htext, -⟩ := finiteDecimalString_of_den hden
      obtain ⟨int, frac, hpoint, hne, hint, -⟩ := decimalText_eq (decide (q.num < 0)) n scale
      obtain ⟨d, int, rfl⟩ := exists_cons_of_ne_nil hne
      have hd := ne_of_isDigit (hint d mem_cons_self) (show ('>').isDigit = false from rfl)
      have hcanon : formatExpr T (.num q) m = pointText (decide (q.num < 0)) (d :: int) frac := by
        rw [formatExpr, canonicalString, htext, ← hpoint]
        rfl
      rw [hcanon, pointText]
      cases decide (q.num < 0) with
      | true => exact ⟨'-', _, rfl, by decide⟩
      | false => exact ⟨d, _, rfl, hd⟩
    | ident name => exact hname hn.here.word
    | binOp op l r | pipe l r | select target selector mode =>
      rw [formatExpr]
      refine hwrap ?_
      rw [append_assoc]
      exact happ _ _ mem_cons_self
    | unOp op e =>
      rw [formatExpr]
      refine hwrap ?_
      cases op with
      | neg => exact ⟨'-', _, rfl, by decide⟩
      | not => exact ⟨'n', _, rfl, by decide⟩
    | lambda param body =>
      rw [formatExpr]
      refine hwrap ?_
      obtain ⟨c, cs, heq, hc⟩ := hname hn.here.word
      rw [heq]
      exact ⟨c, _, rfl, hc⟩
    | call callee args =>
      rw [formatExpr]
      refine hwrap ?_
      rw [append_assoc]
      by_cases hsugar : isSugarName callee = true
      · cases callee with
        | ident name =>
          rw [isSugarName, or_eq_true, beq_iff_eq, beq_iff_eq] at hsugar
          rcases hsugar with rfl | rfl
          · exact ⟨'o', _, rfl, by decide⟩
          · exact ⟨'o', _, rfl, by decide⟩
        | _ => cases hsugar
      · refine happ _ _ ?_
        rw [operands, if_neg hsugar]
        exact mem_cons_self
    | _ => exact ⟨_, _, rfl, by decide⟩

section Forms

variable {e : Expr}

theorem piece_items {es : List Expr} (h : ∀ e ∈ es, Piece T (formatExpr T e 0) (exprTokens T e 0)) :
    Piece T (joinList (formatItems T es)) (joinTokens (itemTokens T es)) := by
  have htext : formatItems T es = es.map fun e => formatExpr T e 0 :=
    eq_map_of_cons rfl (fun _ _ => rfl) es
  rw [htext, itemTokens_eq]
  exact piece_join h

theorem lexes_arrow {ts : List TokenKind} (h : Lexes T cs ts) :
    Lexes T (['-', '>'] ++ ' ' :: cs) (.arrow :: ts) :=
  lexes_long (by decide) (fun _ => rfl) (lexes_blank h)

variable {es : List (Text × Expr)}

theorem piece_mapEntries (h : ∀ e ∈ es, Piece T (formatExpr T e.2 0) (exprTokens T e.2 0)) :
    Piece T (joinList (formatMapEntries T es)) (joinTokens (mapEntryTokens T es)) := by
  have htext : formatMapEntries T es = es.map fun e => formatString e.1 ++ ' ' :: ['-', '>'] ++
      ' ' :: formatExpr T e.2 0 :=
    eq_map_of_cons rfl (fun _ _ => rfl) es
  rw [htext, mapEntryTokens_eq]
  exact piece_join fun e he => (piece_string e.1).between (h e he) lexes_arrow

theorem piece_key {key : Text} (h : isIdentifier T key = true → IsName T key) :
    Piece T (formatSelectorKey T key) [keyToken T key] := by
  unfold formatSelectorKey keyToken
  split_ifs with hid
  · rw [(h hid).kind]
    exact piece_name (h hid)
  · exact piece_string key

theorem piece_bagkvEntries (hkeys : ∀ e ∈ es, isIdentifier T e.1 = true → IsName T e.1)
    (h : ∀ e ∈ es, Piece T (formatExpr T e.2 0) (exprTokens T e.2 0)) :
    Piece T (joinList (formatBagkvEntries T es)) (joinTokens (bagkvEntryTokens T es)) := by
  have htext : formatBagkvEntries T es = es.map fun e => formatSelectorKey T e.1 ++ ' ' ::
      ['-', '>'] ++ ' ' :: formatExpr T e.2 0 :=
    eq_map_of_cons rfl (fun _ _ => rfl) es
  rw [htext, bagkvEntryTokens_eq]
  exact piece_join fun e he => (piece_key (hkeys e he)).between (h e he) lexes_arrow

theorem piece_fields (hnames : ∀ e ∈ es, IsName T e.1)
    (h : ∀ e ∈ es, Piece T (formatExpr T e.2 0) (exprTokens T e.2 0)) :
    Piece T (joinList (formatFields T es)) (joinTokens (fieldTokens T es)) := by
  have htext : formatFields T es = es.map fun e => e.1 ++ [':', ' '] ++ formatExpr T e.2 0 :=
    eq_map_of_cons rfl (fun _ _ => rfl) es
  rw [htext, fieldTokens_eq]
  refine piece_join fun e he rest ts hrest hlex => ?_
  have hcolon : Lexes T (':' :: ' ' :: (formatExpr T e.2 0 ++ rest))
      (.colon :: (exprTokens T e.2 0 ++ ts)) :=
    lexes_char (by decide) (fun _ => rfl) (lexes_blank (h e he hrest hlex))
  have := piece_name (hnames e he) (boundary_cons (by decide)) hcolon
  simpa using this

end Forms

theorem piece_mode (mode : SelectMode) : Piece T (selectSuffix mode) mode.tokens := by
  intro rest ts hrest hlex
  cases mode with
  | plain => exact hlex
  | optional => exact lexes_char (by decide) (fun _ => rfl) hlex
  | required =>
    refine lexes_short (by decide) (fun _ => rfl) (fun heq => ?_) hlex
    exact (boundaryChars_facts '=' (hrest '=' heq)).2.2.2.2.2.2.2.2 rfl

theorem piece_arguments {t : List TokenKind} (h : Piece T s t) :
    ∀ ⦃rest : Text⦄ ⦃ts : List TokenKind⦄, Lexes T rest ts →
      Lexes T ('(' :: (s ++ ')' :: rest)) (.lParen :: (t ++ .rParen :: ts)) := by
  intro rest ts hlex
  exact lexes_lParen (h (boundary_cons (by decide)) (lexes_rParen hlex))

theorem piece_call {s' : Text} {t t' : List TokenKind} (h : Piece T s t) (h' : Piece T s' t') :
    Piece T (s ++ '(' :: s' ++ [')']) (t ++ .lParen :: t' ++ [.rParen]) := by
  intro rest ts _ hlex
  have := h (boundary_cons (by decide)) (piece_arguments h' hlex)
  simpa using this

theorem piece_sugar {callee : Expr} {t : List TokenKind}
    (hcallee : isSugarName callee = true) (h : Piece T s t) :
    Piece T (formatExpr T callee 9 ++ '(' :: s ++ [')'])
      (exprTokens T callee 9 ++ .lParen :: t ++ [.rParen]) := by
  intro rest ts _ hlex
  have hargs := piece_arguments h hlex
  have hone : ∀ {mark : Char} {cs : Text} {kind : TokenKind} {ts : List TokenKind},
      mark ∈ boundaryChars → Lexes T (mark :: cs) (kind :: ts) →
      Lexes T ("one".toList ++ mark :: cs) (.ident "one".toList :: kind :: ts) :=
    fun hmark hlex => lexes_keyword (by decide) rfl (boundary_cons hmark) hlex
  cases callee with
  | ident name =>
    rw [isSugarName, or_eq_true, beq_iff_eq, beq_iff_eq] at hcallee
    rcases hcallee with rfl | rfl
    · have := hone (by decide) (lexes_char (c := '?') (by decide) (fun _ => rfl) hargs)
      simpa [formatExpr, exprTokens, nameTokens] using this
    · have hnext : ('(' :: (s ++ ')' :: rest)).head? ≠ some '=' := by simp
      have := hone (by decide)
        (lexes_short (c := '!') (by decide) (fun _ => rfl) hnext hargs)
      simpa [formatExpr, exprTokens, nameTokens] using this
  | _ => cases hcallee

theorem piece_select {t : List TokenKind} (h : Piece T s t) (selector : Text) (mode : SelectMode) :
    Piece T (s ++ '<' :: formatString selector ++ '>' :: selectSuffix mode)
      (t ++ .lt :: .str selector :: .gt :: mode.tokens) := by
  intro rest ts hrest hlex
  have hmode := piece_mode mode hrest hlex
  have hnext : (selectSuffix mode ++ rest).head? ≠ some '=' := by
    cases mode with
    | plain => exact fun heq => (boundaryChars_facts '=' (hrest '=' heq)).2.2.2.2.2.2.2.2 rfl
    | optional | required => exact fun heq => absurd (some.inj heq) (by decide)
  have hgt := lexes_short (c := '>') (by decide) (fun _ => rfl) hnext hmode
  have hstring := lexes_string selector hgt
  have hquote : (formatString selector ++ '>' :: (selectSuffix mode ++ rest)).head? ≠ some '=' :=
    fun heq => absurd (some.inj heq) (by decide)
  have hlt := lexes_short (c := '<') (by decide) (fun _ => rfl) hquote hstring
  have := h (boundary_cons (by decide)) hlt
  simpa using this

theorem piece_enrich {t : List TokenKind} (h : Piece T s t) :
    Piece T (['e', 'n', 'r', 'i', 'c', 'h', ' ', '{'] ++ s ++ ['}'])
      (.ident "enrich".toList :: .lBrace :: t ++ [.rBrace]) := by
  intro rest ts _ hlex
  have hclose := lexes_char (c := '}') (by decide) (fun _ => rfl) hlex
  have hopen := lexes_char (c := '{') (by decide) (fun _ => rfl)
    (h (boundary_cons (by decide)) hclose)
  have hkind : wordKind "enrich".toList = .ident "enrich".toList := rfl
  have := lexes_keyword (by decide) hkind (boundary_cons (by decide))
    (lexes_blank hopen)
  simpa using this

theorem lexes_bar {ts : List TokenKind} (h : Lexes T cs ts) :
    Lexes T (' ' :: '|' :: ' ' :: cs) (.bar :: ts) := by
  have hnext : (' ' :: cs).head? ≠ some '>' := fun heq => absurd (some.inj heq) (by decide)
  exact lexes_blank (lexes_short (by decide) (fun _ => rfl) hnext
    (lexes_blank h))

theorem piece_comprehension {yieldExpr pred : Option Expr} {binding : Text} {collection : Expr}
    (hbinding : IsName T binding)
    (hyield : ∀ e ∈ yieldExpr, Piece T (formatExpr T e 0) (exprTokens T e 0))
    (hcollection : Piece T (formatExpr T collection 0) (exprTokens T collection 0))
    (hpred : ∀ e ∈ pred, Piece T (formatExpr T e 0) (exprTokens T e 0)) :
    Piece T ('{' :: formatYield T yieldExpr ++ binding ++ ' ' :: ['i', 'n'] ++ ' ' ::
        formatExpr T collection 0 ++ formatPred T pred ++ [' ', '}'])
      (.lBrace :: yieldTokens T yieldExpr ++ .ident binding :: .in_ :: exprTokens T collection 0 ++
        predTokens T pred ++ [.rBrace]) := by
  intro rest ts _ hlex
  have hclose : Lexes T (' ' :: '}' :: rest) (.rBrace :: ts) :=
    lexes_blank (lexes_char (by decide) (fun _ => rfl) hlex)
  have hblank : ∀ {cs : Text}, Boundary (' ' :: cs) := boundary_cons (by decide)
  -- the collection ends at the bar of the predicate or at the brace
  have htail : Lexes T (formatExpr T collection 0 ++ (formatPred T pred ++ ' ' :: '}' :: rest))
      (exprTokens T collection 0 ++ (predTokens T pred ++ .rBrace :: ts)) := by
    cases pred with
    | none => exact hcollection hblank hclose
    | some e =>
      have := hcollection hblank (lexes_bar (hpred e rfl hblank hclose))
      simpa [formatPred, predTokens] using this
  have hin : wordKind ['i', 'n'] = .in_ := rfl
  have hmember := lexes_keyword (by decide) hin hblank (lexes_blank htail)
  have hbound := piece_name hbinding hblank (lexes_blank hmember)
  cases yieldExpr with
  | none =>
    have := lexes_char (c := '{') (by decide) (fun _ => rfl)
      (lexes_blank hbound)
    simpa [formatYield, yieldTokens] using this
  | some e =>
    have hkind : wordKind "yield".toList = .yield_ := rfl
    have hword := lexes_keyword (by decide) hkind hblank
      (lexes_blank (hyield e rfl hblank (lexes_bar hbound)))
    have := lexes_char (c := '{') (by decide) (fun _ => rfl)
      (lexes_blank hword)
    simpa [formatYield, yieldTokens] using this

theorem piece_expr {e : Expr} (hn : Named T e) (hp : Printable T e) (m : ℕ) :
    Piece T (formatExpr T e m) (exprTokens T e m) := by
  induction e using ind generalizing m with
  | step e ih =>
    have hops : ∀ o ∈ e.operands, ∀ m, Piece T (formatExpr T o m) (exprTokens T o m) :=
      fun o ho m => ih o (mem_parts_of_operands ho) (hn.operand ho) (hp.operand ho) m
    have hvalues : ∀ es : List (Text × Expr), (∀ o ∈ es.map Prod.snd, o ∈ e.operands) →
        ∀ f ∈ es, Piece T (formatExpr T f.2 0) (exprTokens T f.2 0) := fun es hes f hf =>
      hops f.2 (hes f.2 (List.mem_map_of_mem hf)) 0
    cases e with
    | null | none_ =>
      rw [formatExpr, exprTokens]
      exact piece_keyword (by decide) rfl
    | bool b =>
      cases b with
      | true | false =>
        rw [formatExpr, exprTokens]
        exact piece_keyword (by decide) rfl
    | num q => exact fun _ _ hrest hlex => lexes_number hn.here hp.here hrest hlex
    | str s => exact piece_string s
    | ident name =>
      rw [formatExpr, exprTokens, hn.here.nameTokens]
      exact piece_name hn.here
    | placeholder => exact fun _ _ hrest hlex => lexes_placeholder hrest hlex
    | bytes bytes =>
      exact piece_parens (w := "Bytes".toList) (by decide) (piece_string (encodeBase16 bytes))
    | seq items =>
      exact piece_bracket (w := "Seq".toList) (by decide) rfl (by decide) (by decide)
        (fun _ => rfl) (fun _ => rfl) (piece_items fun e he => hops e he 0)
    | set items =>
      exact piece_braces (w := "Set".toList) (by decide) (piece_items fun e he => hops e he 0)
    | bag items =>
      exact piece_braces (w := "Bag".toList) (by decide) (piece_items fun e he => hops e he 0)
    | map es =>
      exact piece_braces (w := "Map".toList) (by decide)
        (piece_mapEntries (hvalues es fun _ ho => ho))
    | prod es =>
      exact piece_braces (w := "Prod".toList) (by decide)
        (piece_fields hn.here (hvalues es fun _ ho => ho))
    | bagKV es =>
      exact piece_braces (w := "BagKV".toList) (by decide)
        (piece_bagkvEntries hp.here (hvalues es fun _ ho => ho))
    | some_ e =>
      exact piece_parens (w := "Some".toList) (by decide) (hops e mem_cons_self 0)
    | ok_ e =>
      exact piece_parens (w := "Ok".toList) (by decide) (hops e mem_cons_self 0)
    | fail_ code msg =>
      have hjoin : Piece T (joinList ([code, msg].map fun e => formatExpr T e 0))
          (joinTokens ([code, msg].map fun e => exprTokens T e 0)) :=
        piece_join fun e he => hops e he 0
      have : Piece T _ (.fail_ :: .lParen :: _ ++ _) :=
        piece_parens (w := "Fail".toList) (by decide) hjoin
      rw [formatExpr, exprTokens]
      simpa [joinList, joinTokens] using this
    | binOp op l r =>
      rw [formatExpr, exprTokens]
      exact ((hops l mem_cons_self _).between
        (hops r (mem_cons_of_mem l mem_cons_self) _) (lexes_binop op)).wrap _ _
    | unOp op e =>
      rw [formatExpr, exprTokens]
      refine Piece.wrap (fun rest ts hrest hlex => ?_) _ _
      have hinner := hops e mem_cons_self 8 hrest hlex
      cases op with
      | neg =>
        obtain ⟨c, cs, hfirst, hc⟩ := exists_first (hn.operand mem_cons_self) 8
        refine lexes_short (by decide) (fun _ => rfl) (fun heq => ?_) hinner
        rw [hfirst] at heq
        exact hc (some.inj heq)
      | not =>
        have hblank : Lexes T (' ' :: (formatExpr T e 8 ++ rest)) (exprTokens T e 8 ++ ts) :=
          lexes_blank hinner
        exact lexes_keyword (w := "not".toList) (by decide) rfl
          (boundary_cons (by decide)) hblank
    | pipe l r =>
      rw [formatExpr, exprTokens]
      refine ((hops l mem_cons_self _).between
        (hops r (mem_cons_of_mem l mem_cons_self) _) fun h => ?_).wrap _ _
      exact lexes_long (by decide) (fun _ => rfl) (lexes_blank h)
    | lambda param body =>
      rw [formatExpr, exprTokens]
      refine ((piece_name hn.here).between (hops body mem_cons_self _) fun h => ?_).wrap _ _
      exact lexes_long (by decide) (fun _ => rfl) (lexes_blank h)
    | call callee args =>
      rw [formatExpr, exprTokens]
      have hargs : Piece T (joinList (formatItems T args)) (joinTokens (itemTokens T args)) := by
        refine piece_items fun e he => hops e ?_ 0
        simp only [operands]
        split_ifs
        · exact he
        · exact mem_cons_of_mem callee he
      by_cases hsugar : isSugarName callee = true
      · exact (piece_sugar hsugar hargs).wrap _ _
      · refine (piece_call (hops callee ?_ 9) hargs).wrap _ _
        rw [operands, if_neg hsugar]
        exact mem_cons_self
    | select target selector mode =>
      rw [formatExpr, exprTokens]
      exact (piece_select (hops target mem_cons_self 9) selector mode).wrap _ _
    | enrich fields =>
      rw [formatExpr, exprTokens]
      exact piece_enrich (piece_fields hn.here (hvalues fields fun _ ho => ho))
    | comprehension yieldExpr binding collection pred =>
      rw [formatExpr, exprTokens]
      have hmem : ∀ o, o ∈ yieldExpr.toList ++ collection :: pred.toList →
          Piece T (formatExpr T o 0) (exprTokens T o 0) := fun o ho => hops o ho 0
      refine piece_comprehension hn.here (fun e he => ?_) ?_ fun e he => ?_
      · exact hmem e (mem_append_left _ (mem_toList.mpr he))
      · exact hmem _ (mem_append_right _ mem_cons_self)
      · exact hmem e (mem_append_right _ (mem_cons_of_mem _ (mem_toList.mpr he)))

/-! ## Statements -/

theorem lexes_semi {ts : List TokenKind} (hnext : cs.head? ≠ some ';')
    (h : Lexes T cs ts) : Lexes T (';' :: cs) (.semi :: ts) :=
  lexes_symbol (by decide) rfl (fun _ => hnext) le_rfl h

theorem piece_typeParams {typeParams : List Text} (h : ∀ p ∈ typeParams, IsName T p) :
    Piece T (formatTypeParams typeParams) (typeParamTokens typeParams) := by
  unfold formatTypeParams typeParamTokens
  split_ifs with hempty
  · exact fun _ _ _ hlex => hlex
  intro rest ts _ hlex
  have hjoin : Piece T (joinList (typeParams.map id))
      (joinTokens (typeParams.map fun name => [.ident name])) :=
    piece_join fun p hp => piece_name (h p hp)
  rw [List.map_id] at hjoin
  have hclose := lexes_char (c := ']') (by decide) (fun _ => rfl) hlex
  have := lexes_char (c := '[') (by decide) (fun _ => rfl)
    (hjoin (boundary_cons (by decide)) hclose)
  simpa using this

theorem isName_kind (kind : SourceKind) : IsName T (formatSourceKind kind) := by
  cases kind <;> exact isName_letters (by decide) rfl rfl (by decide)

theorem piece_stmt {stmt : Stmt} (hn : NamedStmt T stmt) (hp : PrintableStmt T stmt) :
    ∃ s t, formatStmt T stmt = s ++ [';', '\n'] ∧ stmtTokens T stmt = t ++ [.semi] ∧
      Piece T s t := by
  have hblank : ∀ {cs : Text}, Boundary (' ' :: cs) := boundary_cons (by decide)
  cases stmt with
  | let_ name e =>
    refine ⟨"let ".toList ++ name ++ " = ".toList ++ formatExpr T e 0,
      .let_ :: .ident name :: .eq :: exprTokens T e 0, rfl, rfl, ?_⟩
    have hkind : wordKind "let".toList = .let_ := rfl
    have hpair : Piece T (name ++ ' ' :: ['='] ++ ' ' :: formatExpr T e 0)
        ([.ident name] ++ .eq :: exprTokens T e 0) :=
      (piece_name hn.1).between (piece_expr hn.2 hp 0) fun h =>
        lexes_short (by decide) (fun _ => rfl) (by simp) (lexes_blank h)
    intro rest ts hrest hlex
    have := lexes_keyword (by decide) hkind hblank
      (lexes_blank (hpair hrest hlex))
    simpa using this
  | expr e => exact ⟨formatExpr T e 0, exprTokens T e 0, rfl, rfl, piece_expr hn hp.1 0⟩
  | source name kind typeParams =>
    refine ⟨"source ".toList ++ name ++ " : ".toList ++ formatSourceKind kind ++
      formatTypeParams typeParams, .ident "source".toList :: .ident name :: .colon :: kind.token ::
        typeParamTokens typeParams, rfl, rfl, ?_⟩
    have hkind : wordKind "source".toList = .ident "source".toList := rfl
    have htype : Piece T (formatSourceKind kind ++ formatTypeParams typeParams)
        (kind.token :: typeParamTokens typeParams) := by
      intro rest ts hrest hlex
      have hend : Boundary (formatTypeParams typeParams ++ rest) := by
        unfold formatTypeParams
        split_ifs
        · exact hrest
        · exact boundary_cons (by decide)
      have := piece_name (isName_kind kind) hend (piece_typeParams hn.2 hrest hlex)
      rw [append_assoc]
      exact this
    have hpair : Piece T (name ++ ' ' :: [':'] ++ ' ' :: (formatSourceKind kind ++
        formatTypeParams typeParams)) ([.ident name] ++ .colon :: (kind.token ::
          typeParamTokens typeParams)) :=
      (piece_name hn.1).between htype fun h =>
        lexes_char (by decide) (fun _ => rfl) (lexes_blank h)
    intro rest ts hrest hlex
    have := lexes_keyword (by decide) hkind hblank
      (lexes_blank (hpair hrest hlex))
    simpa using this

theorem lexes_stmts {stmts : List Stmt} (hne : stmts ≠ []) (hn : ∀ stmt ∈ stmts, NamedStmt T stmt)
    (hp : ∀ stmt ∈ stmts, PrintableStmt T stmt) :
    ∃ s, stmts.flatMap (formatStmt T) = s ++ [';', '\n'] ∧
      Lexes T (s ++ [';']) (stmts.flatMap (stmtTokens T)) := by
  induction stmts with
  | nil => exact absurd rfl hne
  | cons stmt stmts ih =>
    obtain ⟨hstmt, hstmts⟩ := forall_mem_cons.mp hn
    obtain ⟨hpstmt, hpstmts⟩ := forall_mem_cons.mp hp
    obtain ⟨s, t, htext, htokens, hpiece⟩ := piece_stmt hstmt hpstmt
    have hsemi : ∀ {cs : Text}, Boundary (';' :: cs) := boundary_cons (by decide)
    rw [flatMap_cons, flatMap_cons, htext, htokens]
    cases stmts with
    | nil =>
      refine ⟨s, by simp, ?_⟩
      have := hpiece hsemi (lexes_semi (fun heq => by cases heq) lexes_nil)
      simpa using this
    | cons next stmts =>
      obtain ⟨s', htext', hlex'⟩ := ih (cons_ne_nil _ _) hstmts hpstmts
      refine ⟨s ++ ';' :: '\n' :: s', by simp [htext'], ?_⟩
      have hline : Lexes T ('\n' :: (s' ++ [';'])) ((next :: stmts).flatMap (stmtTokens T)) :=
        lexes_space rfl hlex'
      have hnext : ('\n' :: (s' ++ [';'])).head? ≠ some ';' := by simp
      have := hpiece hsemi (lexes_semi hnext hline)
      simpa using this

theorem normalized_semi (s : Text) : normalized (s ++ [';', '\n']) = s ++ [';'] := by
  have htrim : trimEnd (s ++ [';', '\n']) = s ++ [';'] := by
    rw [trimEnd, reverse_append]
    change (';' :: s.reverse).reverse = s ++ [';']
    rw [reverse_cons, reverse_reverse]
  rw [normalized, htrim]
  exact if_pos getLast?_concat

theorem lex_format {program : Program} (hne : program.stmts ≠ [])
    (hn : ∀ stmt ∈ program.stmts, NamedStmt T stmt)
    (hp : ∀ stmt ∈ program.stmts, PrintableStmt T stmt) :
    ∃ tokens, lex T (normalized (program.format T)) = .ok tokens ∧
      tokens.map Token.kind = program.stmts.flatMap (stmtTokens T) := by
  obtain ⟨s, htext, hlex⟩ := lexes_stmts hne hn hp
  have hnormal : normalized (program.format T) = s ++ [';'] := by
    rw [Program.format, htext, normalized_semi]
  rw [hnormal]
  exact hlex 0 _ le_rfl

end Residiuum.Sda
