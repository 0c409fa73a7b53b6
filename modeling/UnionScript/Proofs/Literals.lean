import UnionScript.Proofs.Blame
import UnionScript.Proofs.Placing
import UnionScript.Proofs.Sources
/-!
# Literals — the strings and the numbers that are cut out of a text

A step takes a string, a number, or a single lexeme that is neither (`Lexeme.Takes`).  So the tokens of program texts come
in strings, and one is not closed exactly if its content is all that is left of its text (`strung_ofSources`).

What a number is cut as is a number by the grammar as well, with one exception: `0x` is cut off as the mark of hexadecimal
digits even if there are none behind it (`Lexeme.isNumber_ofTextFrom`).  Only then can a literal be invalid
(`invalid_literals`).
-/
namespace UnionScript

/-! ## What a step takes -/

namespace Lexeme

/-- Whether a kind is none of those that strings and numbers are made of. -/
def isPlain : TokenKind → Bool
  | .quote | .string | .integer | .float => false
  | _ => true

/-- What a step takes that begins with a character: a string, a number that begins with a digit or a dot, or a single
lexeme that is neither. -/
inductive Takes (c : Char) (cs : List Char) : Cut → Prop where
  | string (brackets : List Bracket) : c = '"' ∨ c = '\'' → Takes c cs (cutString brackets c cs)
  | number (brackets : List Bracket) : c.isDigit = true → Takes c cs (cutNumber brackets c cs)
  | fraction (brackets : List Bracket) : c = '.' → Numeral.startsWithDigit cs = true →
      Takes c cs (front brackets (.token .float) c cs (Numeral.cutDigits cs).1.length)
  | plain {brackets : List Bracket} {role : LexemeRole} {more : Nat} : (∀ kind, role = .token kind → isPlain kind = true) →
      Takes c cs (front brackets role c cs more)

variable {brackets : List Bracket} {c : Char} {cs : List Char}

theorem Takes.token {kind : TokenKind} {more : Nat} (h : isPlain kind = true) :
    Takes c cs (front brackets (.token kind) c cs more) :=
  .plain fun _ hrole => by
    cases hrole
    exact h

theorem Takes.stray {more : Nat} : Takes c cs (front brackets .stray c cs more) := .plain nofun

theorem isPlain_wordKind (word : String) : isPlain (wordKind word) = true := by
  unfold wordKind
  split
  · rfl
  · unfold wordLiteral?
    split <;> rfl

theorem isPlain_sign {kind : TokenKind} {more : Nat} (h : sign? c cs = some (kind, more)) : isPlain kind = true := by
  revert h
  unfold sign?
  dsimp only
  split <;> (try split) <;> (try split) <;> rintro ⟨⟩ <;> rfl

/-- **What a step takes.** -/
theorem takes_cut (brackets : List Bracket) (c : Char) (cs : List Char) : Takes c cs (cut brackets c cs) := by
  refine cut_cases brackets c cs (.string brackets) ?_ (.number brackets) ?_ (fun _ => .token (isPlain_wordKind _)) ?_ ?_
    ?_ ?_ ?_
  · rintro rfl
    unfold cutBacktick
    split
    · exact .token rfl
    · exact .stray
  · rintro rfl
    unfold cutDot
    split
    · exact .stray
    · split
      · exact .fraction brackets rfl ‹_›
      · split
        · exact .token (isPlain_wordKind _)
        · split
          · split <;> exact .token rfl
          · exact .stray
  · rintro rfl
    unfold cutPercent
    repeat' split
    all_goals first | exact .token rfl | exact .stray
  · rintro rfl
    unfold cutOpen
    repeat' split
    all_goals exact .token rfl
  · rintro rfl
    unfold cutClose
    split <;> exact .token rfl
  · rintro rfl
    exact .token (by split <;> rfl)
  · unfold cutSign
    split
    · exact .token (isPlain_sign ‹_›)
    · refine .plain fun kind hrole => ?_
      split at hrole <;> cases hrole

/-- Strings apart, a step takes a single lexeme, which is no part of a string. -/
theorem Takes.single {step : Cut} (h : Takes c cs step) :
    (∃ brackets, (c = '"' ∨ c = '\'') ∧ step = cutString brackets c cs) ∨
      ∃ l, step.lexemes = [l] ∧ ∀ kind, l.role = .token kind → kind ≠ .quote ∧ kind ≠ .string := by
  cases h with
  | string brackets hc => exact .inl ⟨brackets, hc, rfl⟩
  | number brackets hc =>
    refine .inr ⟨_, rfl, fun kind hrole => ?_⟩
    cases hrole
    split <;> exact ⟨by decide, by decide⟩
  | fraction brackets hc hdigit =>
    refine .inr ⟨_, rfl, fun kind hrole => ?_⟩
    cases hrole
    exact ⟨by decide, by decide⟩
  | plain hplain =>
    refine .inr ⟨_, rfl, fun kind hrole => ?_⟩
    have hkind := hplain kind hrole
    constructor <;> rintro rfl <;> exact absurd hkind (by decide)

end Lexeme

/-! ## Strings -/

/-- A string of a text that is not closed: all that is left behind its opening quote is its content. -/
inductive SourceFile.Unclosed (source : SourceFile) : Token → Token → Prop where
  | rest {before content : List Char} {quote : Char} : quote = '"' ∨ quote = '\'' →
      source.text.toList = before ++ quote :: content →
      Unclosed source ⟨.quote, String.ofList [quote], source.name, Position.start.after before⟩
        ⟨.string, String.ofList content, source.name, Position.start.after (before ++ [quote])⟩

/-- What is known of the tokens of program texts. -/
def Knowledge.scanned (sources : List SourceFile) : Knowledge where
  solid t := t ∈ (TokenStream.scan sources).tokens ∧ t.kind ≠ .string
  unclosed opening content := ∃ source ∈ sources, source.Unclosed opening content

namespace Lexeme

theorem layOut_append : ∀ (p : Position) (ls more : List Lexeme),
    layOut p (ls ++ more) = layOut p ls ++ layOut (p.after (runs ls)) more
  | _, [], _ => rfl
  | p, l :: ls, more => by
    have hruns : runs (l :: ls) = l.run ++ runs ls := rfl
    rw [List.cons_append, layOut, layOut, layOut_append, hruns, Position.after_append]
    rfl

/-- The tokens of what is cut off a text behind some characters. -/
def tokensOf (source : SourceFile) (before : List Char) (lexemes : List Lexeme) : List Token :=
  (layOut (Position.start.after before) lexemes).filterMap (token? source.name)

theorem tokensOf_append (source : SourceFile) (before : List Char) (ls more : List Lexeme) :
    tokensOf source before (ls ++ more) = tokensOf source before ls ++ tokensOf source (before ++ runs ls) more := by
  rw [tokensOf, layOut_append, List.filterMap_append, tokensOf, tokensOf, Position.after_append]

section Strung

variable {known : Knowledge} {source : SourceFile} {before : List Char}

/-- All of some tokens are known, contents of strings apart. -/
def AllSolid (known : Knowledge) (ts : List Token) : Prop := ∀ t ∈ ts, t.kind ≠ .string → known.solid t

/-- A lexeme that is no part of a string. -/
theorem strung_single {l : Lexeme} {ts : List Token}
    (hkind : ∀ kind, l.role = .token kind → kind ≠ .quote ∧ kind ≠ .string)
    (hsolid : AllSolid known (tokensOf source before [l])) (hrest : known.Strung ts) :
    known.Strung (tokensOf source before [l] ++ ts) := by
  obtain ⟨role, run⟩ := l
  cases role with
  | blank => exact hrest
  | stray => exact hrest
  | token kind =>
    obtain ⟨hquote, hstring⟩ := hkind kind rfl
    exact .token (hsolid _ List.mem_cons_self hstring) hquote hrest

/-- A string is closed, or its content is all that is left. -/
theorem cutString_cases (brackets : List Bracket) (quote : Char) (cs : List Char) :
    cutString brackets quote cs = ⟨[⟨.token .quote, [quote]⟩, ⟨.token .string, cs⟩], [], brackets⟩ ∨
      ∃ content closing rest, cutString brackets quote cs =
        ⟨[⟨.token .quote, [quote]⟩, ⟨.token .string, content⟩, ⟨.token .quote, [closing]⟩], rest, brackets⟩ := by
  unfold cutString
  dsimp only
  split
  · rename_i hnone
    have hsplit := List.take_append_drop (stringLength quote cs) cs
    rw [hnone, List.append_nil] at hsplit
    exact .inl (by rw [hsplit])
  · exact .inr ⟨_, _, _, rfl⟩

theorem strung_cutString (hunclosed : ∀ opening content, source.Unclosed opening content → known.unclosed opening content)
    {brackets : List Bracket} {quote : Char} {cs : List Char} {ts : List Token} (hquote : quote = '"' ∨ quote = '\'')
    (htext : source.text.toList = before ++ quote :: cs)
    (hsolid : AllSolid known (tokensOf source before (cutString brackets quote cs).lexemes)) (hrest : known.Strung ts)
    (hnone : (cutString brackets quote cs).rest = [] → ts = []) :
    known.Strung (tokensOf source before (cutString brackets quote cs).lexemes ++ ts) := by
  have hne : TokenKind.quote ≠ .string := by decide
  rcases cutString_cases brackets quote cs with hcut | ⟨content, closing, rest, hcut⟩ <;> rw [hcut] at hsolid hnone ⊢
  · obtain rfl : ts = [] := hnone rfl
    have hplace : (Position.start.after before).after [quote] = Position.start.after (before ++ [quote]) :=
      (Position.after_append _ _ _).symm
    have hstring : source.Unclosed ⟨.quote, String.ofList [quote], source.name, Position.start.after before⟩
        ⟨.string, String.ofList cs, source.name, (Position.start.after before).after [quote]⟩ := by
      rw [hplace]
      exact .rest hquote htext
    have hopening := hsolid _ List.mem_cons_self hne
    exact .unclosed hopening rfl rfl (hunclosed _ _ hstring) (fun t ht => absurd ht (Option.not_mem_none t)) hrest
  · have hopening := hsolid _ List.mem_cons_self hne
    have hclosing := hsolid _ (List.mem_cons_of_mem _ (List.mem_cons_of_mem _ List.mem_cons_self)) hne
    exact .closed hopening rfl rfl hclosing rfl hrest

/-- **The tokens of a text come in strings**, from the first character of each step on. -/
theorem strung_ofTextFrom
    (hunclosed : ∀ opening content, source.Unclosed opening content → known.unclosed opening content)
    (brackets : List Bracket) (rest : List Char) : ∀ before, source.text.toList = before ++ rest →
      AllSolid known (tokensOf source before (ofTextFrom brackets rest)) →
        known.Strung (tokensOf source before (ofTextFrom brackets rest)) := by
  fun_induction ofTextFrom brackets rest with
  | case1 brackets => exact fun _ _ _ => .nil
  | case2 brackets c cs step ih =>
    intro before htext hsolid
    rw [tokensOf_append] at hsolid ⊢
    obtain ⟨hhere, hthere⟩ := List.forall_mem_append.1 hsolid
    have hbehind : source.text.toList = (before ++ runs step.lexemes) ++ step.rest := by
      rw [List.append_assoc, (sound_cut brackets c cs).runs_append, htext]
    have hrest := ih _ hbehind hthere
    have htakes : Takes c cs step := takes_cut brackets c cs
    rcases htakes.single with ⟨bs, hquote, hstring⟩ | ⟨l, hl, hkind⟩
    · rw [hstring] at hhere hrest ⊢
      refine strung_cutString hunclosed hquote htext hhere hrest fun hnone => ?_
      rw [hnone, ofTextFrom_nil]
      rfl
    · rw [hl] at hhere hrest ⊢
      exact strung_single hkind hhere hrest

end Strung

end Lexeme

/-- The tokens of one of some program texts, with what is left behind the end of its last line. -/
theorem strung_line {sources : List SourceFile} {source : SourceFile} {ts : List Token} (hsource : source ∈ sources)
    (hrest : (Knowledge.scanned sources).Strung ts) : (Knowledge.scanned sources).Strung (source.line ++ ts) := by
  have hscanned : ∀ t ∈ source.line, t ∈ (TokenStream.scan sources).tokens := fun t ht =>
    List.mem_append_left _ (List.mem_flatMap.2 ⟨source, hsource, ht⟩)
  obtain ⟨htokens, hend⟩ := List.forall_mem_append.1 hscanned
  have hunclosed (opening content : Token) (h : source.Unclosed opening content) :
      (Knowledge.scanned sources).unclosed opening content := ⟨source, hsource, h⟩
  have hstrung : (Knowledge.scanned sources).Strung source.tokens :=
    Lexeme.strung_ofTextFrom hunclosed [] _ [] rfl fun t ht hkind => ⟨htokens t ht, hkind⟩
  have hkind : source.lineEnd.kind = .newline := rfl
  have hsolid : (Knowledge.scanned sources).solid source.lineEnd :=
    ⟨hend _ List.mem_cons_self, by rw [hkind]; decide⟩
  have hquote : source.lineEnd.kind ≠ .quote := by
    rw [hkind]
    decide
  rw [SourceFile.line, List.append_assoc]
  refine hstrung.append (fun t ht => ?_) (.token hsolid hquote hrest)
  obtain rfl := Option.some.inj ht
  exact hquote

/-- **The tokens of program texts come in strings.** -/
theorem strung_ofSources (sources : List SourceFile) :
    (Knowledge.scanned sources).Strung (ParseState.ofSources sources).rest := by
  have hlines : ∀ part ⊆ sources, (Knowledge.scanned sources).Strung (part.flatMap SourceFile.line) := by
    intro part hpart
    induction part with
    | nil => exact .nil
    | cons source part ih =>
      obtain ⟨hsource, hpart⟩ := List.cons_subset.1 hpart
      rw [List.flatMap_cons]
      exact strung_line hsource (ih hpart)
  exact hlines sources (List.Subset.refl _)

/-- There is a reason for every error of a program read from texts. -/
theorem explains_scan (sources : List SourceFile) (limit : Nat) :
    ∀ e ∈ (ParsedProgram.ofTokens (TokenStream.scan sources).tokens limit).errors,
      (Knowledge.scanned sources).Explains e := by
  refine Knowledge.explains_ofTokens ?_ ?_ limit
  · rw [ofTokens_scan]
    exact strung_ofSources sources
  · rw [ofTokens_scan]
    refine ⟨List.mem_append_right _ List.mem_cons_self, ?_⟩
    rw [eof_ofSources]
    decide

/-! ## Numbers -/

namespace Numeral

/-- A text that is the mark of hexadecimal digits with none behind it, be it with the suffix of an integer. -/
def IsBareMark (text : String) : Prop := dropSuffix text.toList = ['0', 'x'] ∨ dropSuffix text.toList = ['0', 'X']

instance (text : String) : Decidable (IsBareMark text) := instDecidableOr

variable {cs : List Char}

/-! ### The suffix -/

theorem dropSuffix_append {body : List Char} (h : 'L' ∉ body) (cs : List Char) :
    dropSuffix (body ++ (cutSuffix cs).1) = body := by
  unfold cutSuffix dropSuffix
  split
  · rw [List.getLast?_concat, if_pos rfl, List.dropLast_concat]
  · rw [List.append_nil]
    exact if_neg fun hlast => h (List.mem_of_getLast? hlast)

theorem dropSuffix_of_not_mem (h : 'L' ∉ cs) : dropSuffix cs = cs :=
  if_neg fun hlast => h (List.mem_of_getLast? hlast)

/-! ### Hexadecimal numbers -/

theorem isHexDigits_takeWhile (cs : List Char) :
    isHexDigits (cs.takeWhile Text.isHexDigit) = false ↔ cs.takeWhile Text.isHexDigit = [] := by
  have hall : (cs.takeWhile Text.isHexDigit).all Text.isHexDigit = true := List.all_takeWhile
  rw [isHexDigits, hall, Bool.and_true, Bool.not_eq_false', List.isEmpty_iff]

/-- Behind its mark a hexadecimal number has digits, or it is the bare mark. -/
theorem isNumeral_hex {text : String} {x : Char} (hx : x = 'x' ∨ x = 'X') (cs : List Char)
    (h : dropSuffix text.toList = '0' :: x :: cs.takeWhile Text.isHexDigit) :
    isNumeral text = false ↔ IsBareMark text := by
  have hdigits := isHexDigits_takeWhile cs
  unfold isNumeral IsBareMark
  rw [h]
  rcases hx with rfl | rfl <;> simpa using hdigits

/-! ### Decimal numbers -/

theorem isDigits_cutDigits (h : startsWithDigit cs = true) : isDigits (cutDigits cs).1 = true := by
  have hall : (cutDigits cs).1.all Char.isDigit = true := List.all_takeWhile
  have hsome : (cutDigits cs).1.isEmpty = false := by
    cases cs with
    | nil => exact nomatch h
    | cons c cs =>
      have hc : c.isDigit = true := h
      rw [cutDigits, List.takeWhile_cons_of_pos hc]
      rfl
  rw [isDigits, hall, hsome]
  rfl

theorem cutSign_cases (cs : List Char) : (cutSign cs).1 = ['+'] ∨ (cutSign cs).1 = ['-'] ∨ (cutSign cs).1 = [] := by
  unfold cutSign
  split
  · exact .inl rfl
  · exact .inr (.inl rfl)
  · exact .inr (.inr rfl)

/-- Digits do not start with a sign. -/
theorem isExponent_digits {e : Char} {digits : List Char} (he : (e == 'e' || e == 'E') = true)
    (h : isDigits digits = true) : isExponent (e :: digits) = true := by
  unfold isExponent
  split
  · rename_i heq
    exact nomatch heq
  · rename_i heq
    obtain ⟨rfl, rfl⟩ := List.cons.inj heq
    exact nomatch h
  · rename_i heq
    obtain ⟨rfl, rfl⟩ := List.cons.inj heq
    exact nomatch h
  · rename_i heq
    obtain ⟨rfl, rfl⟩ := List.cons.inj heq
    exact Bool.and_eq_true_iff.2 ⟨he, h⟩

/-- What is cut as an exponent is one. -/
theorem isExponent_cutExponent (cs : List Char) : isExponent (cutExponent cs).1 = true := by
  cases cs with
  | nil => rfl
  | cons e cs =>
    rw [cutExponent]
    split
    · rename_i hmark
      have he : (e == 'e' || e == 'E') = true := by rcases hmark.1 with rfl | rfl <;> rfl
      have hdigits := isDigits_cutDigits hmark.2
      show isExponent (e :: (cutSign cs).1 ++ (cutDigits (cutSign cs).2).1) = true
      rcases cutSign_cases cs with hsign | hsign | hsign <;> rw [hsign]
      · exact Bool.and_eq_true_iff.2 ⟨he, hdigits⟩
      · exact Bool.and_eq_true_iff.2 ⟨he, hdigits⟩
      · exact isExponent_digits he hdigits
    · rfl

theorem cutFraction_cases (cs : List Char) : (cutFraction cs).1 = [] ∨
    ∃ ds, startsWithDigit ds = true ∧ (cutFraction cs).1 = '.' :: (cutDigits ds).1 := by
  unfold cutFraction
  split
  · split
    · exact .inr ⟨_, ‹_›, rfl⟩
    · exact .inl rfl
  · exact .inl rfl

/-- Digits with a dot and more behind them. -/
theorem isDecimal_dot {whole : List Char} (hwhole : ∀ c ∈ whole, c.isDigit = true) (rest : List Char) :
    isDecimal (whole ++ '.' :: rest) =
      (!(whole.isEmpty && (rest.takeWhile Char.isDigit).isEmpty) && isExponent (rest.dropWhile Char.isDigit)) := by
  have hdot : ¬('.' : Char).isDigit = true := by decide
  rw [isDecimal, List.takeWhile_append_of_pos hwhole, List.dropWhile_append_of_pos hwhole,
    List.takeWhile_cons_of_neg hdot, List.dropWhile_cons_of_neg hdot, List.append_nil]
  rfl

/-- Digits with an exponent right behind them, if there is one. -/
theorem isDecimal_whole {whole behind : List Char} (hwhole : ∀ c ∈ whole, c.isDigit = true) (hsome : whole ≠ [])
    (hbehind : Starts (fun c => c = 'e' ∨ c = 'E') behind) (hexponent : isExponent behind = true) :
    isDecimal (whole ++ behind) = true := by
  have hne : whole.isEmpty = false := List.isEmpty_eq_false_iff.2 hsome
  rw [isDecimal, List.takeWhile_append_of_pos hwhole, List.dropWhile_append_of_pos hwhole]
  cases behind with
  | nil => rw [List.takeWhile_nil, List.append_nil, List.dropWhile_nil, hne]; rfl
  | cons e behind =>
    have he : e = 'e' ∨ e = 'E' := hbehind e rfl
    have hnoDigit : ¬e.isDigit = true := by rcases he with rfl | rfl <;> decide
    rw [List.takeWhile_cons_of_neg hnoDigit, List.dropWhile_cons_of_neg hnoDigit, List.append_nil]
    split
    · rename_i heq
      rw [(List.cons.inj heq).1] at he
      exact absurd he (by decide)
    · rw [hne, hexponent]
      rfl

/-- **What is cut as a decimal number is one**, be it without digits in front of the dot. -/
theorem isDecimal_cut {whole : List Char} (hwhole : ∀ c ∈ whole, c.isDigit = true) (fs es : List Char)
    (hsome : whole ≠ [] ∨ (cutFraction fs).1 ≠ []) :
    isDecimal (whole ++ ((cutFraction fs).1 ++ (cutExponent es).1)) = true := by
  have hexponent := isExponent_cutExponent es
  have hstarts := starts_cutExponent es
  rcases cutFraction_cases fs with hnone | ⟨ds, hds, hfraction⟩
  · rw [hnone, List.nil_append]
    exact isDecimal_whole hwhole (hsome.resolve_right fun h => h hnone) hstarts hexponent
  · have hnoDigit : Starts (fun c => c.isDigit = false) (cutExponent es).1 := fun c hc => by
      rcases hstarts c hc with rfl | rfl <;> rfl
    obtain ⟨htake, hdrop⟩ := takeWhile_again ds hnoDigit
    have hdigits := isDigits_cutDigits hds
    have hne : (cutDigits ds).1.isEmpty = false := by
      rw [← Bool.not_eq_true']
      exact (Bool.and_eq_true_iff.1 hdigits).1
    rw [hfraction, List.cons_append, isDecimal_dot hwhole]
    rw [cutDigits] at hne ⊢
    rw [htake, hdrop, hne, hexponent, Bool.and_false]
    rfl

/-! ### All of them -/

/-- A decimal number is none with a mark of hexadecimal digits. -/
theorem isNumeral_of_isDecimal {text : String} (h : isDecimal (dropSuffix text.toList) = true)
    (hpart : ∀ d ∈ dropSuffix text.toList, isDecimalPart d = true) : isNumeral text = false ↔ IsBareMark text := by
  have hnot {x : Char} {ds : List Char} (hx : isDecimalPart x = false) (heq : dropSuffix text.toList = '0' :: x :: ds) :
      False := by
    rw [heq] at hpart
    exact Bool.false_ne_true (hx.symm.trans (hpart x (List.mem_cons_of_mem _ List.mem_cons_self)))
  have hnumeral : isNumeral text = true := by
    unfold isNumeral
    split
    · rename_i hmark
      exact (hnot (by decide) hmark).elim
    · rename_i hmark
      exact (hnot (by decide) hmark).elim
    · exact h
  refine ⟨fun hfalse => absurd (hnumeral.symm.trans hfalse) (by decide), ?_⟩
  rintro (hbare | hbare)
  · exact (hnot (by decide) hbare).elim
  · exact (hnot (by decide) hbare).elim

theorem isDecimalPart_of_cut {whole : List Char} (hwhole : ∀ c ∈ whole, c.isDigit = true) (fs es : List Char) :
    ∀ d ∈ whole ++ ((cutFraction fs).1 ++ (cutExponent es).1), isDecimalPart d = true := by
  intro d hd
  by_contra hpart
  have hpart := Bool.eq_false_iff.2 hpart
  rcases List.mem_append.1 hd with hd | hd
  · exact absurd (hwhole d hd) (Bool.eq_false_iff.1 (Bool.or_eq_false_iff.1 hpart).1)
  · exact (List.mem_append.1 hd).elim (not_mem_cutFraction hpart fs) (not_mem_cutExponent hpart es)

/-- **What is cut as a number that begins with a digit is one**, but for the bare mark of hexadecimal digits. -/
theorem isNumeral_cutNumeral {c : Char} (hc : c.isDigit = true) (cs : List Char) :
    isNumeral (String.ofList (cutNumeral (c :: cs)).run) = false ↔
      IsBareMark (String.ofList (cutNumeral (c :: cs)).run) := by
  rcases cutHexMark_cases (c :: cs) with ⟨x, ds, hx, -, hmark⟩ | hmark
  · have hrun : (cutNumeral (c :: cs)).run =
        '0' :: x :: ds.takeWhile Text.isHexDigit ++ (cutSuffix (ds.dropWhile Text.isHexDigit)).1 := by
      unfold cutNumeral
      rw [hmark]
      rfl
    have hL : 'L' ∉ '0' :: x :: ds.takeWhile Text.isHexDigit := by
      have hdigits : 'L' ∉ ds.takeWhile Text.isHexDigit := not_mem_takeWhile (by decide) ds
      rcases hx with rfl | rfl <;> simpa using hdigits
    refine isNumeral_hex hx ds ?_
    rw [String.toList_ofList, hrun]
    exact dropSuffix_append hL _
  · let whole := (cutDigits (c :: cs)).1
    let fraction := cutFraction (cutDigits (c :: cs)).2
    let exponent := cutExponent fraction.2
    have hrun : (cutNumeral (c :: cs)).run = (whole ++ (fraction.1 ++ exponent.1)) ++ (cutSuffix exponent.2).1 := by
      unfold cutNumeral
      rw [hmark, ← List.append_assoc]
      rfl
    have hwhole : ∀ d ∈ whole, d.isDigit = true := fun d hd => List.mem_takeWhile_imp hd
    have hsome : whole ≠ [] := by
      show (c :: cs).takeWhile Char.isDigit ≠ []
      rw [List.takeWhile_cons_of_pos hc]
      exact List.cons_ne_nil _ _
    have hparts := isDecimalPart_of_cut hwhole (cutDigits (c :: cs)).2 fraction.2
    have hL : 'L' ∉ whole ++ (fraction.1 ++ exponent.1) := fun h => Bool.false_ne_true (hparts _ h)
    have hbody : dropSuffix (String.ofList (cutNumeral (c :: cs)).run).toList = whole ++ (fraction.1 ++ exponent.1) := by
      rw [String.toList_ofList, hrun]
      exact dropSuffix_append hL _
    refine isNumeral_of_isDecimal ?_ ?_ <;> rw [hbody]
    · exact isDecimal_cut hwhole _ _ (.inl hsome)
    · exact hparts

/-- **What is cut as a number that begins with a dot is one.** -/
theorem isNumeral_dot {cs : List Char} (h : startsWithDigit cs = true) :
    isNumeral (String.ofList ('.' :: (cutDigits cs).1)) = false ↔ IsBareMark (String.ofList ('.' :: (cutDigits cs).1)) := by
  have hcut : (cutFraction ('.' :: cs)).1 = '.' :: (cutDigits cs).1 := by rw [cutFraction_dot, if_pos h]
  have hbody : '.' :: (cutDigits cs).1 = [] ++ ((cutFraction ('.' :: cs)).1 ++ (cutExponent []).1) := by
    rw [hcut, List.nil_append]
    exact (List.append_nil _).symm
  have hparts := isDecimalPart_of_cut (List.forall_mem_nil _) ('.' :: cs) []
  rw [hbody]
  have hL : 'L' ∉ [] ++ ((cutFraction ('.' :: cs)).1 ++ (cutExponent []).1) := fun h => Bool.false_ne_true (hparts _ h)
  refine isNumeral_of_isDecimal ?_ ?_ <;> rw [String.toList_ofList, dropSuffix_of_not_mem hL]
  · exact isDecimal_cut (List.forall_mem_nil _) _ _ (.inr (by rw [hcut]; exact List.cons_ne_nil _ _))
  · exact hparts

end Numeral

namespace Lexeme

/-- A lexeme that is no number, or the text of which is one exactly if it is no bare mark. -/
def IsNumber (l : Lexeme) : Prop :=
  ∀ kind, l.role = .token kind → kind = .integer ∨ kind = .float →
    (Numeral.isNumeral (String.ofList l.run) = false ↔ Numeral.IsBareMark (String.ofList l.run))

variable {brackets : List Bracket} {c : Char} {cs : List Char}

theorem Takes.isNumber {step : Cut} (h : Takes c cs step) : ∀ l ∈ step.lexemes, IsNumber l := by
  have hother {kind : TokenKind} (run : List Char) (hinteger : kind ≠ .integer) (hfloat : kind ≠ .float) :
      IsNumber ⟨.token kind, run⟩ := by
    rintro _ ⟨⟩ (h | h)
    · exact absurd h hinteger
    · exact absurd h hfloat
  cases h with
  | string brackets hc =>
    have hquote (run : List Char) : IsNumber ⟨.token .quote, run⟩ := hother run (by decide) (by decide)
    have hstring (run : List Char) : IsNumber ⟨.token .string, run⟩ := hother run (by decide) (by decide)
    unfold cutString
    dsimp only
    split <;> simp [hquote, hstring]
  | number brackets hc =>
    obtain ⟨run, behind, hrun, hcs⟩ := Numeral.exists_cutNumeral_cons hc cs
    have htake : cs.take ((Numeral.cutNumeral (c :: cs)).run.length - 1) = run := by
      rw [hrun, List.length_cons, Nat.add_sub_cancel, hcs, List.take_left]
    refine List.forall_mem_singleton.2 fun kind _ _ => ?_
    show Numeral.isNumeral (String.ofList (c :: cs.take _)) = false ↔ Numeral.IsBareMark (String.ofList (c :: cs.take _))
    rw [htake, ← hrun]
    exact Numeral.isNumeral_cutNumeral hc cs
  | fraction brackets hc hdigit =>
    have htake : cs.take (Numeral.cutDigits cs).1.length = (Numeral.cutDigits cs).1 :=
      (List.prefix_iff_eq_take.1 (List.takeWhile_prefix _)).symm
    refine List.forall_mem_singleton.2 fun kind _ _ => ?_
    show Numeral.isNumeral (String.ofList (c :: cs.take _)) = false ↔ Numeral.IsBareMark (String.ofList (c :: cs.take _))
    rw [htake, hc]
    exact Numeral.isNumeral_dot hdigit
  | plain hplain =>
    refine List.forall_mem_singleton.2 fun kind hrole hkind => ?_
    have hkind' := hplain kind hrole
    rcases hkind with rfl | rfl <;> exact absurd hkind' (by decide)

theorem isNumber_ofTextFrom (brackets : List Bracket) (text : List Char) : ∀ l ∈ ofTextFrom brackets text, IsNumber l := by
  fun_induction ofTextFrom brackets text with
  | case1 => exact List.forall_mem_nil _
  | case2 brackets c cs step ih => exact List.forall_mem_append.2 ⟨(takes_cut brackets c cs).isNumber, ih⟩

end Lexeme

/-- **Numbers.**  The text of a token that is a number is one by the grammar, but for the bare mark of hexadecimal digits. -/
theorem isNumeral_of_mem_scan {sources : List SourceFile} {t : Token} (h : t ∈ (TokenStream.scan sources).tokens)
    (hkind : t.kind = .integer ∨ t.kind = .float) : Numeral.isNumeral t.text = false ↔ Numeral.IsBareMark t.text := by
  have hnot {kind : TokenKind} (ht : t.kind = kind) (hinteger : kind ≠ .integer) (hfloat : kind ≠ .float) : False :=
    hkind.elim (fun h => hinteger (ht.symm.trans h)) fun h => hfloat (ht.symm.trans h)
  rcases List.mem_append.1 h with h | h
  · obtain ⟨source, -, h⟩ := List.mem_flatMap.1 h
    rcases List.mem_append.1 h with h | h
    · obtain ⟨l, hl, hrole, htext⟩ := SourceFile.exists_lexeme h
      have hcomment : t.kind ≠ .comment := fun ht => hnot ht (by decide) (by decide)
      have hroxygen : t.kind ≠ .roxygenComment := fun ht => hnot ht (by decide) (by decide)
      obtain ⟨role, run⟩ := l
      obtain rfl : role = .token t.kind := hrole
      rw [Lexeme.text_token hcomment hroxygen] at htext
      have hnumber : Lexeme.IsNumber ⟨.token t.kind, run⟩ := Lexeme.isNumber_ofTextFrom [] _ _ hl
      rw [← htext]
      exact hnumber t.kind rfl hkind
    · obtain rfl := List.mem_singleton.1 h
      have hnewline : source.lineEnd.kind = .newline := rfl
      exact (hnot hnewline (by decide) (by decide)).elim
  · obtain rfl := List.mem_singleton.1 h
    exact (hnot (eof_ofSources sources) (by decide) (by decide)).elim

/-- **Which numbers are invalid**: of the tokens of program texts that are numbers, all but the bare marks of hexadecimal
digits are numbers by the grammar, and no literal is reported to be invalid but for such a token. -/
theorem invalid_literals (sources : List SourceFile) :
    (∀ t ∈ (TokenStream.scan sources).tokens, t.kind = .integer ∨ t.kind = .float →
      (Numeral.isNumeral t.text = true ↔ ¬Numeral.IsBareMark t.text)) ∧
    ∀ (limit : Nat) (text : String) (span : Span),
      .invalidLiteral text span ∈ (ParsedProgram.ofTokens (TokenStream.scan sources).tokens limit).errors →
        ∃ t ∈ (TokenStream.scan sources).tokens, (t.kind = .integer ∨ t.kind = .float) ∧ t.text = text ∧ t.span = span ∧
          Numeral.IsBareMark text := by
  refine ⟨fun t ht hkind => ?_, fun limit text span he => ?_⟩
  · rw [← not_congr (isNumeral_of_mem_scan ht hkind), Bool.not_eq_false]
  · obtain ⟨t, ⟨ht, -⟩, hkind, rfl, hspan, hnumeral⟩ := explains_scan sources limit _ he
    exact ⟨t, ht, hkind, rfl, hspan, (isNumeral_of_mem_scan ht hkind).1 hnumeral⟩

/-- A bare mark with the suffix of an integer, behind a number. -/
theorem invalid_literals_bare_mark :
    let source : SourceFile := ⟨"m.vp", ".5e\n0xL"⟩
    let number : Token := ⟨.float, ".5", "m.vp", ⟨1, 1⟩⟩
    let mark : Token := ⟨.integer, "0xL", "m.vp", ⟨2, 1⟩⟩
    number ∈ (TokenStream.scan [source]).tokens ∧ Numeral.isNumeral number.text = true ∧
      .invalidLiteral "0xL" mark.span ∈ (ParsedProgram.ofTokens (TokenStream.scan [source]).tokens 8).errors ∧
      ∃ t ∈ (TokenStream.scan [source]).tokens, (t.kind = .integer ∨ t.kind = .float) ∧ t.text = "0xL" ∧
        t.span = mark.span ∧ Numeral.IsBareMark "0xL" := by
  intro source number mark
  obtain ⟨hnumbers, herrors⟩ := invalid_literals [source]
  have hfirst : (TokenStream.scan [source]).tokens.head? = some number := by
    subst source number
    cbv
  have hlast : (ParsedProgram.ofTokens (TokenStream.scan [source]).tokens 8).errors.getLast? =
      some (.invalidLiteral "0xL" mark.span) := by
    subst source mark
    cbv
  have hnumber := List.mem_of_head? hfirst
  have herror := List.mem_of_getLast? hlast
  exact ⟨hnumber, (hnumbers number hnumber (.inr rfl)).2 (by decide), herror, herrors 8 _ _ herror⟩

end UnionScript
