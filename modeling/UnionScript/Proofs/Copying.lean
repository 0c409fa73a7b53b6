import Mathlib
import UnionScript.Proofs.Spelling
/-!
# Copying — numbers and operators that are written down again

What was cut out of a text as a number or as a user operator is cut out of any other text as the same one, in front of
anything that no word goes on with (`Copied`).  A number is cut piece by piece, and every piece ends where it ended
before, since what starts the pieces behind it could not have gone on with it (`cutNumeral_again`).
-/
namespace UnionScript

open Lexeme (Delimits)

/-! ## Numbers -/

namespace Numeral

variable {cs rest : List Char}

/-- Whether the first character of a text, if there is one, is of some kind. -/
abbrev Starts (Q : Char → Prop) (cs : List Char) : Prop := ∀ c ∈ cs.head?, Q c

theorem Starts.append {Q : Char → Prop} {ds : List Char} (h : Starts Q cs) (h' : Starts Q ds) :
    Starts Q (cs ++ ds) := by
  cases cs with
  | nil => exact h'
  | cons c cs => exact h

theorem isWordPart_of_isDigit {c : Char} (h : c.isDigit = true) : Text.isWordPart c = true := by
  have hc : c.toNat < 0x80 := by
    delta Char.isDigit at h
    simp only [Bool.and_eq_true, decide_eq_true_eq, ge_iff_le, UInt32.le_iff_toNat_le] at h
    have : c.toNat = c.val.toNat := rfl
    have : '9'.val.toNat = 57 := rfl
    omega
  simp [Text.isWordPart, Text.isNumeric, hc, h]

theorem isWordPart_of_isHexDigit {c : Char} (h : Text.isHexDigit c = true) : Text.isWordPart c = true := by
  simp only [Text.isHexDigit, Bool.or_eq_true, Bool.and_eq_true, decide_eq_true_eq] at h
  have halpha (h : c.isAlpha = true) : Text.isWordPart c = true := by
    simp [Text.isWordPart, Text.isAlphabetic_of_isAlpha h]
  rcases h with (h | ⟨hlow, hhigh⟩) | ⟨hlow, hhigh⟩
  · exact isWordPart_of_isDigit h
  · refine halpha ?_
    have hz : c ≤ 'z' := Char.le_trans hhigh (by decide)
    simp only [Char.isAlpha, Char.isLower, Bool.or_eq_true, Bool.and_eq_true, decide_eq_true_eq]
    exact .inr ⟨hlow, hz⟩
  · refine halpha ?_
    have hz : c ≤ 'Z' := Char.le_trans hhigh (by decide)
    simp only [Char.isAlpha, Char.isUpper, Bool.or_eq_true, decide_eq_true_eq]
    exact .inl ⟨hlow, hz⟩

/-- A character that could go on with a number. -/
def Continues (c : Char) : Prop := Text.isWordPart c = true ∨ c = '.'

theorem starts_of_delimits (h : Delimits rest) : Starts (fun c => ¬Continues c) rest := by
  rintro c hc (hpart | rfl)
  · rw [(h c hc).1] at hpart
    exact Bool.false_ne_true hpart
  · exact (h _ hc).2 rfl

/-- What is taken while a test passes ends where it ended before. -/
theorem takeWhile_again {p : Char → Bool} (cs : List Char) (h : Starts (fun c => p c = false) rest) :
    (cs.takeWhile p ++ rest).takeWhile p = cs.takeWhile p ∧ (cs.takeWhile p ++ rest).dropWhile p = rest := by
  have hall : ∀ c ∈ cs.takeWhile p, p c := List.all_eq_true.1 List.all_takeWhile
  rw [List.takeWhile_append_of_pos hall, List.dropWhile_append_of_pos hall]
  cases rest with
  | nil => exact ⟨List.append_nil _, rfl⟩
  | cons c rest =>
    have hc : ¬p c = true := Bool.eq_false_iff.1 (h c rfl)
    rw [List.takeWhile_cons_of_neg hc, List.dropWhile_cons_of_neg hc, List.append_nil]
    exact ⟨rfl, rfl⟩

theorem cutDigits_again (cs : List Char) (h : Starts (fun c => c.isDigit = false) rest) :
    cutDigits ((cutDigits cs).1 ++ rest) = ((cutDigits cs).1, rest) :=
  Prod.ext (takeWhile_again cs h).1 (takeWhile_again cs h).2

theorem startsWithDigit_again (h : startsWithDigit cs = true) (rest : List Char) :
    startsWithDigit ((cutDigits cs).1 ++ rest) = true := by
  cases cs with
  | nil => exact nomatch h
  | cons c cs =>
    have hc : c.isDigit = true := h
    rw [cutDigits, List.takeWhile_cons_of_pos hc]
    exact hc

theorem cutFraction_none (h : Starts (fun c => c ≠ '.') cs) : cutFraction cs = ([], cs) := by
  unfold cutFraction
  split
  · exact absurd rfl (h _ rfl)
  · rfl

theorem cutFraction_dot (cs : List Char) : cutFraction ('.' :: cs) =
    if startsWithDigit cs then ('.' :: (cutDigits cs).1, (cutDigits cs).2) else ([], '.' :: cs) := rfl

theorem cutFraction_again (cs : List Char) (h : Starts (fun c => c.isDigit = false ∧ c ≠ '.') rest) :
    cutFraction ((cutFraction cs).1 ++ rest) = ((cutFraction cs).1, rest) := by
  have hnone : cutFraction rest = ([], rest) := cutFraction_none fun c hc => (h c hc).2
  by_cases hdot : ∃ ds, cs = '.' :: ds
  · obtain ⟨ds, rfl⟩ := hdot
    rw [cutFraction_dot]
    cases hdigit : startsWithDigit ds with
    | false => exact hnone
    | true =>
      show cutFraction ('.' :: ((cutDigits ds).1 ++ rest)) = _
      rw [cutFraction_dot, startsWithDigit_again hdigit, if_pos rfl, cutDigits_again ds fun c hc => (h c hc).1]
      rfl
  · have hstarts : Starts (fun c => c ≠ '.') cs := by
      rintro c hc rfl
      exact hdot (List.head?_eq_some_iff.1 hc)
    rw [cutFraction_none hstarts]
    exact hnone

theorem starts_cutFraction (cs : List Char) : Starts (fun c => c = '.') (cutFraction cs).1 := by
  unfold cutFraction
  split
  · split
    · rintro c ⟨⟩
      rfl
    · exact nofun
  · exact nofun

theorem cutSign_none (h : startsWithDigit cs = true) : cutSign cs = ([], cs) := by
  unfold cutSign
  split
  · exact nomatch h
  · exact nomatch h
  · rfl

theorem cutSign_again (cs : List Char) {ds : List Char} (h : startsWithDigit ds = true) :
    cutSign ((cutSign cs).1 ++ ds) = ((cutSign cs).1, ds) := by
  by_cases hsign : ∃ cs', cs = '+' :: cs' ∨ cs = '-' :: cs'
  · obtain ⟨cs', rfl | rfl⟩ := hsign <;> rfl
  · have hnone : cutSign cs = ([], cs) := by
      unfold cutSign
      split
      · exact absurd ⟨_, .inl rfl⟩ hsign
      · exact absurd ⟨_, .inr rfl⟩ hsign
      · rfl
    rw [hnone]
    exact cutSign_none h

theorem cutExponent_again (cs : List Char) (h : Starts (fun c => c.isDigit = false ∧ c ≠ 'e' ∧ c ≠ 'E') rest) :
    cutExponent ((cutExponent cs).1 ++ rest) = ((cutExponent cs).1, rest) := by
  have hnone : cutExponent rest = ([], rest) := by
    cases rest with
    | nil => rfl
    | cons c rest =>
      obtain ⟨-, he, hE⟩ := h c rfl
      rw [cutExponent, if_neg]
      rintro ⟨heq | heq, -⟩
      · exact he heq
      · exact hE heq
  cases cs with
  | nil => exact hnone
  | cons e cs =>
    rw [cutExponent]
    split
    · rename_i hmark
      obtain ⟨he, hdigit⟩ := hmark
      have hagain := startsWithDigit_again hdigit rest
      show cutExponent (e :: ((cutSign cs).1 ++ (cutDigits (cutSign cs).2).1 ++ rest)) = _
      rw [List.append_assoc, cutExponent, cutSign_again cs hagain, if_pos ⟨he, hagain⟩,
        cutDigits_again _ fun c hc => (h c hc).1]
    · exact hnone

theorem starts_cutExponent (cs : List Char) : Starts (fun c => c = 'e' ∨ c = 'E') (cutExponent cs).1 := by
  cases cs with
  | nil => rintro c ⟨⟩
  | cons e cs =>
    rw [cutExponent]
    split
    · rename_i hmark
      rintro c ⟨⟩
      exact hmark.1
    · rintro c ⟨⟩

theorem cutSuffix_none (h : Starts (fun c => c ≠ 'L') cs) : cutSuffix cs = ([], cs) := by
  unfold cutSuffix
  split
  · exact absurd rfl (h _ rfl)
  · rfl

theorem cutSuffix_again (cs : List Char) (h : Starts (fun c => c ≠ 'L') rest) :
    cutSuffix ((cutSuffix cs).1 ++ rest) = ((cutSuffix cs).1, rest) := by
  by_cases hsuffix : ∃ cs', cs = 'L' :: cs'
  · obtain ⟨cs', rfl⟩ := hsuffix
    rfl
  · have hstarts : Starts (fun c => c ≠ 'L') cs := by
      rintro c hc rfl
      exact hsuffix (List.head?_eq_some_iff.1 hc)
    rw [cutSuffix_none hstarts]
    exact cutSuffix_none h

theorem starts_cutSuffix (cs : List Char) : Starts (fun c => c = 'L') (cutSuffix cs).1 := by
  unfold cutSuffix
  split
  · rintro c ⟨⟩
    rfl
  · exact nofun

/-! ### All pieces -/

theorem append_cutHexMark (cs : List Char) : (cutHexMark cs).1 ++ (cutHexMark cs).2 = cs := by
  unfold cutHexMark
  split
  · split <;> rfl
  · rfl

theorem append_cutFraction (cs : List Char) : (cutFraction cs).1 ++ (cutFraction cs).2 = cs := by
  unfold cutFraction
  split
  · split
    · exact congrArg ('.' :: ·) List.takeWhile_append_dropWhile
    · rfl
  · rfl

theorem append_cutSign (cs : List Char) : (cutSign cs).1 ++ (cutSign cs).2 = cs := by
  unfold cutSign
  split <;> rfl

theorem append_cutExponent (cs : List Char) : (cutExponent cs).1 ++ (cutExponent cs).2 = cs := by
  cases cs with
  | nil => rfl
  | cons e cs =>
    rw [cutExponent]
    split
    · show e :: ((cutSign cs).1 ++ (cutDigits (cutSign cs).2).1 ++ (cutDigits (cutSign cs).2).2) = _
      rw [List.append_assoc, cutDigits, List.takeWhile_append_dropWhile, append_cutSign]
    · rfl

theorem append_cutSuffix (cs : List Char) : (cutSuffix cs).1 ++ (cutSuffix cs).2 = cs := by
  unfold cutSuffix
  split <;> rfl

/-- A numeral is cut off the front of the text. -/
theorem exists_append_cutNumeral (cs : List Char) : ∃ rest, (cutNumeral cs).run ++ rest = cs := by
  unfold cutNumeral
  dsimp only
  split
  · refine ⟨(cutSuffix ((cutHexMark cs).2.dropWhile Text.isHexDigit)).2, ?_⟩
    rw [List.append_assoc, append_cutSuffix, List.append_assoc, List.takeWhile_append_dropWhile, append_cutHexMark]
  · refine ⟨(cutSuffix (cutExponent (cutFraction (cutDigits cs).2).2).2).2, ?_⟩
    simp only [List.append_assoc]
    rw [append_cutSuffix, append_cutExponent, append_cutFraction, cutDigits, List.takeWhile_append_dropWhile]

theorem cutHexMark_cases (cs : List Char) :
    (∃ x ds, (x = 'x' ∨ x = 'X') ∧ cs = '0' :: x :: ds ∧ cutHexMark cs = (['0', x], ds)) ∨
      cutHexMark cs = ([], cs) := by
  unfold cutHexMark
  split
  · rename_i x ds
    split
    · rename_i hx
      exact .inl ⟨x, ds, hx, rfl, rfl⟩
    · exact .inr rfl
  · exact .inr rfl

theorem cutHexMark_none {ds : List Char} {d : Char} (h : Starts (fun c => c ≠ 'x' ∧ c ≠ 'X') ds) :
    cutHexMark (d :: ds) = ([], d :: ds) := by
  rcases cutHexMark_cases (d :: ds) with ⟨x, ds, hx, hcs, -⟩ | hnone
  · obtain ⟨-, rfl⟩ := List.cons.inj hcs
    obtain ⟨hlow, hhigh⟩ := h x rfl
    exact (hx.elim hlow hhigh).elim
  · exact hnone

/-- A numeral that starts with a digit holds this digit. -/
theorem exists_cutNumeral_cons {c : Char} (hc : c.isDigit = true) (cs : List Char) :
    ∃ run behind, (cutNumeral (c :: cs)).run = c :: run ∧ cs = run ++ behind := by
  obtain ⟨behind, hbehind⟩ := exists_append_cutNumeral (c :: cs)
  have hsome : (cutNumeral (c :: cs)).run ≠ [] := by
    unfold cutNumeral
    dsimp only
    split
    · rename_i hmark
      simp [hmark]
    · simp [cutDigits, List.takeWhile_cons_of_pos hc]
  obtain ⟨d, run, hrun⟩ := List.exists_cons_of_ne_nil hsome
  rw [hrun, List.cons_append] at hbehind
  obtain ⟨rfl, rfl⟩ := List.cons.inj hbehind
  exact ⟨run, behind, hrun, rfl⟩

/-- **A numeral is cut again** in front of what does not go on with it. -/
theorem cutNumeral_again {c : Char} (hc : c.isDigit = true) (cs : List Char) (h : Delimits rest) :
    cutNumeral ((cutNumeral (c :: cs)).run ++ rest) = cutNumeral (c :: cs) := by
  have hrest := starts_of_delimits h
  have hnot {Q : Char → Prop} (hQ : ∀ c, ¬Continues c → Q c) : Starts Q rest := fun c hc => hQ c (hrest c hc)
  have hdigit {c : Char} (hc : ¬Continues c) : c.isDigit = false :=
    Bool.eq_false_iff.2 fun e => hc (.inl (isWordPart_of_isDigit e))
  have hne {c d : Char} (hc : ¬Continues c) (hd : Continues d) : c ≠ d := fun e => hc (e ▸ hd)
  have hL : Continues 'L' := .inl rfl
  rcases cutHexMark_cases (c :: cs) with ⟨x, ds, hx, hcs, hmark⟩ | hmark
  · let digits := ds.takeWhile Text.isHexDigit
    let suffix := cutSuffix (ds.dropWhile Text.isHexDigit)
    have hpiece : cutNumeral (c :: cs) = ⟨['0', x] ++ digits ++ suffix.1, false⟩ := by
      unfold cutNumeral
      rw [hmark]
      rfl
    have hbehind : Starts (fun c => Text.isHexDigit c = false) (suffix.1 ++ rest) :=
      Starts.append (fun c hc => starts_cutSuffix _ c hc ▸ rfl)
        (hnot fun c hc => Bool.eq_false_iff.2 fun e => hc (.inl (isWordPart_of_isHexDigit e)))
    obtain ⟨htake, hdrop⟩ := takeWhile_again ds hbehind
    have hsuffix : cutSuffix (suffix.1 ++ rest) = (suffix.1, rest) := cutSuffix_again _ (hnot fun c hc => hne hc hL)
    have hmark' : cutHexMark (['0', x] ++ digits ++ suffix.1 ++ rest) = (['0', x], digits ++ (suffix.1 ++ rest)) := by
      rw [List.append_assoc, List.append_assoc]
      exact if_pos hx
    rw [hpiece]
    unfold cutNumeral
    dsimp only
    rw [hmark', if_pos (List.cons_ne_nil _ _)]
    dsimp only
    rw [htake, hdrop, hsuffix]
  · let whole := cutDigits (c :: cs)
    let fraction := cutFraction whole.2
    let exponent := cutExponent fraction.2
    let suffix := cutSuffix exponent.2
    have hpiece : cutNumeral (c :: cs) = ⟨whole.1 ++ fraction.1 ++ exponent.1 ++ suffix.1,
        suffix.1.isEmpty && !(fraction.1.isEmpty && exponent.1.isEmpty)⟩ := by
      unfold cutNumeral
      rw [hmark]
      rfl
    -- What a piece ends in front of is the start of a later piece, or the text behind all of them.
    have hsuffix {Q : Char → Prop} (hl : Q 'L') (hQ : ∀ c, ¬Continues c → Q c) : Starts Q (suffix.1 ++ rest) :=
      Starts.append (fun c hc => starts_cutSuffix _ c hc ▸ hl) (hnot hQ)
    have hexponent {Q : Char → Prop} (he : Q 'e' ∧ Q 'E') (hl : Q 'L') (hQ : ∀ c, ¬Continues c → Q c) :
        Starts Q (exponent.1 ++ (suffix.1 ++ rest)) :=
      Starts.append (fun c hc => (starts_cutExponent _ c hc).elim (· ▸ he.1) (· ▸ he.2)) (hsuffix hl hQ)
    have hfraction {Q : Char → Prop} (hdot : Q '.') (he : Q 'e' ∧ Q 'E') (hl : Q 'L') (hQ : ∀ c, ¬Continues c → Q c) :
        Starts Q (fraction.1 ++ (exponent.1 ++ (suffix.1 ++ rest))) :=
      Starts.append (fun c hc => starts_cutFraction _ c hc ▸ hdot) (hexponent he hl hQ)
    have hwhole : whole.1 = c :: cs.takeWhile Char.isDigit := List.takeWhile_cons_of_pos hc
    have hmark' : cutHexMark (whole.1 ++ (fraction.1 ++ (exponent.1 ++ (suffix.1 ++ rest)))) =
        ([], whole.1 ++ (fraction.1 ++ (exponent.1 ++ (suffix.1 ++ rest)))) := by
      rw [hwhole]
      refine cutHexMark_none (Starts.append (fun d hd => ?_) (hfraction (by decide) (by decide) (by decide) fun c hc =>
        ⟨hne hc (.inl rfl), hne hc (.inl rfl)⟩))
      have hd : d.isDigit = true := List.all_eq_true.1 List.all_takeWhile d (List.mem_of_mem_head? hd)
      constructor <;> rintro rfl <;> exact nomatch hd
    have hdigits := cutDigits_again (c :: cs) (hfraction (Q := fun c => c.isDigit = false) rfl ⟨rfl, rfl⟩ rfl fun c hc =>
      hdigit hc)
    have hfractions := cutFraction_again whole.2 (hexponent (Q := fun c => c.isDigit = false ∧ c ≠ '.') (by decide)
      (by decide) fun c hc => ⟨hdigit hc, hne hc (.inr rfl)⟩)
    have hexponents := cutExponent_again fraction.2 (hsuffix (Q := fun c => c.isDigit = false ∧ c ≠ 'e' ∧ c ≠ 'E')
      (by decide) fun c hc => ⟨hdigit hc, hne hc (.inl rfl), hne hc (.inl rfl)⟩)
    have hsuffixes : cutSuffix (suffix.1 ++ rest) = (suffix.1, rest) :=
      cutSuffix_again exponent.2 (hnot fun c hc => hne hc hL)
    rw [hpiece]
    unfold cutNumeral
    simp only [List.append_assoc]
    rw [hmark', if_neg (fun h => h rfl), hdigits]
    dsimp only
    rw [hfractions]
    dsimp only
    rw [hexponents]
    dsimp only
    rw [hsuffixes]

end Numeral

/-! ## What is cut -/

namespace Lexeme

/-- The kinds of tokens that are copied as they are: numbers and user operators. -/
def isCopiedKind : TokenKind → Bool
  | .integer | .float | .percentOperator => true
  | _ => false

/-- A text that is seen as one word, and does not start like the rest of a longer sign. -/
structure IsWord (kind : TokenKind) (text : String) : Prop where
  spells : Spells text.toList [(kind, text)]
  first : ∃ c cs, text.toList = c :: cs ∧ c ≠ ':' ∧ c ≠ '='

/-- A lexeme that can be written down again if it is a number or a user operator. -/
def Copied (l : Lexeme) : Prop :=
  ∀ kind, l.role = .token kind → isCopiedKind kind = true → IsWord kind (String.ofList l.run)

variable {brackets : List Bracket} {c : Char} {cs : List Char}

theorem copied_of_kind {kind : TokenKind} (run : List Char) (h : isCopiedKind kind = false) :
    Copied ⟨.token kind, run⟩ := by
  rintro _ ⟨⟩ hcopied
  exact absurd (h.symm.trans hcopied) Bool.false_ne_true

theorem copied_token {kind : TokenKind} (h : isCopiedKind kind = false) (more : Nat) :
    ∀ l ∈ (front brackets (.token kind) c cs more).lexemes, Copied l :=
  List.forall_mem_singleton.2 (copied_of_kind _ h)

theorem copied_stray (more : Nat) : ∀ l ∈ (front brackets .stray c cs more).lexemes, Copied l :=
  List.forall_mem_singleton.2 nofun

theorem text_token {kind : TokenKind} (hcomment : kind ≠ .comment) (hroxygen : kind ≠ .roxygenComment) (run : List Char) :
    text ⟨.token kind, run⟩ = String.ofList run := by
  unfold text
  split
  · rename_i hrole
    exact absurd (LexemeRole.token.inj hrole) hcomment
  · rename_i hrole
    exact absurd (LexemeRole.token.inj hrole) hroxygen
  · rfl

theorem copied_again {kind : TokenKind} {run : List Char} (hc : c ≠ ':' ∧ c ≠ '=')
    (h : ∀ brackets rest, Delimits rest →
      cut brackets c (run ++ rest) = front brackets (.token kind) c (run ++ rest) run.length) :
    Copied ⟨.token kind, c :: run⟩ := by
  rintro _ ⟨⟩ hcopied
  refine ⟨?_, c, run, String.toList_ofList, hc⟩
  rw [String.toList_ofList]
  intro brackets rest hrest
  have hcomment : kind ≠ .comment := by rintro rfl; exact nomatch hcopied
  have hroxygen : kind ≠ .roxygenComment := by rintro rfl; exact nomatch hcopied
  rw [List.cons_append, seen_cons, h brackets rest hrest, front, List.take_left, List.drop_left, seen_token,
    text_token hcomment hroxygen]
  rfl

theorem copied_cutString (quote : Char) : ∀ l ∈ (cutString brackets quote cs).lexemes, Copied l := by
  have hquote (run : List Char) : Copied ⟨.token .quote, run⟩ := copied_of_kind run rfl
  have hstring (run : List Char) : Copied ⟨.token .string, run⟩ := copied_of_kind run rfl
  unfold cutString
  dsimp only
  split <;> simp [hquote, hstring]

theorem copied_cutBacktick : ∀ l ∈ (cutBacktick brackets cs).lexemes, Copied l := by
  unfold cutBacktick
  split
  · exact copied_token rfl _
  · exact copied_stray 0

theorem ne_of_isDigit (h : c.isDigit = true) : c ≠ ':' ∧ c ≠ '=' := by
  constructor <;> rintro rfl <;> exact nomatch h

/-- The step that begins with a digit takes a number. -/
theorem cut_digit (hc : c.isDigit = true) (brackets : List Bracket) (cs : List Char) :
    cut brackets c cs = cutNumber brackets c cs := by
  have hquote : ¬(c = '"' ∨ c = '\'') := by rintro (rfl | rfl) <;> exact nomatch hc
  have hbacktick : c ≠ '\x60' := by rintro rfl; exact nomatch hc
  rw [cut, if_neg hquote, if_neg hbacktick, if_pos hc]

theorem copied_cutNumber (hc : c.isDigit = true) : ∀ l ∈ (cutNumber brackets c cs).lexemes, Copied l := by
  obtain ⟨run, behind, hrun, rfl⟩ := Numeral.exists_cutNumeral_cons hc cs
  have htake : (run ++ behind).take ((Numeral.cutNumeral (c :: (run ++ behind))).run.length - 1) = run := by
    rw [hrun]
    exact List.take_left
  unfold cutNumber
  dsimp only
  rw [front, htake]
  refine List.forall_mem_singleton.2 (copied_again (ne_of_isDigit hc) fun brackets rest hrest => ?_)
  have hagain : Numeral.cutNumeral (c :: (run ++ rest)) = Numeral.cutNumeral (c :: (run ++ behind)) := by
    have hsame := Numeral.cutNumeral_again hc (run ++ behind) hrest
    rwa [hrun] at hsame
  rw [cut_digit hc, cutNumber, hagain, hrun]
  rfl

theorem copied_cutWord : ∀ l ∈ (cutWord brackets c cs).lexemes, Copied l := by
  refine copied_token ?_ _
  unfold wordKind
  split
  · rfl
  · unfold wordLiteral?
    split <;> rfl

theorem copied_cutDot : ∀ l ∈ (cutDot brackets cs).lexemes, Copied l := by
  unfold cutDot
  split
  · exact copied_stray 0
  · rename_i d ds
    split
    · rename_i hdigit
      let digits := (d :: ds).takeWhile Char.isDigit
      have hlength : digits.length ≤ (d :: ds).length := (List.takeWhile_sublist _).length_le
      have htake : (d :: ds).take digits.length = digits :=
        (List.prefix_iff_eq_take.1 (List.takeWhile_prefix _)).symm
      have hdigits : digits = d :: ds.takeWhile Char.isDigit := List.takeWhile_cons_of_pos hdigit
      show ∀ l ∈ [Lexeme.mk (.token .float) ('.' :: (d :: ds).take digits.length)], Copied l
      rw [htake]
      refine List.forall_mem_singleton.2 (copied_again (by decide) fun brackets rest hrest => ?_)
      have hends : Numeral.Starts (fun c => c.isDigit = false) rest := fun c hc =>
        Bool.eq_false_iff.2 fun e => Numeral.starts_of_delimits hrest c hc (.inl (Numeral.isWordPart_of_isDigit e))
      have hagain := (Numeral.takeWhile_again (d :: ds) hends).1
      have hcut : cutDot brackets (digits ++ rest) =
          front brackets (.token .float) '.' (digits ++ rest) ((digits ++ rest).takeWhile Char.isDigit).length := by
        rw [hdigits]
        exact if_pos hdigit
      exact hcut.trans (congrArg (front brackets _ '.' _ ·.length) hagain)
    · split
      · exact copied_cutWord
      · split
        · split
          · exact copied_token rfl _
          · exact copied_token rfl _
        · exact copied_stray 0

/-- What is marked, but not at once, has at least two characters. -/
theorem exists_two_of_lengthTo? {mark : Char} {n : Nat} (h : lengthTo? mark cs = some n)
    (hhead : cs.head? ≠ some mark) : ∃ a b ds m, cs = a :: b :: ds ∧ n = m + 1 := by
  have hless := lengthTo?_le h
  cases cs with
  | nil => cases h
  | cons a ds =>
    have ha : a ≠ mark := fun e => hhead (congrArg some e)
    rw [lengthTo?, if_neg ha] at h
    split at h
    · cases h
    · obtain ⟨m, -, rfl⟩ := Option.map_eq_some_iff.1 h
      cases ds with
      | nil => exact absurd hless (by simp)
      | cons b ds => exact ⟨a, b, ds, m, rfl, rfl⟩

theorem copied_cutPercent : ∀ l ∈ (cutPercent brackets cs).lexemes, Copied l := by
  unfold cutPercent
  split
  · exact copied_token rfl _
  · rename_i hmodulo
    split
    · exact copied_token rfl _
    · rename_i hpipe
      split
      · rename_i n hn
        have hlength : (cs.take (n + 1)).length = n + 1 := List.length_take_of_le (lengthTo?_le hn)
        refine List.forall_mem_singleton.2 (copied_again (by decide) fun brackets rest _ => ?_)
        -- The first two characters, which tell a user operator from the signs, are among those that are taken.
        obtain ⟨a, b, ds, m, rfl, rfl⟩ := exists_two_of_lengthTo? hn hmodulo
        have hmark : lengthTo? '%' (a :: b :: (ds.take m ++ rest)) = some (m + 1) := lengthTo?_append rest hn
        have hmodulo' : ¬(a :: b :: (ds.take m ++ rest)).head? = some '%' := hmodulo
        have hpipe' : ¬((a :: b :: (ds.take m ++ rest)).head? = some '>' ∧
          (a :: b :: (ds.take m ++ rest)).tail.head? = some '%') := hpipe
        show cutPercent brackets (a :: b :: (ds.take m ++ rest)) = _
        rw [cutPercent, if_neg hmodulo', if_neg hpipe', hmark, hlength]
        rfl
      · exact copied_stray 0

theorem copied_cutOpen : ∀ l ∈ (cutOpen brackets cs).lexemes, Copied l := by
  unfold cutOpen
  split
  · exact copied_token rfl _
  · split <;> exact copied_token rfl _

theorem copied_cutClose : ∀ l ∈ (cutClose brackets cs).lexemes, Copied l := by
  unfold cutClose
  split <;> exact copied_token rfl _

theorem copied_cutComment : ∀ l ∈ (cutComment brackets cs).lexemes, Copied l := by
  refine copied_token ?_ _
  split <;> rfl

theorem copied_cutSign : ∀ l ∈ (cutSign brackets c cs).lexemes, Copied l := by
  unfold cutSign
  split
  · rename_i kind more h
    refine copied_token ?_ _
    revert h
    unfold sign?
    dsimp only
    split <;> (try split) <;> (try split) <;> rintro ⟨⟩ <;> rfl
  · refine List.forall_mem_singleton.2 ?_
    split <;> exact nofun

/-- **What is cut out of a text as a number or as a user operator is that wherever it stands.** -/
theorem copied_ofTextFrom (brackets : List Bracket) (text : List Char) :
    ∀ l ∈ ofTextFrom brackets text, Copied l := by
  fun_induction ofTextFrom brackets text with
  | case1 => exact fun l hl => absurd hl List.not_mem_nil
  | case2 brackets c cs step ih =>
    refine List.forall_mem_append.2 ⟨?_, ih⟩
    show ∀ l ∈ (cut brackets c cs).lexemes, Copied l
    exact cut_cases brackets c cs (fun _ => copied_cutString c) (fun _ => copied_cutBacktick) copied_cutNumber
      (fun _ => copied_cutDot) (fun _ => copied_cutWord) (fun _ => copied_cutPercent) (fun _ => copied_cutOpen)
      (fun _ => copied_cutClose) (fun _ => copied_cutComment) copied_cutSign

end Lexeme

/-! ## Tokens -/

/-- A token that can be written down again if it is an identifier, a number or a user operator. -/
structure Token.IsCopied (t : Token) : Prop where
  name : t.kind = .identifier → Lexeme.IsName t.text
  word : Lexeme.isCopiedKind t.kind = true → Lexeme.IsWord t.kind t.text

/-- The tokens of a source can be written down again. -/
theorem SourceFile.isCopied {source : SourceFile} {t : Token} (h : t ∈ source.tokens) : t.IsCopied := by
  refine ⟨isName h, fun hkind => ?_⟩
  obtain ⟨l, hl, hrole, htext⟩ := exists_lexeme h
  have hword := Lexeme.copied_ofTextFrom [] _ l hl t.kind hrole hkind
  have hrun : l.text = String.ofList l.run := by
    rw [Lexeme.text, hrole]
    split
    · rename_i hcomment
      rw [LexemeRole.token.inj hcomment] at hkind
      exact absurd hkind Bool.false_ne_true
    · rename_i hcomment
      rw [LexemeRole.token.inj hcomment] at hkind
      exact absurd hkind Bool.false_ne_true
    · rfl
  rwa [← hrun, htext] at hword

end UnionScript
