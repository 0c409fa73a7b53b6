import UnionScript.Proofs.Literals
/-!
# ErrorPlaces — where errors are reported

The places that are come to in a text are those of its lines, the one right behind each line included
(`hasPlace_iff_placeAt`).  An error is reported from the place of a character, or from the end of the text, to one that is
no earlier.  Where it ends is told by tokens that are within a line, but for the content of a string that is not closed: its
end is counted as if it were within a line as well.  So that is a place of the text exactly if no line ends within the
content (`places_of_errors`).
-/
namespace UnionScript

/-! ## Places of a text -/

/-- The lines of a text as places count them: a line feed ends each of them but the last. -/
def rows (text : String) : List (List Char) := text.toList.splitOn '\n'

/-- There is such a line, and the column is one of its characters or right behind them. -/
def HasPlace (text : String) (p : Position) : Prop :=
  1 ≤ p.line ∧ ∃ row ∈ (rows text)[p.line - 1]?, 1 ≤ p.column ∧ p.column ≤ row.length + 1

theorem splitOn_newline (c : Char) (cs : List Char) : (c :: cs).splitOn '\n' =
    if c = '\n' then [] :: cs.splitOn '\n' else (cs.splitOn '\n').modifyHead (c :: ·) := by
  rw [List.splitOn, List.splitOnP_cons_eq_if_modifyHead]
  simp only [beq_iff_eq]
  rfl

/-- A place is in some lines, the first of which goes on from a place. -/
def IsIn (q p : Position) (lines : List (List Char)) : Prop :=
  q.line ≤ p.line ∧ ∃ row ∈ lines[p.line - q.line]?,
    if p.line = q.line then q.column ≤ p.column ∧ p.column ≤ q.column + row.length
    else 1 ≤ p.column ∧ p.column ≤ 1 + row.length

section IsIn

variable {l column column' k : Nat} {row : List Char} {lines : List (List Char)}

theorem isIn_first : IsIn ⟨l, column⟩ ⟨l, column'⟩ (row :: lines) ↔ column ≤ column' ∧ column' ≤ column + row.length := by
  simp [IsIn]

theorem isIn_later : IsIn ⟨l, column⟩ ⟨l + 1 + k, column'⟩ (row :: lines) ↔
    ∃ row ∈ lines[k]?, 1 ≤ column' ∧ column' ≤ 1 + row.length := by
  have hindex : l + 1 + k - l = k + 1 := by omega
  have hne : l + 1 + k ≠ l := by omega
  have hle : l ≤ l + 1 + k := by omega
  simp only [IsIn, hindex, hne, if_false, hle, true_and, List.getElem?_cons_succ]

theorem isIn_next_line : IsIn ⟨l + 1, 1⟩ ⟨l + 1 + k, column'⟩ lines ↔
    ∃ row ∈ lines[k]?, 1 ≤ column' ∧ column' ≤ 1 + row.length := by
  have hindex : l + 1 + k - (l + 1) = k := by omega
  have hle : l + 1 ≤ l + 1 + k := by omega
  simp only [IsIn, hindex, hle, true_and, ite_self]

theorem not_isIn_earlier {p q : Position} (h : p.line < q.line) : ¬IsIn q p lines := fun hin =>
  absurd hin.1 (Nat.not_le.2 h)

end IsIn

/-- With one more character in front, a place is the first one or in the lines from the next one on. -/
theorem isIn_cons (c : Char) (cs : List Char) (q p : Position) :
    p = q ∨ IsIn (q.next c) p (cs.splitOn '\n') ↔ IsIn q p ((c :: cs).splitOn '\n') := by
  obtain ⟨l, column⟩ := q
  obtain ⟨l', column'⟩ := p
  rw [splitOn_newline, Position.mk.injEq]
  have hwhere : l' < l ∨ l' = l ∨ ∃ k, l' = l + 1 + k := by
    rcases Nat.lt_trichotomy l' l with h | h | h
    · exact .inl h
    · exact .inr (.inl h)
    · exact .inr (.inr ⟨l' - (l + 1), by omega⟩)
  by_cases hc : c = '\n'
  · have hnext : Position.next ⟨l, column⟩ c = ⟨l + 1, 1⟩ := if_pos hc
    rw [hnext, if_pos hc]
    rcases hwhere with h | rfl | ⟨k, rfl⟩
    · have hnot : ¬IsIn ⟨l + 1, 1⟩ ⟨l', column'⟩ (cs.splitOn '\n') := not_isIn_earlier (Nat.lt_succ_of_lt h)
      have hnot' : ¬IsIn ⟨l, column⟩ ⟨l', column'⟩ ([] :: cs.splitOn '\n') := not_isIn_earlier h
      simp only [hnot, hnot', or_false, iff_false]
      omega
    · have hnot : ¬IsIn ⟨l' + 1, 1⟩ ⟨l', column'⟩ (cs.splitOn '\n') := not_isIn_earlier (Nat.lt_succ_self l')
      rw [isIn_first, List.length_nil]
      simp only [hnot, or_false, true_and]
      omega
    · rw [isIn_later, isIn_next_line, or_iff_right]
      omega
  · have hnext : Position.next ⟨l, column⟩ c = ⟨l, column + 1⟩ := if_neg hc
    obtain ⟨row, lines, hlines⟩ := List.exists_cons_of_ne_nil (List.splitOn_ne_nil '\n' cs)
    rw [hnext, if_neg hc, hlines, List.modifyHead_cons]
    rcases hwhere with h | rfl | ⟨k, rfl⟩
    · have hnot : ¬IsIn ⟨l, column + 1⟩ ⟨l', column'⟩ (row :: lines) := not_isIn_earlier h
      have hnot' : ¬IsIn ⟨l, column⟩ ⟨l', column'⟩ ((c :: row) :: lines) := not_isIn_earlier h
      simp only [hnot, hnot', or_false, iff_false]
      omega
    · rw [isIn_first, isIn_first, List.length_cons]
      omega
    · rw [isIn_later, isIn_later, or_iff_right]
      omega

/-- The places a text comes to from one on are those of its lines. -/
theorem exists_after_iff : ∀ (text : List Char) (q p : Position),
    (∃ before rest, text = before ++ rest ∧ p = q.after before) ↔ IsIn q p (text.splitOn '\n')
  | [], ⟨l, column⟩, ⟨l', column'⟩ => by
    constructor
    · rintro ⟨before, rest, htext, hp⟩
      obtain ⟨rfl, rfl⟩ := List.append_eq_nil_iff.1 htext.symm
      cases hp
      exact isIn_first.2 ⟨Nat.le_refl _, Nat.le_refl _⟩
    · rintro ⟨hline, row, hrow, hcolumn⟩
      have hindex : l' - l < [([] : List Char)].length := (List.getElem?_eq_some_iff.1 hrow).1
      obtain rfl : l' = l := Nat.le_antisymm (Nat.sub_eq_zero_iff_le.1 (Nat.lt_one_iff.1 hindex)) hline
      obtain ⟨hle, hge⟩ := isIn_first.1 ⟨hline, row, hrow, hcolumn⟩
      exact ⟨[], [], rfl, by rw [Nat.le_antisymm hle hge]; rfl⟩
  | c :: cs, q, p => by
    rw [← isIn_cons, ← exists_after_iff cs]
    constructor
    · rintro ⟨before, rest, htext, hp⟩
      cases before with
      | nil => exact .inl hp
      | cons d before =>
        obtain ⟨rfl, rfl⟩ := List.cons.inj htext
        exact .inr ⟨before, rest, rfl, hp⟩
    · rintro (hp | ⟨before, rest, rfl, hp⟩)
      · exact ⟨[], c :: cs, rfl, hp⟩
      · exact ⟨c :: before, rest, rfl, hp⟩

/-- **The places of a text** are those that are come to behind its first characters. -/
theorem hasPlace_iff_placeAt {text : String} {p : Position} :
    HasPlace text p ↔ ∃ n ≤ text.toList.length, p = placeAt text.toList n := by
  have hin : HasPlace text p ↔ IsIn .start p (text.toList.splitOn '\n') := by
    unfold HasPlace IsIn rows
    refine and_congr_right fun hline => exists_congr fun row => and_congr_right fun hrow => ?_
    show 1 ≤ p.column ∧ p.column ≤ row.length + 1 ↔
      if p.line = 1 then 1 ≤ p.column ∧ p.column ≤ 1 + row.length else 1 ≤ p.column ∧ p.column ≤ 1 + row.length
    rw [ite_id, Nat.add_comm]
  rw [hin, ← exists_after_iff]
  constructor
  · rintro ⟨before, rest, htext, hp⟩
    refine ⟨before.length, by rw [htext, List.length_append]; exact Nat.le_add_right _ _, ?_⟩
    rw [hp, placeAt_eq_after, htext, List.take_left]
  · rintro ⟨n, -, hp⟩
    exact ⟨_, _, (List.take_append_drop n _).symm, by rw [hp, placeAt_eq_after]⟩

theorem hasPlace_placeAt {text : String} {n : Nat} (h : n ≤ text.toList.length) :
    HasPlace text (placeAt text.toList n) :=
  hasPlace_iff_placeAt.2 ⟨n, h, rfl⟩

/-- As long as no line ends, as many columns are passed as characters. -/
theorem placeAt_within {text : List Char} {n k : Nat} (h : '\n' ∉ (text.drop n).take k) (hk : n + k ≤ text.length) :
    placeAt text (n + k) = ⟨(placeAt text n).line, (placeAt text n).column + k⟩ := by
  have hlength : ((text.drop n).take k).length = k := by
    rw [List.length_take, List.length_drop]
    omega
  rw [placeAt_append, Position.after_of_no_newline _ _ h, hlength]

/-- The last place of a line is that of the line feed. -/
theorem column_le_of_hasPlace {text : String} {n column : Nat} {front behind : List Char}
    (hdrop : text.toList.drop n = front ++ '\n' :: behind) (hfront : '\n' ∉ front)
    (h : HasPlace text ⟨(placeAt text.toList n).line, column⟩) : column ≤ (placeAt text.toList n).column + front.length := by
  have hlength := congrArg List.length hdrop
  rw [List.length_drop, List.length_append, List.length_cons] at hlength
  have hstop : placeAt text.toList (n + front.length) =
      ⟨(placeAt text.toList n).line, (placeAt text.toList n).column + front.length⟩ :=
    placeAt_within (by rwa [hdrop, List.take_left]) (by omega)
  have hnext : (placeAt text.toList (n + front.length + 1)).line = (placeAt text.toList n).line + 1 := by
    have hfeed : (text.toList.drop (n + front.length)).take 1 = ['\n'] := by
      rw [← List.drop_drop, hdrop, List.drop_left]
      rfl
    rw [placeAt_append, hfeed, hstop]
    rfl
  obtain ⟨m, hm, hplace⟩ := hasPlace_iff_placeAt.1 h
  -- The place is not behind the line feed, since it is on the same line.
  rcases Nat.lt_or_ge (n + front.length) m with hbehind | hbefore
  · have hle : placeAt text.toList (n + front.length + 1) ≤ placeAt text.toList m := placeAt_le hbehind hm
    rw [← hplace, Position.le_iff, hnext] at hle
    dsimp only at hle
    omega
  · have hle : placeAt text.toList m ≤ placeAt text.toList (n + front.length) := placeAt_le hbefore (by omega)
    rw [← hplace, hstop, Position.le_iff] at hle
    dsimp only at hle
    omega

/-- As many columns behind a character as there are characters left: that is a place exactly if no line ends in front of
the last one of them. -/
theorem hasPlace_behind {text : String} {n : Nat} {c : Char} {rest : List Char} (hc : c ≠ '\n')
    (hdrop : text.toList.drop n = c :: rest) : HasPlace text ⟨(placeAt text.toList n).line,
      (placeAt text.toList n).column + max rest.length 1⟩ ↔ '\n' ∉ (c :: rest).dropLast := by
  have hlength := congrArg List.length hdrop
  rw [List.length_drop, List.length_cons] at hlength
  constructor
  · intro hplace hend
    obtain ⟨front, behind, hsplit, hfront⟩ := List.eq_append_cons_of_mem hend
    obtain ⟨last, hlast⟩ := List.dropLast_prefix (c :: rest)
    have hshort := congrArg List.length hsplit
    rw [List.length_dropLast, List.length_cons, List.length_append, List.length_cons] at hshort
    have hdrop : text.toList.drop n = front ++ '\n' :: (behind ++ last) := by
      rw [hdrop, ← hlast, hsplit, List.append_assoc]
      rfl
    have hle := column_le_of_hasPlace hdrop hfront hplace
    omega
  · intro hline
    have hwithin : '\n' ∉ (text.toList.drop n).take (max rest.length 1) := by
      rw [hdrop]
      cases rest with
      | nil => exact fun h => hc (List.mem_singleton.1 h).symm
      | cons d rest =>
        have hcount : max (d :: rest).length 1 = (c :: d :: rest).length - 1 := Nat.max_eq_left (Nat.succ_pos _)
        rwa [hcount, ← List.dropLast_eq_take]
    have hstop : n + max rest.length 1 ≤ text.toList.length := by omega
    rw [← placeAt_within hwithin hstop]
    exact hasPlace_placeAt hstop

/-! ## Spans that are made of tokens -/

/-- A span of a file: from one place of its text to one that is no earlier. -/
structure SourceFile.HasSpan (source : SourceFile) (span : Span) : Prop where
  file : span.file = source.name
  le : span.first ≤ span.last
  first : HasPlace source.text span.first
  last : HasPlace source.text span.last

namespace SourceFile

variable {source : SourceFile}

theorem HasSpan.union {a b : Span} (ha : source.HasSpan a) (hb : source.HasSpan b) : source.HasSpan (a.union b) := by
  unfold Span.union
  split
  · exact hb
  · split
    · exact ha
    · have hfirst : a.first.earlier b.first ≤ a.first ∧ HasPlace source.text (a.first.earlier b.first) := by
        unfold Position.earlier
        split
        · exact ⟨le_rfl, ha.first⟩
        · rename_i h
          exact ⟨(not_le.1 fun hle => h ((Position.isLE_iff _ _).2 hle)).le, hb.first⟩
      have hlast : a.last ≤ a.last.later b.last ∧ HasPlace source.text (a.last.later b.last) := by
        unfold Position.later
        split
        · exact ⟨le_rfl, ha.last⟩
        · rename_i h
          exact ⟨(not_le.1 fun hle => h ((Position.isLE_iff _ _).2 hle)).le, hb.last⟩
      exact ⟨ha.file, (hfirst.1.trans ha.le).trans hlast.1, hfirst.2, hlast.2⟩

/-- The end of a text is a place of it. -/
theorem hasPlace_endPlace (source : SourceFile) : HasPlace source.text source.endPlace := by
  have hend : source.endPlace = placeAt source.text.toList source.text.toList.length := by
    rw [placeAt_eq_after, List.take_length]
    rfl
  rw [hend]
  exact hasPlace_placeAt (Nat.le_refl _)

/-- The span of a token is one of the file, if the token is no content of a string. -/
theorem hasSpan_of_mem {t : Token} (h : t ∈ source.tokens) (hkind : t.kind ≠ .string) : source.HasSpan t.span := by
  rw [tokens_eq_seats] at h
  obtain ⟨token, htoken, rfl⟩ := List.mem_map.1 h
  obtain ⟨seat, hmem, hseat⟩ := List.mem_filterMap.1 htoken
  have hplace := tokenOf_of_eq hmem hseat
  obtain ⟨-, -, hstop, -⟩ := of_mem_seats hmem
  obtain ⟨m, -, hm, hlast⟩ := exists_last_of_seat hmem hseat hkind
  refine ⟨hplace.file, token.2.start_le_last, ?_, ?_⟩
  · show HasPlace source.text token.2.start
    rw [hplace.place, hplace.offset]
    exact hasPlace_placeAt ((Nat.le_add_right _ _).trans hstop)
  · rw [hlast]
    exact hasPlace_placeAt (hm.le.trans hstop)

/-- The span of a token that is one column wide. -/
theorem hasSpan_of_end {t : Token} (hfile : t.file = source.name) (hstart : t.start = source.endPlace)
    (hwidth : t.text.length ≤ 1) : source.HasSpan t.span := by
  have hlast : t.span.last = source.endPlace := by
    rw [← hstart]
    show (⟨t.start.line, t.start.column + (max t.text.length 1 - 1)⟩ : Position) = t.start
    rw [Nat.max_eq_right hwidth, Nat.sub_self, Nat.add_zero]
  have hfirst : t.span.first = source.endPlace := hstart
  refine ⟨hfile, t.start_le_last, ?_, ?_⟩
  · rw [hfirst]
    exact source.hasPlace_endPlace
  · rw [hlast]
    exact source.hasPlace_endPlace

/-- Spans that are made of tokens of a file, contents of strings apart, are spans of it. -/
theorem hasSpan_of_around {span : Span} (h : (Knowledge.scanned [source]).Around span) : source.HasSpan span := by
  induction h with
  | union _ _ iha ihb => exact iha.union ihb
  | @token t ht =>
    obtain ⟨hmem, hkind⟩ := ht
    rcases List.mem_append.1 hmem with hmem | hmem
    · rw [List.flatMap_singleton] at hmem
      rcases List.mem_append.1 hmem with hmem | hmem
      · exact hasSpan_of_mem hmem hkind
      · obtain rfl := List.mem_singleton.1 hmem
        have htext : source.lineEnd.text = "\n" := rfl
        exact hasSpan_of_end rfl rfl (by rw [htext]; decide)
    · obtain rfl := List.mem_singleton.1 hmem
      exact hasSpan_of_end rfl rfl (Nat.zero_le 1)

/-! ## Strings that are not closed -/

theorem span_ofList (kind : TokenKind) (run : List Char) (file : String) (p : Position) :
    (⟨kind, String.ofList run, file, p⟩ : Token).span = ⟨file, p, ⟨p.line, p.column + (max run.length 1 - 1)⟩⟩ := by
  rw [Token.span, ← String.length_toList, String.toList_ofList]

/-- The span of a string that is not closed begins at its quote, and ends where its content would if no line ended in it. -/
theorem Unclosed.span {opening content : Token} (h : source.Unclosed opening content) :
    ∃ n quote rest, quote ≠ '\n' ∧ source.text.toList.drop n = quote :: rest ∧
      opening.span.union content.span = ⟨source.name, placeAt source.text.toList n,
        ⟨(placeAt source.text.toList n).line, (placeAt source.text.toList n).column + max rest.length 1⟩⟩ := by
  obtain @⟨before, rest, quote, hquote, htext⟩ := h
  have hquote : quote ≠ '\n' := by rcases hquote with rfl | rfl <;> decide
  have hplace : placeAt source.text.toList before.length = Position.start.after before := by
    rw [placeAt_eq_after, htext, List.take_left]
  refine ⟨before.length, quote, rest, hquote, by rw [htext, List.drop_left], ?_⟩
  rw [hplace, Position.after_append]
  generalize hp : Position.start.after before = p
  have hline : p.line ≠ 0 := by
    rw [← hp, start_after]
    exact Nat.succ_ne_zero _
  have hnext : p.after [quote] = ⟨p.line, p.column + 1⟩ := if_neg hquote
  have hwidth : p.column + 1 + (max rest.length 1 - 1) = p.column + max rest.length 1 := by omega
  rw [hnext, span_ofList, span_ofList, hwidth]
  refine Span.union_of_le hline hline ?_ ?_ <;> rw [Position.le_iff]
  · exact .inr ⟨rfl, Nat.le_succ _⟩
  · exact .inr ⟨rfl, Nat.add_le_add_left (Nat.zero_le _) _⟩

end SourceFile

/-! ## Errors -/

/-- The error of a string that is not closed, and a line that ends within its content: it is told by what stands in the text
from the opening quote on. -/
def ParseError.RunsOn (e : ParseError) (behind : List Char) : Prop :=
  match e with
  | .unterminatedString _ => '\n' ∈ behind.dropLast
  | _ => False

/-- Every other error is reported for a span of the file. -/
theorem hasSpan_of_explains {source : SourceFile} {e : ParseError} (h : (Knowledge.scanned [source]).Explains e)
    (hstring : ∀ span, e ≠ .unterminatedString span) : source.HasSpan e.span := by
  cases e with
  | unterminatedString span => exact absurd rfl (hstring span)
  | invalidLiteral text span =>
    obtain ⟨t, ht, -, -, rfl, -⟩ := h
    exact SourceFile.hasSpan_of_around (.token ht)
  | _ => exact SourceFile.hasSpan_of_around h

/-- **Where errors are reported**: for every error of a program that is read from a text, from a place of the text to one
that is no earlier.  Where it ends is a place of the text as well, but for a string that is not closed and runs on behind
the end of a line. -/
theorem places_of_errors (source : SourceFile) (limit : Nat) (e : ParseError)
    (h : e ∈ (ParsedProgram.ofTokens (TokenStream.scan [source]).tokens limit).errors) :
    e.span.file = source.name ∧ e.span.first ≤ e.span.last ∧ HasPlace source.text e.span.first ∧
      ∃ n, e.span.first = placeAt source.text.toList n ∧
        (HasPlace source.text e.span.last ↔ ¬e.RunsOn (source.text.toList.drop n)) := by
  have hreason := explains_scan [source] limit e h
  by_cases hstring : ∃ span, e = .unterminatedString span
  · obtain ⟨span, rfl⟩ := hstring
    obtain ⟨opening, content, ⟨file, hfile, hunclosed⟩, rfl⟩ := hreason
    obtain rfl := List.mem_singleton.1 hfile
    obtain ⟨n, quote, rest, hquote, hdrop, hspan⟩ := hunclosed.span
    have hn : n ≤ file.text.toList.length := by
      have hlength := congrArg List.length hdrop
      rw [List.length_drop, List.length_cons] at hlength
      omega
    show (opening.span.union content.span).file = _ ∧ (opening.span.union content.span).first ≤
      (opening.span.union content.span).last ∧ HasPlace _ (opening.span.union content.span).first ∧ ∃ n,
        (opening.span.union content.span).first = _ ∧ (HasPlace _ (opening.span.union content.span).last ↔
          '\n' ∉ (file.text.toList.drop n).dropLast)
    rw [hspan]
    refine ⟨rfl, (Position.le_iff _ _).2 (.inr ⟨rfl, Nat.le_add_right _ _⟩), hasPlace_placeAt hn, n, rfl, ?_⟩
    rw [hdrop]
    exact hasPlace_behind hquote hdrop
  · have hstring : ∀ span, e ≠ .unterminatedString span := fun span he => hstring ⟨span, he⟩
    have hplaces := hasSpan_of_explains hreason hstring
    obtain ⟨n, -, hfirst⟩ := hasPlace_iff_placeAt.1 hplaces.first
    have hstays : ¬e.RunsOn (source.text.toList.drop n) := by
      unfold ParseError.RunsOn
      split
      · exact absurd rfl (hstring _)
      · exact not_false
    exact ⟨hplaces.file, hplaces.le, hplaces.first, n, hfirst, iff_of_true hplaces.last hstays⟩

/-- A string that is not closed within one line: it is reported up to the end of the text. -/
theorem places_of_errors_unclosed :
    let source : SourceFile := ⟨"m.vp", "'ab"⟩
    let e : ParseError := .unterminatedString ⟨"m.vp", ⟨1, 1⟩, ⟨1, 3⟩⟩
    e ∈ (ParsedProgram.ofTokens (TokenStream.scan [source]).tokens 8).errors ∧ e.span.first ≤ e.span.last ∧
      HasPlace source.text e.span.first ∧ ∃ n, e.span.first = placeAt source.text.toList n ∧
        (HasPlace source.text e.span.last ↔ ¬e.RunsOn (source.text.toList.drop n)) := by
  intro source e
  have herror : (ParsedProgram.ofTokens (TokenStream.scan [source]).tokens 8).errors.head? = some e := by
    subst source e
    cbv
  have hmem := List.mem_of_head? herror
  exact ⟨hmem, (places_of_errors source 8 e hmem).2⟩

/-- A string that runs on behind the end of its line: it is reported up to a column that its line does not have. -/
theorem places_of_errors_two_lines :
    let source : SourceFile := ⟨"m.vp", "'abc\ndef"⟩
    let e : ParseError := .unterminatedString ⟨"m.vp", ⟨1, 1⟩, ⟨1, 8⟩⟩
    (ParsedProgram.ofTokens (TokenStream.scan [source]).tokens 8).errors = [e] ∧
      rows source.text = ["'abc".toList, "def".toList] ∧ ¬HasPlace source.text e.span.last := by
  intro source e
  have hrows : rows source.text = ["'abc".toList, "def".toList] := by
    subst source
    cbv
  refine ⟨?_, hrows, ?_⟩
  · subst source e
    cbv
  · rintro ⟨-, row, hrow, -, hcolumn⟩
    rw [hrows] at hrow
    obtain rfl := Option.some.inj hrow
    exact absurd hcolumn (by decide)

end UnionScript
