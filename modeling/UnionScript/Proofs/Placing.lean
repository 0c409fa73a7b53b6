import UnionScript.Proofs.Copying
import UnionScript.Proofs.Coverage
import UnionScript.Proofs.Layout
/-!
# Placing — the tokens of a file in their places

The span of a token is as wide as its text, on the line where it starts.  So it ends where the text ends if the text is
within one line, as that of every token is but for the contents of strings (`inLine_ofTextFrom`); and since tokens do not
overlap, those of a file come one behind the other (`placed_tokens`).
-/
namespace UnionScript

/-! ## Lines -/

namespace Numeral

theorem ne_newline_of_isDigit {c : Char} (h : c.isDigit = true) : c ≠ '\n' := by
  rintro rfl
  exact absurd h (by decide)

/-- Whether a character may stand in a decimal number. -/
def isDecimalPart (c : Char) : Bool := c.isDigit || c ∈ ['.', 'e', 'E', '+', '-']

theorem not_mem_takeWhile {p : Char → Bool} {d : Char} (hd : p d = false) (cs : List Char) : d ∉ cs.takeWhile p :=
  fun h => absurd (List.mem_takeWhile_imp h) (by rw [hd]; exact Bool.false_ne_true)

section Parts

variable {d : Char} (hd : isDecimalPart d = false)

include hd

theorem not_mem_cutDigits (cs : List Char) : d ∉ (cutDigits cs).1 :=
  not_mem_takeWhile (Bool.or_eq_false_iff.1 hd).1 cs

theorem ne_of_isDecimalPart {c : Char} (hc : isDecimalPart c = true) : d ≠ c := by
  rintro rfl
  exact Bool.false_ne_true (hd.symm.trans hc)

theorem not_mem_cutFraction (cs : List Char) : d ∉ (cutFraction cs).1 := by
  unfold cutFraction
  split
  · split
    · rw [List.mem_cons]
      exact fun h => h.elim (ne_of_isDecimalPart hd (by decide)) (not_mem_cutDigits hd _)
    · exact List.not_mem_nil
  · exact List.not_mem_nil

theorem not_mem_cutSign (cs : List Char) : d ∉ (cutSign cs).1 := by
  unfold cutSign
  split
  · exact fun h => ne_of_isDecimalPart hd (by decide) (List.mem_singleton.1 h)
  · exact fun h => ne_of_isDecimalPart hd (by decide) (List.mem_singleton.1 h)
  · exact List.not_mem_nil

theorem not_mem_cutExponent (cs : List Char) : d ∉ (cutExponent cs).1 := by
  cases cs with
  | nil => exact List.not_mem_nil
  | cons e cs =>
    rw [cutExponent]
    split
    · rename_i hmark
      have he : d ≠ e := ne_of_isDecimalPart hd (by rcases hmark.1 with rfl | rfl <;> decide)
      simpa [he] using ⟨not_mem_cutSign hd cs, not_mem_cutDigits hd _⟩
    · exact List.not_mem_nil

end Parts

theorem newline_not_mem_cutSuffix (cs : List Char) : '\n' ∉ (cutSuffix cs).1 := by
  unfold cutSuffix
  split <;> simp

theorem newline_not_mem_cutHexMark (cs : List Char) : '\n' ∉ (cutHexMark cs).1 := by
  unfold cutHexMark
  split
  · split
    · rename_i hx
      rcases hx with rfl | rfl <;> simp
    · exact List.not_mem_nil
  · exact List.not_mem_nil

theorem newline_not_mem_cutNumeral (cs : List Char) : '\n' ∉ (cutNumeral cs).run := by
  unfold cutNumeral
  dsimp only
  split
  · simp only [List.mem_append, not_or]
    exact ⟨⟨newline_not_mem_cutHexMark _, not_mem_takeWhile (by decide) _⟩, newline_not_mem_cutSuffix _⟩
  · simp only [List.mem_append, not_or]
    have hpart : isDecimalPart '\n' = false := by decide
    exact ⟨⟨⟨not_mem_cutDigits hpart _, not_mem_cutFraction hpart _⟩, not_mem_cutExponent hpart _⟩,
      newline_not_mem_cutSuffix _⟩

end Numeral

namespace Lexeme

variable {brackets : List Bracket} {c : Char} {cs : List Char} {n : Nat} {kind : TokenKind}

/-- A token is within a line, but for the line end it may be; contents of strings are left out. -/
def InLine (l : Lexeme) : Prop :=
  ∀ kind, l.role = .token kind → kind ≠ .string → l.run ≠ [] ∧ '\n' ∉ l.run.dropLast

theorem inLine_front {role : LexemeRole} (h : '\n' ∉ (c :: cs.take n).dropLast) :
    ∀ l ∈ (front brackets role c cs n).lexemes, InLine l :=
  List.forall_mem_singleton.2 fun _ _ _ => ⟨List.cons_ne_nil _ _, h⟩

theorem inLine_run {role : LexemeRole} (hc : c ≠ '\n') (h : '\n' ∉ cs.take n) :
    ∀ l ∈ (front brackets role c cs n).lexemes, InLine l :=
  inLine_front fun hmem => (List.mem_cons.1 (List.mem_of_mem_dropLast hmem)).elim hc.symm h

/-- At most two more characters, of which only the last may be a line end. -/
theorem inLine_short {role : LexemeRole} (hc : c ≠ '\n') (hn : n ≤ 2) (hhead : n = 2 → ∀ d ∈ cs.head?, d ≠ '\n') :
    ∀ l ∈ (front brackets role c cs n).lexemes, InLine l := by
  refine inLine_front ?_
  obtain rfl | rfl | rfl : n = 0 ∨ n = 1 ∨ n = 2 := by omega
  · exact List.not_mem_nil
  · cases cs with
    | nil => exact List.not_mem_nil
    | cons d ds => simpa using hc.symm
  · rcases cs with _ | ⟨d, _ | ⟨e, ds⟩⟩
    · exact List.not_mem_nil
    · simpa using hc.symm
    · simpa using ⟨hc.symm, (hhead rfl d rfl).symm⟩

theorem inLine_stray (n : Nat) : ∀ l ∈ (front brackets .stray c cs n).lexemes, InLine l :=
  List.forall_mem_singleton.2 fun _ h => nomatch h

theorem newline_not_mem_take_lengthTo? {mark : Char} : ∀ {cs : List Char} {n : Nat}, lengthTo? mark cs = some n →
    '\n' ∉ cs.take n
  | [], _, h => by cases h
  | c :: cs, n, h => by
    rw [lengthTo?] at h
    split at h
    · cases h
    · rename_i hc
      split at h
      · cases h
        exact List.not_mem_nil
      · obtain ⟨m, hm, rfl⟩ := Option.map_eq_some_iff.1 h
        rw [List.take_succ_cons, List.mem_cons]
        exact fun hmem => hmem.elim (fun e => hc e.symm) (newline_not_mem_take_lengthTo? hm)

/-- What ends with a mark on the same line. -/
theorem inLine_marked {role : LexemeRole} {mark : Char} (hc : c ≠ '\n') (h : lengthTo? mark cs = some n) :
    ∀ l ∈ (front brackets role c cs (n + 1)).lexemes, InLine l := by
  refine inLine_front ?_
  have htake : (c :: cs.take (n + 1)).dropLast = c :: cs.take n := by
    have hlength : (cs.take (n + 1)).length = n + 1 := List.length_take_of_le (lengthTo?_le h)
    rw [List.dropLast_eq_take, List.length_cons, hlength, Nat.add_sub_cancel, List.take_succ_cons, List.take_take,
      Nat.min_eq_left (Nat.le_succ n)]
  rw [htake, List.mem_cons]
  exact fun hmem => hmem.elim (fun e => hc e.symm) (newline_not_mem_take_lengthTo? h)

theorem newline_not_mem_word : ∀ cs : List Char, '\n' ∉ cs.take (wordLength cs)
  | [] => List.not_mem_nil
  | c :: cs => by
    rw [wordLength]
    split
    · rename_i hpart
      have hc : '\n' ≠ c := by
        rintro rfl
        exact absurd hpart (by rw [show Text.isWordPart '\n' = false by decide]; simp)
      rw [List.take_succ_cons, List.mem_cons]
      exact fun hmem => hmem.elim hc (newline_not_mem_word cs)
    · exact List.not_mem_nil

theorem inLine_cutWord (hc : c ≠ '\n') : ∀ l ∈ (cutWord brackets c cs).lexemes, InLine l :=
  inLine_run hc (newline_not_mem_word cs)

theorem inLine_cutString (quote : Char) : ∀ l ∈ (cutString brackets quote cs).lexemes, InLine l := by
  have hquote (q : Char) : InLine ⟨.token .quote, [q]⟩ := fun _ _ _ => ⟨List.cons_ne_nil _ _, List.not_mem_nil⟩
  have hcontent (run : List Char) : InLine ⟨.token .string, run⟩ := fun _ h hne => absurd (LexemeRole.token.inj h).symm hne
  unfold cutString
  dsimp only
  split <;> simp only [List.cons_append, List.nil_append, List.forall_mem_cons]
  · exact ⟨hquote _, hcontent _, List.forall_mem_nil _⟩
  · exact ⟨hquote _, hcontent _, hquote _, List.forall_mem_nil _⟩

theorem inLine_cutNumber (hc : c.isDigit = true) : ∀ l ∈ (cutNumber brackets c cs).lexemes, InLine l := by
  refine inLine_run (Numeral.ne_newline_of_isDigit hc) fun hmem => ?_
  obtain ⟨run, behind, hrun, hbehind⟩ := Numeral.exists_cutNumeral_cons hc cs
  have htake : cs.take run.length = run := by rw [hbehind, List.take_left]
  rw [hrun, List.length_cons, Nat.add_sub_cancel, htake] at hmem
  exact Numeral.newline_not_mem_cutNumeral (c :: cs) (hrun ▸ List.mem_cons_of_mem c hmem)

theorem inLine_cutDot : ∀ l ∈ (cutDot brackets cs).lexemes, InLine l := by
  unfold cutDot
  split
  · exact inLine_stray 0
  · rename_i d rest
    split
    · refine inLine_run (by decide) fun hmem => ?_
      have hdigits : (d :: rest).take (Numeral.cutDigits (d :: rest)).1.length = (Numeral.cutDigits (d :: rest)).1 :=
        (List.prefix_iff_eq_take.1 (List.takeWhile_prefix _)).symm
      rw [hdigits] at hmem
      exact Numeral.not_mem_takeWhile (by decide) _ hmem
    · split
      · exact inLine_cutWord (by decide)
      · split
        · rename_i hdot
          subst hdot
          split
          · exact inLine_short (by decide) (by decide) fun _ e he => by cases he; decide
          · exact inLine_short (by decide) (by decide) fun h => absurd h (by decide)
        · exact inLine_stray 0

theorem inLine_cutPercent : ∀ l ∈ (cutPercent brackets cs).lexemes, InLine l := by
  unfold cutPercent
  split
  · exact inLine_short (by decide) (by decide) nofun
  · split
    · rename_i hpipe
      exact inLine_short (by decide) (by decide) fun _ d hd => by
        obtain rfl := Option.some.inj (hpipe.1.symm.trans hd)
        decide
    · split
      · rename_i n hn
        exact inLine_marked (by decide) hn
      · exact inLine_stray 0

theorem inLine_cutOpen : ∀ l ∈ (cutOpen brackets cs).lexemes, InLine l := by
  unfold cutOpen
  repeat' split
  all_goals exact inLine_short (by decide) (by decide) nofun

theorem inLine_cutClose : ∀ l ∈ (cutClose brackets cs).lexemes, InLine l := by
  unfold cutClose
  split <;> exact inLine_short (by decide) (by decide) nofun

theorem inLine_cutComment : ∀ l ∈ (cutComment brackets cs).lexemes, InLine l := by
  refine inLine_run (by decide) fun hmem => ?_
  rw [← (List.prefix_iff_eq_take.1 (List.takeWhile_prefix _))] at hmem
  exact Numeral.not_mem_takeWhile (by decide) _ hmem

theorem sign?_more {more : Nat} (h : sign? c cs = some (kind, more)) :
    more ≤ 2 ∧ (more = 2 → ∀ d ∈ cs.head?, d ≠ '\n') ∧ (c = '\n' → more = 0) := by
  unfold sign? at h
  dsimp only at h
  repeat' split at h
  all_goals first | contradiction | (cases h; simp_all)

theorem inLine_cutSign : ∀ l ∈ (cutSign brackets c cs).lexemes, InLine l := by
  unfold cutSign
  split
  · rename_i kind more hsign
    obtain ⟨hmore, hhead, hnewline⟩ := sign?_more hsign
    by_cases hc : c = '\n'
    · rw [hnewline hc]
      exact inLine_front List.not_mem_nil
    · exact inLine_short hc hmore hhead
  · exact inLine_front List.not_mem_nil

theorem inLine_cut : ∀ l ∈ (cut brackets c cs).lexemes, InLine l := by
  refine cut_cases brackets c cs (fun _ => inLine_cutString c) ?_ inLine_cutNumber (fun _ => inLine_cutDot) ?_
    (fun _ => inLine_cutPercent) (fun _ => inLine_cutOpen) (fun _ => inLine_cutClose) (fun _ => inLine_cutComment)
    inLine_cutSign
  · intro _
    unfold cutBacktick
    split
    · rename_i n hn
      exact inLine_marked (by decide) hn
    · exact inLine_stray 0
  · intro hword
    refine inLine_cutWord ?_
    rintro rfl
    exact absurd hword (by decide)

theorem inLine_ofTextFrom (brackets : List Bracket) (text : List Char) : ∀ l ∈ ofTextFrom brackets text, InLine l := by
  fun_induction ofTextFrom brackets text with
  | case1 => exact List.forall_mem_nil _
  | case2 brackets c cs step ih => exact List.forall_mem_append.2 ⟨inLine_cut, ih⟩

end Lexeme

/-! ## Places -/

namespace Lexeme

/-- A lexeme at an offset is one of those that are laid out. -/
theorem mem_of_mem_offsets : ∀ {lexemes : List Lexeme} {n : Nat} {seat : Nat × Lexeme}, seat ∈ offsets n lexemes →
    seat.2 ∈ lexemes
  | lexeme :: lexemes, n, seat, hmem => by
    rcases List.mem_cons.1 hmem with rfl | hmem
    · exact List.mem_cons_self
    · exact List.mem_cons_of_mem _ (mem_of_mem_offsets hmem)

end Lexeme

theorem placeAt_append (text : List Char) (n k : Nat) :
    placeAt text (n + k) = (placeAt text n).after ((text.drop n).take k) := by
  rw [placeAt_eq_after, placeAt_eq_after, List.take_add, Position.after_append]

/-- What stands later in a text has a later place. -/
theorem placeAt_lt {text : List Char} {m n : Nat} (h : m < n) (hn : n ≤ text.length) :
    placeAt text m < placeAt text n := by
  obtain ⟨k, rfl⟩ := Nat.exists_eq_add_of_lt h
  rw [Nat.add_assoc, placeAt_append, Position.lt_iff]
  refine Position.after_later _ _ fun hnil => ?_
  have hlength := congrArg List.length hnil
  rw [List.length_take, List.length_drop, List.length_nil] at hlength
  omega

theorem placeAt_le {text : List Char} {m n : Nat} (h : m ≤ n) (hn : n ≤ text.length) :
    placeAt text m ≤ placeAt text n := by
  rcases Nat.eq_or_lt_of_le h with rfl | h
  · exact le_rfl
  · exact (placeAt_lt h hn).le

namespace SourceFile

variable {source : SourceFile}

/-- A token other than the content of a string ends at a character of its lexeme. -/
theorem exists_last_of_seat {seat : Nat × Lexeme} {token : Nat × Token} (hmem : seat ∈ source.seats)
    (h : source.seatedToken? seat = some token) (hkind : token.2.kind ≠ .string) :
    ∃ m, seat.1 ≤ m ∧ m < Lexeme.stop seat ∧ token.2.span.last = placeAt source.text.toList m := by
  obtain ⟨n, ⟨role, run⟩⟩ := seat
  cases role with
  | blank => cases h
  | stray => cases h
  | token kind =>
    cases h
    obtain ⟨rest, hdrop, -, hfits⟩ := of_mem_seats hmem
    obtain ⟨hrun, hline⟩ := Lexeme.inLine_ofTextFrom [] _ _ (Lexeme.mem_of_mem_offsets hmem) kind rfl hkind
    obtain ⟨tail, htext, -⟩ := Lexeme.run_eq_text rfl hfits
    generalize hwritten : Lexeme.text ⟨.token kind, run⟩ = written at htext
    replace hdrop : source.text.toList.drop n = run ++ rest := hdrop
    replace htext : run = written.toList ++ tail := htext
    have hlength : run.length = written.toList.length + tail.length := by rw [htext, List.length_append]
    have hpos := List.length_pos_iff.2 hrun
    have hdropLast : written.toList.dropLast = run.take (written.toList.length - 1) := by
      rw [List.dropLast_eq_take, htext, List.take_append_of_le_length (Nat.sub_le _ _)]
    have hlast : '\n' ∉ written.toList.dropLast := by
      rw [hdropLast]
      rw [List.dropLast_eq_take] at hline
      have hshorter : written.toList.length - 1 ≤ run.length - 1 := by omega
      exact fun hin => hline ((List.take_prefix_take_left hshorter).subset hin)
    refine ⟨n + (written.toList.length - 1), Nat.le_add_right _ _, ?_, ?_⟩
    · show n + (written.toList.length - 1) < n + run.length
      have : 0 < run.length := hpos
      omega
    · rw [placeAt_append, hdrop, List.take_append_of_le_length (by omega), ← hdropLast,
        Position.after_of_no_newline _ _ hlast, List.length_dropLast]
      have hwidth : max written.length 1 - 1 = written.toList.length - 1 := by
        rw [← String.length_toList]
        omega
      exact congrArg (fun width => (⟨_, (placeAt source.text.toList n).column + width⟩ : Position)) hwidth

/-- **The tokens of a file come one behind the other**, and so does the line end behind them. -/
theorem placed_tokens (source : SourceFile) : Placed (source.tokens ++ [source.lineEnd]) := by
  have hseated {token : Nat × Token} (h : token ∈ source.seats.filterMap source.seatedToken?) :
      ∃ seat ∈ source.seats, source.seatedToken? seat = some token := List.mem_filterMap.1 h
  have hend : source.lineEnd.start = placeAt source.text.toList source.text.toList.length := by
    rw [placeAt_eq_after, List.take_length]
    rfl
  have hbefore {seat : Nat × Lexeme} {token : Nat × Token} {n : Nat} (hmem : seat ∈ source.seats)
      (htoken : source.seatedToken? seat = some token) {u : Token} (hu : u.start = placeAt source.text.toList n)
      (hn : Lexeme.stop seat ≤ n) (hlength : n ≤ source.text.toList.length) : token.2.Precedes u := by
    have hseat := tokenOf_of_eq hmem htoken
    refine ⟨?_, fun hkind => ?_⟩
    · rw [hseat.place, hu, hseat.offset]
      exact placeAt_le ((Nat.le_add_right _ _).trans hn) hlength
    · obtain ⟨m, -, hm, hlast⟩ := exists_last_of_seat hmem htoken hkind
      rw [hlast, hu]
      exact placeAt_lt (hm.trans_le hn) hlength
  refine ⟨fun t ht => ?_, ?_⟩
  · rcases List.mem_append.1 ht with ht | ht
    · rw [tokens_eq_seats] at ht
      obtain ⟨token, htoken, rfl⟩ := List.mem_map.1 ht
      obtain ⟨seat, -, -, hseat⟩ := exists_tokenOf htoken
      rw [hseat.place]
      exact Nat.succ_ne_zero _
    · obtain rfl := List.mem_singleton.1 ht
      rw [hend]
      exact Nat.succ_ne_zero _
  · rw [tokens_eq_seats]
    refine List.pairwise_append.2 ⟨List.pairwise_map.2 (List.pairwise_filterMap.2 ?_), List.pairwise_singleton _ _, ?_⟩
    · refine (seats_apart source).imp_of_mem fun hseat hlater h token htoken later hlaterToken => ?_
      have hplace := tokenOf_of_eq hlater hlaterToken
      obtain ⟨-, -, hstop, -⟩ := of_mem_seats hlater
      exact hbefore hseat htoken hplace.place (hplace.offset ▸ h)
        (hplace.offset ▸ (Nat.le_add_right _ _).trans hstop)
    · intro t ht u hu
      obtain ⟨token, htoken, rfl⟩ := List.mem_map.1 ht
      obtain rfl := List.mem_singleton.1 hu
      obtain ⟨seat, hseat, htaken⟩ := hseated htoken
      obtain ⟨-, -, hstop, -⟩ := of_mem_seats hseat
      exact hbefore hseat htaken hend hstop le_rfl

end SourceFile
end UnionScript
