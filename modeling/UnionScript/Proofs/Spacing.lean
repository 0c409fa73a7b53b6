import Mathlib
import UnionScript.Proofs.Copying
/-!
# Spacing — words with space between them

A word that is one token when it is read alone is the same token wherever it stands in front of space, whatever brackets
are open there: what every step of cutting looks at beyond the word is not a space (`recut_cut`), and the two closing
brackets that are cut as one do not stand together.  So a text of such words is read as these words, and the line ends
between them (`seen_spaced`).
-/
namespace UnionScript

namespace Lexeme

/-! ## Space -/

/-- A blank, or a line end. -/
def isGap (c : Char) : Bool := c == ' ' || c == '\t' || c == '\r' || c == '\n'

/-- Whether a text is at its end, or begins with space. -/
abbrev Gapped (rest : List Char) : Prop := Numeral.Starts (fun c => isGap c = true) rest

variable {brackets : List Bracket} {c d : Char} {cs rest : List Char}

theorem isGap_iff : isGap c = true ↔ ((c = ' ' ∨ c = '\t') ∨ c = '\r') ∨ c = '\n' := by
  simp only [isGap, Bool.or_eq_true, beq_iff_eq]

theorem Gapped.delimits (h : Gapped rest) : Delimits rest := by
  intro c hc
  rcases isGap_iff.1 (h c hc) with ((rfl | rfl) | rfl) | rfl <;> decide

theorem Gapped.head?_ne (h : Gapped rest) (hd : isGap d = false) : rest.head? ≠ some d :=
  fun e => Bool.false_ne_true (hd.symm.trans (h d e))

/-- What is looked for behind a text, and is not space, is found in the text or not at all. -/
theorem Gapped.head?_append_iff (h : Gapped rest) (hd : isGap d = false) (cs : List Char) :
    (cs ++ rest).head? = some d ↔ cs.head? = some d := by
  cases cs with
  | nil => exact iff_of_false (h.head?_ne hd) nofun
  | cons c cs => exact Iff.rfl

theorem Gapped.tail_head?_append_iff (h : Gapped rest) (hd : isGap d = false) (hc : cs.head? = some c) :
    (cs ++ rest).tail.head? = some d ↔ cs.tail.head? = some d := by
  obtain ⟨ds, rfl⟩ := List.head?_eq_some_iff.1 hc
  exact h.head?_append_iff hd ds

/-! ## What a step takes in front of space -/

/-- A step that takes a whole text as one token takes that text wherever space follows. -/
def Recut (step : List Bracket → List Char → Cut) (c : Char) : Prop :=
  ∀ ⦃kind : TokenKind⦄ ⦃cs : List Char⦄, kind ≠ .comment → kind ≠ .roxygenComment →
    (step [] cs).lexemes = [⟨.token kind, c :: cs⟩] → ∀ brackets rest, Gapped rest →
      ∃ left, step brackets (cs ++ rest) = ⟨[⟨.token kind, c :: cs⟩], rest, left⟩

theorem front_eq_iff {role : LexemeRole} {kind : TokenKind} {more : Nat} :
    (front brackets role c cs more).lexemes = [⟨.token kind, c :: cs⟩] ↔ role = .token kind ∧ cs.length ≤ more := by
  simp [front]

theorem front_append (brackets : List Bracket) (role : LexemeRole) (c : Char) (cs rest : List Char) :
    front brackets role c (cs ++ rest) cs.length = ⟨[⟨role, c :: cs⟩], rest, brackets⟩ := by
  rw [front, List.take_left, List.drop_left]

/-- A string is two tokens at least. -/
theorem exists_cutString (brackets : List Bracket) (quote : Char) (cs : List Char) : ∃ behind,
    (cutString brackets quote cs).lexemes =
      ⟨.token .quote, [quote]⟩ :: ⟨.token .string, cs.take (stringLength quote cs)⟩ :: behind := by
  unfold cutString
  dsimp only
  split <;> exact ⟨_, rfl⟩

theorem recut_cutString (quote : Char) : Recut (fun brackets => cutString brackets quote) quote := by
  intro kind cs _ _ h
  obtain ⟨behind, hbehind⟩ := exists_cutString [] quote cs
  exact nomatch (List.cons.inj (hbehind.symm.trans h)).2

/-- What is marked, and is the whole text, is marked wherever it stands. -/
theorem lengthTo?_whole {mark : Char} {n : Nat} (hn : lengthTo? mark cs = some n) (h : cs.length ≤ n + 1)
    (rest : List Char) : n + 1 = cs.length ∧ lengthTo? mark (cs ++ rest) = some n := by
  have hagain := lengthTo?_append rest hn
  rw [List.take_of_length_le h] at hagain
  exact ⟨Nat.le_antisymm (lengthTo?_le hn) h, hagain⟩

theorem recut_cutBacktick : Recut cutBacktick '\x60' := by
  intro kind cs _ _ h brackets rest _
  unfold cutBacktick at h ⊢
  split at h
  · rename_i n hn
    obtain ⟨hkind, hle⟩ := front_eq_iff.1 h
    obtain ⟨hlength, hagain⟩ := lengthTo?_whole hn hle rest
    rw [hagain, ← hkind]
    dsimp only
    rw [hlength]
    exact ⟨_, front_append ..⟩
  · exact nomatch (front_eq_iff.1 h).1

theorem recut_cutNumber (hc : c.isDigit = true) : Recut (fun brackets => cutNumber brackets c) c := by
  intro kind cs _ _ h brackets rest hrest
  obtain ⟨run, behind, hrun, rfl⟩ := Numeral.exists_cutNumeral_cons hc cs
  obtain ⟨hkind, hle⟩ := front_eq_iff.1 h
  have hlength : (Numeral.cutNumeral (c :: (run ++ behind))).run.length - 1 = run.length := by
    rw [hrun]
    rfl
  have hbehind : behind = [] := by
    rw [hlength, List.length_append] at hle
    exact List.eq_nil_of_length_eq_zero (by omega)
  subst hbehind
  rw [List.append_nil] at hrun hkind ⊢
  have hagain : Numeral.cutNumeral (c :: (run ++ rest)) = Numeral.cutNumeral (c :: run) := by
    have hsame := Numeral.cutNumeral_again hc run hrest.delimits
    rwa [hrun] at hsame
  refine ⟨brackets, ?_⟩
  show cutNumber brackets c (run ++ rest) = _
  unfold cutNumber
  dsimp only
  rw [hagain, hrun, ← hkind]
  exact front_append ..

theorem recut_cutWord : Recut (fun brackets => cutWord brackets c) c := by
  intro kind cs _ _ h brackets rest hrest
  obtain ⟨hkind, hle⟩ := front_eq_iff.1 h
  have htake : cs.take (wordLength cs) = cs := List.take_of_length_le hle
  have hagain := cutWord_again hrest.delimits brackets c cs
  rw [htake] at hagain hkind
  rw [← hkind]
  exact ⟨brackets, hagain.trans (front_append ..)⟩

theorem recut_cutDot : Recut cutDot '.' := by
  intro kind cs hcomment hroxygen h brackets rest hrest
  cases cs with
  | nil => exact nomatch (front_eq_iff.1 h).1
  | cons d ds =>
    unfold cutDot at h
    rw [List.cons_append]
    unfold cutDot
    dsimp only at h ⊢
    split at h
    · rename_i hdigit
      obtain ⟨hkind, hle⟩ := front_eq_iff.1 h
      have hall : (d :: ds).takeWhile Char.isDigit = d :: ds :=
        (List.takeWhile_prefix _).eq_of_length_le hle
      have hends : Numeral.Starts (fun c => c.isDigit = false) rest := fun c hc =>
        Bool.eq_false_iff.2 fun e => Numeral.starts_of_delimits hrest.delimits c hc (.inl (Numeral.isWordPart_of_isDigit e))
      have hagain := (Numeral.takeWhile_again (d :: ds) hends).1
      rw [hall] at hagain
      rw [if_pos hdigit, Numeral.cutDigits, ← List.cons_append, hagain, ← hkind]
      exact ⟨brackets, front_append ..⟩
    rename_i hdigit
    rw [if_neg hdigit]
    split at h
    · rename_i hstart
      rw [if_pos hstart]
      exact recut_cutWord hcomment hroxygen h brackets rest hrest
    rename_i hstart
    rw [if_neg hstart]
    split at h
    · rename_i hdot
      have hthird := hrest.head?_append_iff (d := '.') rfl ds
      rw [if_pos hdot]
      split at h
      · rename_i hmore
        obtain ⟨hkind, hle⟩ := front_eq_iff.1 h
        rw [if_pos (hthird.2 hmore), ← hkind]
        obtain ⟨es, rfl⟩ := List.head?_eq_some_iff.1 hmore
        cases List.eq_nil_of_length_eq_zero (Nat.le_zero.1 (Nat.le_of_add_le_add_right (Nat.le_of_add_le_add_right hle)))
        exact ⟨brackets, rfl⟩
      · rename_i hmore
        obtain ⟨hkind, hle⟩ := front_eq_iff.1 h
        rw [if_neg (mt hthird.1 hmore), ← hkind]
        cases List.eq_nil_of_length_eq_zero (Nat.le_zero.1 (Nat.le_of_add_le_add_right hle))
        exact ⟨brackets, rfl⟩
    · exact nomatch (front_eq_iff.1 h).1

theorem recut_cutPercent : Recut cutPercent '%' := by
  intro kind cs _ _ h brackets rest hrest
  have hfirst := hrest.head?_append_iff (d := '%') rfl cs
  have harrow : (cs ++ rest).head? = some '>' ∧ (cs ++ rest).tail.head? = some '%' ↔
      cs.head? = some '>' ∧ cs.tail.head? = some '%' := by
    rw [hrest.head?_append_iff rfl cs]
    exact and_congr_right fun hc => hrest.tail_head?_append_iff rfl hc
  unfold cutPercent at h ⊢
  rw [if_congr hfirst rfl rfl, if_congr harrow rfl rfl]
  split at h
  · rename_i hmodulo
    obtain ⟨hkind, hle⟩ := front_eq_iff.1 h
    obtain ⟨es, rfl⟩ := List.head?_eq_some_iff.1 hmodulo
    cases List.eq_nil_of_length_eq_zero (Nat.le_zero.1 (Nat.le_of_add_le_add_right hle))
    rw [if_pos hmodulo, ← hkind]
    exact ⟨brackets, rfl⟩
  rename_i hmodulo
  rw [if_neg hmodulo]
  split at h
  · rename_i hpipe
    obtain ⟨hkind, hle⟩ := front_eq_iff.1 h
    obtain ⟨es, rfl⟩ := List.head?_eq_some_iff.1 hpipe.1
    obtain ⟨fs, rfl⟩ := List.head?_eq_some_iff.1 hpipe.2
    cases List.eq_nil_of_length_eq_zero (Nat.le_zero.1 (Nat.le_of_add_le_add_right (Nat.le_of_add_le_add_right hle)))
    rw [if_pos hpipe, ← hkind]
    exact ⟨brackets, rfl⟩
  rename_i hpipe
  rw [if_neg hpipe]
  split at h
  · rename_i n hn
    obtain ⟨hkind, hle⟩ := front_eq_iff.1 h
    obtain ⟨hlength, hagain⟩ := lengthTo?_whole hn hle rest
    rw [hagain, ← hkind]
    dsimp only
    rw [hlength]
    exact ⟨brackets, front_append ..⟩
  · exact nomatch (front_eq_iff.1 h).1

theorem recut_cutOpen : Recut cutOpen '[' := by
  intro kind cs _ _ h brackets rest hrest
  unfold cutOpen at h ⊢
  rw [if_congr (hrest.head?_append_iff rfl cs) rfl rfl, if_congr (hrest.head?_append_iff rfl cs) rfl rfl]
  split at h
  · rename_i hdouble
    obtain ⟨hkind, hle⟩ := front_eq_iff.1 h
    obtain ⟨es, rfl⟩ := List.head?_eq_some_iff.1 hdouble
    cases List.eq_nil_of_length_eq_zero (Nat.le_zero.1 (Nat.le_of_add_le_add_right hle))
    rw [if_pos hdouble, ← hkind]
    exact ⟨_, rfl⟩
  rename_i hdouble
  rw [if_neg hdouble]
  split at h
  · rename_i hlist
    obtain ⟨hkind, hle⟩ := front_eq_iff.1 h
    obtain ⟨es, rfl⟩ := List.head?_eq_some_iff.1 hlist
    cases List.eq_nil_of_length_eq_zero (Nat.le_zero.1 (Nat.le_of_add_le_add_right hle))
    rw [if_pos hlist, ← hkind]
    exact ⟨_, rfl⟩
  · rename_i hlist
    obtain ⟨hkind, hle⟩ := front_eq_iff.1 h
    cases List.eq_nil_of_length_eq_zero (Nat.le_zero.1 hle)
    rw [if_neg hlist, ← hkind]
    exact ⟨_, rfl⟩

/-- A closing bracket in front of space is cut alone, even where two brackets are to be closed. -/
theorem recut_cutClose : Recut cutClose ']' := by
  intro kind cs _ _ h brackets rest hrest
  obtain ⟨hkind, hle⟩ := front_eq_iff.1 h
  cases List.eq_nil_of_length_eq_zero (Nat.le_zero.1 hle)
  have hsecond : ¬(brackets.head? = some .double ∧ rest.head? = some ']') := fun e => hrest.head?_ne rfl e.2
  rw [List.nil_append, cutClose, if_neg hsecond, ← hkind]
  exact ⟨_, rfl⟩

theorem recut_cutComment : Recut cutComment '#' := by
  intro kind cs hcomment hroxygen h
  have hkind := LexemeRole.token.inj (front_eq_iff.1 h).1
  split at hkind
  · exact absurd hkind.symm hroxygen
  · exact absurd hkind.symm hcomment

/-- The sign at the front of a text is the same with space behind the text. -/
theorem sign?_append (h : Gapped rest) (c : Char) (cs : List Char) : sign? c (cs ++ rest) = sign? c cs := by
  have hsecond (d : Char) (hd : isGap d = false) : (cs ++ rest).head? = some d ↔ cs.head? = some d :=
    h.head?_append_iff hd cs
  by_cases hcolon : c = ':'
  · subst hcolon
    refine congrArg some (ite_congr (propext (hsecond ':' rfl)) (fun hc => ?_) fun _ => rfl)
    exact if_congr (h.tail_head?_append_iff rfl hc) rfl rfl
  · unfold sign?
    dsimp only
    split <;> first | exact absurd rfl hcolon | rfl | simp (disch := decide) only [hsecond]

/-- A sign has no more characters than the text. -/
theorem sign?_le {kind : TokenKind} {more : Nat} (h : sign? c cs = some (kind, more)) : more ≤ cs.length := by
  have hone {d : Char} (hd : cs.head? = some d) : 1 ≤ cs.length := by
    obtain ⟨ds, rfl⟩ := List.head?_eq_some_iff.1 hd
    exact Nat.succ_pos _
  have htwo {d : Char} (hd : cs.tail.head? = some d) : 2 ≤ cs.length := by
    obtain ⟨ds, hds⟩ := List.head?_eq_some_iff.1 hd
    have hlength := congrArg List.length hds
    rw [List.length_tail, List.length_cons] at hlength
    omega
  unfold sign? at h
  dsimp only at h
  split at h <;> (try split at h) <;> (try split at h) <;> cases h <;>
    first | exact Nat.zero_le _ | exact hone (by assumption) | exact htwo (by assumption)

theorem recut_cutSign : Recut (fun brackets => cutSign brackets c) c := by
  intro kind cs _ _ h brackets rest hrest
  dsimp only at h ⊢
  unfold cutSign at h ⊢
  rw [sign?_append hrest]
  split at h
  · rename_i shown more hsign
    obtain ⟨hkind, hle⟩ := front_eq_iff.1 h
    have hmore : more = cs.length := Nat.le_antisymm (sign?_le hsign) hle
    rw [hkind, hmore]
    exact ⟨brackets, front_append ..⟩
  · have hrole := (front_eq_iff.1 h).1
    split at hrole <;> exact nomatch hrole

/-- **What is cut alone is cut again in front of space**, whatever brackets are open. -/
theorem recut_cut (c : Char) : Recut (fun brackets => cut brackets c) c := by
  intro kind cs hcomment hroxygen h brackets rest hrest
  dsimp only at h ⊢
  unfold cut at h ⊢
  by_cases hquote : c = '"' ∨ c = '\''
  · rw [if_pos hquote] at h ⊢
    exact recut_cutString c hcomment hroxygen h brackets rest hrest
  rw [if_neg hquote] at h ⊢
  by_cases hbacktick : c = '\x60'
  · subst hbacktick
    exact recut_cutBacktick hcomment hroxygen h brackets rest hrest
  rw [if_neg hbacktick] at h ⊢
  by_cases hdigit : c.isDigit = true
  · rw [if_pos hdigit] at h ⊢
    exact recut_cutNumber hdigit hcomment hroxygen h brackets rest hrest
  rw [if_neg hdigit] at h ⊢
  by_cases hdot : c = '.'
  · subst hdot
    exact recut_cutDot hcomment hroxygen h brackets rest hrest
  rw [if_neg hdot] at h ⊢
  by_cases hstart : Text.isWordStart c = true
  · rw [if_pos hstart] at h ⊢
    exact recut_cutWord hcomment hroxygen h brackets rest hrest
  rw [if_neg hstart] at h ⊢
  by_cases hpercent : c = '%'
  · subst hpercent
    exact recut_cutPercent hcomment hroxygen h brackets rest hrest
  rw [if_neg hpercent] at h ⊢
  by_cases hopen : c = '['
  · subst hopen
    exact recut_cutOpen hcomment hroxygen h brackets rest hrest
  rw [if_neg hopen] at h ⊢
  by_cases hclose : c = ']'
  · subst hclose
    exact recut_cutClose hcomment hroxygen h brackets rest hrest
  rw [if_neg hclose] at h ⊢
  by_cases hhash : c = '#'
  · subst hhash
    exact recut_cutComment hcomment hroxygen h brackets rest hrest
  rw [if_neg hhash] at h ⊢
  exact recut_cutSign hcomment hroxygen h brackets rest hrest

/-- Every step but that of a string takes one lexeme off the front. -/
theorem cut_string_or_front (brackets : List Bracket) (c : Char) (cs : List Char) :
    cut brackets c cs = cutString brackets c cs ∨
      ∃ left role more, cut brackets c cs = front left role c cs more := by
  refine cut_cases brackets c cs (fun _ => .inl rfl) ?_ (fun _ => .inr ⟨_, _, _, rfl⟩) ?_ (fun _ => .inr ⟨_, _, _, rfl⟩)
    ?_ ?_ ?_ ?_ ?_
  · rintro rfl
    unfold cutBacktick
    split <;> exact .inr ⟨_, _, _, rfl⟩
  · rintro rfl
    unfold cutDot cutWord
    repeat' split
    all_goals exact .inr ⟨_, _, _, rfl⟩
  · rintro rfl
    unfold cutPercent
    repeat' split
    all_goals exact .inr ⟨_, _, _, rfl⟩
  · rintro rfl
    unfold cutOpen
    repeat' split
    all_goals exact .inr ⟨_, _, _, rfl⟩
  · rintro rfl
    unfold cutClose
    split <;> exact .inr ⟨_, _, _, rfl⟩
  · rintro rfl
    exact .inr ⟨_, _, _, rfl⟩
  · unfold cutSign
    split <;> exact .inr ⟨_, _, _, rfl⟩

theorem length_run_le {l : Lexeme} {text : List Char} (h : l ∈ ofTextFrom brackets text) :
    l.run.length ≤ text.length := by
  have hrun : l.run.length ≤ (runs (ofTextFrom brackets text)).length := by
    rw [runs, List.length_flatMap]
    exact List.le_sum_of_mem (List.mem_map_of_mem h)
  rwa [runs_ofTextFrom] at hrun

end Lexeme

/-! ## Words -/

/-- A word that is read from its text alone: one token, neither a line end nor a comment, which is the whole text. -/
structure Word.IsSingle (file : String) (w : Word) : Prop where
  kind : w.1 ≠ .newline ∧ w.1 ≠ .comment ∧ w.1 ≠ .roxygenComment
  tokens : (SourceFile.tokenize ⟨file, w.2⟩).tokens.map Token.word = [w, (.eof, "")]
  strays : (SourceFile.tokenize ⟨file, w.2⟩).strays = []

namespace Lexeme

variable {file : String} {w : Word}

theorem text_of_role {l : Lexeme} {kind : TokenKind} (h : l.role = .token kind) (hcomment : kind ≠ .comment)
    (hroxygen : kind ≠ .roxygenComment) : l.text = String.ofList l.run := by
  obtain ⟨role, run⟩ := l
  cases h
  exact text_token hcomment hroxygen run

/-- A word that is read alone is taken by the first step. -/
theorem cut_of_isSingle (h : w.IsSingle file) :
    ∃ c cs, w.2.toList = c :: cs ∧ (cut [] c cs).lexemes = [⟨.token w.1, c :: cs⟩] := by
  obtain ⟨⟨-, hcomment, hroxygen⟩, htokens, hstrays⟩ := h
  have hread : ((layOut .start (ofText w.2)).filterMap (token? file)).map Token.word = [w] := by
    rw [SourceFile.tokenize, List.map_append] at htokens
    exact List.append_inj_left' htokens rfl
  have hnone : (layOut .start (ofText w.2)).filterMap (stray? file) = [] := hstrays
  rw [ofText] at hread hnone
  cases htext : w.2.toList with
  | nil =>
    rw [htext, ofTextFrom_nil] at hread
    exact nomatch hread
  | cons c cs =>
    refine ⟨c, cs, rfl, ?_⟩
    rw [htext, ofTextFrom_cons] at hread hnone
    rcases cut_string_or_front [] c cs with hstring | ⟨left, role, more, hfront⟩
    · obtain ⟨behind, hbehind⟩ := exists_cutString [] c cs
      rw [hstring, hbehind] at hread
      exact nomatch (List.cons.inj hread).2
    rw [hfront] at hread hnone ⊢
    rw [front_eq_iff]
    cases role with
    | stray => exact nomatch hnone
    | blank =>
      -- What is behind a blank is shorter than the text.
      obtain ⟨t, ht, hword⟩ : ∃ t, (layOut (Position.start.after (c :: cs.take more))
          (ofTextFrom left (cs.drop more))).filterMap (token? file) = [t] ∧ t.word = w :=
        List.map_eq_singleton_iff.1 hread
      obtain ⟨l, hl, hrole, hshown⟩ := SourceFile.exists_lexeme (ht ▸ List.mem_singleton_self t)
      obtain ⟨hkind, hsame⟩ := of_word hword
      have hrun : l.run = c :: cs := by
        rw [text_of_role hrole (hkind ▸ hcomment) (hkind ▸ hroxygen), hsame] at hshown
        rw [← htext, ← hshown, String.toList_ofList]
      have hlength := length_run_le hl
      rw [hrun, List.length_cons, List.length_drop] at hlength
      omega
    | token kind =>
      obtain ⟨hword, -⟩ := List.cons.inj hread
      have hkind : kind = w.1 := congrArg Prod.fst hword
      have hshown : text ⟨.token kind, c :: cs.take more⟩ = w.2 := congrArg Prod.snd hword
      have hrun : c :: cs.take more = c :: cs := by
        rw [text_token (hkind ▸ hcomment) (hkind ▸ hroxygen)] at hshown
        rw [← htext, ← hshown, String.toList_ofList]
      exact ⟨congrArg LexemeRole.token hkind, (List.take_eq_self_iff _).1 (List.cons.inj hrun).2⟩

/-- **A single word is read as the same word wherever space follows**, whatever brackets are open. -/
theorem seen_word (h : w.IsSingle file) (brackets : List Bracket) {rest : List Char} (hrest : Gapped rest) :
    ∃ left, seen (ofTextFrom brackets (w.2.toList ++ rest)) = sight w :: seen (ofTextFrom left rest) := by
  obtain ⟨c, cs, htext, hcut⟩ := cut_of_isSingle h
  obtain ⟨-, hcomment, hroxygen⟩ := h.kind
  obtain ⟨left, hleft⟩ : ∃ left, cut brackets c (cs ++ rest) = ⟨[⟨.token w.1, c :: cs⟩], rest, left⟩ :=
    recut_cut c hcomment hroxygen hcut brackets rest hrest
  refine ⟨left, ?_⟩
  rw [htext, List.cons_append, seen_cons, hleft, seen_token, text_token hcomment hroxygen, ← htext, String.ofList_toList]
  rfl

/-! ## Words and the space between them -/

/-- The line ends in some space. -/
def lineEnds (gap : List Char) : List Word := List.replicate (gap.count '\n') (.newline, "\n")

theorem seen_gap {gap : List Char} (h : ∀ c ∈ gap, isGap c = true) (brackets : List Bracket) (rest : List Char) :
    seen (ofTextFrom brackets (gap ++ rest)) = (lineEnds gap).map sight ++ seen (ofTextFrom brackets rest) := by
  induction gap with
  | nil => rfl
  | cons c gap ih =>
    have hbehind := ih fun d hd => h d (List.mem_cons_of_mem c hd)
    rw [List.cons_append, seen_cons]
    rcases isGap_iff.1 (h c List.mem_cons_self) with ((rfl | rfl) | rfl) | rfl
    · exact hbehind
    · exact hbehind
    · exact hbehind
    · rw [lineEnds, List.count_cons_self, List.replicate_succ]
      exact congrArg (_ :: ·) hbehind

/-- A text of words, each with the space behind it. -/
def spaced (pieces : List (Word × List Char)) : List Char := pieces.flatMap fun p => p.1.2.toList ++ p.2

/-- **Words with space between them are read as the words** and the line ends of the space. -/
theorem seen_spaced : ∀ {pieces : List (Word × List Char)}, (∀ p ∈ pieces, p.1.IsSingle file) →
    (∀ p ∈ pieces, ∀ c ∈ p.2, isGap c = true) → (∀ p ∈ pieces.dropLast, p.2 ≠ []) → ∀ brackets : List Bracket,
      seen (ofTextFrom brackets (spaced pieces)) = (pieces.flatMap fun p => p.1 :: lineEnds p.2).map sight
  | [], _, _, _, brackets => by
    rw [spaced, List.flatMap_nil, ofTextFrom_nil]
    rfl
  | (w, gap) :: pieces, hwords, hgaps, hbetween, brackets => by
    have hgap := hgaps _ List.mem_cons_self
    -- Behind the word there is its space, or the end of the text.
    have hrest : Gapped (gap ++ spaced pieces) := by
      cases gap with
      | cons c gap => exact fun d hd => hgap d (List.mem_of_mem_head? hd)
      | nil =>
        cases pieces with
        | nil => exact nofun
        | cons p pieces => exact absurd rfl (hbetween _ List.mem_cons_self)
    obtain ⟨left, hleft⟩ := seen_word (hwords _ List.mem_cons_self) brackets hrest
    have hdropLast : ∀ p ∈ pieces.dropLast, p ∈ ((w, gap) :: pieces).dropLast := by
      cases pieces with
      | nil => exact nofun
      | cons p pieces => exact fun q hq => List.mem_cons_of_mem _ hq
    have hbehind := seen_spaced (fun p hp => hwords p (List.mem_cons_of_mem _ hp))
      (fun p hp => hgaps p (List.mem_cons_of_mem _ hp)) (fun p hp => hbetween p (hdropLast p hp)) left
    have htext : spaced ((w, gap) :: pieces) = w.2.toList ++ (gap ++ spaced pieces) := by
      rw [spaced, List.flatMap_cons, List.append_assoc, spaced]
    rw [htext, hleft, seen_gap hgap, hbehind, List.flatMap_cons, List.cons_append, List.map_cons, List.map_append]

end Lexeme

/-! ## The texts of files -/

/-- The words that were read, line ends apart. -/
def TokenStream.words (stream : TokenStream) : List Word :=
  (stream.tokens.filter fun t => t.kind != .newline).map Token.word

namespace SourceFile

open Lexeme

/-- The tokens of a text of single words with space between them, and the line ends among them. -/
theorem tokens_spaced {file : String} {pieces : List (Word × List Char)} (name : String) (lead : List Char)
    (hwords : ∀ p ∈ pieces, p.1.IsSingle file) (hlead : ∀ c ∈ lead, isGap c = true)
    (hgaps : ∀ p ∈ pieces, ∀ c ∈ p.2, isGap c = true) (hbetween : ∀ p ∈ pieces.dropLast, p.2 ≠ []) :
    let source : SourceFile := ⟨name, String.ofList (lead ++ spaced pieces)⟩
    source.tokens.map Token.word = lineEnds lead ++ (pieces.flatMap fun p => p.1 :: lineEnds p.2) ∧ source.strays = [] := by
  refine words_of_seen name .start ?_
  rw [ofText, String.toList_ofList, seen_gap hlead, seen_spaced hwords hgaps hbetween, List.map_append]

theorem filter_lineEnds (gap : List Char) : (lineEnds gap).filter (fun w => w.1 != .newline) = [] := by
  rw [lineEnds, List.filter_replicate]
  rfl

/-- Without the line ends, the words are left. -/
theorem filter_words {file : String} : ∀ {pieces : List (Word × List Char)}, (∀ p ∈ pieces, p.1.IsSingle file) →
    (pieces.flatMap fun p => p.1 :: lineEnds p.2).filter (fun w => w.1 != .newline) = pieces.map Prod.fst
  | [], _ => rfl
  | (w, gap) :: pieces, h => by
    have hw : (w.1 != .newline) = true := bne_iff_ne.2 (h _ List.mem_cons_self).kind.1
    rw [List.flatMap_cons, List.cons_append, List.filter_cons, if_pos hw, List.filter_append, filter_lineEnds,
      filter_words fun p hp => h p (List.mem_cons_of_mem _ hp)]
    rfl

/-- **Words joined by space are read as these words.**  Of words each of which, read alone, is a single token, a text with
space between them is read as these words in this order, line ends apart, and no character is left over; so it is for
any blanks and line ends between two words, at least one, and for any or none in front of the first and behind the last.
A file of such a text is read so alone and as a program. -/
theorem tokenize_spaced (file name : String) (lead : List Char) (pieces : List (Word × List Char))
    (hwords : ∀ p ∈ pieces, p.1.IsSingle file) (hlead : ∀ c ∈ lead, isGap c = true)
    (hgaps : ∀ p ∈ pieces, ∀ c ∈ p.2, isGap c = true) (hbetween : ∀ p ∈ pieces.dropLast, p.2 ≠ []) :
    let source : SourceFile := ⟨name, String.ofList (lead ++ spaced pieces)⟩
    (source.tokenize.strays = [] ∧ source.tokenize.words = pieces.map Prod.fst ++ [(.eof, "")]) ∧
      (TokenStream.scan [source]).strays = [] ∧
      (TokenStream.scan [source]).words = pieces.map Prod.fst ++ [(.eof, "")] := by
  intro source
  obtain ⟨htokens, hstrays⟩ := tokens_spaced name lead hwords hlead hgaps hbetween
  have hread : (source.tokens.map Token.word).filter (fun w => w.1 != .newline) = pieces.map Prod.fst := by
    rw [htokens, List.filter_append, filter_lineEnds, List.nil_append, filter_words hwords]
  have hkept : (source.tokens.filter fun t => t.kind != .newline).map Token.word = pieces.map Prod.fst := by
    rw [← hread, List.filter_map]
    rfl
  refine ⟨⟨hstrays, ?_⟩, ?_, ?_⟩
  · rw [TokenStream.words, tokenize, List.filter_append, List.map_append, hkept]
    rfl
  · exact (List.append_nil _).trans hstrays
  · rw [TokenStream.words, TokenStream.scan, List.flatMap_singleton, List.filter_append, List.filter_append,
      List.map_append, List.map_append, hkept]
    exact congrArg (· ++ [((.eof, "") : Word)]) (List.append_nil _)

/-- Two closing brackets are read as two where space stands between them, although `[[` is open. -/
theorem tokenize_spaced_brackets :
    let pieces : List (Word × List Char) := [((.doubleLeftBracket, "[["), [' ']), ((.identifier, "`a b`"), ['\t', '\n']),
      ((.rightBracket, "]"), ['\r', '\n']), ((.rightBracket, "]"), [' ']), ((.percentOperator, "%in%"), [' ']),
      ((.float, "1.5e-3"), [])]
    let source : SourceFile := ⟨"m.vp", String.ofList ([] ++ spaced pieces)⟩
    source.text = "[[ `a b`\t\n]\r\n] %in% 1.5e-3" ∧ (∀ p ∈ pieces, p.1.IsSingle "w.vp") ∧
      (source.tokenize.strays = [] ∧ source.tokenize.words = pieces.map Prod.fst ++ [(.eof, "")]) ∧
      (TokenStream.scan [source]).strays = [] ∧
      (TokenStream.scan [source]).words = pieces.map Prod.fst ++ [(.eof, "")] := by
  intro pieces source
  have hwords : ∀ p ∈ pieces, p.1.IsSingle "w.vp" := by
    simp only [pieces, List.forall_mem_cons, List.not_mem_nil, false_implies, implies_true, and_true]
    refine ⟨⟨by decide, ?_, ?_⟩, ⟨by decide, ?_, ?_⟩, ⟨by decide, ?_, ?_⟩, ⟨by decide, ?_, ?_⟩, ⟨by decide, ?_, ?_⟩,
      ⟨by decide, ?_, ?_⟩⟩ <;> cbv
  have hgaps : ∀ p ∈ pieces, ∀ c ∈ p.2, isGap c = true := by simp [pieces, isGap]
  have hbetween : ∀ p ∈ pieces.dropLast, p.2 ≠ [] := by simp [pieces]
  exact ⟨rfl, hwords, tokenize_spaced "w.vp" "m.vp" [] pieces hwords (List.forall_mem_nil _) hgaps hbetween⟩

end SourceFile
end UnionScript
