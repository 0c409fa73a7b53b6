import UnionScript.Token.Stream
/-!
# Spelling — texts that are seen as the same words wherever they stand

What is seen of a text are its lexemes, blanks and places apart (`Lexeme.seen`).  A text spells some words when they are
seen of it in front of anything that does not go on with it, whatever brackets are open (`Spells`).  The texts of
identifiers are such texts (`Faithful`): what was cut out of one text as an identifier is cut out of any other as the
same one, so identifiers can be written down again.
-/
namespace UnionScript

/-- A token without its place: the kind and the text. -/
abbrev Word := TokenKind × String

/-- What a token says, wherever it stands. -/
def Token.word (t : Token) : Word := (t.kind, t.text)

theorem of_word {t : Token} {w : Word} (h : t.word = w) : t.kind = w.1 ∧ t.text = w.2 :=
  ⟨congrArg Prod.fst h, congrArg Prod.snd h⟩

namespace Lexeme

/-! ## What is seen -/

/-- What is seen of lexemes: the roles and texts of all but blanks. -/
def seen (lexemes : List Lexeme) : List (LexemeRole × String) :=
  lexemes.filterMap fun l => if l.role = .blank then none else some (l.role, l.text)

/-- A word as it is seen. -/
def sight (w : Word) : LexemeRole × String := (.token w.1, w.2)

theorem seen_append (ls ms : List Lexeme) : seen (ls ++ ms) = seen ls ++ seen ms := List.filterMap_append

theorem seen_token {kind : TokenKind} {run : List Char} (ls : List Lexeme) :
    seen (⟨.token kind, run⟩ :: ls) = (.token kind, text ⟨.token kind, run⟩) :: seen ls := by
  rw [seen, List.filterMap_cons, if_neg nofun]
  rfl

/-- Where words alone are seen, the tokens are these words, and no character is left over. -/
theorem words_of_seen (file : String) {ls : List Lexeme} {words : List Word} (p : Position)
    (h : seen ls = words.map sight) :
    ((layOut p ls).filterMap (token? file)).map Token.word = words ∧ (layOut p ls).filterMap (stray? file) = [] := by
  induction ls generalizing p words with
  | nil =>
    rw [List.map_eq_nil_iff.1 h.symm]
    exact ⟨rfl, rfl⟩
  | cons l ls ih =>
    obtain ⟨role, run⟩ := l
    cases role with
    | blank => exact ih _ h
    | stray =>
      cases words with
      | nil => exact nomatch h
      | cons w words => exact nomatch (List.cons.inj h).1
    | token kind =>
      rw [seen_token] at h
      cases words with
      | nil => exact nomatch h
      | cons w words =>
        obtain ⟨hw, h⟩ := List.cons.inj h
        obtain ⟨htokens, hstrays⟩ := ih (p.after run) h
        have hword : (kind, text ⟨.token kind, run⟩) = w := by
          obtain ⟨hkind, htext⟩ := Prod.mk.inj hw
          exact Prod.ext (LexemeRole.token.inj hkind) htext
        refine ⟨?_, hstrays⟩
        show (kind, text ⟨.token kind, run⟩) :: _ = w :: words
        rw [hword]
        exact congrArg (w :: ·) htokens

theorem seen_cons (brackets : List Bracket) (c : Char) (cs : List Char) :
    seen (ofTextFrom brackets (c :: cs)) = seen (cut brackets c cs).lexemes ++
      seen (ofTextFrom (cut brackets c cs).brackets (cut brackets c cs).rest) := by
  rw [ofTextFrom_cons, seen_append]

/-! ## Texts that spell words -/

/-- Whether no word goes on with a text. -/
def Delimits (rest : List Char) : Prop := ∀ c ∈ rest.head?, Text.isWordPart c = false ∧ c ≠ '.'

theorem delimits_nil : Delimits [] := nofun

theorem delimits_cons {c : Char} (h : (Text.isWordPart c || c == '.') = false) (rest : List Char) :
    Delimits (c :: rest) := by
  rintro _ ⟨⟩
  simpa using h

/-- A text of which some words are seen, and nothing else, in front of what no word goes on with. -/
def Spells (text : List Char) (words : List Word) : Prop :=
  ∀ brackets rest, Delimits rest →
    seen (ofTextFrom brackets (text ++ rest)) = words.map sight ++ seen (ofTextFrom brackets rest)

/-- A text of which some words are seen, and nothing else, in front of anything. -/
def Marks (text : List Char) (words : List Word) : Prop :=
  ∀ brackets rest, seen (ofTextFrom brackets (text ++ rest)) = words.map sight ++ seen (ofTextFrom brackets rest)

theorem spells_nil : Spells [] [] := fun _ _ _ => rfl

theorem Marks.spells {text : List Char} {words : List Word} (h : Marks text words) : Spells text words :=
  fun brackets rest _ => h brackets rest

theorem Marks.behind {text more : List Char} {words others : List Word} (h : Marks text words)
    (h' : Marks more others) : Marks (text ++ more) (words ++ others) := by
  intro brackets rest
  rw [List.append_assoc, h, h', List.map_append, List.append_assoc]

theorem Marks.append {text more : List Char} {words others : List Word} (h : Marks text words)
    (h' : Spells more others) : Spells (text ++ more) (words ++ others) := by
  intro brackets rest hrest
  rw [List.append_assoc, h, h' brackets rest hrest, List.map_append, List.append_assoc]

theorem Spells.append {text more : List Char} {words others : List Word} (h : Spells text words)
    (h' : Spells more others) (hmore : ∀ rest, Delimits rest → Delimits (more ++ rest)) :
    Spells (text ++ more) (words ++ others) := by
  intro brackets rest hrest
  rw [List.append_assoc, h brackets _ (hmore rest hrest), h' brackets rest hrest, List.map_append, List.append_assoc]

/-! ### Signs -/

theorem marks_blank : Marks [' '] [] := fun brackets rest => seen_cons brackets ' ' rest

theorem marks_newline : Marks ['\n'] [(.newline, "\n")] := fun brackets rest => seen_cons brackets '\n' rest

theorem marks_comma : Marks [','] [(.comma, ",")] := fun brackets rest => seen_cons brackets ',' rest

theorem marks_leftBrace : Marks ['{'] [(.leftBrace, "\x7b")] := fun brackets rest => seen_cons brackets '{' rest

theorem marks_rightBrace : Marks ['}'] [(.rightBrace, "\x7d")] := fun brackets rest => seen_cons brackets '}' rest

theorem marks_list : Marks ['[', ']'] [(.listMark, "[]")] := fun brackets rest => seen_cons brackets '[' (']' :: rest)

theorem marks_colon : Marks [':', ' '] [(.colon, ":")] := fun brackets rest =>
  (seen_cons brackets ':' (' ' :: rest)).trans (congrArg (_ :: ·) (marks_blank brackets rest))

theorem marks_or : Marks ['|', ' '] [(.or, "|")] := fun brackets rest =>
  (seen_cons brackets '|' (' ' :: rest)).trans (congrArg (_ :: ·) (marks_blank brackets rest))

theorem marks_type : Marks ['t', 'y', 'p', 'e', ' '] [(.keyword .type, "type")] := fun brackets rest =>
  (seen_cons brackets 't' ('y' :: 'p' :: 'e' :: ' ' :: rest)).trans (congrArg (_ :: ·) (marks_blank brackets rest))

/-! ### Names -/

/-- A text that is an identifier, and does not start like a sign of colons. -/
structure IsName (name : String) : Prop where
  spells : Spells name.toList [(.identifier, name)]
  first : ∃ c cs, name.toList = c :: cs ∧ c ≠ ':'

/-- A package goes with a name in front of which its sign stands. -/
theorem IsName.access {name : String} (h : IsName name) :
    Spells (':' :: ':' :: name.toList) [(.namespaceAccess, "::"), (.identifier, name)] := by
  intro brackets rest hrest
  obtain ⟨c, cs, hname, hc⟩ := h.first
  have hcut : cut brackets ':' (':' :: (name.toList ++ rest)) =
      front brackets (.token .namespaceAccess) ':' (':' :: (name.toList ++ rest)) 1 := by
    have hthird : (name.toList ++ rest).head? ≠ some ':' := by
      rw [hname]
      exact fun e => hc (Option.some.inj e)
    have hsign : sign? ':' (':' :: (name.toList ++ rest)) = some (.namespaceAccess, 1) := congrArg some (if_neg hthird)
    show cutSign brackets ':' (':' :: (name.toList ++ rest)) = _
    rw [cutSign, hsign]
  have hseen := h.spells brackets rest hrest
  rw [List.cons_append, List.cons_append, seen_cons, hcut]
  exact congrArg (_ :: ·) hseen

theorem wordLength_le : ∀ cs : List Char, wordLength cs ≤ cs.length
  | [] => Nat.le_refl 0
  | c :: cs => by
    rw [wordLength]
    split
    · exact Nat.succ_le_succ (wordLength_le cs)
    · exact Nat.zero_le _

theorem wordLength_of_delimits {rest : List Char} (h : Delimits rest) : wordLength rest = 0 := by
  cases rest with
  | nil => rfl
  | cons c cs =>
    obtain ⟨hpart, hdot⟩ := h c rfl
    rw [wordLength, if_neg]
    simp [hpart, hdot]

/-- **A word ends where it ended before**, in front of anything that does not go on with it. -/
theorem wordLength_append {rest : List Char} (h : Delimits rest) : ∀ cs : List Char,
    wordLength (cs.take (wordLength cs) ++ rest) = wordLength cs
  | [] => wordLength_of_delimits h
  | c :: cs => by
    have ih := wordLength_append h cs
    have hhead : (cs.take (wordLength cs) ++ rest).head? = some '.' → cs.head? = some '.' := by
      cases hn : wordLength cs with
      | zero => exact fun e => absurd rfl (h '.' e).2
      | succ n => cases cs <;> simp [wordLength] at hn ⊢
    by_cases hc : (Text.isWordPart c || (c == '.' && cs.head? != some '.')) = true
    · have hlength : wordLength (c :: cs) = wordLength cs + 1 := by rw [wordLength, if_pos hc]
      rw [hlength, List.take_succ_cons, List.cons_append, wordLength, if_pos, ih]
      rcases Bool.or_eq_true_iff.1 hc with hpart | hdot
      · rw [hpart, Bool.true_or]
      · obtain ⟨hdot, hnext⟩ := Bool.and_eq_true_iff.1 hdot
        have hnot : (cs.take (wordLength cs) ++ rest).head? ≠ some '.' := fun e => bne_iff_ne.1 hnext (hhead e)
        rw [hdot, bne_iff_ne.2 hnot, Bool.and_true, Bool.or_true]
    · have hlength : wordLength (c :: cs) = 0 := by rw [wordLength, if_neg hc]
      rw [hlength]
      exact wordLength_of_delimits h

theorem lengthTo?_le {mark : Char} : ∀ {cs : List Char} {n : Nat}, lengthTo? mark cs = some n → n < cs.length
  | c :: cs, n, h => by
    rw [lengthTo?] at h
    split at h
    · exact nomatch h
    · split at h
      · cases h
        exact Nat.succ_pos _
      · obtain ⟨m, hm, rfl⟩ := Option.map_eq_some_iff.1 h
        exact Nat.succ_lt_succ (lengthTo?_le hm)

/-- What is marked ends at its mark, whatever follows. -/
theorem lengthTo?_append {mark : Char} (rest : List Char) : ∀ {cs : List Char} {n : Nat}, lengthTo? mark cs = some n →
    lengthTo? mark (cs.take (n + 1) ++ rest) = some n
  | c :: cs, n, h => by
    rw [lengthTo?] at h
    rw [List.take_succ_cons, List.cons_append, lengthTo?]
    split at h
    · exact nomatch h
    · rename_i hline
      rw [if_neg hline]
      split at h
      · rename_i hmark
        rw [if_pos hmark, h]
      · rename_i hmark
        obtain ⟨m, hm, rfl⟩ := Option.map_eq_some_iff.1 h
        rw [if_neg hmark, lengthTo?_append rest hm]
        rfl

/-- An identifier that is cut off the front of any text it starts. -/
theorem spells_of_cut {c : Char} {run : List Char}
    (h : ∀ brackets rest, Delimits rest →
      cut brackets c (run ++ rest) = front brackets (.token .identifier) c (run ++ rest) run.length) :
    Spells (c :: run) [(.identifier, String.ofList (c :: run))] := by
  intro brackets rest hrest
  rw [List.cons_append, seen_cons, h brackets rest hrest, front, List.take_left, List.drop_left]
  rfl

/-! ### What is cut -/

/-- A lexeme that is no end of file, and that can be written down again if it is an identifier. -/
structure Faithful (l : Lexeme) : Prop where
  proper : l.role ≠ .token .eof
  name : l.role = .token .identifier → IsName (String.ofList l.run)

theorem faithful_of_ne {role : LexemeRole} (run : List Char)
    (h : role ≠ .token .identifier ∧ role ≠ .token .eof) : Faithful ⟨role, run⟩ := ⟨h.2, fun e => absurd e h.1⟩

theorem faithful_identifier {c : Char} {run : List Char} (hc : c ≠ ':')
    (h : ∀ brackets rest, Delimits rest →
      cut brackets c (run ++ rest) = front brackets (.token .identifier) c (run ++ rest) run.length) :
    Faithful ⟨.token .identifier, c :: run⟩ :=
  ⟨nofun, fun _ => ⟨by rw [String.toList_ofList]; exact spells_of_cut h, c, run, String.toList_ofList, hc⟩⟩

theorem role_ne {kind : TokenKind} (h : kind ≠ .identifier ∧ kind ≠ .eof) :
    LexemeRole.token kind ≠ .token .identifier ∧ LexemeRole.token kind ≠ .token .eof :=
  ⟨fun e => h.1 (LexemeRole.token.inj e), fun e => h.2 (LexemeRole.token.inj e)⟩

theorem wordKind_cases (word : String) : wordKind word = .identifier ∨
    wordKind word ≠ .identifier ∧ wordKind word ≠ .eof := by
  unfold wordKind
  split
  · exact .inr ⟨nofun, nofun⟩
  · unfold wordLiteral?
    split <;> simp

theorem sign?_ne {c : Char} {cs : List Char} {kind : TokenKind} {more : Nat} (h : sign? c cs = some (kind, more)) :
    kind ≠ .identifier ∧ kind ≠ .eof := by
  constructor <;> rintro rfl <;> revert h <;> unfold sign? <;> dsimp only <;> split <;> (try split) <;> (try split) <;>
    nofun

variable {brackets : List Bracket} {c : Char} {cs : List Char}

theorem faithful_front {role : LexemeRole} (h : role ≠ .token .identifier ∧ role ≠ .token .eof) (more : Nat) :
    ∀ l ∈ (front brackets role c cs more).lexemes, Faithful l :=
  List.forall_mem_singleton.2 (faithful_of_ne _ h)

theorem faithful_cutString (quote : Char) : ∀ l ∈ (cutString brackets quote cs).lexemes, Faithful l := by
  unfold cutString
  dsimp only
  split <;> simp [faithful_of_ne]

theorem faithful_cutBacktick : ∀ l ∈ (cutBacktick brackets cs).lexemes, Faithful l := by
  unfold cutBacktick
  split
  · rename_i n hn
    have hlength : (cs.take (n + 1)).length = n + 1 := List.length_take_of_le (lengthTo?_le hn)
    refine List.forall_mem_singleton.2 (faithful_identifier (by decide) fun brackets rest _ => ?_)
    show cutBacktick brackets (cs.take (n + 1) ++ rest) = _
    rw [cutBacktick, lengthTo?_append rest hn, hlength]
  · exact faithful_front (by decide) 0

theorem faithful_cutNumber : ∀ l ∈ (cutNumber brackets c cs).lexemes, Faithful l := by
  refine faithful_front ?_ _
  split <;> decide

/-- A word is cut out again where nothing goes on with it. -/
theorem cutWord_again {rest : List Char} (h : Delimits rest) (brackets : List Bracket) (c : Char) (cs : List Char) :
    cutWord brackets c (cs.take (wordLength cs) ++ rest) =
      front brackets (.token (wordKind (String.ofList (c :: cs.take (wordLength cs))))) c
        (cs.take (wordLength cs) ++ rest) (cs.take (wordLength cs)).length := by
  have hlength : (cs.take (wordLength cs)).length = wordLength cs := List.length_take_of_le (wordLength_le cs)
  have htake : (cs.take (wordLength cs) ++ rest).take (wordLength cs) = cs.take (wordLength cs) :=
    List.take_left' hlength
  rw [cutWord, wordLength_append h, htake, hlength]

theorem faithful_cutWord (hc : c ≠ ':')
    (hcut : ∀ brackets rest, Delimits rest → cut brackets c (cs.take (wordLength cs) ++ rest) =
      cutWord brackets c (cs.take (wordLength cs) ++ rest)) : ∀ l ∈ (cutWord brackets c cs).lexemes, Faithful l := by
  refine List.forall_mem_singleton.2 ?_
  rcases wordKind_cases (String.ofList (c :: cs.take (wordLength cs))) with hkind | hkind
  · rw [hkind]
    refine faithful_identifier hc fun brackets rest hrest => ?_
    rw [hcut brackets rest hrest, cutWord_again hrest, hkind]
  · exact faithful_of_ne _ (role_ne hkind)

theorem isWordPart_of_isWordStart (h : Text.isWordStart c = true) : Text.isWordPart c = true := by
  rcases Bool.or_eq_true_iff.1 h with h | h <;> simp [Text.isWordPart, h]

theorem faithful_cutDot : ∀ l ∈ (cutDot brackets cs).lexemes, Faithful l := by
  unfold cutDot
  split
  · exact faithful_front (by decide) _
  · rename_i d rest
    split
    · exact faithful_front (by decide) _
    · rename_i hdigit
      split
      · rename_i hstart
        refine faithful_cutWord (by decide) fun brackets more hmore => ?_
        have hword : wordLength (d :: rest) = wordLength rest + 1 := by
          rw [wordLength, isWordPart_of_isWordStart hstart]
          rfl
        show cutDot brackets _ = _
        rw [hword, List.take_succ_cons, List.cons_append, cutDot, if_neg hdigit, if_pos hstart]
      · split
        · split
          · exact faithful_front (by decide) _
          · exact faithful_front (by decide) _
        · exact faithful_front (by decide) _

theorem faithful_cutPercent : ∀ l ∈ (cutPercent brackets cs).lexemes, Faithful l := by
  unfold cutPercent
  split
  · exact faithful_front (by decide) _
  · split
    · exact faithful_front (by decide) _
    · split <;> exact faithful_front (by decide) _

theorem faithful_cutOpen : ∀ l ∈ (cutOpen brackets cs).lexemes, Faithful l := by
  unfold cutOpen
  split
  · exact faithful_front (by decide) _
  · split <;> exact faithful_front (by decide) _

theorem faithful_cutClose : ∀ l ∈ (cutClose brackets cs).lexemes, Faithful l := by
  unfold cutClose
  split <;> exact faithful_front (by decide) _

theorem faithful_cutComment : ∀ l ∈ (cutComment brackets cs).lexemes, Faithful l := by
  refine faithful_front ?_ _
  split <;> decide

theorem faithful_cutSign : ∀ l ∈ (cutSign brackets c cs).lexemes, Faithful l := by
  unfold cutSign
  split
  · rename_i h
    exact faithful_front (role_ne (sign?_ne h)) _
  · refine faithful_front ?_ 0
    split <;> decide

/-- A step that begins with the start of a word takes the word, whatever follows. -/
theorem cut_word (hquote : ¬(c = '"' ∨ c = '\'')) (hbacktick : c ≠ '\x60') (hdigit : ¬c.isDigit) (hdot : c ≠ '.')
    (hstart : Text.isWordStart c) (brackets : List Bracket) (cs : List Char) :
    cut brackets c cs = cutWord brackets c cs := by
  rw [cut, if_neg hquote, if_neg hbacktick, if_neg hdigit, if_neg hdot, if_pos hstart]

theorem faithful_cut : ∀ l ∈ (cut brackets c cs).lexemes, Faithful l := by
  by_cases hquote : c = '"' ∨ c = '\''
  · rw [cut, if_pos hquote]
    exact faithful_cutString c
  by_cases hbacktick : c = '\x60'
  · rw [cut, if_neg hquote, if_pos hbacktick]
    exact faithful_cutBacktick
  by_cases hdigit : c.isDigit
  · rw [cut, if_neg hquote, if_neg hbacktick, if_pos hdigit]
    exact faithful_cutNumber
  by_cases hdot : c = '.'
  · rw [cut, if_neg hquote, if_neg hbacktick, if_neg hdigit, if_pos hdot]
    exact faithful_cutDot
  by_cases hstart : Text.isWordStart c
  · have hword := cut_word hquote hbacktick hdigit hdot hstart
    have hcolon : c ≠ ':' := by
      rintro rfl
      exact nomatch hstart
    rw [hword]
    exact faithful_cutWord hcolon fun brackets rest _ => hword brackets _
  rw [cut, if_neg hquote, if_neg hbacktick, if_neg hdigit, if_neg hdot, if_neg hstart]
  split
  · exact faithful_cutPercent
  split
  · exact faithful_cutOpen
  split
  · exact faithful_cutClose
  split
  · exact faithful_cutComment
  · exact faithful_cutSign

/-- **What is cut out of a text as an identifier is an identifier wherever it stands.** -/
theorem faithful_ofTextFrom (brackets : List Bracket) (text : List Char) :
    ∀ l ∈ ofTextFrom brackets text, Faithful l := by
  fun_induction ofTextFrom brackets text with
  | case1 => exact fun l hl => absurd hl List.not_mem_nil
  | case2 brackets c cs step ih => exact List.forall_mem_append.2 ⟨faithful_cut, ih⟩

end Lexeme

/-! ## Sources -/

namespace SourceFile

open Lexeme

/-- The tokens of a source whose text spells some words are those, and no character is left over. -/
theorem of_spells {source : SourceFile} {words : List Word} (h : Spells source.text.toList words) :
    source.tokens.map Token.word = words ∧ source.strays = [] := by
  refine words_of_seen source.name .start ?_
  have hseen := h [] [] delimits_nil
  have hnil : seen (ofTextFrom [] []) = [] := by rw [ofTextFrom_nil]; rfl
  rwa [hnil, List.append_nil, List.append_nil] at hseen

theorem exists_lexeme {file : String} {t : Token} : ∀ {p : Position} {ls : List Lexeme},
    t ∈ (layOut p ls).filterMap (token? file) → ∃ l ∈ ls, l.role = .token t.kind ∧ l.text = t.text
  | p, l :: ls, h => by
    obtain ⟨⟨q, l'⟩, hmem, htoken⟩ := List.mem_filterMap.1 h
    rcases List.mem_cons.1 hmem with hl | hmem
    · cases hl
      obtain ⟨role, run⟩ := l
      cases role with
      | token kind =>
        cases htoken
        exact ⟨_, List.mem_cons_self, rfl, rfl⟩
      | blank => exact nomatch htoken
      | stray => exact nomatch htoken
    · obtain ⟨l, hl, hlexeme⟩ := exists_lexeme (List.mem_filterMap.2 ⟨_, hmem, htoken⟩)
      exact ⟨l, List.mem_cons_of_mem _ hl, hlexeme⟩

/-- No token of a source is the end of file. -/
theorem kind_ne_eof {source : SourceFile} {t : Token} (h : t ∈ source.tokens) : t.kind ≠ .eof := by
  obtain ⟨l, hl, hrole, -⟩ := exists_lexeme h
  exact fun e => (faithful_ofTextFrom [] _ l hl).proper (e ▸ hrole)

/-- The identifiers of a source can be written down again. -/
theorem isName {source : SourceFile} {t : Token} (h : t ∈ source.tokens) (hkind : t.kind = .identifier) :
    IsName t.text := by
  obtain ⟨l, hl, hrole, htext⟩ := exists_lexeme h
  rw [hkind] at hrole
  have hrun : l.text = String.ofList l.run := by rw [Lexeme.text, hrole]
  rw [← htext, hrun]
  exact (faithful_ofTextFrom [] _ l hl).name hrole

end SourceFile
end UnionScript
