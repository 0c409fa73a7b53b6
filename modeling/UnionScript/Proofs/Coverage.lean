import Mathlib.Data.List.Induction
import Mathlib.Data.List.TakeWhile
import UnionScript.Token.Stream
/-!
# Coverage — every character of a text is accounted for once

Cutting a text loses nothing, but what a reader of tokens sees of it are texts and places.  Here these are compared with
the text itself, character by character: every token is the run of characters that starts at its place, tokens do not
overlap, and a character outside of them is a blank, a stray character that is reported at its place, or one of the
spaces a comment has lost at its end (`tokenize_accounts`).

The place of a character is told from the text alone (`placeAt`): its line from the line feeds in front of it, its column
from the characters behind the last of them.  The lexemes are laid out a second time, at offsets instead of places
(`Lexeme.offsets`); no two of them share an offset and none is left out, so it is enough to say what a single lexeme is
in front of the text behind it (`Lexeme.Fits`).
-/
namespace UnionScript

/-! ## Places in a text -/

/-- The place behind the first `n` characters of a text. -/
def placeAt (text : List Char) (n : Nat) : Position where
  line := (text.take n).count '\n' + 1
  column := ((text.take n).reverse.takeWhile (· != '\n')).length + 1

theorem start_after (run : List Char) :
    Position.start.after run = ⟨run.count '\n' + 1, (run.reverse.takeWhile (· != '\n')).length + 1⟩ := by
  induction run using List.reverseRecOn with
  | nil => rfl
  | append_singleton run c ih =>
    rw [Position.after_append, ih, Position.after_cons, Position.after_nil, Position.next, List.reverse_append,
      List.reverse_singleton, List.singleton_append, List.count_append]
    by_cases hc : c = '\n' <;> simp [hc]

theorem placeAt_eq_after (text : List Char) (n : Nat) : placeAt text n = Position.start.after (text.take n) :=
  (start_after _).symm

/-- Behind a run of characters a place is in a later line, or in a later column of the same one. -/
theorem Position.after_later (p : Position) : ∀ run : List Char, run ≠ [] →
    p.line < (p.after run).line ∨ p.line = (p.after run).line ∧ p.column < (p.after run).column
  | [], h => absurd rfl h
  | c :: run, _ => by
    have hstep : p.line < (p.next c).line ∨ p.line = (p.next c).line ∧ p.column < (p.next c).column := by
      by_cases hc : c = '\n' <;> simp [Position.next, hc]
    rw [Position.after_cons]
    by_cases hrun : run = []
    · rw [hrun, Position.after_nil]
      exact hstep
    · have hrest := Position.after_later (p.next c) run hrun
      omega

/-- Different characters of a text have different places. -/
theorem placeAt_ne {text : List Char} {m n : Nat} (h : m < n) (hn : n ≤ text.length) : placeAt text m ≠ placeAt text n := by
  have hsplit : text.take n = text.take m ++ (text.take n).drop m := by
    have hcut := List.take_append_drop m (text.take n)
    rw [List.take_take, Nat.min_eq_left h.le] at hcut
    exact hcut.symm
  have hrun : (text.take n).drop m ≠ [] := by
    rw [← List.length_pos_iff]
    simp
    omega
  intro e
  rw [placeAt_eq_after, placeAt_eq_after, hsplit, Position.after_append] at e
  have hlater := (Position.start.after (text.take m)).after_later _ hrun
  rw [← e] at hlater
  omega

namespace Lexeme

/-! ## A lexeme in its text -/

def isComment (kind : TokenKind) : Bool :=
  kind == .comment || kind == .roxygenComment

/-- The blanks between tokens. -/
abbrev IsBlank (c : Char) : Prop := c = ' ' ∨ c = '\t' ∨ c = '\r'

/-- What a lexeme is in front of the rest of its text: a single character outside of tokens, a comment up to the end of
its line, or another token. -/
def Fits (lexeme : Lexeme) (rest : List Char) : Prop :=
  match lexeme.role with
  | .blank => ∃ c, lexeme.run = [c] ∧ IsBlank c
  | .stray => ∃ c, lexeme.run = [c] ∧ ¬ IsBlank c
  | .token kind => isComment kind → '\n' ∉ lexeme.run ∧ ∀ c ∈ rest.head?, c = '\n'

/-- Lexemes each of which fits in front of the ones behind it. -/
def Fitting : List Lexeme → Prop
  | [] => True
  | lexeme :: lexemes => lexeme.Fits (runs lexemes) ∧ Fitting lexemes

theorem fits_token {kind : TokenKind} (hkind : isComment kind = false) (run rest : List Char) :
    Fits ⟨.token kind, run⟩ rest :=
  fun hcomment => absurd hcomment (by rw [hkind]; exact Bool.false_ne_true)

theorem fits_stray {c : Char} (hc : ¬ IsBlank c) (cs rest : List Char) : Fits ⟨.stray, c :: cs.take 0⟩ rest :=
  ⟨c, rfl, hc⟩

/-- A comment takes the rest of its line. -/
theorem fits_comment (kind : TokenKind) (cs : List Char) :
    Fits ⟨.token kind, '#' :: cs.take (cs.takeWhile (· != '\n')).length⟩
      (cs.drop (cs.takeWhile (· != '\n')).length) := by
  intro _
  have hsplit := List.takeWhile_append_dropWhile (p := (· != '\n')) (l := cs)
  have htake : cs.take (cs.takeWhile (· != '\n')).length = cs.takeWhile (· != '\n') :=
    (List.prefix_iff_eq_take.1 (List.takeWhile_prefix _)).symm
  have hdrop : cs.drop (cs.takeWhile (· != '\n')).length = cs.dropWhile (· != '\n') := by
    have hcut := List.take_append_drop (cs.takeWhile (· != '\n')).length cs
    rw [htake] at hcut
    exact List.append_cancel_left (hcut.trans hsplit.symm)
  refine ⟨?_, ?_⟩
  · show '\n' ∉ '#' :: cs.take _
    rw [htake, List.mem_cons]
    rintro (h | h)
    · exact absurd h (by decide)
    · exact absurd (List.mem_takeWhile_imp h) (by decide)
  · rw [hdrop]
    intro c hc
    have := List.head?_dropWhile_not (· != '\n') cs
    rw [hc] at this
    simpa using this

/-! ### Every step takes lexemes that fit -/

theorem isComment_wordKind (word : String) : isComment (wordKind word) = false := by
  unfold wordKind wordLiteral?
  split
  · rfl
  · split <;> rfl

theorem isComment_sign {c : Char} {cs : List Char} {kind : TokenKind} {more : Nat} (h : sign? c cs = some (kind, more)) :
    isComment kind = false := by
  unfold sign? at h
  dsimp only at h
  repeat' split at h
  all_goals first | contradiction | (cases h; rfl)

/-- The lexemes a step takes fit in front of those of the text it leaves. -/
def StepFits (step : Cut) : Prop :=
  ∀ more, runs more = step.rest → Fitting more → Fitting (step.lexemes ++ more)

theorem stepFits_front (brackets : List Bracket) {role : LexemeRole} {c : Char} {cs : List Char} {n : Nat}
    (h : Fits ⟨role, c :: cs.take n⟩ (cs.drop n)) : StepFits (front brackets role c cs n) := by
  intro more hmore hfitting
  refine ⟨?_, hfitting⟩
  show Fits _ (runs more)
  rw [hmore]
  exact h

theorem stepFits_token (brackets : List Bracket) {kind : TokenKind} (c : Char) (cs : List Char) (n : Nat)
    (h : isComment kind = false) : StepFits (front brackets (.token kind) c cs n) :=
  stepFits_front brackets (fits_token h _ _)

theorem stepFits_stray (brackets : List Bracket) {c : Char} (cs : List Char) (h : ¬ IsBlank c) :
    StepFits (front brackets .stray c cs 0) :=
  stepFits_front brackets (fits_stray h cs _)

theorem stepFits_cutString (brackets : List Bracket) (quote : Char) (cs : List Char) :
    StepFits (cutString brackets quote cs) := by
  unfold cutString
  dsimp only
  split
  · exact fun more _ h => ⟨fits_token rfl _ _, fits_token rfl _ _, h⟩
  · exact fun more _ h => ⟨fits_token rfl _ _, fits_token rfl _ _, fits_token rfl _ _, h⟩

theorem stepFits_cut (brackets : List Bracket) (c : Char) (cs : List Char) : StepFits (cut brackets c cs) := by
  refine cut_cases brackets c cs (fun _ => stepFits_cutString brackets c cs) ?_ (fun _ => ?_) ?_
    (fun _ => stepFits_token brackets _ _ _ (isComment_wordKind _)) ?_ ?_ ?_ ?_ ?_
  · rintro rfl
    unfold cutBacktick
    split
    · exact stepFits_token brackets _ _ _ rfl
    · exact stepFits_stray brackets _ (by decide)
  · exact stepFits_token brackets _ _ _ (by split <;> rfl)
  · rintro rfl
    unfold cutDot cutWord
    repeat' split
    all_goals first
      | exact stepFits_token brackets _ _ _ rfl
      | exact stepFits_token brackets _ _ _ (isComment_wordKind _)
      | exact stepFits_stray brackets _ (by decide)
  · rintro rfl
    unfold cutPercent
    repeat' split
    all_goals first
      | exact stepFits_token brackets _ _ _ rfl
      | exact stepFits_stray brackets _ (by decide)
  · rintro rfl
    unfold cutOpen
    repeat' split
    all_goals exact stepFits_token _ _ _ _ rfl
  · rintro rfl
    unfold cutClose
    split <;> exact stepFits_token _ _ _ _ rfl
  · rintro rfl
    exact stepFits_front brackets (fits_comment _ cs)
  · unfold cutSign
    split
    · rename_i hsign
      exact stepFits_token brackets _ _ _ (isComment_sign hsign)
    · split
      · rename_i hblank
        exact stepFits_front brackets ⟨c, rfl, hblank⟩
      · rename_i hblank
        exact stepFits_stray brackets cs hblank

/-- **Every lexeme of a text fits in front of the text behind it.** -/
theorem fitting_ofTextFrom (brackets : List Bracket) (text : List Char) : Fitting (ofTextFrom brackets text) := by
  fun_induction ofTextFrom brackets text with
  | case1 => trivial
  | case2 brackets c cs step ih => exact stepFits_cut brackets c cs _ (runs_ofTextFrom _ _) ih

/-! ## Lexemes at their offsets -/

/-- Lexemes with the offsets where they start, the first one at `n`. -/
def offsets (n : Nat) : List Lexeme → List (Nat × Lexeme)
  | [] => []
  | lexeme :: lexemes => (n, lexeme) :: offsets (n + lexeme.run.length) lexemes

/-- The offset behind a lexeme. -/
def stop (seat : Nat × Lexeme) : Nat := seat.1 + seat.2.run.length

/-- Laying out at places is laying out at offsets. -/
theorem layOut_eq_offsets : ∀ (lexemes : List Lexeme) (pre : List Char),
    layOut (placeAt (pre ++ runs lexemes) pre.length) lexemes =
      (offsets pre.length lexemes).map fun seat => (placeAt (pre ++ runs lexemes) seat.1, seat.2)
  | [], _ => rfl
  | lexeme :: lexemes, pre => by
    have hruns : pre ++ runs (lexeme :: lexemes) = (pre ++ lexeme.run) ++ runs lexemes :=
      (List.append_assoc pre lexeme.run (runs lexemes)).symm
    have hplace : (placeAt (pre ++ runs (lexeme :: lexemes)) pre.length).after lexeme.run =
        placeAt ((pre ++ lexeme.run) ++ runs lexemes) (pre ++ lexeme.run).length := by
      rw [placeAt_eq_after, placeAt_eq_after, List.take_left, List.take_left, Position.after_append]
    have ih := layOut_eq_offsets lexemes (pre ++ lexeme.run)
    rw [layOut, hplace, ih, hruns, List.length_append]
    rfl

/-- **Where a lexeme stands in its text**: its characters are the ones from its offset on, and it fits in front of the
ones behind it. -/
theorem of_mem_offsets : ∀ {lexemes : List Lexeme} {pre : List Char} {seat : Nat × Lexeme}, Fitting lexemes →
    seat ∈ offsets pre.length lexemes →
    ∃ rest, (pre ++ runs lexemes).drop seat.1 = seat.2.run ++ rest ∧ stop seat ≤ (pre ++ runs lexemes).length ∧
      seat.2.Fits rest
  | lexeme :: lexemes, pre, seat, hfitting, hmem => by
    have hruns : pre ++ runs (lexeme :: lexemes) = (pre ++ lexeme.run) ++ runs lexemes :=
      (List.append_assoc pre lexeme.run (runs lexemes)).symm
    rcases List.mem_cons.1 hmem with rfl | hmem
    · refine ⟨runs lexemes, List.drop_left, ?_, hfitting.1⟩
      rw [hruns, List.length_append, List.length_append, stop]
      exact Nat.le_add_right _ _
    · rw [← List.length_append] at hmem
      rw [hruns]
      exact of_mem_offsets hfitting.2 hmem

theorem le_of_mem_offsets : ∀ {lexemes : List Lexeme} {n : Nat} {seat : Nat × Lexeme}, seat ∈ offsets n lexemes →
    n ≤ seat.1
  | lexeme :: lexemes, n, seat, hmem => by
    rcases List.mem_cons.1 hmem with rfl | hmem
    · exact Nat.le_refl _
    · exact (Nat.le_add_right _ _).trans (le_of_mem_offsets hmem)

theorem offsets_apart : ∀ (n : Nat) (lexemes : List Lexeme),
    (offsets n lexemes).Pairwise fun seat later => stop seat ≤ later.1
  | _, [] => .nil
  | n, lexeme :: lexemes => .cons (fun _ hmem => le_of_mem_offsets hmem) (offsets_apart (n + lexeme.run.length) lexemes)

/-- No two lexemes share an offset. -/
theorem offsets_unique {lexemes : List Lexeme} {n k : Nat} {seat other : Nat × Lexeme}
    (hseat : seat ∈ offsets n lexemes) (hother : other ∈ offsets n lexemes) (h : seat.1 ≤ k ∧ k < stop seat)
    (h' : other.1 ≤ k ∧ k < stop other) : seat = other := by
  induction lexemes generalizing n with
  | nil => exact nomatch hseat
  | cons lexeme lexemes ih =>
    rcases List.mem_cons.1 hseat with rfl | hseat <;> rcases List.mem_cons.1 hother with rfl | hother
    · rfl
    · exact absurd (le_of_mem_offsets hother) (Nat.not_le.2 (h'.1.trans_lt h.2))
    · exact absurd (le_of_mem_offsets hseat) (Nat.not_le.2 (h.1.trans_lt h'.2))
    · exact ih hseat hother

/-- Every offset of a text is one of some lexeme. -/
theorem exists_offsets : ∀ {lexemes : List Lexeme} {n k : Nat}, n ≤ k → k < n + (runs lexemes).length →
    ∃ seat ∈ offsets n lexemes, seat.1 ≤ k ∧ k < stop seat
  | [], n, k, hn, hk => absurd hk (Nat.not_lt.2 hn)
  | lexeme :: lexemes, n, k, hn, hk => by
    by_cases h : k < n + lexeme.run.length
    · exact ⟨(n, lexeme), List.mem_cons_self, hn, h⟩
    · have hlength : (runs (lexeme :: lexemes)).length = lexeme.run.length + (runs lexemes).length :=
        List.length_append
      have hrest : k < n + lexeme.run.length + (runs lexemes).length := by omega
      obtain ⟨seat, hmem, hseat⟩ := exists_offsets (Nat.not_lt.1 h) hrest
      exact ⟨seat, List.mem_cons_of_mem _ hmem, hseat⟩

/-! ## The text of a token -/

/-- A token's text is its run, but for the spaces at the end of a comment, behind which the line ends. -/
theorem run_eq_text {lexeme : Lexeme} {kind : TokenKind} {rest : List Char} (hrole : lexeme.role = .token kind)
    (hfits : lexeme.Fits rest) : ∃ tail, lexeme.run = lexeme.text.toList ++ tail ∧
      (isComment kind = false → tail = []) ∧ (∀ c ∈ tail, Text.isSpace c = true) ∧
      (isComment kind = true → (tail ++ rest).takeWhile (· != '\n') = tail) := by
  obtain ⟨role, run⟩ := lexeme
  obtain rfl : role = .token kind := hrole
  by_cases hkind : isComment kind = true
  · have htext : text ⟨.token kind, run⟩ = String.ofList (Text.trimEnd run) := by
      have hcases : kind = .comment ∨ kind = .roxygenComment := by simpa [isComment] using hkind
      rcases hcases with rfl | rfl <;> rfl
    have hsplit : run = Text.trimEnd run ++ (run.reverse.takeWhile Text.isSpace).reverse := by
      rw [Text.trimEnd, ← List.reverse_append, List.takeWhile_append_dropWhile, List.reverse_reverse]
    refine ⟨(run.reverse.takeWhile Text.isSpace).reverse, ?_, fun h => absurd hkind (by rw [h]; decide), ?_, fun _ => ?_⟩
    · rw [htext, String.toList_ofList]
      exact hsplit
    · intro c hc
      exact List.mem_takeWhile_imp (List.mem_reverse.1 hc)
    · obtain ⟨hline, hnext⟩ := hfits hkind
      have htail : ∀ c ∈ (run.reverse.takeWhile Text.isSpace).reverse, (c != '\n') = true := by
        intro c hc
        refine bne_iff_ne.2 fun e => hline ?_
        show '\n' ∈ run
        rw [hsplit, ← e]
        exact List.mem_append_right _ hc
      rw [List.takeWhile_append_of_pos htail]
      cases rest with
      | nil => exact List.append_nil _
      | cons c rest =>
        rw [hnext c rfl, List.takeWhile_cons, if_neg (by decide), List.append_nil]
  · have htext : text ⟨.token kind, run⟩ = String.ofList run := by
      cases kind <;> first | rfl | exact absurd rfl hkind
    refine ⟨[], ?_, fun _ => rfl, nofun, fun h => absurd h hkind⟩
    rw [htext, String.toList_ofList, List.append_nil]

end Lexeme

/-! ## Accounts of a text -/

/-- The offset behind the text of a token. -/
def tokenStop (seat : Nat × Token) : Nat := seat.1 + seat.2.text.toList.length

/-- Whether a token, placed at its offset, has the character at offset `k`. -/
def Covers (seat : Nat × Token) (k : Nat) : Prop := seat.1 ≤ k ∧ k < tokenStop seat

/-- What stands behind a token on its last line. -/
def trail (text : List Char) (seat : Nat × Token) : List Char :=
  (text.drop (tokenStop seat)).takeWhile (· != '\n')

/-- Whether a comment has lost the character at offset `k`: it stands behind the comment, and up to the end of the line
there is White_Space only. -/
structure Loses (text : List Char) (seat : Nat × Token) (k : Nat) : Prop where
  comment : Lexeme.isComment seat.2.kind = true
  space : ∀ c ∈ trail text seat, Text.isSpace c = true
  behind : tokenStop seat ≤ k ∧ k < tokenStop seat + (trail text seat).length

/-- An account of the characters of a text: what is read of it, every token and every stray character with an offset. -/
structure Accounts (source : SourceFile) (tokens : List (Nat × Token)) (strays : List (Nat × StrayCharacter)) :
    Prop where
  /-- Behind the tokens stands the end of file, just past the last character. -/
  tokens_eq : source.tokenize.tokens = tokens.map Prod.snd ++
    [.endOfFile source.name (placeAt source.text.toList source.text.toList.length)]
  strays_eq : source.tokenize.strays = strays.map Prod.snd
  /-- A token is the run of characters that starts at its place. -/
  written : ∀ seat ∈ tokens, seat.2.text.toList <+: source.text.toList.drop seat.1 ∧
    tokenStop seat ≤ source.text.toList.length ∧ seat.2.start = placeAt source.text.toList seat.1 ∧
    seat.2.file = source.name
  apart : tokens.Pairwise fun seat later => tokenStop seat ≤ later.1
  /-- A stray character is the one at its place, and no blank. -/
  stray : ∀ seat ∈ strays, source.text.toList[seat.1]? = some seat.2.character ∧
    seat.2.place = placeAt source.text.toList seat.1 ∧ seat.2.file = source.name ∧ ¬ Lexeme.IsBlank seat.2.character
  /-- No two stray characters are at the same place. -/
  once : strays.Pairwise fun seat later => seat.1 < later.1 ∧ seat.2.place ≠ later.2.place
  /-- A character outside of the tokens is a blank, a stray one, or lost at the end of a comment. -/
  outside : ∀ k c, source.text.toList[k]? = some c → (¬ ∃ seat ∈ tokens, Covers seat k) →
    Lexeme.IsBlank c ∨ (∃ seat ∈ strays, seat.1 = k) ∨ ∃ seat ∈ tokens, Loses source.text.toList seat k
  stray_outside : ∀ seat ∈ strays, ∀ token ∈ tokens,
    ¬ Covers token seat.1 ∧ ¬ Loses source.text.toList token seat.1
  lost_outside : ∀ k, ∀ seat ∈ tokens, Loses source.text.toList seat k → ∀ token ∈ tokens, ¬ Covers token k

namespace SourceFile

/-- The lexemes of a file at their offsets. -/
def seats (source : SourceFile) : List (Nat × Lexeme) :=
  Lexeme.offsets 0 (Lexeme.ofText source.text)

def seatedToken? (source : SourceFile) (seat : Nat × Lexeme) : Option (Nat × Token) :=
  (Lexeme.token? source.name (placeAt source.text.toList seat.1, seat.2)).map fun t => (seat.1, t)

def seatedStray? (source : SourceFile) (seat : Nat × Lexeme) : Option (Nat × StrayCharacter) :=
  (Lexeme.stray? source.name (placeAt source.text.toList seat.1, seat.2)).map fun s => (seat.1, s)

variable {source : SourceFile}

theorem laidOut_eq_seats (source : SourceFile) :
    source.laidOut = source.seats.map fun seat => (placeAt source.text.toList seat.1, seat.2) := by
  have h := Lexeme.layOut_eq_offsets (Lexeme.ofText source.text) []
  rw [Lexeme.ofText, Lexeme.runs_ofTextFrom] at h
  exact h

theorem of_mem_seats {seat : Nat × Lexeme} (h : seat ∈ source.seats) :
    ∃ rest, source.text.toList.drop seat.1 = seat.2.run ++ rest ∧
      Lexeme.stop seat ≤ source.text.toList.length ∧ seat.2.Fits rest := by
  have hruns : Lexeme.runs (Lexeme.ofText source.text) = source.text.toList := Lexeme.runs_ofTextFrom [] _
  have hmem : seat ∈ Lexeme.offsets ([] : List Char).length (Lexeme.ofText source.text) := h
  obtain ⟨rest, hseat⟩ := Lexeme.of_mem_offsets (Lexeme.fitting_ofTextFrom [] source.text.toList) hmem
  rw [List.nil_append, ← Lexeme.ofText, hruns] at hseat
  exact ⟨rest, hseat⟩

theorem tokens_eq_seats (source : SourceFile) :
    source.tokens = (source.seats.filterMap source.seatedToken?).map Prod.snd := by
  rw [tokens, laidOut_eq_seats, List.filterMap_map, List.map_filterMap]
  congr 1
  funext seat
  simp [seatedToken?, Function.comp_def]

theorem strays_eq_seats (source : SourceFile) :
    source.strays = (source.seats.filterMap source.seatedStray?).map Prod.snd := by
  rw [strays, laidOut_eq_seats, List.filterMap_map, List.map_filterMap]
  congr 1
  funext seat
  simp [seatedStray?, Function.comp_def]

/-! ### A token and its lexeme -/

/-- How a token at its offset comes from a lexeme: the two start together, and up to the end of the lexeme every character
is one of the token or lost at its end. -/
structure TokenOf (source : SourceFile) (seat : Nat × Lexeme) (token : Nat × Token) : Prop where
  offset : token.1 = seat.1
  text : token.2.text.toList <+: source.text.toList.drop token.1
  place : token.2.start = placeAt source.text.toList token.1
  file : token.2.file = source.name
  stop_le : tokenStop token ≤ Lexeme.stop seat
  comment : Lexeme.isComment token.2.kind = true → (∀ c ∈ trail source.text.toList token, Text.isSpace c = true) ∧
    tokenStop token + (trail source.text.toList token).length = Lexeme.stop seat
  other : Lexeme.isComment token.2.kind = false → tokenStop token = Lexeme.stop seat

theorem tokenOf_seat {seat : Nat × Lexeme} {kind : TokenKind} (hmem : seat ∈ source.seats)
    (hrole : seat.2.role = .token kind) :
    TokenOf source seat (seat.1, ⟨kind, seat.2.text, source.name, placeAt source.text.toList seat.1⟩) := by
  obtain ⟨rest, hdrop, -, hfits⟩ := of_mem_seats hmem
  obtain ⟨tail, hrun, hnone, hspace, hline⟩ := Lexeme.run_eq_text hrole hfits
  have hlength : seat.2.run.length = seat.2.text.toList.length + tail.length := by rw [hrun, List.length_append]
  have htrail : (source.text.toList.drop (seat.1 + seat.2.text.toList.length)) = tail ++ rest := by
    rw [← List.drop_drop, hdrop, hrun, List.append_assoc, List.drop_left]
  refine ⟨rfl, ?_, rfl, rfl, ?_, fun hkind => ?_, fun hkind => ?_⟩
  · show seat.2.text.toList <+: source.text.toList.drop seat.1
    rw [hdrop, hrun, List.append_assoc]
    exact List.prefix_append _ _
  · show seat.1 + seat.2.text.toList.length ≤ seat.1 + seat.2.run.length
    omega
  · have htail : trail source.text.toList (seat.1, ⟨kind, seat.2.text, source.name, placeAt source.text.toList seat.1⟩) =
        tail := by
      show (source.text.toList.drop (seat.1 + seat.2.text.toList.length)).takeWhile (· != '\n') = tail
      rw [htrail]
      exact hline hkind
    rw [htail]
    refine ⟨hspace, ?_⟩
    show seat.1 + seat.2.text.toList.length + tail.length = seat.1 + seat.2.run.length
    omega
  · show seat.1 + seat.2.text.toList.length = seat.1 + seat.2.run.length
    rw [hnone hkind, List.length_nil] at hlength
    omega

theorem tokenOf_of_eq {seat : Nat × Lexeme} {token : Nat × Token} (hmem : seat ∈ source.seats)
    (h : source.seatedToken? seat = some token) : TokenOf source seat token := by
  obtain ⟨n, role, run⟩ := seat
  cases role with
  | token kind =>
    cases h
    exact tokenOf_seat hmem rfl
  | _ => exact nomatch h

/-- A stray character is the whole of its lexeme. -/
theorem strayOf_of_eq {seat : Nat × Lexeme} {stray : Nat × StrayCharacter} (hmem : seat ∈ source.seats)
    (h : source.seatedStray? seat = some stray) : seat = (stray.1, ⟨.stray, [stray.2.character]⟩) ∧
      stray.2.place = placeAt source.text.toList stray.1 ∧ stray.2.file = source.name := by
  obtain ⟨n, role, run⟩ := seat
  cases role with
  | stray =>
    obtain ⟨-, -, -, c, rfl, -⟩ := of_mem_seats hmem
    cases h
    exact ⟨rfl, rfl, rfl⟩
  | _ => exact nomatch h

/-- Every token of a file comes from one of its lexemes. -/
theorem exists_tokenOf {token : Nat × Token} (h : token ∈ source.seats.filterMap source.seatedToken?) :
    ∃ seat ∈ source.seats, source.seatedToken? seat = some token ∧ TokenOf source seat token := by
  obtain ⟨seat, hmem, hseat⟩ := List.mem_filterMap.1 h
  exact ⟨seat, hmem, hseat, tokenOf_of_eq hmem hseat⟩

/-- Every stray character of a file is one of its lexemes. -/
theorem exists_strayOf {stray : Nat × StrayCharacter} (h : stray ∈ source.seats.filterMap source.seatedStray?) :
    (stray.1, ⟨.stray, [stray.2.character]⟩) ∈ source.seats ∧ stray.2.place = placeAt source.text.toList stray.1 ∧
      stray.2.file = source.name := by
  obtain ⟨seat, hmem, hseat⟩ := List.mem_filterMap.1 h
  obtain ⟨rfl, hplace⟩ := strayOf_of_eq hmem hseat
  exact ⟨hmem, hplace⟩

namespace TokenOf

variable {seat : Nat × Lexeme} {token : Nat × Token} {k : Nat}

theorem of_covers (h : TokenOf source seat token) (hk : Covers token k) : seat.1 ≤ k ∧ k < Lexeme.stop seat :=
  ⟨h.offset ▸ hk.1, hk.2.trans_le h.stop_le⟩

theorem of_loses (h : TokenOf source seat token) (hk : Loses source.text.toList token k) :
    seat.1 ≤ k ∧ k < Lexeme.stop seat := by
  have hstart : seat.1 ≤ tokenStop token := h.offset ▸ Nat.le_add_right _ _
  exact ⟨hstart.trans hk.behind.1, (h.comment hk.comment).2 ▸ hk.behind.2⟩

theorem covers_or_loses (h : TokenOf source seat token) (hk : seat.1 ≤ k ∧ k < Lexeme.stop seat) :
    Covers token k ∨ Loses source.text.toList token k := by
  by_cases hstop : k < tokenStop token
  · exact .inl ⟨h.offset.symm ▸ hk.1, hstop⟩
  · cases hkind : Lexeme.isComment token.2.kind with
    | false => exact absurd (h.other hkind ▸ hk.2) hstop
    | true =>
      obtain ⟨hspace, hend⟩ := h.comment hkind
      exact .inr ⟨hkind, hspace, Nat.not_lt.1 hstop, hend ▸ hk.2⟩

end TokenOf

/-- No two lexemes of a file share an offset. -/
theorem seats_unique {seat other : Nat × Lexeme} {k : Nat} (hseat : seat ∈ source.seats) (hother : other ∈ source.seats)
    (h : seat.1 ≤ k ∧ k < Lexeme.stop seat) (h' : other.1 ≤ k ∧ k < Lexeme.stop other) : seat = other :=
  Lexeme.offsets_unique hseat hother h h'

/-- Tokens and stray characters of a file come one behind the other, as their lexemes do. -/
theorem seats_apart (source : SourceFile) : source.seats.Pairwise fun seat later => Lexeme.stop seat ≤ later.1 :=
  Lexeme.offsets_apart 0 _

theorem tokens_apart (source : SourceFile) : (source.seats.filterMap source.seatedToken?).Pairwise fun token later =>
    tokenStop token ≤ later.1 := by
  refine List.pairwise_filterMap.2 ((seats_apart source).imp_of_mem fun hseat hlater h token htoken later hlaterToken => ?_)
  have hstop := (tokenOf_of_eq hseat htoken).stop_le
  have hstart := (tokenOf_of_eq hlater hlaterToken).offset
  omega

theorem strays_apart (source : SourceFile) : (source.seats.filterMap source.seatedStray?).Pairwise fun stray later =>
    stray.1 < later.1 ∧ stray.2.place ≠ later.2.place := by
  refine List.pairwise_filterMap.2 ((seats_apart source).imp_of_mem fun hseat hlater h stray hstray later hlaterStray => ?_)
  obtain ⟨rfl, hplace, -⟩ := strayOf_of_eq hseat hstray
  obtain ⟨rfl, hlaterPlace, -⟩ := strayOf_of_eq hlater hlaterStray
  obtain ⟨-, -, hstop, -⟩ := of_mem_seats hlater
  have hbefore : stray.1 < later.1 := h
  have hlength : later.1 < source.text.toList.length := hstop
  refine ⟨hbefore, ?_⟩
  rw [hplace, hlaterPlace]
  exact placeAt_ne hbefore hlength.le

theorem getElem?_of_drop {text rest : List Char} {n : Nat} {c : Char} (h : text.drop n = c :: rest) :
    text[n]? = some c := by
  rw [← List.head?_drop, h]
  rfl

/-- A character belongs to its lexeme: it is a blank, a stray character, or one of a token or lost at its end. -/
theorem of_getElem? {k : Nat} {c : Char} (h : source.text.toList[k]? = some c) :
    Lexeme.IsBlank c ∨ (∃ stray ∈ source.seats.filterMap source.seatedStray?, stray.1 = k) ∨
      ∃ token ∈ source.seats.filterMap source.seatedToken?, Covers token k ∨ Loses source.text.toList token k := by
  have hk : k < 0 + (Lexeme.runs (Lexeme.ofText source.text)).length := by
    rw [Lexeme.ofText, Lexeme.runs_ofTextFrom, Nat.zero_add]
    exact (List.getElem?_eq_some_iff.1 h).1
  obtain ⟨seat, hmem, hseat⟩ := Lexeme.exists_offsets (Nat.zero_le k) hk
  obtain ⟨rest, hdrop, -, hfits⟩ := of_mem_seats hmem
  obtain ⟨n, role, run⟩ := seat
  cases role with
  | blank =>
    obtain ⟨d, rfl, hblank⟩ := hfits
    obtain rfl : n = k := Nat.le_antisymm hseat.1 (Nat.le_of_lt_succ hseat.2)
    obtain rfl : d = c := Option.some.inj ((getElem?_of_drop hdrop).symm.trans h)
    exact .inl hblank
  | stray =>
    obtain ⟨d, rfl, -⟩ := hfits
    obtain rfl : n = k := Nat.le_antisymm hseat.1 (Nat.le_of_lt_succ hseat.2)
    exact .inr (.inl ⟨_, List.mem_filterMap.2 ⟨_, hmem, rfl⟩, rfl⟩)
  | token kind =>
    exact .inr (.inr ⟨_, List.mem_filterMap.2 ⟨_, hmem, rfl⟩, (tokenOf_seat hmem rfl).covers_or_loses hseat⟩)

/-- **Every character of a text is accounted for exactly once.**  Reading a text answers tokens and stray characters with
which an account of all its characters is given, and the end of file just past the last of them. -/
theorem tokenize_accounts (source : SourceFile) : ∃ tokens strays, Accounts source tokens strays := by
  refine ⟨source.seats.filterMap source.seatedToken?, source.seats.filterMap source.seatedStray?, ?_⟩
  constructor
  case tokens_eq =>
    rw [← tokens_eq_seats, placeAt_eq_after, List.take_length]
    rfl
  case strays_eq => exact strays_eq_seats source
  case written =>
    intro token hmem
    obtain ⟨seat, hseat, -, h⟩ := exists_tokenOf hmem
    obtain ⟨-, -, hstop, -⟩ := of_mem_seats hseat
    exact ⟨h.text, h.stop_le.trans hstop, h.place, h.file⟩
  case apart => exact tokens_apart source
  case stray =>
    intro stray hmem
    obtain ⟨hseat, hplace, hfile⟩ := exists_strayOf hmem
    obtain ⟨rest, hdrop, -, c, hc, hblank⟩ := of_mem_seats hseat
    obtain ⟨rfl, -⟩ := List.cons.inj hc
    exact ⟨getElem?_of_drop hdrop, hplace, hfile, hblank⟩
  case once => exact strays_apart source
  case outside =>
    intro k c h hcovered
    rcases of_getElem? h with hblank | hstray | ⟨token, hmem, hcovers | hloses⟩
    · exact .inl hblank
    · exact .inr (.inl hstray)
    · exact absurd ⟨token, hmem, hcovers⟩ hcovered
    · exact .inr (.inr ⟨token, hmem, hloses⟩)
  case stray_outside =>
    intro stray hmem token htoken
    obtain ⟨hstray, -⟩ := exists_strayOf hmem
    obtain ⟨seat, hseat, htaken, h⟩ := exists_tokenOf htoken
    have hother : ¬ (seat.1 ≤ stray.1 ∧ stray.1 < Lexeme.stop seat) := by
      intro hk
      obtain rfl := seats_unique hseat hstray hk ⟨Nat.le_refl _, Nat.lt_succ_self _⟩
      exact nomatch htaken
    exact ⟨fun hcovers => hother (h.of_covers hcovers), fun hloses => hother (h.of_loses hloses)⟩
  case lost_outside =>
    intro k token htoken hloses other hother hcovers
    obtain ⟨seat, hseat, htaken, h⟩ := exists_tokenOf htoken
    obtain ⟨seat', hseat', htaken', h'⟩ := exists_tokenOf hother
    obtain rfl := seats_unique hseat hseat' (h.of_loses hloses) (h'.of_covers hcovers)
    obtain rfl := Option.some.inj (htaken.symm.trans htaken')
    exact absurd hcovers.2 (Nat.not_lt.2 hloses.behind.1)

end SourceFile
end UnionScript
