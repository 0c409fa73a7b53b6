import Mathlib
import UnionScript.Proofs.Braces
/-!
# Stage — what is known of a reader between two of its steps

One account is kept of every reader, step by step, and all that is shown of reading programs is read off it.  A stage
(`Stage`) is what the account says at one point of a reader:
- how many of the tokens taken so far are not yet spent on a statement or on an error (`credit`);
- how many parentheses and, inside a block, how many braces are open (`unclosed`);
- that a token is left if what is left ends with a line end (`more`);
- that nothing is known of the next token which the end of file would not show as well (`settled`);
- what was seen of the state (`knows`).

A reader leads from one stage to others (`Reads`): where it answers, the stages tell what it did to the state (`Leads`),
where it fails, a token that was taken pays for the error (`Fails`), and it never looks beyond the end of its line
(`Keeps`), so that it answers the same whatever stands there instead (`Tail`).
-/
namespace UnionScript

/-! ## Ends of lines -/

/-- Whether the last of some tokens, if there is one, is a line end. -/
def EndsLine (rest : List Token) : Prop := ∀ t ∈ rest.getLast?, t.kind = .newline

theorem EndsLine.suffix {rest more : List Token} (h : EndsLine more) (hsuffix : rest <:+ more) : EndsLine rest := by
  intro t ht
  obtain ⟨taken, rfl⟩ := hsuffix
  refine h t ?_
  rw [List.getLast?_append, Option.mem_def.1 ht]
  rfl

def Token.isComment (t : Token) : Bool := t.kind == .comment || t.kind == .roxygenComment

theorem Token.isComment_iff {t : Token} : t.isComment = true ↔ t.kind = .comment ∨ t.kind = .roxygenComment := by
  rw [isComment, Bool.or_eq_true, beq_iff_eq, beq_iff_eq]

/-- What may stand in the place of a last line end: tokens and the end of file behind them. -/
structure Tail where
  rest : List Token
  eof : Token

/-- A tail with nothing in it, with the line end itself and no `else` behind it, or with a comment in front of a line
end. -/
structure Tail.Follows (tail : Tail) (newline : Token) : Prop where
  eof : tail.eof.kind = .eof
  rest : tail.rest = [] ∨ (∃ more, tail.rest = newline :: more ∧ Parse.elseFollows more = false) ∨
    ∃ c line more, tail.rest = c :: line :: more ∧ c.isComment = true ∧ line.kind = .newline

namespace ParseState

/-- The state with a tail in the place of its last token. -/
def retail (s : ParseState) (tail : Tail) : ParseState :=
  { s with rest := s.rest.dropLast ++ tail.rest, eof := tail.eof }

/-- Tokens that are left and errors that are recorded. -/
def due (s : ParseState) : Nat := s.rest.length + s.errors.length

/-- A state whose tokens end with a line end, and a tail for it.  A `return` is not ended by a comment. -/
structure Ends (s : ParseState) (newline : Token) (tail : Tail) : Prop where
  last : s.rest.getLast? = some newline
  kind : newline.kind = .newline
  follows : tail.Follows newline
  word : ∀ c ∈ tail.rest.head?, c.isComment = true → ∀ t ∈ s.rest.dropLast.getLast?, t.kind ≠ .keyword .return

variable {s t : ParseState} {newline : Token} {tail : Tail}

theorem Ends.suffix (h : s.Ends newline tail) (hsuffix : t.rest <:+ s.rest) (hrest : t.rest ≠ []) :
    t.Ends newline tail := by
  obtain ⟨taken, htaken⟩ := hsuffix
  refine ⟨?_, h.kind, h.follows, fun c hc hcomment x hx => h.word c hc hcomment x ?_⟩
  · have hlast := h.last
    rw [← htaken, List.getLast?_append, List.getLast?_eq_some_getLast hrest] at hlast
    rw [List.getLast?_eq_some_getLast hrest]
    exact hlast
  · rw [← htaken, List.dropLast_append_of_ne_nil hrest, List.getLast?_append, Option.mem_def.1 hx]
    rfl

/-- What is in front of the last line end is the same with another tail. -/
theorem Ends.exists_rest (h : s.Ends newline tail) :
    ∃ front, s.rest = front ++ [newline] ∧ (s.retail tail).rest = front ++ tail.rest := by
  have hne : s.rest ≠ [] := by
    intro e
    have hlast := h.last
    rw [e] at hlast
    exact nomatch hlast
  have hlast := h.last
  rw [List.getLast?_eq_some_getLast hne] at hlast
  refine ⟨s.rest.dropLast, ?_, rfl⟩
  rw [← Option.some.inj hlast]
  exact (List.dropLast_concat_getLast hne).symm

theorem Ends.endsLine (h : s.Ends newline tail) : EndsLine s.rest := by
  intro t ht
  rw [h.last] at ht
  cases ht
  exact h.kind

end ParseState

namespace Parse

/-! ## Stages -/

/-- How many parentheses and braces are not closed yet.  At top level no account is kept of braces, since there closing
ones are passed over that close nothing. -/
structure Unclosed where
  parens : Nat
  braces : Option Nat

/-- What is known of a reader between two of its steps. -/
structure Stage where
  credit : Nat
  unclosed : Unclosed
  more : Bool
  settled : Bool
  knows : ParseState → Prop

namespace Stage

/-- What is not closed behind a token of a kind. -/
def level : TokenKind → Unclosed → Unclosed
  | .leftParen, u => { u with parens := u.parens + 1 }
  | .rightParen, u => { u with parens := u.parens - 1 }
  | .leftBrace, u => { u with braces := braceLevel .leftBrace u.braces }
  | .rightBrace, u => { u with braces := braceLevel .rightBrace u.braces }
  | _, u => u

theorem level_parens {kind : TokenKind} {u : Unclosed} (hleft : kind ≠ .leftParen) (hright : kind ≠ .rightParen) :
    (level kind u).parens = u.parens := by
  unfold level
  split <;> first | rfl | contradiction

theorem level_braces (kind : TokenKind) (u : Unclosed) : (level kind u).braces = braceLevel kind u.braces := by
  cases kind <;> rfl

/-- What is not closed inside braces is so behind them. -/
theorem level_rightBrace (u : Unclosed) : level .rightBrace (level .leftBrace u) = u := by
  obtain ⟨parens, braces⟩ := u
  cases braces <;> rfl

/-- The stage where more has been seen. -/
@[simps]
def knowing (i : Stage) (seen : ParseState → Prop) : Stage := { i with knows := seen }

/-- The stage where the next token has been seen to be of a kind. -/
@[simps!]
def facing (i : Stage) (kind : TokenKind) : Stage := i.knowing fun s => s.peek.kind = kind

/-- The stage where the next token has been looked at. -/
@[simps]
def peeked (i : Stage) (kind : TokenKind) : Stage :=
  { i with settled := decide (kind ≠ .newline), knows := fun s => s.peek.kind = kind }

/-- The stage behind a token of a kind. -/
@[simps]
def taken (i : Stage) (kind : TokenKind) : Stage where
  credit := i.credit + 1
  unclosed := level kind i.unclosed
  more := true
  settled := true
  knows _ := True

/-- The stage behind line ends or separators. -/
@[simps]
def skipped (i : Stage) : Stage := { i with more := false, settled := true, knows := fun _ => True }

/-- The stage behind a part that holds some statements. -/
@[simps]
def behind (i : Stage) (held : Nat) : Stage where
  credit := i.credit + 1 + held
  unclosed := i.unclosed
  more := true
  settled := true
  knows _ := True

theorem behind_pos (i : Stage) (held : Nat) : 0 < (i.behind held).credit :=
  Nat.lt_of_lt_of_le (Nat.succ_pos _) (Nat.le_add_right _ _)

/-- The stage before the next round of a repetition, when the token is not yet spent that each round must take. -/
@[simps]
def onward (i j : Stage) : Stage := { j with credit := max i.credit j.credit + 1 }

/-- A stage at which everything is known that is at another one. -/
structure Grants (i j : Stage) : Prop where
  credit : j.credit ≤ i.credit
  fresh : j.credit = 0 → i.credit = 0
  unclosed : j.unclosed = i.unclosed
  more : j.more = true → i.more = true
  settled : j.settled = true → i.settled = true
  knows : ∀ s, i.knows s → j.knows s

theorem Grants.refl (i : Stage) : i.Grants i := ⟨Nat.le_refl _, id, rfl, id, id, fun _ h => h⟩

/-- Whether a kind is none of those that another tail may show: a line end, a comment or the end of file. -/
def inLine (kind : TokenKind) : Bool :=
  match kind with
  | .newline | .eof | .comment | .roxygenComment => false
  | _ => true

theorem inLine_comment {t : Token} (h : t.isComment = true) : inLine t.kind = false := by
  rcases Token.isComment_iff.1 h with h | h <;> rw [h] <;> rfl

theorem beq_of_inLine {kind shown : TokenKind} (h : inLine kind = true) (hshown : inLine shown = false) :
    (shown == kind) = false := by
  refine beq_false_of_ne fun e => ?_
  rw [e, h] at hshown
  exact nomatch hshown

/-- A token of a kind that may be taken where some parentheses and braces are open: none that closes what others have
opened. -/
structure Takes (u : Unclosed) (kind : TokenKind) : Prop where
  newline : kind ≠ .newline
  eof : kind ≠ .eof
  paren : kind = .rightParen → 0 < u.parens
  brace : kind = .rightBrace → u.braces ≠ some 0

/-- Whether a token of a kind may be taken whatever stands behind it, and may be asked for before.  What stands behind a
`return` is looked at together with it. -/
def mayTake (u : Unclosed) (kind : TokenKind) : Bool :=
  match kind with
  | .rightParen => u.parens != 0
  | .rightBrace => u.braces != some 0
  | .keyword .return => false
  | _ => inLine kind

theorem inLine_of_mayTake {u : Unclosed} {kind : TokenKind} (h : mayTake u kind = true) : inLine kind = true := by
  unfold mayTake at h
  split at h
  · rfl
  · rfl
  · rfl
  · exact h

theorem takes_of_mayTake {u : Unclosed} {kind : TokenKind} (h : mayTake u kind = true) : Takes u kind where
  newline e := by
    rw [e] at h
    exact nomatch h
  eof e := by
    rw [e] at h
    exact nomatch h
  paren e := by
    rw [e] at h
    exact Nat.pos_of_ne_zero (bne_iff_ne.1 h)
  brace e := by
    rw [e] at h
    exact bne_iff_ne.1 h

theorem ne_return_of_mayTake {u : Unclosed} {kind : TokenKind} (h : mayTake u kind = true) : kind ≠ .keyword .return := by
  rintro rfl
  exact nomatch h

/-- Inside braces the closing one may be taken. -/
theorem mayTake_rightBrace (u : Unclosed) : mayTake (level .leftBrace u) .rightBrace = true := by
  obtain ⟨parens, braces⟩ := u
  cases braces <;> rfl

/-- Whether a state is one at which a reader may be at a stage. -/
structure Ready (i : Stage) (s : ParseState) : Prop where
  eof : s.eof.kind = .eof
  knows : i.knows s

/-- Whether a state with another tail is known to look the same. -/
def Synced (i : Stage) (s : ParseState) (tail : Tail) : Prop := i.settled = false → (s.retail tail).peek = s.peek

end Stage

/-- Tokens that change the number of open parentheses. -/
def Shifts (m n : Nat) (ts : List Token) : Prop :=
  ∀ d rest, closesBeforeArrow (d + m) (ts ++ rest) = closesBeforeArrow (d + n) rest

/-- Tokens that no reader gets beyond without an error: the end of file, and a `return` in front of a comment, which does
not end it. -/
def Barred : List Token → Prop
  | [] => False
  | t :: rest => t.kind = .eof ∨ t.kind = .keyword .return ∧ ∃ c ∈ rest.head?, c.isComment = true

/-- Barred tokens among those that were left are left still. -/
def Balks (before after : List Token) : Prop := ∀ more, Barred more → more <:+ before → more <:+ after

/-- What a reader that answers has done to the state. -/
structure Leads (i : Stage) (s : ParseState) (j : Stage) (t : ParseState) : Prop where
  continues : s.Continues t
  fault : t.fault = s.fault
  due : t.due + j.credit ≤ s.due + i.credit
  fresh : j.credit = 0 → i.credit = 0 ∧ t.rest = s.rest
  shifts : t.errors = s.errors → ∃ ts, s.rest = ts ++ t.rest ∧ Shifts i.unclosed.parens j.unclosed.parens ts
  braces : ∃ ts, s.rest = ts ++ t.rest ∧ Opens i.unclosed.braces j.unclosed.braces (t.errors = s.errors) ts
  more : EndsLine s.rest → (i.more = true → s.rest ≠ []) → j.more = true → t.rest ≠ []
  balks : t.errors = s.errors → Balks s.rest t.rest
  knows : j.knows t

/-- What a reader that fails has done to the state: unless it has taken nothing, a token pays for the error. -/
structure Fails (i : Stage) (s t : ParseState) : Prop where
  continues : s.Continues t
  fault : t.fault = s.fault
  due : t.due ≤ s.due + i.credit
  paid : t.due + 1 ≤ s.due + i.credit ∨ i.credit = 0 ∧ t.rest = s.rest
  braces : ∃ ts, s.rest = ts ++ t.rest ∧ Opens i.unclosed.braces (some 0) False ts

/-- What a reader answers, it answers with another tail as well. -/
def Keeps {α : Type} (i : Stage) (p : Parse α) (j : α → Stage) : Prop :=
  ∀ ⦃s t : ParseState⦄ ⦃a : α⦄ ⦃newline : Token⦄ ⦃tail : Tail⦄, i.Ready s → p s = .ok a t → t.errors = s.errors →
    s.Ends newline tail → t.rest ≠ [] → (j a).Synced t tail →
    i.Synced s tail ∧ p (s.retail tail) = .ok a (t.retail tail)

/-- A reader that leads from a stage to others. -/
structure Reads {α : Type} (i : Stage) (p : Parse α) (j : α → Stage) : Prop where
  orderly : Orderly p
  ok : ∀ {s t : ParseState} {a : α}, i.Ready s → p s = .ok a t → Leads i s (j a) t
  error : ∀ {s t : ParseState} {e : ParseError}, i.Ready s → p s = .error e t → Fails i s t
  keeps : Keeps i p j

/-! ## Shifting parentheses -/

section

variable {d : Nat} {t : Token} {rest : List Token}

theorem closesBeforeArrow_left (h : t.kind = .leftParen) :
    closesBeforeArrow d (t :: rest) = closesBeforeArrow (d + 1) rest := by
  rw [closesBeforeArrow.eq_def]
  simp only [h]

theorem closesBeforeArrow_right_zero (h : t.kind = .rightParen) :
    closesBeforeArrow 0 (t :: rest) = rest.head?.any fun next => next.kind == .colon || next.kind == .fatArrow := by
  rw [closesBeforeArrow.eq_def]
  simp only [h]

theorem closesBeforeArrow_right_succ (h : t.kind = .rightParen) :
    closesBeforeArrow (d + 1) (t :: rest) = closesBeforeArrow d rest := by
  rw [closesBeforeArrow.eq_def]
  simp only [h]

theorem closesBeforeArrow_other (hleft : t.kind ≠ .leftParen) (hright : t.kind ≠ .rightParen) :
    closesBeforeArrow d (t :: rest) = closesBeforeArrow d rest := by
  rw [closesBeforeArrow.eq_def]
  dsimp only
  split
  · contradiction
  · contradiction
  · rfl

end

namespace Shifts

theorem refl (n : Nat) : Shifts n n [] := fun _ _ => rfl

theorem trans {l m n : Nat} {ts us : List Token} (h : Shifts l m ts) (h' : Shifts m n us) : Shifts l n (ts ++ us) := by
  intro d rest
  rw [List.append_assoc, h, h']

theorem token {u : Unclosed} {t : Token} (h : t.kind = .rightParen → 0 < u.parens) :
    Shifts u.parens (Stage.level t.kind u).parens [t] := by
  intro d rest
  rw [List.singleton_append]
  by_cases hleft : t.kind = .leftParen
  · rw [closesBeforeArrow_left hleft, hleft]
    rfl
  by_cases hright : t.kind = .rightParen
  · obtain ⟨m, hm⟩ : ∃ m, u.parens = m + 1 := ⟨u.parens - 1, by have := h hright; omega⟩
    rw [hright, Stage.level, hm]
    exact closesBeforeArrow_right_succ hright
  · rw [closesBeforeArrow_other hleft hright, Stage.level_parens hleft hright]

/-- Tokens none of which is a parenthesis. -/
theorem of_plain {n : Nat} : ∀ {ts : List Token}, (∀ t ∈ ts, t.kind ≠ .leftParen ∧ t.kind ≠ .rightParen) → Shifts n n ts
  | [], _ => refl n
  | t :: ts, h => by
    obtain ⟨hleft, hright⟩ := h t List.mem_cons_self
    have htoken : Shifts n (Stage.level t.kind ⟨n, none⟩).parens [t] := token (u := ⟨n, none⟩) fun e => absurd e hright
    rw [Stage.level_parens hleft hright] at htoken
    exact htoken.trans (of_plain fun t ht => h t (List.mem_cons_of_mem _ ht))

end Shifts

/-! ## Barred tokens -/

namespace Balks

theorem refl (rest : List Token) : Balks rest rest := fun _ _ h => h

theorem trans {l m n : List Token} (h : Balks l m) (h' : Balks m n) : Balks l n :=
  fun more hbarred hmore => h' more hbarred (h more hbarred hmore)

/-- A token is taken that is not barred together with what is behind it. -/
theorem token {t : Token} {rest : List Token} (h : ¬Barred (t :: rest)) : Balks (t :: rest) rest := by
  intro more hbarred hmore
  rcases List.suffix_cons_iff.1 hmore with rfl | hmore
  · exact absurd hbarred h
  · exact hmore

/-- Tokens are passed over none of which is the end of file or a `return`. -/
theorem of_plain {rest : List Token} : ∀ {ts : List Token}, (∀ t ∈ ts, t.kind ≠ .eof ∧ t.kind ≠ .keyword .return) →
    Balks (ts ++ rest) rest
  | [], _ => refl rest
  | t :: ts, h => by
    obtain ⟨heof, hreturn⟩ := h t List.mem_cons_self
    refine (token ?_).trans (of_plain fun u hu => h u (List.mem_cons_of_mem _ hu))
    exact fun hbarred => hbarred.elim heof fun hword => hreturn hword.1

end Balks

/-! ## States one after the other -/

variable {α β : Type} {i j k : Stage} {s t u : ParseState}

theorem Leads.refl (hready : i.Ready s) (h : i.Grants j) : Leads i s j s where
  continues := .refl s
  fault := rfl
  due := Nat.add_le_add_left h.credit _
  fresh hfresh := ⟨h.fresh hfresh, rfl⟩
  shifts _ := ⟨[], rfl, h.unclosed ▸ Shifts.refl _⟩
  braces := ⟨[], rfl, h.unclosed ▸ Opens.refl _ _⟩
  more _ hmore hj := hmore (h.more hj)
  balks _ := .refl _
  knows := h.knows s hready.knows

theorem Leads.trans (h : Leads i s j t) (h' : Leads j t k u) : Leads i s k u where
  continues := h.continues.trans h'.continues
  fault := h'.fault.trans h.fault
  due := by
    have hfirst := h.due
    have hsecond := h'.due
    omega
  fresh hfresh := by
    obtain ⟨hj, hrest⟩ := h'.fresh hfresh
    exact ⟨(h.fresh hj).1, hrest.trans (h.fresh hj).2⟩
  shifts herrors := by
    obtain ⟨hfirst, hsecond⟩ := errors_eq_of_continues h.continues h'.continues herrors
    obtain ⟨ts, hts, hshifts⟩ := h.shifts hfirst
    obtain ⟨us, hus, hshifts'⟩ := h'.shifts hsecond
    exact ⟨ts ++ us, by rw [hts, hus, List.append_assoc], hshifts.trans hshifts'⟩
  braces := by
    obtain ⟨ts, hts, hopens⟩ := h.braces
    obtain ⟨us, hus, hopens'⟩ := h'.braces
    exact ⟨ts ++ us, by rw [hts, hus, List.append_assoc],
      hopens.trans hopens' (errors_eq_of_continues h.continues h'.continues)⟩
  more hline hmore hk := h'.more (hline.suffix h.continues.rest) (h.more hline hmore) hk
  balks herrors := by
    obtain ⟨hfirst, hsecond⟩ := errors_eq_of_continues h.continues h'.continues herrors
    exact (h.balks hfirst).trans (h'.balks hsecond)
  knows := h'.knows

theorem Leads.ready (h : Leads i s j t) (hready : i.Ready s) : j.Ready t :=
  ⟨h.continues.eof.symm ▸ hready.eof, h.knows⟩

theorem Leads.fails (h : Leads i s j t) (h' : Fails j t u) : Fails i s u where
  continues := h.continues.trans h'.continues
  fault := h'.fault.trans h.fault
  due := by
    have hfirst := h.due
    have hsecond := h'.due
    omega
  paid := by
    have hfirst := h.due
    rcases h'.paid with hpaid | ⟨hj, hrest⟩
    · exact .inl (by omega)
    · exact .inr ⟨(h.fresh hj).1, hrest.trans (h.fresh hj).2⟩
  braces := by
    obtain ⟨ts, hts, hopens⟩ := h.braces
    obtain ⟨us, hus, hopens'⟩ := h'.braces
    exact ⟨ts ++ us, by rw [hts, hus, List.append_assoc], hopens.trans hopens' False.elim⟩

theorem Fails.refl (i : Stage) (s : ParseState) : Fails i s s where
  continues := .refl s
  fault := rfl
  due := Nat.le_add_right _ _
  paid := by
    rcases Nat.eq_zero_or_pos i.credit with hcredit | hcredit
    · exact .inr ⟨hcredit, rfl⟩
    · exact .inl (Nat.add_le_add_left hcredit _)
  braces := ⟨[], rfl, (Opens.refl _ False).bounded⟩

namespace Reads

/-! ## Reading in parts -/

theorem pure {j : α → Stage} (a : α) (h : i.Grants (j a)) : Reads i (pure a : Parse α) j where
  orderly := orderly_closed.pure a
  ok hready hok := by
    cases hok
    exact .refl hready h
  error _ herror := nomatch herror
  keeps := by
    intro s t b newline tail hready hok _ _ _ hsynced
    cases hok
    refine ⟨fun hi => hsynced ?_, rfl⟩
    exact Bool.eq_false_iff.2 fun hj => Bool.eq_false_iff.1 hi (h.settled hj)

/-- A reader that fails where it stands. -/
theorem fail {p : Parse α} {j : α → Stage} (h : ∀ s, ∃ e, p s = .error e s) : Reads i p j where
  orderly s := by
    obtain ⟨e, he⟩ := h s
    rw [after_error he]
    exact .refl s
  ok {s t a} _ hok := by
    obtain ⟨e, he⟩ := h s
    exact nomatch he.symm.trans hok
  error {s t e} _ herror := by
    obtain ⟨e', he⟩ := h s
    cases he.symm.trans herror
    exact .refl i s
  keeps := by
    intro s t a newline tail _ hok
    obtain ⟨e, he⟩ := h s
    exact nomatch he.symm.trans hok

theorem throw {j : α → Stage} (e : ParseError) : Reads i (throw e : Parse α) j := fail fun _ => ⟨e, rfl⟩

theorem unexpected {j : α → Stage} : Reads i (unexpected : Parse α) j := fail fun _ => ⟨_, rfl⟩

theorem expected {j : α → Stage} (what : String) : Reads i (expected what : Parse α) j := fail fun _ => ⟨_, rfl⟩

theorem tooDeep {j : α → Stage} (span : Span) : Reads i (tooDeep span : Parse α) j := fail fun _ => ⟨_, rfl⟩

/-- **One reader after the other.** -/
theorem bind {p : Parse α} {next : α → Parse β} {j : α → Stage} {k : β → Stage} (h : Reads i p j)
    (hnext : ∀ a, Reads (j a) (next a) k) : Reads i (p >>= next) k where
  orderly := Orderly.bind h.orderly fun a => (hnext a).orderly
  ok {s t b} hready hok := by
    obtain ⟨a, u, hp, hb⟩ := Steps.of_bind_ok hok
    have hfirst := h.ok hready hp
    exact hfirst.trans ((hnext a).ok (hfirst.ready hready) hb)
  error {s t e} hready herror := by
    cases hp : p s with
    | ok a u =>
      rw [Steps.bind_ok hp] at herror
      have hfirst := h.ok hready hp
      exact hfirst.fails ((hnext a).error (hfirst.ready hready) herror)
    | error e' u =>
      cases (Steps.bind_error hp).symm.trans herror
      exact h.error hready hp
  keeps := by
    intro s t b newline tail hready hok herrors hends hrest hsynced
    obtain ⟨a, u, hp, hb⟩ := Steps.of_bind_ok hok
    have hfirst := h.ok hready hp
    have hsecond := (hnext a).ok (hfirst.ready hready) hb
    obtain ⟨herrors, herrors'⟩ := errors_eq_of_continues hfirst.continues hsecond.continues herrors
    have hu : u.rest ≠ [] := fun e => hrest (List.suffix_nil.1 (e ▸ hsecond.continues.rest))
    obtain ⟨hsynced, hb'⟩ := (hnext a).keeps (hfirst.ready hready) hb herrors' (hends.suffix hfirst.continues.rest hu)
      hrest hsynced
    obtain ⟨hsynced, hp'⟩ := h.keeps hready hp herrors hends hu hsynced
    exact ⟨hsynced, by rw [Steps.bind_ok hp', hb']⟩

theorem mono {p : Parse α} {j j' : α → Stage} (h : Reads i p j) (hgrants : ∀ a, (j a).Grants (j' a)) : Reads i p j' := by
  rw [← bind_pure p]
  exact h.bind fun a => pure a (hgrants a)

/-- More than is needed may have been seen. -/
theorem recalling {seen : ParseState → Prop} {p : Parse α} {j : α → Stage} (h : Reads i p j)
    (hseen : ∀ s, seen s → i.knows s) : Reads (i.knowing seen) p j where
  orderly := h.orderly
  ok hready hok := { h.ok ⟨hready.eof, hseen _ hready.knows⟩ hok with }
  error hready herror := { h.error ⟨hready.eof, hseen _ hready.knows⟩ herror with }
  keeps := fun _ _ _ _ _ hready hok => h.keeps ⟨hready.eof, hseen _ hready.knows⟩ hok

/-- What was seen may be left out of account. -/
theorem forget {p : Parse α} {j : α → Stage} (h : Reads (i.knowing fun _ => True) p j) : Reads i p j := by
  have hrecalling : Reads ((i.knowing fun _ => True).knowing i.knows) p j := h.recalling fun _ _ => trivial
  exact hrecalling

/-- Less may be known before a reader. -/
theorem pre {p : Parse α} {k : α → Stage} (hgrants : i.Grants j) (h : Reads j p k) : Reads i p k := by
  have hpure : Reads i (Pure.pure () : Parse Unit) (fun _ => j) := pure () hgrants
  exact hpure.bind fun _ => h

/-- Either way, where something was asked. -/
theorem choose {p q : Parse α} {k : α → Stage} (hp : Reads i p k) (hq : Reads j q k) (b : Bool) :
    Reads (if b then i else j) (if b then p else q) k := by
  cases b
  · exact hq
  · exact hp

/-! ## Looking at tokens -/

/-- What a tail shows first is none of the kinds that stand in a line. -/
theorem inLine_tail {newline : Token} {tail : Tail} (hkind : newline.kind = .newline) (h : tail.Follows newline) :
    Stage.inLine (tail.rest.head?.getD tail.eof).kind = false := by
  rcases h.rest with hnil | ⟨more, hmore, -⟩ | ⟨c, line, more, hmore, hcomment, -⟩
  · rw [hnil, List.head?_nil, Option.getD_none, h.eof]
    rfl
  · rw [hmore, List.head?_cons, Option.getD_some, hkind]
    rfl
  · rw [hmore]
    exact Stage.inLine_comment hcomment

/-- What a state with another tail shows next: the same token, or what the tail begins with instead of a line end. -/
theorem peek_retail {newline : Token} {tail : Tail} (h : s.Ends newline tail) :
    (s.retail tail).peek = s.peek ∨ s.peek.kind = .newline ∧ Stage.inLine (s.retail tail).peek.kind = false := by
  obtain ⟨front, hrest, hrest'⟩ := h.exists_rest
  rw [ParseState.peek, ParseState.peek, hrest', hrest]
  cases front with
  | cons t front => exact .inl rfl
  | nil => exact .inr ⟨h.kind, inLine_tail h.kind h.follows⟩

/-- **Asking the state** for what another tail would show as well. -/
theorem asks {f : ParseState → β} (hf : ∀ s newline tail, i.Ready s → s.Ends newline tail → f (s.retail tail) = f s) :
    Reads i (fun s => .ok (f s) s : Parse β) (fun b => i.knowing fun s => i.knows s ∧ f s = b) where
  orderly s := .refl s
  ok {s t b} hready hok := by
    cases hok
    exact { Leads.refl hready (.refl i) with knows := ⟨hready.knows, rfl⟩ }
  error _ herror := nomatch herror
  keeps := by
    intro s t b newline tail hready hok _ hends _ hsynced
    cases hok
    exact ⟨hsynced, congrArg (EStateM.Result.ok · (s.retail tail)) (hf s newline tail hready hends)⟩

theorem check (kind : TokenKind) (hkind : Stage.inLine kind = true) :
    Reads i (check kind) (fun b => if b then i.facing kind else i) := by
  have hasks : Reads i (Parse.check kind) (fun b => i.knowing fun s => i.knows s ∧ (s.peek.kind == kind) = b) := by
    refine asks fun s newline tail _ hends => ?_
    rcases peek_retail hends with h | ⟨h, h'⟩
    · rw [h]
    · rw [h, Stage.beq_of_inLine hkind h', Stage.beq_of_inLine hkind rfl]
  refine hasks.mono fun b => ?_
  cases b with
  | true => exact ⟨Nat.le_refl _, id, rfl, id, id, fun s h => eq_of_beq h.2⟩
  | false => exact ⟨Nat.le_refl _, id, rfl, id, id, fun s h => h.1⟩

/-- Looking at the next token: where it is a line end, another tail might not have shown it. -/
theorem peek : Reads i peek (fun t => i.peeked t.kind) where
  orderly s := .refl s
  ok {s t b} hready hok := by
    cases hok
    exact { Leads.refl hready (.refl i) with knows := rfl }
  error _ herror := nomatch herror
  keeps := by
    intro s t b newline tail hready hok _ hends _ hsynced
    cases hok
    have hsame : (s.retail tail).peek = s.peek := by
      rcases peek_retail hends with h | ⟨h, -⟩
      · exact h
      · exact hsynced (decide_eq_false fun hne => hne h)
    exact ⟨fun _ => hsame, congrArg (EStateM.Result.ok · (s.retail tail)) hsame⟩

theorem peekKind : Reads i peekKind i.peeked :=
  peek.bind fun _ => pure _ (.refl _)

/-- Asking for the kind of the next token what is the same of a line end and of whatever may stand in its place. -/
theorem askKind {f : TokenKind → β} (hf : ∀ kind, Stage.inLine kind = false → f kind = f .newline) (next : β → Parse α) {k : α → Stage}
    (h : ∀ b, Reads i (next b) k) : Reads i (do let kind ← Parse.peekKind; next (f kind)) k := by
  have hasks : Reads i (fun s => .ok (f s.peek.kind) s : Parse β) (fun _ => i) := by
    refine (asks fun s newline tail _ hends => ?_).mono fun b => ⟨Nat.le_refl _, id, rfl, id, id, fun s h => h.1⟩
    rcases peek_retail hends with h | ⟨h, h'⟩
    · rw [h]
    · rw [h, hf _ h']
  exact hasks.bind h

/-! ## Taking tokens -/

theorem advance_retail {x : Token} {rest : List Token} (hs : s.rest = x :: rest) (hrest : rest ≠ []) (tail : Tail) :
    (s.retail tail).peek = x ∧ Parse.advance (s.retail tail) = .ok x (s.advance.retail tail) := by
  obtain ⟨_, eof, errors, depth, fault⟩ := s
  cases hs
  have hretail : (x :: rest).dropLast ++ tail.rest = x :: (rest.dropLast ++ tail.rest) := by
    rw [List.dropLast_cons_of_ne_nil hrest, List.cons_append]
  simp only [ParseState.retail, Parse.advance, ParseState.advance, ParseState.peek, hretail]
  exact ⟨rfl, rfl⟩

/-- A state shows a token of a kind that may be taken. -/
theorem exists_next {kind : TokenKind} (hkind : ∀ s, i.knows s → s.peek.kind = kind) (heof : kind ≠ .eof)
    (hready : i.Ready s) : ∃ x rest, s.rest = x :: rest ∧ x.kind = kind := by
  have hpeek := hkind s hready.knows
  rw [ParseState.peek] at hpeek
  cases hs : s.rest with
  | nil =>
    rw [hs] at hpeek
    exact absurd (hpeek.symm.trans hready.eof) heof
  | cons x rest =>
    rw [hs] at hpeek
    exact ⟨x, rest, rfl, hpeek⟩

/-- Taking a token that is known to be of some kind and not to be barred.  Something of the state behind it may follow
from what was seen. -/
theorem advancing {kind : TokenKind} {seen : ParseState → Prop} (hkind : ∀ s, i.knows s → s.peek.kind = kind)
    (htakes : Stage.Takes i.unclosed kind) (hopen : ∀ s, i.knows s → kind = .keyword .return → ¬Barred s.rest)
    (hseen : ∀ s, i.knows s → seen s.advance) : Reads i Parse.advance (fun _ => (i.taken kind).knowing seen) := by
  refine ⟨orderly_closed.advance, ?_, ?_, ?_⟩
  · intro s t a hready hok
    obtain ⟨x, rest, hs, hx⟩ := exists_next hkind htakes.eof hready
    cases hok
    refine ⟨orderly_closed.advance s, ?_, ?_, fun h => absurd h (Nat.succ_ne_zero _), fun _ => ⟨[x], ?_, ?_⟩,
      ⟨[x], ?_, ?_⟩, ?_, fun _ => ?_, hseen s hready.knows⟩
    · simp [ParseState.advance, hs]
    · simp only [ParseState.due, ParseState.advance, hs, List.tail_cons, List.length_cons, Stage.knowing_credit,
        Stage.taken_credit]
      omega
    · simp [ParseState.advance, hs]
    · subst hx
      exact .token htakes.paren
    · simp [ParseState.advance, hs]
    · subst hx
      rw [Stage.knowing_unclosed, Stage.taken_unclosed, Stage.level_braces]
      exact .token _ htakes.brace
    · intro hline _ _ hnil
      have hsingle : s.rest = [x] := by
        rw [hs]
        simpa [ParseState.advance, hs] using hnil
      rw [hsingle] at hline
      exact htakes.newline (hx.symm.trans (hline x rfl))
    · have hnot : ¬Barred s.rest := by
        rw [hs]
        rintro (heof | hword)
        · exact htakes.eof (hx.symm.trans heof)
        · exact hopen s hready.knows (hx.symm.trans hword.1) (hs ▸ .inr hword)
      simp only [ParseState.advance]
      rw [hs] at hnot ⊢
      exact .token hnot
  · intro s t e _ herror
    cases herror
  · intro s t a newline tail hready hok _ hends hne _
    obtain ⟨x, rest, hs, hx⟩ := exists_next hkind htakes.eof hready
    cases hok
    have htail : rest ≠ [] := by simpa [ParseState.advance, hs] using hne
    obtain ⟨hretail, hadvance⟩ := advance_retail hs htail tail
    have hpeek : s.peek = x := by simp [ParseState.peek, hs]
    exact ⟨fun _ => hretail.trans hpeek.symm, by rw [hpeek]; exact hadvance⟩

/-- What a reader has done that takes a token and fails behind it. -/
theorem fails_advance {kind : TokenKind} (hkind : ∀ s, i.knows s → s.peek.kind = kind)
    (htakes : Stage.Takes i.unclosed kind) (hready : i.Ready s) : Fails i s s.advance := by
  obtain ⟨x, rest, hs, hx⟩ := exists_next hkind htakes.eof hready
  have hlength : s.advance.due + 1 = s.due := by
    simp only [ParseState.due, ParseState.advance, hs, List.tail_cons, List.length_cons]
    omega
  refine ⟨orderly_closed.advance s, ?_, by omega, .inl (by omega), ⟨[x], ?_, ?_⟩⟩
  · simp [ParseState.advance, hs]
  · simp [ParseState.advance, hs]
  · subst hx
    exact (Opens.token False htakes.brace).bounded

theorem advance {kind : TokenKind} (hkind : ∀ s, i.knows s → s.peek.kind = kind)
    (htake : Stage.mayTake i.unclosed kind = true) : Reads i advance (fun _ => i.taken kind) :=
  advancing hkind (Stage.takes_of_mayTake htake) (fun _ _ e => absurd e (Stage.ne_return_of_mayTake htake))
    fun _ _ => trivial

theorem advance_facing (kind : TokenKind) (htake : Stage.mayTake i.unclosed kind = true) :
    Reads (i.facing kind) Parse.advance (fun _ => i.taken kind) :=
  advance (i := i.facing kind) (fun _ h => h) htake

theorem advance_peeked (kind : TokenKind) (htake : Stage.mayTake i.unclosed kind = true) :
    Reads (i.peeked kind) Parse.advance (fun _ => i.taken kind) :=
  advance (i := i.peeked kind) (fun _ h => h) htake

theorem accept (kind : TokenKind) (htake : Stage.mayTake i.unclosed kind = true) :
    Reads i (accept kind) (fun b => if b then i.taken kind else i) := by
  refine (check kind (Stage.inLine_of_mayTake htake)).bind fun b => ?_
  cases b with
  | true => exact (advance_facing kind htake).bind fun _ => pure true (.refl _)
  | false => exact pure false (.refl _)

theorem expect (kind : TokenKind) (what : String) (htake : Stage.mayTake i.unclosed kind = true) :
    Reads i (expect kind what) (fun _ => i.taken kind) := by
  refine (check kind (Stage.inLine_of_mayTake htake)).bind fun b => ?_
  cases b with
  | true => exact advance_facing kind htake
  | false => exact expected what

theorem identifier (what : String) : Reads i (identifier what) (fun _ => i.taken .identifier) :=
  expect .identifier what rfl

/-! ## Skipping line ends and separators -/

theorem dropWhile_retail {separates : Token → Bool} {newline : Token} {more : List Token}
    (hnewline : separates newline = true) : ∀ {front : List Token}, (front ++ [newline]).dropWhile separates ≠ [] →
    (front ++ more).dropWhile separates = ((front ++ [newline]).dropWhile separates).dropLast ++ more
  | [], h => absurd (by rw [List.nil_append, List.dropWhile_cons, if_pos hnewline, List.dropWhile_nil]) h
  | t :: front, h => by
    rw [List.cons_append, List.dropWhile_cons] at h
    rw [List.cons_append, List.cons_append, List.dropWhile_cons, List.dropWhile_cons]
    split
    · rename_i ht
      rw [if_pos ht] at h
      exact dropWhile_retail hnewline h
    · show t :: (front ++ more) = (t :: front ++ [newline]).dropLast ++ more
      rw [List.dropLast_concat, List.cons_append]

/-- Skipping what separates, line ends among it.  Something of the state behind it may follow from what was seen. -/
theorem skipping {separates : Token → Bool} {seen : ParseState → Prop} (hcredit : 0 < i.credit)
    (hnewline : ∀ t : Token, t.kind = .newline → separates t = true)
    (hplain : ∀ t : Token, separates t = true → (t.kind ≠ .leftParen ∧ t.kind ≠ .rightParen) ∧
      (t.kind ≠ .leftBrace ∧ t.kind ≠ .rightBrace) ∧ t.kind ≠ .eof ∧ t.kind ≠ .keyword .return)
    (hseen : ∀ s, i.knows s → seen { s with rest := s.rest.dropWhile separates }) :
    Reads i (fun s => .ok () { s with rest := s.rest.dropWhile separates } : Parse Unit)
      (fun _ => i.skipped.knowing seen) := by
  refine ⟨Orderly.skip separates, ?_, ?_, ?_⟩
  · intro s t a hready hok
    cases hok
    have hle : (s.rest.dropWhile separates).length ≤ s.rest.length := (List.dropWhile_suffix separates).length_le
    refine ⟨Orderly.skip separates s, rfl, ?_, fun h => absurd h (Nat.ne_of_gt hcredit),
      fun _ => ⟨s.rest.takeWhile separates, List.takeWhile_append_dropWhile.symm, ?_⟩,
      ⟨s.rest.takeWhile separates, List.takeWhile_append_dropWhile.symm, ?_⟩, nofun, fun _ => ?_, hseen s hready.knows⟩
    · simp only [ParseState.due, Stage.knowing_credit, Stage.skipped_credit]
      omega
    · exact .of_plain fun t ht => (hplain t (List.mem_takeWhile_imp ht)).1
    · exact .of_plain _ _ fun t ht => (hplain t (List.mem_takeWhile_imp ht)).2.1
    · have hbalks : Balks (s.rest.takeWhile separates ++ s.rest.dropWhile separates) (s.rest.dropWhile separates) :=
        .of_plain fun t ht => (hplain t (List.mem_takeWhile_imp ht)).2.2
      rwa [List.takeWhile_append_dropWhile] at hbalks
  · intro s t e _ herror
    exact nomatch herror
  · intro s t a newline tail hready hok _ hends hne _
    cases hok
    obtain ⟨front, hrest, hrest'⟩ := hends.exists_rest
    have hdrop : ((s.retail tail).rest).dropWhile separates = (s.rest.dropWhile separates).dropLast ++ tail.rest := by
      rw [hrest', hrest]
      exact dropWhile_retail (hnewline newline hends.kind) (hrest ▸ hne)
    refine ⟨fun _ => ?_, ?_⟩
    · cases front with
      | cons x front => rw [ParseState.peek, ParseState.peek, hrest, hrest', List.cons_append, List.cons_append]; rfl
      | nil =>
        -- Nothing but the line end was there, and it was skipped.
        refine absurd ?_ hne
        show s.rest.dropWhile separates = []
        rw [hrest, List.nil_append, List.dropWhile_cons, if_pos (hnewline newline hends.kind), List.dropWhile_nil]
    · show EStateM.Result.ok () { s.retail tail with rest := (s.retail tail).rest.dropWhile separates } = _
      rw [hdrop]
      rfl

theorem skipNewlines (hcredit : 0 < i.credit) : Reads i skipNewlines (fun _ => i.skipped) := by
  refine skipping hcredit (fun _ h => beq_iff_eq.2 h) (fun t h => ?_) (fun _ _ => trivial)
  rw [beq_iff_eq.1 h]
  decide

theorem skipSeparators (hcredit : 0 < i.credit) : Reads i skipSeparators (fun _ => i.skipped) := by
  refine skipping hcredit (fun t h => ?_) (fun t h => ?_) (fun _ _ => trivial)
  · rw [isSeparator, h]
    rfl
  · rcases Bool.or_eq_true_iff.1 h with h | h <;> rw [beq_iff_eq.1 h] <;> decide

theorem skipEntrySeparators (hcredit : 0 < i.credit) : Reads i skipEntrySeparators (fun _ => i.skipped) := by
  refine skipping hcredit (fun t h => ?_) (fun t h => ?_) (fun _ _ => trivial)
  · rw [isEntrySeparator, h]
    rfl
  · rcases Bool.or_eq_true_iff.1 h with h | h <;> rw [beq_iff_eq.1 h] <;> decide

/-! ## Nesting, repetition and recovery -/

/-- The state with one more level of nesting. -/
def descend (s : ParseState) : ParseState := { s with depth := s.depth + 1 }

theorem continues_of_nested (h : (descend s).Continues t) : s.Continues t.ascend :=
  { h with depth := congrArg (· - 1) h.depth }

theorem fault_of_nested (h : (descend s).Continues t) : t.ascend.fault = t.fault := by
  have hdepth : t.depth = s.depth + 1 := h.depth
  simp [ParseState.ascend, hdepth]

/-- Giving a level back changes nothing else. -/
theorem nested {p : Parse α} {j : α → Stage} (hi : ∀ s, i.knows s → i.knows (descend s))
    (hj : ∀ a s, (j a).knows s → (j a).knows s.ascend) (h : Reads i p j) : Reads i (nested p) j where
  orderly := Orderly.nested h.orderly
  ok {s t a} hready hok := by
    have hdeeper : i.Ready (descend s) := ⟨hready.eof, hi s hready.knows⟩
    cases hp : p (descend s) with
    | error e u => exact nomatch (nested_error hp).symm.trans hok
    | ok b u =>
      cases (nested_ok hp).symm.trans hok
      have hleads := h.ok hdeeper hp
      exact { hleads with
        continues := continues_of_nested hleads.continues
        fault := (fault_of_nested hleads.continues).trans hleads.fault
        knows := hj a u hleads.knows }
  error {s t e} hready herror := by
    have hdeeper : i.Ready (descend s) := ⟨hready.eof, hi s hready.knows⟩
    cases hp : p (descend s) with
    | ok b u => exact nomatch (nested_ok hp).symm.trans herror
    | error e' u =>
      cases (nested_error hp).symm.trans herror
      have hfails := h.error hdeeper hp
      exact { hfails with
        continues := continues_of_nested hfails.continues
        fault := (fault_of_nested hfails.continues).trans hfails.fault }
  keeps := by
    intro s t a newline tail hready hok herrors hends hne hsynced
    have hdeeper : i.Ready (descend s) := ⟨hready.eof, hi s hready.knows⟩
    have hends' : (descend s).Ends newline tail := ⟨hends.last, hends.kind, hends.follows, hends.word⟩
    cases hp : p (descend s) with
    | error e u => exact nomatch (nested_error hp).symm.trans hok
    | ok b u =>
      cases (nested_ok hp).symm.trans hok
      obtain ⟨hsynced, hp'⟩ := h.keeps hdeeper hp herrors hends' hne hsynced
      have hretail : p { s.retail tail with depth := (s.retail tail).depth + 1 } = .ok a (u.retail tail) := hp'
      exact ⟨hsynced, nested_ok hretail⟩

/-- What a round leads to: the next one, or the stages behind the repetition. -/
def turn (i : α → Stage) (j : β → Stage) : Round α β → Stage
  | .again a => i a
  | .done b => j b

/-- **A repetition**, each round of which takes a token if it asks for another one. -/
theorem rounds {i : α → Stage} {j : β → Stage} {round : α → Parse (Round α β)}
    (hmore : ∀ {a a' s t}, (i a).Ready s → round a s = .ok (.again a') t → t.rest.length < s.rest.length)
    (h : ∀ a, Reads (i a) (round a) (turn i j)) (a : α) : Reads (i a) (rounds round a) j where
  orderly := Orderly.rounds (fun a => (h a).orderly) a
  ok {s t b} hready hok := by
    induction hn : s.rest.length using Nat.strongRecOn generalizing a s with
    | ind n ih =>
      cases hround : round a s with
      | error e u => exact nomatch (rounds_error hround).symm.trans hok
      | ok r u =>
        have hleads := (h a).ok hready hround
        cases r with
        | done c =>
          cases (rounds_done hround).symm.trans hok
          exact hleads
        | again a' =>
          have hless := hmore hready hround
          exact hleads.trans (ih _ (hn ▸ hless) a' (hleads.ready hready) ((rounds_again hround hless).symm.trans hok) rfl)
  error {s t e} hready herror := by
    induction hn : s.rest.length using Nat.strongRecOn generalizing a s with
    | ind n ih =>
      cases hround : round a s with
      | error e' u =>
        cases (rounds_error hround).symm.trans herror
        exact (h a).error hready hround
      | ok r u =>
        have hleads := (h a).ok hready hround
        cases r with
        | done c => exact nomatch (rounds_done hround).symm.trans herror
        | again a' =>
          have hless := hmore hready hround
          exact hleads.fails
            (ih _ (hn ▸ hless) a' (hleads.ready hready) ((rounds_again hround hless).symm.trans herror) rfl)
  keeps := by
    intro s t b newline tail hready hok herrors hends hne hsynced
    induction hn : s.rest.length using Nat.strongRecOn generalizing a s with
    | ind n ih =>
      cases hround : round a s with
      | error e u => exact nomatch (rounds_error hround).symm.trans hok
      | ok r u =>
        have hleads := (h a).ok hready hround
        cases r with
        | done c =>
          cases (rounds_done hround).symm.trans hok
          obtain ⟨hsynced, hround'⟩ := (h a).keeps hready hround herrors hends hne hsynced
          exact ⟨hsynced, rounds_done hround'⟩
        | again a' =>
          have hless := hmore hready hround
          have hrest := (rounds_again hround hless).symm.trans hok
          have hcontinues := (Orderly.rounds (fun a => (h a).orderly) a').ok hrest
          obtain ⟨herrors, herrors'⟩ := errors_eq_of_continues hleads.continues hcontinues herrors
          have hu : u.rest ≠ [] := fun e => hne (List.suffix_nil.1 (e ▸ hcontinues.rest))
          have hends' := hends.suffix hleads.continues.rest hu
          obtain ⟨hsynced, hrest'⟩ := ih _ (hn ▸ hless) a' (hleads.ready hready) hrest herrors' hends' rfl
          obtain ⟨hsynced, hround'⟩ := (h a).keeps hready hround herrors hends hu hsynced
          refine ⟨hsynced, (rounds_again hround' ?_).trans hrest'⟩
          have hpos : 0 < u.rest.length := List.length_pos_iff.2 hu
          simp only [ParseState.retail, List.length_append, List.length_dropLast]
          omega

/-- A repetition, each round of which takes a token more than it spends if it asks for another one. -/
theorem rounds_of_credit {i : α → Stage} {j : β → Stage} {round : α → Parse (Round α β)}
    (hcredit : ∀ a, 0 < (i a).credit) (h : ∀ a, Reads (i a) (round a) (turn (fun a' => (i a).onward (i a')) j)) (a : α) :
    Reads (i a) (Parse.rounds round a) j := by
  refine rounds (fun {a a' s t} hready hround => ?_) (fun a => (h a).mono fun r => ?_) a
  · have hleads := (h a).ok hready hround
    have hdue : t.due + (max (i a).credit (i a').credit + 1) ≤ s.due + (i a).credit := hleads.due
    have herrors := hleads.continues.errors.length_le
    simp only [ParseState.due] at hdue
    omega
  · cases r with
    | done b => exact .refl _
    | again a' => exact ⟨by simp [turn]; omega, fun h => absurd h (Nat.ne_of_gt (hcredit a')), rfl, id, id, fun _ h => h⟩

/-- The stages behind what was read or else recorded as an error. -/
def recovered (i : Stage) (w : α → Nat) : Option α → Stage
  | some a => i.behind (w a)
  | none => i.skipped

/-- What a failed reader took and what is passed over behind it close no brace of others, unless nothing was taken and a
closing brace is passed over. -/
theorem opens_resumed {m : Option Nat} (hrest : s.rest ≠ []) (hstray : s.peek.kind = .rightBrace → m = none)
    (hfails : ∃ ts, s.rest = ts ++ t.rest ∧ Opens (some 0) (some 0) False ts) :
    ∃ ts, s.rest = ts ++ resume (if t.rest.length = s.rest.length then t.rest.tail else t.rest) ∧ Opens m m False ts := by
  obtain ⟨ts, hts, hopens⟩ := hfails
  by_cases hsame : t.rest.length = s.rest.length
  · rw [if_pos hsame]
    have hnil : ts = [] := by
      rw [hts, List.length_append] at hsame
      exact List.eq_nil_of_length_eq_zero (by omega)
    rw [hnil, List.nil_append] at hts
    obtain ⟨x, rest, hx⟩ := List.exists_cons_of_ne_nil hrest
    obtain ⟨passed, hpassed, hpasses⟩ := exists_passed rest
    refine ⟨x :: passed, ?_, ?_⟩
    · rw [← hts, hx, List.tail_cons, List.cons_append, ← hpassed]
    · cases m with
      | none => exact fun a ha => absurd ha (Option.some_ne_none a).symm
      | some a =>
        refine .of_unclosing _ fun u hu => ?_
        rcases List.mem_cons.1 hu with rfl | hu
        · rw [ParseState.peek, hx] at hstray
          exact fun hright => absurd (hstray hright) (Option.some_ne_none a)
        · exact hpasses.unclosing u hu
  · rw [if_neg hsame]
    obtain ⟨passed, hpassed, hpasses⟩ := exists_passed t.rest
    exact ⟨ts ++ passed, by rw [hts, List.append_assoc, ← hpassed],
      (hopens.lift m).trans (.of_unclosing m hpasses.unclosing) False.elim⟩

/-- **Recovering** spends the token that pays for the error, and inside a block it does not begin at a closing brace. -/
theorem recovering {p : Parse α} {w : α → Nat} (h : ∀ i : Stage, Reads i p fun a => i.behind (w a))
    (hcredit : 0 < i.credit) (hproper : ∀ s, i.knows s → s.peek.kind ≠ .eof)
    (hstray : ∀ s, i.knows s → s.peek.kind = .rightBrace → i.unclosed.braces = none) :
    Reads i (recovering p) (recovered i w) := by
  -- The reader is looked at on its own, with nothing taken before it.
  have hfresh : Reads { i with credit := 0, unclosed := ⟨i.unclosed.parens, some 0⟩ } p _ := h _
  refine ⟨Orderly.recovering hfresh.orderly, ?_, ?_, ?_⟩
  · intro s t found hready hok
    cases hp : p s with
    | ok a u =>
      cases (recovering_ok hp).symm.trans hok
      exact (h i).ok hready hp
    | error e u =>
      cases (recovering_error hp).symm.trans hok
      have hfails := hfresh.error ⟨hready.eof, hready.knows⟩ hp
      have hcontinues := (Orderly.recovering hfresh.orderly).ok (recovering_error hp)
      have hmore : 0 < s.rest.length := by
        refine List.length_pos_iff.2 fun hnil => hproper s hready.knows ?_
        rw [ParseState.peek, hnil]
        exact hready.eof
      have hrecorded : (e :: u.errors : List ParseError) ≠ s.errors := fun herrors =>
        absurd (congrArg List.length herrors) (Nat.ne_of_gt (Nat.lt_succ_of_le hfails.continues.errors.length_le))
      obtain ⟨ts, hts, hopens⟩ := opens_resumed (List.length_pos_iff.1 hmore) (hstray s hready.knows) hfails.braces
      refine ⟨hcontinues, hfails.fault, ?_, fun e => absurd e (Nat.ne_of_gt hcredit),
        fun herrors => absurd herrors hrecorded, ⟨ts, hts, hopens.mono fun herrors => absurd herrors hrecorded⟩,
        fun _ _ hmore => absurd hmore Bool.false_ne_true, fun herrors => absurd herrors hrecorded, trivial⟩
      · have hpaid : u.due + 1 ≤ s.due ∨ u.rest = s.rest := hfails.paid.imp id And.right
        have hdue : u.due ≤ s.due := hfails.due
        have hle := hfails.continues.length_le
        have hleft : (resume (if u.rest.length = s.rest.length then u.rest.tail else u.rest)).length ≤ u.rest.length ∧
            (resume (if u.rest.length = s.rest.length then u.rest.tail else u.rest)).length + 1 ≤ s.rest.length := by
          split
          · have hresume := (Orderly.resume_suffix u.rest.tail).length_le
            rw [List.length_tail] at hresume
            omega
          · have hresume := (Orderly.resume_suffix u.rest).length_le
            omega
        simp only [ParseState.due, ParseState.record, recovered, Stage.skipped_credit, List.length_cons] at *
        rcases hpaid with hpaid | hsame
        · omega
        · rw [hsame] at hdue
          omega
  · intro s t e _ herror
    cases hp : p s with
    | ok a u => cases (recovering_ok hp).symm.trans herror
    | error e' u => cases (recovering_error hp).symm.trans herror
  · intro s t found newline tail hready hok herrors hends hne hsynced
    cases hp : p s with
    | ok a u =>
      cases (recovering_ok hp).symm.trans hok
      obtain ⟨hsynced, hp'⟩ := (h i).keeps hready hp herrors hends hne hsynced
      exact ⟨hsynced, recovering_ok hp'⟩
    | error e u =>
      cases (recovering_error hp).symm.trans hok
      have hfails := hfresh.error ⟨hready.eof, hready.knows⟩ hp
      exact absurd (congrArg List.length herrors) (Nat.ne_of_gt (Nat.lt_succ_of_le hfails.continues.errors.length_le))

end Reads
end Parse
end UnionScript
