import UnionScript.Proofs.Held
import UnionScript.Proofs.Stage
/-!
# Stages — the stages every reader leads through

One lemma for each reader of the grammar says what it leads to.  Whatever a reader takes off the front pays for what it
answers: a part of the tree is paid for by the tokens it was read from, and a token is left over (`Stage.behind`).
The induction over the room that is left for nesting ties them together (`Parse.Reads.deeperAt`).

Three readers look further ahead than one token.  What they ask is answered by tokens of the same line: a name and the
sign behind it, the parenthesis that closes a receiver; or it is the same for any tail that may follow: whether an
`else` is next.  Only whether a parenthesis begins an arrow function is asked of all that is left; that a vector is read
there shows where the parenthesis closes, because what is read up to there has shifted no parenthesis
(`Reads.parenthesized`).
-/
namespace UnionScript
namespace Parse

namespace Stage

/-- The stage where some more tokens are kept for what will be answered. -/
@[simps]
def saving (i : Stage) (held : Nat) : Stage := { i with credit := i.credit + held }

/-- The stage behind items, in front of the token that closes them. -/
@[simps]
def holding (i : Stage) (held : Nat) : Stage where
  credit := i.credit + held
  unclosed := i.unclosed
  more := false
  settled := true
  knows _ := True

/-- The stage behind a token that closes a part. -/
@[simps!]
def closed (i : Stage) (kind : TokenKind) (held : Nat) : Stage := (i.taken kind).saving held

/-- The token that closes a part is left for what follows. -/
theorem closed_credit_pos (i : Stage) (kind : TokenKind) (held : Nat) : 0 < (i.closed kind held).credit :=
  Nat.add_pos_left (Nat.succ_pos _) held

/-- Whether tokens of a kind may be taken anywhere, whatever stands behind them, and neither open nor close anything. -/
def plain (kind : TokenKind) : Bool :=
  match kind with
  | .leftParen | .rightParen | .leftBrace | .rightBrace | .keyword .return => false
  | _ => inLine kind

theorem level_of_plain {kind : TokenKind} {u : Unclosed} (h : plain kind = true) : level kind u = u := by
  unfold level
  split <;> first | rfl | exact nomatch h

theorem mayTake_of_plain {kind : TokenKind} {u : Unclosed} (h : plain kind = true) : mayTake u kind = true := by
  unfold mayTake
  split
  · exact nomatch h
  · exact nomatch h
  · exact nomatch h
  · unfold plain at h
    split at h
    case h_6 => exact h
    all_goals exact nomatch h

theorem Grants.of_behind {i j : Stage} {held : Nat} (hcredit : j.credit + 1 + held ≤ i.credit)
    (hunclosed : i.unclosed = j.unclosed) (hmore : i.more = true) (hsettled : i.settled = true) :
    i.Grants (j.behind held) where
  credit := hcredit
  fresh h := absurd h (by rw [behind_credit]; omega)
  unclosed := hunclosed.symm
  more _ := hmore
  settled _ := hsettled
  knows _ _ := trivial

theorem Grants.of_holding {i j : Stage} {held : Nat} (hj : 0 < j.credit) (hcredit : j.credit + held ≤ i.credit)
    (hunclosed : i.unclosed = j.unclosed) (hsettled : i.settled = true) : i.Grants (j.holding held) where
  credit := hcredit
  fresh h := absurd h (by rw [holding_credit]; omega)
  unclosed := hunclosed.symm
  more := nofun
  settled _ := hsettled
  knows _ _ := trivial

theorem Grants.of_closed {i j : Stage} {kind : TokenKind} {held : Nat} (hcredit : j.credit + 1 + held ≤ i.credit)
    (hunclosed : i.unclosed = level kind j.unclosed) (hmore : i.more = true) (hsettled : i.settled = true) :
    i.Grants (j.closed kind held) where
  credit := hcredit
  fresh h := absurd h (by simp)
  unclosed := hunclosed.symm
  more _ := hmore
  settled _ := hsettled
  knows _ _ := trivial

/-- Behind a round a token is left over both from what the round began with and from what it goes on with. -/
theorem Grants.of_onward {i j k : Stage} (hj : j.credit + 1 ≤ i.credit) (hk : i.Grants k)
    (hcredit : k.credit + 1 ≤ i.credit) : i.Grants (j.onward k) where
  credit := by
    rw [onward_credit]
    omega
  fresh := nofun
  unclosed := hk.unclosed
  more := hk.more
  settled := hk.settled
  knows := hk.knows

end Stage

namespace Reads

variable {α β : Type} {i : Stage}

/-! ## Annotations -/

theorem alternative : Reads i alternative (fun _ => i.behind 0) := by
  have hbehind : ∀ {j : Stage} (list : Bool), j.unclosed = i.unclosed → i.credit ≤ j.credit → Reads j (do
      let first ← Parse.identifier "type name"
      if ← Parse.accept .namespaceAccess then
        let second ← Parse.identifier "type name after `::`"
        return { name := second.text, package := some first.text, list : TypeName }
      else
        return { name := first.text, list : TypeName }) (fun _ => i.behind 0) := by
    intro j list hunclosed hcredit
    refine (identifier _).bind fun first => (accept .namespaceAccess rfl).bind fun qualified => ?_
    refine choose ((identifier _).bind fun second => pure _ ?_) (pure _ ?_) qualified
    · exact .of_behind (by simp; omega) hunclosed rfl rfl
    · exact .of_behind (by simp; omega) hunclosed rfl rfl
  refine (accept .listMark rfl).bind fun list => ?_
  cases list with
  | true => exact hbehind true rfl (by simp)
  | false => exact hbehind false rfl (Nat.le_refl _)

theorem annotation : Reads i annotation (fun _ => i.behind 0) := by
  refine alternative.bind fun first => ?_
  have hround : ∀ ts : List TypeName, Reads (i.behind 0) (do
      if ← Parse.accept .or then
        Parse.skipNewlines
        return Round.again (ts ++ [← Parse.alternative])
      else
        return Round.done ts) (turn (fun _ => (i.behind 0).onward (i.behind 0)) fun _ => i.behind 0) := by
    intro ts
    refine (accept .or rfl).bind fun another => choose ?_ (pure _ ?_) another
    · refine (skipNewlines (Nat.succ_pos _)).bind fun _ => alternative.bind fun t => pure _ ?_
      exact ⟨by simp [turn], nofun, rfl, fun _ => rfl, fun _ => rfl, fun _ _ => trivial⟩
    · exact .refl _
  refine (rounds_of_credit (fun _ => Nat.succ_pos _) hround [first]).bind fun _ => pure _ ?_
  exact .refl _

theorem annotation? (hcredit : 0 < i.credit) : Reads i annotation? (fun _ => i.knowing fun _ => True) := by
  refine (accept .colon rfl).bind fun annotated => ?_
  refine choose ( annotation.bind fun types => pure _ ?_) (pure _ ?_) annotated
  · exact ⟨by simp [Nat.add_assoc], fun h => absurd h (Nat.ne_of_gt hcredit), rfl, fun _ => rfl, fun _ => rfl, fun _ _ => trivial⟩
  · exact ⟨Nat.le_refl _, id, rfl, id, id, fun _ _ => trivial⟩

theorem annotationOf (name : Token) : Reads i (annotationOf name) (fun _ => i.behind 0) := by
  refine (accept .colon rfl).bind fun annotated => ?_
  refine choose ( annotation.bind fun types => pure _ ?_) (throw _) annotated
  exact .of_behind (by simp) rfl rfl rfl

/-! ## Looking further ahead -/

/-- The kind of the token behind the next one. -/
def second (s : ParseState) : TokenKind := (s.rest.tail.head?.getD s.eof).kind

/-- A tail shows the same sign behind a name as the line end in its place. -/
theorem named_retail {s : ParseState} {newline : Token} {tail : Tail} (h : s.Ends newline tail) {kind : TokenKind}
    (hkind : Stage.inLine kind = true) :
    ((s.retail tail).peek.kind == .identifier && second (s.retail tail) == kind) =
      (s.peek.kind == .identifier && second s == kind) := by
  obtain ⟨front, hrest, hrest'⟩ := h.exists_rest
  have htail : Stage.inLine (tail.rest.head?.getD (s.retail tail).eof).kind = false := inLine_tail h.kind h.follows
  have hnewline : Stage.inLine newline.kind = false := by
    rw [h.kind]
    rfl
  rw [ParseState.peek, ParseState.peek, second, second, hrest, hrest']
  rcases front with _ | ⟨t, _ | ⟨u, front⟩⟩
  · rw [List.nil_append, List.nil_append, Stage.beq_of_inLine rfl htail, List.head?_cons, Option.getD_some,
      Stage.beq_of_inLine rfl hnewline, Bool.false_and, Bool.false_and]
  · show (_ && (tail.rest.head?.getD (s.retail tail).eof).kind == kind) = (_ && newline.kind == kind)
    rw [Stage.beq_of_inLine hkind htail, Stage.beq_of_inLine hkind hnewline, Bool.and_false, Bool.and_false]
  · rfl

/-- **A name and a sign behind it** are taken where they are next. -/
theorem named {kind : TokenKind} {yes : Token → Parse α} {no : Parse α} {k : α → Stage}
    (htake : Stage.mayTake i.unclosed kind = true) (hyes : ∀ t, Reads ((i.taken .identifier).taken kind) (yes t) k)
    (hno : Reads i no k) : Reads i (do
      let named := (← Parse.check .identifier) && (← Parse.secondKind) == kind
      if named then
        let name ← Parse.advance
        let _ ← Parse.advance
        yes name
      else no) k := by
  have hasks : Reads i (fun s => .ok (s.peek.kind == .identifier && second s == kind) s : Parse Bool) (fun b =>
      i.knowing fun s => i.knows s ∧ (s.peek.kind == .identifier && second s == kind) = b) :=
    asks fun s newline tail _ hends => named_retail hends (Stage.inLine_of_mayTake htake)
  have hwhole : Reads i ((fun s => .ok (s.peek.kind == .identifier && second s == kind) s : Parse Bool) >>= fun named =>
      if named then (do
        let name ← Parse.advance
        let _ ← Parse.advance
        yes name)
      else no) k := by
    refine hasks.bind fun b => ?_
    cases b with
    | false => exact hno.recalling fun s h => h.1
    | true =>
      -- The state shows two tokens, and the second one is next when the first one is taken.
      have hname : Reads (i.knowing fun s => i.knows s ∧ (s.peek.kind == .identifier && second s == kind) = true)
          Parse.advance (fun _ => (i.taken .identifier).facing kind) := by
        refine advancing (fun s h => ?_) (Stage.takes_of_mayTake rfl) nofun fun s h => ?_
        · exact beq_iff_eq.1 (Bool.and_eq_true_iff.1 h.2).1
        · exact beq_iff_eq.1 (Bool.and_eq_true_iff.1 h.2).2
      exact hname.bind fun name => (advance_facing (i := i.taken .identifier) kind htake).bind fun _ => hyes name
  exact hwhole

/-- Whether a parenthesis is closed in front of a name is seen on the line it stands on. -/
theorem closesBeforeName_tail {newline : Token} {tail : Tail} (hkind : newline.kind = .newline)
    (h : tail.Follows newline) : ∀ front : List Token,
    closesBeforeName (front ++ tail.rest) = closesBeforeName (front ++ [newline])
  | [] => by
    rcases h.rest with hnil | ⟨more, hmore, -⟩ | ⟨c, line, more, hmore, hcomment, hline⟩
    · simp [hnil, closesBeforeName, hkind]
    · simp [hmore, closesBeforeName, hkind]
    · -- The comment is passed over, and the line ends behind it.
      rcases Token.isComment_iff.1 hcomment with hc | hc <;> simp [hmore, closesBeforeName, hkind, hc, hline]
  | t :: front => by
    rw [List.cons_append, List.cons_append, closesBeforeName.eq_def, closesBeforeName.eq_def (t :: (front ++ [newline]))]
    dsimp only
    split
    · cases front with
      | nil =>
        have htail := inLine_tail hkind h
        rcases h.rest with hnil | ⟨more, hmore, -⟩ | ⟨c, line, more, hmore, hcomment, -⟩
        · simp [*]
        · simp [*]
        · have hc : (c.kind == .identifier) = false := Stage.beq_of_inLine rfl (Stage.inLine_comment hcomment)
          simp [hmore, hc, hkind]
      | cons u front => rfl
    · rfl
    · rfl
    · exact closesBeforeName_tail hkind h front

theorem received_retail {s : ParseState} {newline : Token} {tail : Tail} (h : s.Ends newline tail) :
    ((s.retail tail).peek.kind == .leftParen && closesBeforeName (s.retail tail).rest.tail) =
      (s.peek.kind == .leftParen && closesBeforeName s.rest.tail) := by
  obtain ⟨front, hrest, hrest'⟩ := h.exists_rest
  cases front with
  | nil =>
    have hpeek : s.peek.kind = .newline := by
      rw [ParseState.peek, hrest]
      exact h.kind
    rcases peek_retail h with hsame | ⟨-, hshown⟩
    · rw [hsame, hpeek]
      rfl
    · rw [Stage.beq_of_inLine rfl hshown, hpeek]
      rfl
  | cons t front =>
    rw [ParseState.peek, ParseState.peek, hrest, hrest']
    exact congrArg (t.kind == .leftParen && ·) (closesBeforeName_tail h.kind h.follows front)

/-- Whether an `else` is next is the same for any tail. -/
theorem elseFollows_tail {newline : Token} {tail : Tail} (hkind : newline.kind = .newline) (h : tail.Follows newline) :
    ∀ front : List Token, elseFollows (front ++ tail.rest) = elseFollows (front ++ [newline])
  | [] => by
    rcases h.rest with hnil | ⟨more, hmore, helse⟩ | ⟨c, line, more, hmore, hcomment, -⟩
    · simp [hnil, elseFollows, hkind]
    · have hsame : elseFollows (newline :: more) = elseFollows more := by simp [elseFollows, hkind]
      rw [List.nil_append, hmore, hsame, helse]
      simp [elseFollows, hkind]
    · rcases Token.isComment_iff.1 hcomment with hc | hc <;> simp [hmore, elseFollows, hkind, hc]
  | t :: front => by
    by_cases ht : t.kind = .newline
    · have hsame : ∀ rest, elseFollows (t :: rest) = elseFollows rest := fun rest => by simp [elseFollows, ht]
      rw [List.cons_append, List.cons_append, hsame, hsame]
      exact elseFollows_tail hkind h front
    · simp [elseFollows, ht]

/-- **An `else`** behind line ends is taken where it is next. -/
theorem otherwise {yes : Token → Parse α} {no : Parse α} {k : α → Stage} (hcredit : 0 < i.credit)
    (hyes : ∀ t, Reads (i.skipped.taken (.keyword .else)) (yes t) k) (hno : Reads i no k) : Reads i (do
      if elseFollows (← Parse.lookAhead) then
        Parse.skipNewlines
        let t ← Parse.advance
        yes t
      else no) k := by
  have hasks : Reads i (fun s => .ok (elseFollows s.rest) s : Parse Bool) (fun b =>
      i.knowing fun s => i.knows s ∧ elseFollows s.rest = b) := by
    refine asks fun s newline tail _ hends => ?_
    obtain ⟨front, hrest, hrest'⟩ := hends.exists_rest
    rw [hrest, hrest']
    exact elseFollows_tail hends.kind hends.follows front
  have hwhole : Reads i ((fun s => .ok (elseFollows s.rest) s : Parse Bool) >>= fun b =>
      if b then (do
        Parse.skipNewlines
        let t ← Parse.advance
        yes t)
      else no) k := by
    refine hasks.bind fun b => ?_
    cases b with
    | false => exact hno.recalling fun s h => h.1
    | true =>
      have hskip : Reads (i.knowing fun s => i.knows s ∧ elseFollows s.rest = true) Parse.skipNewlines
          (fun _ => i.skipped.facing (.keyword .else)) := by
        refine skipping hcredit (fun _ h => beq_iff_eq.2 h) (fun t h => ?_) fun s h => ?_
        · rw [beq_iff_eq.1 h]
          decide
        · show ((s.rest.dropWhile (·.kind == .newline)).head?.getD s.eof).kind = _
          have helse : (s.rest.dropWhile (·.kind == .newline)).head?.any (·.kind == .keyword .else) = true := h.2
          cases hnext : (s.rest.dropWhile (·.kind == .newline)).head? with
          | none =>
            rw [hnext] at helse
            exact nomatch helse
          | some t =>
            rw [hnext] at helse
            exact beq_iff_eq.1 helse
      exact hskip.bind fun _ => (advance_facing (i := i.skipped) (.keyword .else) rfl).bind hyes
  exact hwhole

/-- A parenthesis that closes in front of a colon or an arrow does so for any tail. -/
theorem closesBeforeArrow_tail {newline : Token} (hkind : newline.kind = .newline) (rest : List Token) :
    ∀ (front : List Token) (d : Nat), closesBeforeArrow d (front ++ [newline]) = true →
      closesBeforeArrow d (front ++ rest) = true
  | [], d, h => by simp [closesBeforeArrow, hkind] at h
  | t :: front, d, h => by
    rw [List.cons_append] at h ⊢
    by_cases hleft : t.kind = .leftParen
    · rw [closesBeforeArrow_left hleft] at h ⊢
      exact closesBeforeArrow_tail hkind rest front _ h
    by_cases hright : t.kind = .rightParen
    · cases d with
      | zero =>
        rw [closesBeforeArrow_right_zero hright] at h ⊢
        cases front with
        | nil => simp [hkind] at h
        | cons u front => exact h
      | succ d =>
        rw [closesBeforeArrow_right_succ hright] at h ⊢
        exact closesBeforeArrow_tail hkind rest front _ h
    · rw [closesBeforeArrow_other hleft hright] at h ⊢
      exact closesBeforeArrow_tail hkind rest front _ h

/-- What is in front of the tokens that are left is the same with another tail. -/
theorem retail_append {s t : ParseState} {ts : List Token} (hs : s.rest = ts ++ t.rest) (ht : t.rest ≠ []) (tail : Tail) :
    (s.retail tail).rest = ts ++ (t.retail tail).rest := by
  rw [ParseState.retail, ParseState.retail, hs, List.dropLast_append_of_ne_nil ht, List.append_assoc]

/-- A closing parenthesis that nothing but a line end stands behind is not in front of a colon or an arrow. -/
theorem arrow_retail {s : ParseState} {newline close : Token} {tail : Tail} (hends : s.Ends newline tail)
    (hclose : close.kind = .rightParen) (h : closesBeforeArrow 0 (close :: s.rest) = false) :
    closesBeforeArrow 0 (close :: (s.retail tail).rest) = false := by
  rw [closesBeforeArrow_right_zero hclose] at h ⊢
  obtain ⟨front, hrest, hrest'⟩ := hends.exists_rest
  rw [hrest] at h
  rw [hrest']
  cases front with
  | cons t front => exact h
  | nil =>
    rcases hends.follows.rest with hnil | ⟨more, hmore, -⟩ | ⟨c, line, more, hmore, hcomment, -⟩
    · rw [hnil]
      rfl
    · rw [hmore]
      exact h
    · rw [hmore]
      rcases Token.isComment_iff.1 hcomment with hc | hc <;> simp [hc]

/-- **Asking the next token** for something that no line end has and nothing that may stand in its place. -/
theorem askToken {f : Token → Option β} (hf : ∀ t, f t ≠ none → Stage.inLine t.kind = true) (next : Option β → Parse α)
    {k : α → Stage} (hnone : Reads i (next none) k)
    (hsome : ∀ t b, f t = some b → Reads (i.facing t.kind) (next (some b)) k) :
    Reads i (do let t ← Parse.peek; next (f t)) k := by
  have hend : ∀ t : Token, Stage.inLine t.kind = false → f t = none := by
    intro t ht
    by_contra h
    exact absurd (hf t h) (Bool.eq_false_iff.1 ht)
  -- What is asked for is the token itself, if it has it.
  have hasks : Reads i ((fun s => .ok ((f s.peek).map fun _ => s.peek) s : Parse (Option Token)) >>=
      fun asked => next (asked.bind f)) k := by
    refine (asks fun s newline tail _ hends => ?_).bind fun asked => ?_
    · rcases peek_retail hends with h | ⟨h, h'⟩
      · rw [h]
      · rw [hend _ h', hend s.peek (by rw [h]; rfl)]
        rfl
    · cases asked with
      | none => exact hnone.recalling fun s h => h.1
      | some t =>
        have hsame : ∀ s : ParseState, ((f s.peek).map fun _ => s.peek) = some t → s.peek.kind = t.kind := by
          intro s hs
          obtain ⟨b, -, ht⟩ := Option.map_eq_some_iff.1 hs
          rw [ht]
        cases h : f t with
        | none =>
          rw [Option.bind_some, h]
          exact hnone.recalling fun s h => h.1
        | some b =>
          rw [Option.bind_some, h]
          exact (hsome t b h).recalling fun s hs => hsame s hs.2
  have hfound : ∀ t, ((f t).map fun _ => t).bind f = f t := by
    intro t
    cases h : f t with
    | none => rfl
    | some b => exact h
  have hsame : (Parse.peek >>= fun t => next (f t)) = ((fun s => .ok ((f s.peek).map fun _ => s.peek) s :
      Parse (Option Token)) >>= fun asked => next (asked.bind f)) := by
    funext s
    show next (f s.peek) s = next (((f s.peek).map fun _ => s.peek).bind f) s
    rw [hfound]
  rw [hsame]
  exact hasks
/-- Going one way or the other by what a state shows, if with another tail the way is the same. -/
theorem either {c : ParseState → Bool} {p q r : Parse α} {k : α → Stage} (hr : ∀ s, r s = if c s then p s else q s)
    (hp : Reads i p k) (hq : Reads i q k)
    (hyes : ∀ ⦃s newline tail⦄, s.Ends newline tail → c s = true → c (s.retail tail) = true)
    (hno : ∀ ⦃s t a newline tail⦄, i.Ready s → q s = .ok a t → t.errors = s.errors → s.Ends newline tail → t.rest ≠ [] →
      c s = false → c (s.retail tail) = false) : Reads i r k := by
  have hway : ∀ {s : ParseState}, c s = true ∧ r s = p s ∨ c s = false ∧ r s = q s := by
    intro s
    rw [hr]
    cases c s with
    | true => exact .inl ⟨rfl, rfl⟩
    | false => exact .inr ⟨rfl, rfl⟩
  refine ⟨fun s => ?_, ?_, ?_, ?_⟩
  · rw [after.eq_def]
    rcases @hway s with ⟨-, h⟩ | ⟨-, h⟩ <;> rw [h]
    · exact hp.orderly s
    · exact hq.orderly s
  · intro s t a hready hok
    rcases @hway s with ⟨-, h⟩ | ⟨-, h⟩
    · exact hp.ok hready (h ▸ hok)
    · exact hq.ok hready (h ▸ hok)
  · intro s t e hready herror
    rcases @hway s with ⟨-, h⟩ | ⟨-, h⟩
    · exact hp.error hready (h ▸ herror)
    · exact hq.error hready (h ▸ herror)
  · intro s t a newline tail hready hok herrors hends hne hsynced
    rcases @hway s with ⟨hc, h⟩ | ⟨hc, h⟩
    · rw [hr, hyes hends hc]
      exact hp.keeps hready (h ▸ hok) herrors hends hne hsynced
    · rw [hr, hno hready (h ▸ hok) herrors hends hne hc]
      exact hq.keeps hready (h ▸ hok) herrors hends hne hsynced

/-! ## Items -/

theorem items {close : TokenKind} (what : String) {item : Parse α} {w : α → Nat} (hclose : Stage.inLine close = true)
    (hcredit : 0 < i.credit) (hitem : ∀ i : Stage, Reads i item fun a => i.behind (w a)) :
    Reads i (items close what item) (fun taken => (i.holding (taken.map w).sum).facing close) := by
  refine (skipNewlines hcredit).bind fun _ => ?_
  have hstart : i.skipped.Grants (i.holding (([] : List α).map w).sum) :=
    ⟨Nat.le_refl _, id, rfl, nofun, fun _ => rfl, fun _ _ => trivial⟩
  refine pre hstart ?_
  have hpos : ∀ taken : List α, 0 < (i.holding (taken.map w).sum).credit := fun _ => Nat.lt_of_lt_of_le hcredit (Nat.le_add_right _ _)
  refine rounds_of_credit (i := fun taken => i.holding (taken.map w).sum) hpos (fun taken => ?_) []
  refine (check close hclose).bind fun closed => choose (pure _ ?_) ?_ closed
  · exact .refl _
  have hsum : ∀ a, ((taken ++ [a]).map w).sum = (taken.map w).sum + w a := fun a => by simp
  refine (hitem _).bind fun a => (skipNewlines (Nat.lt_of_lt_of_le (hpos taken) (by simp [Nat.add_assoc]))).bind fun _ =>
    (accept .comma rfl).bind fun another => choose ?_ ?_ another
  · refine (skipNewlines (Nat.succ_pos _)).bind fun _ => pure _ ?_
    refine .of_onward (by simp; omega) (.of_holding hcredit ?_ rfl rfl) ?_
    · rw [hsum]
      simp
      omega
    · rw [hsum]
      simp
      omega
  · refine (check close hclose).bind fun closed => choose (pure _ ?_) (expected _) closed
    have hgrants : ((i.holding (taken.map w).sum).behind (w a)).skipped.Grants (i.holding ((taken ++ [a]).map w).sum) := by
      refine .of_holding hcredit ?_ rfl rfl
      rw [hsum]
      simp
      omega
    exact { hgrants with knows := fun s h => h }

/-- Items and the token that closes them. -/
theorem delimited {close : TokenKind} (what : String) {item : Parse α} {w : α → Nat}
    (htake : Stage.mayTake i.unclosed close = true) (hcredit : 0 < i.credit)
    (hitem : ∀ i : Stage, Reads i item fun a => i.behind (w a)) :
    Reads i (delimited close what item) (fun taken => i.closed close (taken.1.map w).sum) := by
  refine (items what (Stage.inLine_of_mayTake htake) hcredit hitem).bind fun taken =>
    (advance_facing (i := i.holding (taken.map w).sum) close htake).bind fun _ => pure _ ?_
  exact .of_closed (by simp; omega) rfl rfl rfl

end Reads

/-- The readers for what an expression or a block holds, read with an account.  No expression begins with a comment. -/
structure Deeper.Reads (deeper : Deeper) : Prop where
  expression : ∀ (floor : Level) (i : Stage), Parse.Reads i (deeper.expression floor) fun e => i.behind e.held
  block : ∀ i : Stage, Parse.Reads i deeper.block fun b => i.behind b.held
  comment : ∀ (floor : Level) (s : ParseState), s.peek.isComment = true → ∃ e, deeper.expression floor s = .error e s

namespace Reads

variable {i : Stage} {deeper : Deeper}

/-! ## Literals and names -/

theorem stringBehind (opened : Token) : Reads i (stringBehind opened) (fun e => i.behind e.held) := by
  refine (expect .string _ rfl).bind fun content => (check .quote rfl).bind fun closed => choose ?_ (throw _) closed
  refine (advance_facing .quote rfl).bind fun close => pure _ ?_
  exact .of_behind (by simp [Expression.held]) rfl rfl rfl

theorem accessTarget : Reads i accessTarget (fun e => i.behind e.held) := by
  refine peekKind.bind fun kind => ?_
  split
  · refine (advance_peeked .identifier rfl).bind fun t => pure _ ?_
    exact .of_behind (by simp [Expression.held]) rfl rfl rfl
  · refine (advance_peeked .quote rfl).bind fun t => (stringBehind t).mono fun e => ?_
    exact .of_behind (by simp) rfl rfl rfl
  · exact expected _

/-! ## Vectors, arguments and parameters -/

variable (hd : Deeper.Reads deeper)
include hd

theorem anyExpression : Reads i (anyExpression deeper) (fun e => i.behind e.held) := hd.expression _ _

theorem vectorBehind (opened : Token) (hcredit : 0 < i.credit) (hparens : 0 < i.unclosed.parens) :
    Reads i (vectorBehind deeper opened) (fun e => i.closed .rightParen e.held) := by
  have htake : Stage.mayTake i.unclosed .rightParen = true := bne_iff_ne.2 (Nat.ne_of_gt hparens)
  refine (delimited _ htake hcredit fun _ => anyExpression hd).bind fun taken => pure _ ?_
  rw [Expression.held, heldInAll_eq]
  exact .refl _

theorem argument : Reads i (argument deeper) (fun a => i.behind a.held) := by
  refine named rfl (fun name => ?_) ?_
  · refine (skipNewlines (Nat.succ_pos _)).bind fun _ => (anyExpression hd).bind fun value => pure _ ?_
    exact .of_behind (by simp [Argument.held]) rfl rfl rfl
  · exact (anyExpression hd).bind fun value => pure _ (.refl _)

theorem arguments (close : TokenKind) (what : String) (htake : Stage.mayTake i.unclosed close = true)
    (hcredit : 0 < i.credit) :
    Reads i (arguments deeper close what) (fun taken => i.closed close (heldInArguments taken.1)) := by
  refine (delimited what htake hcredit fun _ => argument hd).mono fun taken => ?_
  rw [heldInArguments_eq]
  exact .refl _

theorem parameter : Reads i (parameter deeper) (fun p => i.behind p.held) := by
  refine peekKind.bind fun kind => ?_
  by_cases hkind : kind = .identifier ∨ kind = .ellipsis
  · have htaken : Reads (i.peeked kind) Parse.advance (fun _ => i.behind 0) := by
      rcases hkind with rfl | rfl
      · exact (advance_peeked .identifier rfl).mono fun _ => .of_behind (by simp) rfl rfl rfl
      · exact (advance_peeked .ellipsis rfl).mono fun _ => .of_behind (by simp) rfl rfl rfl
    rw [if_pos hkind]
    refine htaken.bind fun t => (annotation? (Nat.succ_pos _)).bind fun types => (accept .equal rfl).bind fun given =>
      choose ?_ (pure _ ?_) given
    · refine (skipNewlines (Nat.succ_pos _)).bind fun _ => (anyExpression hd).bind fun value => pure _ ?_
      exact .of_behind (by simp [Parameter.held, heldInExpression?]) rfl rfl rfl
    · exact .of_behind (by simp [Parameter.held, heldInExpression?]) rfl rfl rfl
  · rw [if_neg hkind]
    exact expected _

theorem parameters (hcredit : 0 < i.credit) (hparens : 0 < i.unclosed.parens) :
    Reads i (parameters deeper) (fun ps => i.closed .rightParen (heldInParameters ps)) := by
  have htake : Stage.mayTake i.unclosed .rightParen = true := bne_iff_ne.2 (Nat.ne_of_gt hparens)
  refine (delimited _ htake hcredit fun _ => parameter hd).bind fun taken => pure _ ?_
  rw [heldInParameters_eq]
  exact .refl _

/-! ## Functions -/

theorem arrowFunctionBehind (opened : Token) (hcredit : 0 < i.credit) (hparens : 0 < i.unclosed.parens) :
    Reads i (arrowFunctionBehind deeper opened) (fun e => i.closed .rightParen e.held) := by
  refine (parameters hd hcredit hparens).bind fun ps => (annotation? (Stage.closed_credit_pos ..)).bind fun returnTypes =>
    (expect .fatArrow _ rfl).bind fun _ => (skipNewlines (Nat.succ_pos _)).bind fun _ => ?_
  refine (check .leftBrace rfl).bind fun braced => choose ?_ ?_ braced
  · refine ((hd.block _).recalling fun _ _ => trivial).bind fun body => pure _ ?_
    exact .of_closed (by simp [Expression.held, FunctionLiteral.held, heldInDecorators]; omega) rfl rfl rfl
  · -- The expression stands for a block of one statement, for which the arrow pays.
    refine (anyExpression hd).bind fun e => pure _ ?_
    refine .of_closed ?_ rfl rfl rfl
    simp [Expression.held, FunctionLiteral.held, heldInDecorators, Block.held, heldInStatements, Statement.held]
    omega

omit hd in
theorem receiver? (hcredit : 0 < i.credit) : Reads i receiver? (fun _ => i.knowing fun _ => True) := by
  have hasks : Reads i (fun s => .ok (s.peek.kind == .leftParen && closesBeforeName s.rest.tail) s : Parse Bool) (fun b =>
      i.knowing fun s => i.knows s ∧ (s.peek.kind == .leftParen && closesBeforeName s.rest.tail) = b) := by
    exact asks fun s newline tail _ hends => received_retail hends
  have hwhole : Reads i ((fun s => .ok (s.peek.kind == .leftParen && closesBeforeName s.rest.tail) s : Parse Bool) >>=
      fun received => if received then (do
        let _ ← Parse.advance
        let name ← Parse.identifier "receiver name"
        let typed ← Parse.annotationOf name
        let _ ← Parse.expect .rightParen "`)` after method receiver"
        return some typed)
      else return none) (fun _ => i.knowing fun _ => True) := by
    refine hasks.bind fun received => ?_
    cases received with
    | false => exact pure _ ⟨Nat.le_refl _, id, rfl, id, id, fun _ _ => trivial⟩
    | true =>
      have hopen : Reads (i.knowing fun s => i.knows s ∧
          (s.peek.kind == .leftParen && closesBeforeName s.rest.tail) = true) Parse.advance (fun _ => i.taken .leftParen) :=
        advance (fun s h => beq_iff_eq.1 (Bool.and_eq_true_iff.1 h.2).1) rfl
      refine hopen.bind fun _ => (identifier _).bind fun name => (annotationOf name).bind fun typed =>
        (expect .rightParen _ rfl).bind fun _ => pure _ ?_
      exact ⟨by simp; omega, fun h => absurd h (Nat.ne_of_gt hcredit), rfl, fun _ => rfl, fun _ => rfl, fun _ _ => trivial⟩
  exact hwhole

theorem functionBehind (func : Token) (decorators : List Decorator) (hcredit : 0 < i.credit) :
    Reads (i.saving (heldInDecorators decorators)) (functionBehind deeper func decorators) (fun e => i.behind e.held) := by
  have hrest : ∀ (receiver : Option TypedName) (name : Option Token) {j : Stage}, j.unclosed = i.unclosed →
      i.credit + heldInDecorators decorators ≤ j.credit → Reads j (do
        let _ ← Parse.expect .leftParen "`(` to start parameter list"
        let ps ← Parse.parameters deeper
        let returnTypes ← Parse.annotation?
        Parse.skipNewlines
        let body ← deeper.block
        return Expression.function (func.span.union body.span)
          { name := name.map Token.text, nameSpan := (name.getD func).span, receiver, parameters := ps, returnTypes,
            body, decorators } : Parse Expression) (fun e => i.behind e.held) := by
    intro receiver name j hunclosed hj
    refine (expect .leftParen _ rfl).bind fun _ => (parameters hd (Nat.succ_pos _) (Nat.succ_pos _)).bind fun ps =>
      (annotation? (Stage.closed_credit_pos ..)).bind fun returnTypes => (skipNewlines (Stage.closed_credit_pos ..)).bind fun _ =>
      (hd.block _).bind fun body => pure _ ?_
    refine .of_behind ?_ hunclosed rfl rfl
    simp [Expression.held, FunctionLiteral.held]
    omega
  have hpos : 0 < (i.saving (heldInDecorators decorators)).credit := Nat.lt_of_lt_of_le hcredit (Nat.le_add_right _ _)
  refine (receiver? hpos).bind fun receiver => (check .identifier rfl).bind fun named => choose ?_ ?_ named
  · refine (advance_facing .identifier rfl).bind fun name => hrest receiver (some name) rfl ?_
    simp
  · by_cases hreceiver : receiver.isSome = true
    · rw [if_pos hreceiver]
      exact fail fun s => ⟨_, Steps.bind_error rfl⟩
    · rw [if_neg hreceiver]
      exact hrest receiver none rfl (Nat.le_refl _)

/-! ## Branches and loops -/

theorem branch (elseSpan ifSpan : Span) : Reads i (branch deeper elseSpan ifSpan) (fun b => i.behind b.held) := by
  refine (expect .leftParen _ rfl).bind fun _ => (skipNewlines (Nat.succ_pos _)).bind fun _ =>
    (anyExpression hd).bind fun condition => (skipNewlines (Stage.behind_pos _ _)).bind fun _ =>
    (expect .rightParen _ rfl).bind fun _ => (skipNewlines (Nat.succ_pos _)).bind fun _ =>
    (hd.block _).bind fun consequence => pure _ ?_
  exact .of_behind (by simp [Branch.held]; omega) rfl rfl rfl

theorem conditionalBehind (opened : Token) : Reads i (conditionalBehind deeper opened) (fun e => i.behind e.held) := by
  refine (branch hd _ _).bind fun first => ?_
  have hstart : (i.behind first.held).Grants (i.behind (first.held + (([] : List Branch).map fun b => 1 + b.held).sum)) :=
    .refl _
  refine pre hstart ?_
  refine rounds_of_credit (i := fun more : List Branch => i.behind (first.held + (more.map fun b => 1 + b.held).sum))
    (fun _ => Stage.behind_pos _ _) (fun more => ?_) []
  refine otherwise (Stage.behind_pos _ _) (fun otherwise => ?_) (pure _ ?_)
  · refine (skipNewlines (Nat.succ_pos _)).bind fun _ => (check (.keyword .if) rfl).bind fun again => choose ?_ ?_ again
    · refine (advance_facing (.keyword .if) rfl).bind fun next => (branch hd _ _).bind fun b => pure _ ?_
      have hsum : ((more ++ [b]).map fun b => 1 + b.held).sum = (more.map fun b => 1 + b.held).sum + (1 + b.held) := by
        simp
      refine .of_onward (by simp; omega) (.of_behind ?_ rfl rfl rfl) ?_
      · rw [hsum]
        simp
        omega
      · rw [hsum]
        simp
        omega
    · refine (hd.block _).bind fun block => pure _ ?_
      refine .of_behind ?_ rfl rfl rfl
      simp [held_chain, heldInBlock?]
      omega
  · refine .of_behind ?_ rfl rfl rfl
    simp [held_chain, heldInBlock?]

theorem forBehind (opened : Token) : Reads i (forBehind deeper opened) (fun e => i.behind e.held) := by
  refine (expect .leftParen _ rfl).bind fun _ => (expect (.keyword .let) _ rfl).bind fun _ =>
    (identifier _).bind fun name => (annotationOf name).bind fun loopVariable =>
    (expect (.keyword .in) _ rfl).bind fun _ => (anyExpression hd).bind fun iterable =>
    (expect .rightParen _ rfl).bind fun _ => (skipNewlines (Nat.succ_pos _)).bind fun _ =>
    (hd.block _).bind fun body => pure _ ?_
  exact .of_behind (by simp [Expression.held]; omega) rfl rfl rfl

theorem whileBehind (opened : Token) : Reads i (whileBehind deeper opened) (fun e => i.behind e.held) := by
  refine (expect .leftParen _ rfl).bind fun _ => (skipNewlines (Nat.succ_pos _)).bind fun _ =>
    (anyExpression hd).bind fun condition => (skipNewlines (Stage.behind_pos _ _)).bind fun _ =>
    (expect .rightParen _ rfl).bind fun _ => (skipNewlines (Nat.succ_pos _)).bind fun _ =>
    (hd.block _).bind fun body => pure _ ?_
  exact .of_behind (by simp [Expression.held]; omega) rfl rfl rfl

theorem repeatBehind (opened : Token) : Reads i (repeatBehind deeper opened) (fun e => i.behind e.held) :=
  (hd.block _).bind fun _ => pure _ (.refl _)

/-! ## First parts and continuations -/

theorem unaryBehind (opened : Token) (operator : UnaryOperator) (hcredit : 0 < i.credit) :
    Reads i (unaryBehind deeper opened operator) (fun e => i.behind e.held) := by
  refine (skipNewlines hcredit).bind fun _ => (hd.expression _ _).bind fun operand => pure _ ?_
  exact .of_behind (by simp [Expression.held]) rfl rfl rfl

/-- **A vector is read for any tail** as one: the items in it shift no parenthesis, so that the parenthesis closes where
the vector does. -/
theorem vector_retail {opened : Token} {s t : ParseState} {e : Expression} {newline : Token} {tail : Tail}
    (hready : i.Ready s) (hcredit : 0 < i.credit) (h : Parse.vectorBehind deeper opened s = .ok e t)
    (herrors : t.errors = s.errors) (hends : s.Ends newline tail) (hne : t.rest ≠ [])
    (hvector : closesBeforeArrow 0 s.rest = false) : closesBeforeArrow 0 (s.retail tail).rest = false := by
  have hitems : Reads { i with unclosed := ⟨0, i.unclosed.braces⟩ } (Parse.items .rightParen "`,` or `)`" (Parse.anyExpression deeper))
      (fun taken => (Stage.holding { i with unclosed := ⟨0, i.unclosed.braces⟩ } (taken.map Expression.held).sum).facing .rightParen) :=
    items _ rfl hcredit fun _ => anyExpression hd
  obtain ⟨⟨taken, close⟩, v, hv, hpure⟩ := Steps.of_bind_ok h
  cases hpure
  obtain ⟨taken', u, hu, hclose⟩ := Steps.of_bind_ok hv
  cases hclose
  have hleads := hitems.ok ⟨hready.eof, hready.knows⟩ hu
  have hclose : u.peek.kind = .rightParen := hleads.knows
  obtain ⟨ts, hts, hshifts⟩ := hleads.shifts herrors
  obtain ⟨close, hu⟩ : ∃ close, u.rest = close :: u.advance.rest := by
    cases hrest : u.rest with
    | nil => exact absurd (by simp [ParseState.advance, hrest]) hne
    | cons close rest => exact ⟨close, by simp [ParseState.advance, hrest]⟩
  have hkind : close.kind = .rightParen := by
    rw [ParseState.peek, hu] at hclose
    exact hclose
  have hsplit : s.rest = (ts ++ [close]) ++ u.advance.rest := by
    rw [hts, hu, List.append_assoc, List.singleton_append]
  have hends' : u.advance.Ends newline tail := hends.suffix ⟨_, hsplit.symm⟩ hne
  have hshift : ∀ rest, closesBeforeArrow 0 ((ts ++ [close]) ++ rest) = closesBeforeArrow 0 (close :: rest) := by
    intro rest
    rw [List.append_assoc, List.singleton_append]
    exact hshifts 0 (close :: rest)
  rw [hsplit, hshift] at hvector
  rw [retail_append hsplit hne, hshift]
  exact arrow_retail hends' hkind hvector

theorem parenthesized (opened : Token) (hcredit : 0 < i.credit) (hparens : 0 < i.unclosed.parens) :
    Reads i (parenthesized deeper opened) (fun e => i.closed .rightParen e.held) := by
  have hway : ∀ s, Parse.parenthesized deeper opened s =
      if closesBeforeArrow 0 s.rest then Parse.arrowFunctionBehind deeper opened s
      else Parse.vectorBehind deeper opened s := by
    intro s
    show (if closesBeforeArrow 0 s.rest then Parse.arrowFunctionBehind deeper opened
      else Parse.vectorBehind deeper opened) s = _
    split <;> rfl
  refine either hway (arrowFunctionBehind hd opened hcredit hparens) (vectorBehind hd opened hcredit hparens) ?_ ?_
  · intro s newline tail hends hcloses
    obtain ⟨front, hrest, hrest'⟩ := hends.exists_rest
    rw [hrest] at hcloses
    rw [hrest']
    exact closesBeforeArrow_tail hends.kind tail.rest front 0 hcloses
  · intro s t e newline tail hready hok
    exact vector_retail hd hready hcredit hok

/-! ## First parts -/

omit hd in
theorem taken_plain {kind : TokenKind} (h : Stage.plain kind = true) :
    Reads (i.facing kind) Parse.advance (fun _ => i.behind 0) :=
  (advance_facing kind (Stage.mayTake_of_plain h)).mono fun _ => .of_behind (by simp) (Stage.level_of_plain h) rfl rfl

omit hd in
theorem peeked_plain {kind : TokenKind} (h : Stage.plain kind = true) :
    Reads (i.peeked kind) Parse.advance (fun _ => i.behind 0) :=
  (advance_peeked kind (Stage.mayTake_of_plain h)).mono fun _ => .of_behind (by simp) (Stage.level_of_plain h) rfl rfl

omit hd in
theorem number (t : Token) (value : String → Literal) :
    Reads (i.behind 0) (Parse.number t value) (fun e => i.behind e.held) := by
  unfold Parse.number
  split
  · exact pure _ (.refl _)
  · exact throw _

omit hd in
theorem plain_of_wordLiteral? {t : Token} {value : Literal} (h : wordLiteral? t = some value) :
    Stage.plain t.kind = true := by
  unfold wordLiteral? at h
  split at h
  case h_11 => exact nomatch h
  all_goals rename_i hkind; rw [hkind]; rfl

omit hd in
theorem plain_of_unaryOperator? {t : Token} {operator : UnaryOperator} (h : t.unaryOperator? = some operator) :
    Stage.plain t.kind = true := by
  unfold Token.unaryOperator? at h
  split at h
  case h_5 => exact nomatch h
  all_goals rename_i hkind; rw [hkind]; rfl

omit hd in
/-- What stands behind the token that begins it. -/
theorem begun {α : Type} {kind : TokenKind} {p : Parse α} {w : α → Nat} (hkind : Stage.plain kind = true)
    (h : Reads (i.behind 0) p fun a => (i.behind 0).behind (w a)) :
    Reads (i.peeked kind) (Parse.advance >>= fun _ => p) (fun a => i.behind (w a)) :=
  (peeked_plain hkind).bind fun _ => h.mono fun _ => .of_behind (by simp) rfl rfl rfl

theorem firstPart : Reads i (firstPart deeper) (fun e => i.behind e.held) := by
  refine peek.bind fun t => ?_
  split
  case h_1 hkind =>
    rw [hkind]
    exact (peeked_plain rfl).bind fun _ => pure _ (.refl _)
  case h_2 hkind =>
    rw [hkind]
    exact (peeked_plain rfl).bind fun _ => number t .integer
  case h_3 hkind =>
    rw [hkind]
    exact (peeked_plain rfl).bind fun _ => number t .float
  case h_4 hkind =>
    rw [hkind]
    exact begun rfl (stringBehind t)
  case h_5 hkind =>
    rw [hkind]
    refine (advance_peeked .leftParen rfl).bind fun _ =>
      (parenthesized hd t (Nat.succ_pos _) (Nat.succ_pos _)).mono fun e => ?_
    exact .of_behind (by simp) rfl rfl rfl
  case h_6 hkind =>
    rw [hkind]
    exact begun rfl (functionBehind hd t [] (i := i.behind 0) (Nat.succ_pos _))
  case h_7 hkind =>
    rw [hkind]
    exact begun rfl (conditionalBehind hd t)
  case h_8 hkind =>
    rw [hkind]
    exact begun rfl (forBehind hd t)
  case h_9 hkind =>
    rw [hkind]
    exact begun rfl (whileBehind hd t)
  case h_10 hkind =>
    rw [hkind]
    exact begun rfl (repeatBehind hd t)
  case h_11 =>
    split
    case h_1 hvalue => exact (peeked_plain (plain_of_wordLiteral? hvalue)).bind fun _ => pure _ (.refl _)
    case h_2 operator _ hoperator =>
      exact begun (plain_of_unaryOperator? hoperator) (unaryBehind hd t operator (Nat.succ_pos _))
    case h_3 => exact unexpected

/-! ## Continuations -/

omit hd in
theorem plain_of_binaryOperator? {t : Token} {operator : BinaryOperator} (h : t.binaryOperator? = some operator) :
    Stage.plain t.kind = true := by
  unfold Token.binaryOperator? at h
  split at h
  case h_30 => exact nomatch h
  all_goals rename_i hkind; rw [hkind]; rfl

theorem operatorBehind {kind : TokenKind} (left : Expression) (operator : BinaryOperator)
    (hkind : Stage.plain kind = true) :
    Reads ((i.behind left.held).facing kind) (operatorBehind deeper left operator)
      (fun e => (i.behind left.held).onward (i.behind e.held)) := by
  have hbinary : ∀ right : Expression, ((i.behind left.held).behind 0).behind right.held |>.Grants
      ((i.behind left.held).onward (i.behind (Expression.binary (left.span.union right.span) operator left right).held)) := by
    intro right
    refine .of_onward (by simp; omega) (.of_behind ?_ rfl rfl rfl) ?_
    · simp [Expression.held]
      omega
    · simp [Expression.held]
      omega
  refine (taken_plain hkind).bind fun _ => ?_
  by_cases haccess : operator.isAccess = true
  · rw [if_pos haccess]
    exact accessTarget.bind fun right => pure _ (hbinary right)
  · rw [if_neg haccess]
    exact (skipNewlines (Nat.succ_pos _)).bind fun _ => (hd.expression _ _).bind fun right => pure _ (hbinary right)

theorem callBehind (callee : Expression) :
    Reads ((i.behind callee.held).facing .leftParen) (callBehind deeper callee)
      (fun e => (i.behind callee.held).onward (i.behind e.held)) := by
  refine (advance_facing .leftParen rfl).bind fun _ => (arguments hd .rightParen _ rfl (Nat.succ_pos _)).bind fun taken => pure _ ?_
  refine .of_onward (by simp; omega) (.of_behind ?_ rfl rfl rfl) ?_
  · simp [Expression.held]
    omega
  · simp [Expression.held]
    omega

theorem indexBehind {kind : TokenKind} (object : Expression) (double : Bool) (hkind : Stage.plain kind = true) :
    Reads ((i.behind object.held).facing kind) (indexBehind deeper object double)
      (fun e => (i.behind object.held).onward (i.behind e.held)) := by
  have hindex : ∀ (close : TokenKind) (taken : List Argument × Token), Stage.plain close = true →
      (((i.behind object.held).behind 0).closed close (heldInArguments taken.1)).Grants
        ((i.behind object.held).onward (i.behind
          (Expression.index (object.span.union taken.2.span) object taken.1 double).held)) := by
    intro close taken hclose
    refine .of_onward (by simp; omega) (.of_behind ?_ (Stage.level_of_plain hclose) rfl rfl) ?_
    · simp [Expression.held]
      omega
    · simp [Expression.held]
      omega
  refine (taken_plain hkind).bind fun _ => ?_
  cases double with
  | true =>
    exact (arguments hd .doubleRightBracket _ rfl (Nat.succ_pos _)).bind fun taken => pure _ (hindex _ taken rfl)
  | false =>
    exact (arguments hd .rightBracket _ rfl (Nat.succ_pos _)).bind fun taken => pure _ (hindex _ taken rfl)

theorem continuationOf {t : Token} {continuation : Continuation} (left : Expression)
    (h : Continuation.of? t = some continuation) :
    Reads ((i.behind left.held).facing t.kind) (continuationOf deeper left continuation)
      (fun e => (i.behind left.held).onward (i.behind e.held)) := by
  unfold Continuation.of? at h
  split at h
  case h_1 hkind =>
    cases h
    rw [hkind]
    exact callBehind hd left
  case h_2 hkind =>
    cases h
    rw [hkind]
    exact indexBehind hd left false rfl
  case h_3 hkind =>
    cases h
    rw [hkind]
    exact indexBehind hd left true rfl
  case h_4 =>
    obtain ⟨operator, hoperator, rfl⟩ := Option.map_eq_some_iff.1 h
    exact operatorBehind hd left operator (plain_of_binaryOperator? hoperator)

omit hd in
theorem inLine_of_continuation {t : Token} (h : Continuation.of? t ≠ none) : Stage.inLine t.kind = true := by
  cases hkind : t.kind
  case newline | eof | comment | roxygenComment =>
    exact absurd (by simp [Continuation.of?, Token.binaryOperator?, hkind]) h
  all_goals rfl

/-- A round of continuing an expression, given what the next token continues it by. -/
def continuedBy (deeper : Deeper) (floor : Level) (left : Expression) :
    Option Continuation → Parse (Round Expression Expression)
  | some continuation => do
    if continuation.level.isTighter floor then return .again (← Parse.continuationOf deeper left continuation)
    else return .done left
  | none => return .done left

omit hd in
theorem continued_eq (floor : Level) (first : Expression) : Parse.continued deeper floor first =
    Parse.rounds (fun left => do let t ← Parse.peek; continuedBy deeper floor left (Continuation.of? t)) first := by
  rfl

theorem continued (floor : Level) (first : Expression) :
    Reads (i.behind first.held) (continued deeper floor first) (fun e => i.behind e.held) := by
  rw [continued_eq]
  refine rounds_of_credit (i := fun left : Expression => i.behind left.held) (fun _ => Stage.behind_pos _ _)
    (fun left => ?_) first
  have hdone : Reads (i.behind left.held) (Pure.pure (Round.done left) : Parse (Round Expression Expression))
      (turn (fun e => (i.behind left.held).onward (i.behind e.held)) fun e => i.behind e.held) := pure _ (.refl _)
  refine askToken (fun _ => inLine_of_continuation) (continuedBy deeper floor left) hdone fun t continuation h => ?_
  rw [continuedBy]
  by_cases htighter : continuation.level.isTighter floor = true
  · rw [if_pos htighter]
    exact (continuationOf hd left h).bind fun e => pure _ (.refl _)
  · rw [if_neg htighter]
    exact hdone.recalling fun _ _ => trivial

theorem expressionBody (floor : Level) : Reads i (expressionBody deeper floor) (fun e => i.behind e.held) :=
  (firstPart hd).bind fun first => continued hd floor first

end Reads
end Parse
end UnionScript
