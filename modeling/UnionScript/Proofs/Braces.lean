import Mathlib
import UnionScript.Proofs.Sequence
/-!
# Braces — braces that are open behind some tokens

Tokens are followed brace by brace: an opening one adds to those that are open, and a closing one closes the last of
them, so that there must be one (`Parse.openBehind`).  What is known of the tokens a reader takes is a bound: whatever
else they open, they close no brace that is not theirs to close (`Parse.Opens`).  Tokens that are passed over close none
at all (`Parse.Passes`).
-/
namespace UnionScript
namespace Parse

/-! ## Following braces -/

/-- How many braces are open behind a token, given how many are in front of it.  There is no answer where it closes one
and none is open. -/
def braceBehind (n : Nat) (t : Token) : Option Nat :=
  match t.kind with
  | .leftBrace => some (n + 1)
  | .rightBrace => if n = 0 then none else some (n - 1)
  | _ => some n

/-- How many braces are open behind some tokens, given how many are in front of them. -/
def openBehind (n : Nat) (ts : List Token) : Option Nat := ts.foldlM braceBehind n

variable {a b k n : Nat} {t : Token} {ts us : List Token}

theorem openBehind_cons : openBehind n (t :: ts) = (braceBehind n t).bind (openBehind · ts) := by
  rw [openBehind, List.foldlM_cons]
  rfl

theorem openBehind_append : openBehind n (ts ++ us) = (openBehind n ts).bind (openBehind · us) := by
  rw [openBehind, List.foldlM_append]
  rfl

theorem openBehind_singleton : openBehind n [t] = braceBehind n t := by
  rw [openBehind_cons]
  cases braceBehind n t <;> rfl

theorem braceBehind_left (h : t.kind = .leftBrace) : braceBehind n t = some (n + 1) := by
  unfold braceBehind
  rw [h]

theorem braceBehind_right (h : t.kind = .rightBrace) : braceBehind n t = if n = 0 then none else some (n - 1) := by
  unfold braceBehind
  rw [h]

theorem braceBehind_other (hleft : t.kind ≠ .leftBrace) (hright : t.kind ≠ .rightBrace) :
    braceBehind n t = some n := by
  unfold braceBehind
  split
  · contradiction
  · contradiction
  · rfl

/-- More braces that are open in front are open behind as well. -/
theorem braceBehind_add (h : braceBehind n t = some k) (d : Nat) : braceBehind (n + d) t = some (k + d) := by
  by_cases hleft : t.kind = .leftBrace
  · rw [braceBehind_left hleft, Option.some.injEq] at h ⊢
    omega
  by_cases hright : t.kind = .rightBrace
  · rw [braceBehind_right hright] at h ⊢
    split at h
    · exact nomatch h
    · rw [Option.some.injEq] at h
      rw [if_neg (by omega), Option.some.injEq]
      omega
  · rw [braceBehind_other hleft hright, Option.some.injEq] at h ⊢
    omega

theorem openBehind_add (h : openBehind n ts = some k) (d : Nat) : openBehind (n + d) ts = some (k + d) := by
  induction ts generalizing n with
  | nil => cases h; rfl
  | cons t ts ih =>
    rw [openBehind_cons] at h ⊢
    obtain ⟨m, hm, hk⟩ := Option.bind_eq_some_iff.1 h
    rw [braceBehind_add hm d, Option.bind_some]
    exact ih hk

/-- Tokens that close nothing leave open what was open, and what they open themselves. -/
theorem openBehind_of_unclosing (h : ∀ t ∈ ts, t.kind ≠ .rightBrace) :
    openBehind n ts = some (n + ts.countP (·.kind == .leftBrace)) := by
  induction ts generalizing n with
  | nil => rfl
  | cons t ts ih =>
    have hrest := fun n => ih (n := n) fun t ht => h t (List.mem_cons_of_mem _ ht)
    rw [openBehind_cons, List.countP_cons]
    by_cases hleft : t.kind = .leftBrace
    · rw [braceBehind_left hleft, Option.bind_some, hrest, hleft, if_pos (beq_self_eq_true _)]
      exact congrArg some (by omega)
    · rw [braceBehind_other hleft (h t List.mem_cons_self), Option.bind_some, hrest, if_neg (by simpa using hleft)]
      rfl

theorem openBehind_of_plain (h : ∀ t ∈ ts, t.kind ≠ .leftBrace ∧ t.kind ≠ .rightBrace) : openBehind n ts = some n := by
  rw [openBehind_of_unclosing fun t ht => (h t ht).2, List.countP_eq_zero.2 fun t ht => by simpa using (h t ht).1]
  rfl

/-! ## Bounds -/

/-- Tokens that close no brace but those that were open in front of them, of which `m` are known of, and behind which
`n` at least are open; no more than these, if what is asked for holds.  At top level no account is kept of braces. -/
def Opens (m n : Option Nat) (exact : Prop) (ts : List Token) : Prop :=
  ∀ a, m = some a → ∃ b k, n = some b ∧ openBehind a ts = some k ∧ b ≤ k ∧ (exact → k = b)

/-- What a token of a kind makes of the number of open braces. -/
def braceLevel : TokenKind → Option Nat → Option Nat
  | .leftBrace, m => m.map (· + 1)
  | .rightBrace, m => m.map (· - 1)
  | _, m => m

theorem braceLevel_of_ne {kind : TokenKind} {m : Option Nat} (hleft : kind ≠ .leftBrace) (hright : kind ≠ .rightBrace) :
    braceLevel kind m = m := by
  unfold braceLevel
  split <;> first | rfl | contradiction

namespace Opens

variable {l m : Option Nat} {n : Option Nat} {p q r : Prop}

theorem refl (m : Option Nat) (exact : Prop) : Opens m m exact [] := fun a ha => ⟨a, a, ha, rfl, Nat.le_refl a, fun _ => rfl⟩

theorem mono (h : Opens m n p ts) (hexact : q → p) : Opens m n q ts := by
  intro a ha
  obtain ⟨b, k, hb, hk, hle, heq⟩ := h a ha
  exact ⟨b, k, hb, hk, hle, heq ∘ hexact⟩

theorem trans (h : Opens l m p ts) (h' : Opens m n q us) (hexact : r → p ∧ q) : Opens l n r (ts ++ us) := by
  intro a ha
  obtain ⟨b, k, hb, hk, hle, heq⟩ := h a ha
  obtain ⟨c, j, hc, hj, hle', heq'⟩ := h' b hb
  obtain ⟨d, rfl⟩ := Nat.exists_eq_add_of_le hle
  refine ⟨c, j + d, hc, ?_, by omega, fun hr => ?_⟩
  · rw [openBehind_append, hk, Option.bind_some]
    exact openBehind_add hj d
  · have hfirst := heq (hexact hr).1
    have hsecond := heq' (hexact hr).2
    omega

/-- A token may close a brace where one is open. -/
theorem token (exact : Prop) (h : t.kind = .rightBrace → m ≠ some 0) : Opens m (braceLevel t.kind m) exact [t] := by
  intro a ha
  subst ha
  rw [openBehind_singleton]
  by_cases hleft : t.kind = .leftBrace
  · rw [braceBehind_left hleft, hleft]
    exact ⟨a + 1, a + 1, rfl, rfl, Nat.le_refl _, fun _ => rfl⟩
  by_cases hright : t.kind = .rightBrace
  · have hpos : a ≠ 0 := fun e => h hright (e ▸ rfl)
    rw [braceBehind_right hright, if_neg hpos, hright]
    exact ⟨a - 1, a - 1, rfl, rfl, Nat.le_refl _, fun _ => rfl⟩
  · rw [braceBehind_other hleft hright, braceLevel_of_ne hleft hright]
    exact ⟨a, a, rfl, rfl, Nat.le_refl _, fun _ => rfl⟩

theorem of_plain (m : Option Nat) (exact : Prop) (h : ∀ t ∈ ts, t.kind ≠ .leftBrace ∧ t.kind ≠ .rightBrace) :
    Opens m m exact ts :=
  fun a ha => ⟨a, a, ha, openBehind_of_plain h, Nat.le_refl a, fun _ => rfl⟩

/-- Tokens that close nothing leave open what was open. -/
theorem of_unclosing (m : Option Nat) (h : ∀ t ∈ ts, t.kind ≠ .rightBrace) : Opens m m False ts :=
  fun a ha => ⟨a, _, ha, openBehind_of_unclosing h, Nat.le_add_right a _, False.elim⟩

/-- Nothing may be known of what is open behind. -/
theorem bounded (h : Opens m n p ts) : Opens m (some 0) False ts := by
  intro a ha
  obtain ⟨-, k, -, hk, -, -⟩ := h a ha
  exact ⟨0, k, rfl, hk, Nat.zero_le k, False.elim⟩

/-- What closes nothing of others leaves open what was open in front of it. -/
theorem lift (h : Opens (some 0) (some 0) p ts) (m : Option Nat) : Opens m m False ts := by
  intro a ha
  obtain ⟨b, k, -, hk, -, -⟩ := h 0 rfl
  have hbehind := openBehind_add hk a
  rw [Nat.zero_add] at hbehind
  exact ⟨a, k + a, ha, hbehind, Nat.le_add_left a k, False.elim⟩

end Opens

/-! ## Passing over -/

/-- What is passed over and what is left behind it: up to the first separator, which is passed over as well, or up to the
first closing brace, which is not. -/
structure Passes (passed left : List Token) : Prop where
  unclosing : ∀ t ∈ passed, t.kind ≠ .rightBrace
  first : ∀ t ∈ passed.dropLast, isSeparator t = false
  stops : left = [] ∨ (∃ t ∈ passed.getLast?, isSeparator t = true) ∨ ∃ t ∈ left.head?, t.kind = .rightBrace

theorem exists_passed (rest : List Token) : ∃ passed, rest = passed ++ resume rest ∧ Passes passed (resume rest) := by
  induction rest with
  | nil => exact ⟨[], rfl, List.forall_mem_nil _, List.forall_mem_nil _, .inl rfl⟩
  | cons t rest ih =>
    rw [resume]
    by_cases hseparator : isSeparator t = true
    · rw [if_pos hseparator]
      refine ⟨[t], rfl, List.forall_mem_singleton.2 fun hright => ?_, List.forall_mem_nil _, .inr (.inl ⟨t, rfl, hseparator⟩)⟩
      rw [isSeparator, hright] at hseparator
      exact absurd hseparator (by decide)
    by_cases hright : t.kind = .rightBrace
    · rw [if_neg hseparator, if_pos hright]
      exact ⟨[], rfl, List.forall_mem_nil _, List.forall_mem_nil _, .inr (.inr ⟨t, rfl, hright⟩)⟩
    · obtain ⟨passed, hpassed, hpasses⟩ := ih
      rw [if_neg hseparator, if_neg hright]
      refine ⟨t :: passed, by rw [List.cons_append, ← hpassed], ?_, ?_, ?_⟩
      · exact List.forall_mem_cons.2 ⟨hright, hpasses.unclosing⟩
      · cases passed with
        | nil => exact List.forall_mem_nil _
        | cons x passed => exact List.forall_mem_cons.2 ⟨Bool.eq_false_iff.2 hseparator, hpasses.first⟩
      · refine hpasses.stops.imp_right (Or.imp_left ?_)
        rintro ⟨u, hu, hlast⟩
        refine ⟨u, ?_, hlast⟩
        rw [List.getLast?_cons, Option.mem_def.1 hu]
        rfl

end Parse
end UnionScript
