import Mathlib
import UnionScript.Proofs.ExitStatus
import UnionScript.Proofs.Layout
import UnionScript.Proofs.TopLevel
/-!
# Views — thinned and sorted diagnostics

A view of a list of diagnostics either thins it to the first one of each place or line, or sorts it by place.  What
thinning keeps is told by positions: those in front of which nothing stands under the same key (`HoldsFirsts`).  A place is
on one line, so thinning by line sees no difference if the list was thinned by place before, and leaves nothing to thin by
place behind it.  Sorting keeps apart what is at different places and leaves the order of what is at one place
(`filter_sorted`), and the first one of a place depends on nothing else; so it does not matter whether a list is thinned by
place or sorted first.
-/
namespace UnionScript

/-! ## The first items of each key -/

section FirstOfEach

variable {α κ ρ : Type} [DecidableEq κ] [DecidableEq ρ] {key : α → κ}

/-- What is kept of a list, in its order, are the items at the positions in front of which no item has the same key. -/
def HoldsFirsts (key : α → κ) (items kept : List α) : Prop :=
  ∃ positions : List (Fin items.length), positions.Pairwise (· < ·) ∧ kept = positions.map items.get ∧
    ∀ i, i ∈ positions ↔ ∀ j < i, key (items.get j) ≠ key (items.get i)

omit [DecidableEq κ] in
/-- Whether the item at a later position is kept, told by the item in front. -/
theorem first_succ_iff {seen : List κ} {a : α} {items : List α} (i : Fin items.length) :
    (key (items.get i) ∉ key a :: seen ∧ ∀ j < i, key (items.get j) ≠ key (items.get i)) ↔
      key (items.get i) ∉ seen ∧ ∀ j < i.succ, key ((a :: items).get j) ≠ key (items.get i) := by
  constructor
  · rintro ⟨hseen, hbefore⟩
    obtain ⟨ha, hseen⟩ := not_or.1 (mt List.mem_cons.2 hseen)
    refine ⟨hseen, fun j hj => ?_⟩
    cases j using Fin.cases with
    | zero => exact Ne.symm ha
    | succ j => exact hbefore j (Fin.succ_lt_succ_iff.1 hj)
  · rintro ⟨hseen, hbefore⟩
    refine ⟨fun hmem => ?_, fun j hj => hbefore j.succ (Fin.succ_lt_succ_iff.2 hj)⟩
    rcases List.mem_cons.1 hmem with ha | hmem
    · exact hbefore 0 i.succ_pos ha.symm
    · exact hseen hmem

/-- The positions of what is kept when some keys were seen. -/
theorem exists_positions : ∀ (seen : List κ) (items : List α), ∃ positions : List (Fin items.length),
    positions.Pairwise (· < ·) ∧ firstOfEach key seen items = positions.map items.get ∧
      ∀ i, i ∈ positions ↔ key (items.get i) ∉ seen ∧ ∀ j < i, key (items.get j) ≠ key (items.get i)
  | _, [] => ⟨[], .nil, rfl, fun i => i.elim0⟩
  | seen, a :: items => by
    obtain ⟨positions, hincreasing, hkept, hmem⟩ := exists_positions (key a :: seen) items
    have hlater : (positions.map Fin.succ).Pairwise (· < ·) :=
      List.pairwise_map.2 (hincreasing.imp Fin.succ_lt_succ_iff.2)
    have hget : (positions.map Fin.succ).map (a :: items).get = positions.map items.get := by
      rw [List.map_map]
      rfl
    have hsucc (i : Fin items.length) : i.succ ∈ positions.map Fin.succ ↔
        key (items.get i) ∉ seen ∧ ∀ j < i.succ, key ((a :: items).get j) ≠ key (items.get i) := by
      rw [List.mem_map_of_injective (Fin.succ_injective _), hmem, first_succ_iff]
    have hzero : (0 : Fin (items.length + 1)) ∉ positions.map Fin.succ := fun h =>
      let ⟨i, _, hi⟩ := List.mem_map.1 h
      Fin.succ_ne_zero i hi
    by_cases ha : key a ∈ seen
    · refine ⟨positions.map Fin.succ, hlater, ?_, fun i => ?_⟩
      · rw [firstOfEach_cons_of_mem ha, hget, ← hkept]
        exact firstOfEach_congr items fun k => ⟨List.mem_cons_of_mem _, fun h => (List.mem_cons.1 h).elim (· ▸ ha) id⟩
      · cases i using Fin.cases with
        | zero => exact iff_of_false hzero fun h => h.1 ha
        | succ i => exact hsucc i
    · refine ⟨0 :: positions.map Fin.succ, .cons ?_ hlater, ?_, fun i => ?_⟩
      · intro i hi
        obtain ⟨j, -, rfl⟩ := List.mem_map.1 hi
        exact j.succ_pos
      · rw [firstOfEach_cons_of_not_mem ha, List.map_cons, hget, hkept]
        rfl
      · cases i using Fin.cases with
        | zero => exact iff_of_true List.mem_cons_self ⟨ha, fun j hj => absurd hj (Fin.not_lt_zero j)⟩
        | succ i =>
          rw [List.mem_cons, or_iff_right (Fin.succ_ne_zero i)]
          exact hsucc i

theorem holdsFirsts_firstOfEach (items : List α) : HoldsFirsts key items (firstOfEach key [] items) := by
  obtain ⟨positions, hincreasing, hkept, hmem⟩ := @exists_positions α κ _ key [] items
  exact ⟨positions, hincreasing, hkept, fun i => by rw [hmem, and_iff_right List.not_mem_nil]⟩

/-- No two of the first items share a key, and none has one that was seen. -/
theorem nodup_firstOfEach : ∀ (seen : List κ) (items : List α), ((firstOfEach key seen items).map key).Nodup
  | _, [] => .nil
  | seen, a :: items => by
    by_cases ha : key a ∈ seen
    · rw [firstOfEach_cons_of_mem ha]
      exact nodup_firstOfEach seen items
    · rw [firstOfEach_cons_of_not_mem ha, List.map_cons, List.nodup_cons]
      refine ⟨fun hmem => ?_, nodup_firstOfEach _ items⟩
      obtain ⟨b, hb, hkey⟩ := List.mem_map.1 hmem
      exact (mem_firstOfEach.1 hb).1 (hkey ▸ List.mem_cons_self)

/-- An item is the first one under its key if it leads those that have the key. -/
theorem mem_firstOfEach_iff_head? {items : List α} {a : α} :
    a ∈ firstOfEach key [] items ↔ (items.filter fun b => key b = key a).head? = some a := by
  rw [mem_firstOfEach, List.head?_filter, List.find?_eq_some_iff_append]
  simp

/-- The first items under a coarser key are the same if the first ones under a finer key were taken before. -/
theorem firstOfEach_of_finer (coarsen : κ → ρ) : ∀ {seen : List κ} {seen' : List ρ} (items : List α),
    (∀ k ∈ seen, coarsen k ∈ seen') →
      firstOfEach (coarsen ∘ key) seen' (firstOfEach key seen items) = firstOfEach (coarsen ∘ key) seen' items
  | _, _, [], _ => rfl
  | seen, seen', a :: items, hseen => by
    by_cases ha : key a ∈ seen
    · rw [firstOfEach_cons_of_mem ha, @firstOfEach_cons_of_mem α ρ _ (coarsen ∘ key) _ a (hseen _ ha)]
      exact firstOfEach_of_finer coarsen items hseen
    · rw [firstOfEach_cons_of_not_mem ha, firstOfEach, firstOfEach]
      split
      · rename_i ha'
        exact firstOfEach_of_finer coarsen items (List.forall_mem_cons.2 ⟨ha', hseen⟩)
      · refine congrArg (a :: ·) (firstOfEach_of_finer coarsen items ?_)
        exact List.forall_mem_cons.2 ⟨List.mem_cons_self, fun k hk => List.mem_cons_of_mem _ (hseen k hk)⟩

end FirstOfEach

namespace Diagnostic

/-! ## The order of places -/

/-- A diagnostic is in an earlier file than another one, or in the same file at no later line and column. -/
def NoLater (d e : Diagnostic) : Prop :=
  d.span.file < e.span.file ∨ d.span.file = e.span.file ∧ (d.span.first.line < e.span.first.line ∨
    d.span.first.line = e.span.first.line ∧ d.span.first.column ≤ e.span.first.column)

theorem noLater_iff (d e : Diagnostic) : d.NoLater e ↔ toLex d.placeKey ≤ toLex e.placeKey := by
  rw [Prod.Lex.toLex_le_toLex, NoLater, ← Position.le_iff]
  rfl

theorem isLE_compare_iff (d e : Diagnostic) : (d.compare e).isLE = true ↔ d.NoLater e := by
  rw [compare, Position.compare, Ordering.isLE_then_iff_or, Ordering.isLE_then_iff_or, compare_lt_iff_lt,
    compare_eq_iff_eq, compare_lt_iff_lt, compare_eq_iff_eq, Nat.isLE_compare]
  rfl

theorem isLE_compare_trans (c d e : Diagnostic) (h : (c.compare d).isLE = true) (h' : (d.compare e).isLE = true) :
    (c.compare e).isLE = true := by
  rw [isLE_compare_iff, noLater_iff] at *
  exact h.trans h'

theorem isLE_compare_total (d e : Diagnostic) : ((d.compare e).isLE || (e.compare d).isLE) = true := by
  rw [Bool.or_eq_true, isLE_compare_iff, isLE_compare_iff, noLater_iff, noLater_iff]
  exact le_total _ _

/-! ## Sorting -/

theorem perm_sorted (ds : List Diagnostic) : (sorted ds).Perm ds := List.mergeSort_perm _ _

theorem pairwise_sorted (ds : List Diagnostic) : (sorted ds).Pairwise NoLater :=
  (List.pairwise_mergeSort isLE_compare_trans isLE_compare_total ds).imp fun {d e} => (isLE_compare_iff d e).1

/-- **Diagnostics at one place stay in their order.** -/
theorem filter_sorted (place : String × Position) (ds : List Diagnostic) :
    (sorted ds).filter (fun d => d.placeKey = place) = ds.filter fun d => d.placeKey = place := by
  -- Those at one place are sorted already, so they are found in the sorted list one behind the other.
  have hsame : (ds.filter fun d => d.placeKey = place).Pairwise fun d e => (d.compare e).isLE = true := by
    refine List.pairwise_of_forall_mem_list fun d hd e he => ?_
    rw [isLE_compare_iff, noLater_iff, of_decide_eq_true (List.mem_filter.1 hd).2,
      of_decide_eq_true (List.mem_filter.1 he).2]
  have hsub := (List.sublist_mergeSort isLE_compare_trans isLE_compare_total hsame List.filter_sublist).filter
    fun d => d.placeKey = place
  simp only [List.filter_filter, Bool.and_self] at hsub
  exact (hsub.eq_of_length ((perm_sorted ds).filter _).length_eq.symm).symm

/-- Diagnostics at different places that are sorted are told by what they are. -/
theorem eq_of_perm_of_pairwise {ds es : List Diagnostic} (hnodup : (ds.map placeKey).Nodup) (hperm : ds.Perm es)
    (hds : ds.Pairwise NoLater) (hes : es.Pairwise NoLater) : ds = es := by
  refine hperm.eq_of_pairwise (fun d e hd he hle hge => ?_) hds hes
  rw [noLater_iff] at hle hge
  exact List.inj_on_of_nodup_map hnodup hd (hperm.mem_iff.2 he) (toLex.injective (le_antisymm hle hge))

theorem perm_uniqueByPosition_sorted (ds : List Diagnostic) :
    (sorted (uniqueByPosition ds)).Perm (uniqueByPosition (sorted ds)) := by
  have hnodup (ds : List Diagnostic) : (uniqueByPosition ds).Nodup := .of_map placeKey (nodup_firstOfEach [] ds)
  refine (perm_sorted _).trans ((List.perm_ext_iff_of_nodup (hnodup ds) (hnodup _)).2 fun d => ?_)
  rw [uniqueByPosition, uniqueByPosition, mem_firstOfEach_iff_head?, mem_firstOfEach_iff_head?, filter_sorted]

/-! ## Views of views -/

/-- **What the views of a list of diagnostics are, and how they go together**: thinning keeps the first diagnostic of each
place, or of each line, thinning by line does not depend on whether the list was thinned by place and leaves nothing to thin
by place; sorting orders by file, line and column and leaves the order of those at one place; and it does not matter
whether a list is sorted or thinned by place first. -/
theorem views_agree (ds : List Diagnostic) :
    (HoldsFirsts placeKey ds (uniqueByPosition ds) ∧ HoldsFirsts lineKey ds (uniqueByLine ds)) ∧
      (uniqueByLine (uniqueByPosition ds) = uniqueByLine ds ∧ uniqueByPosition (uniqueByLine ds) = uniqueByLine ds) ∧
      ((sorted ds).Perm ds ∧ (sorted ds).Pairwise NoLater ∧
        ∀ place, (sorted ds).filter (fun d => d.placeKey = place) = ds.filter fun d => d.placeKey = place) ∧
      sorted (uniqueByPosition ds) = uniqueByPosition (sorted ds) := by
  refine ⟨⟨holdsFirsts_firstOfEach ds, holdsFirsts_firstOfEach ds⟩, ⟨?_, ?_⟩,
    ⟨perm_sorted ds, pairwise_sorted ds, fun place => filter_sorted place ds⟩, ?_⟩
  · have hcoarser : lineKey = (fun place : String × Position => (place.1, place.2.line)) ∘ placeKey := rfl
    rw [uniqueByLine, uniqueByLine, uniqueByPosition, hcoarser]
    exact firstOfEach_of_finer _ ds (List.forall_mem_nil _)
  · -- Diagnostics on different lines are at different places.
    refine firstOfEach_of_nodup (List.Nodup.of_map (fun place : String × Position => (place.1, place.2.line)) ?_)
    rw [List.nil_append, List.map_map]
    exact nodup_firstOfEach [] ds
  · refine eq_of_perm_of_pairwise ?_ (perm_uniqueByPosition_sorted ds) (pairwise_sorted _) ?_
    · exact ((perm_sorted _).map placeKey).nodup_iff.2 (nodup_firstOfEach [] ds)
    · exact (pairwise_sorted ds).sublist (firstOfEach_sublist [] _)

end Diagnostic
end UnionScript
