import UnionScript.Package
/-!
# Caching — what a cache has learned stays its answer

A cache is used by calls: it is asked for a package or handed one.  The first call that concerns a name settles the
entry of the name, with the package it hands over or with what the source answers just then, and no call after it
changes the entry, however the source may have changed its mind.  The source is asked once about a name that was first
asked for, and never about one that was first handed over.
-/
namespace UnionScript
namespace PackageCache

/-! ## Calls -/

inductive Call where
  | get (name : String)
  | insert (p : Package)
  deriving DecidableEq

inductive Reply where
  | package (known : Option Package)
  | stored (fresh : Bool)
  deriving DecidableEq

def Call.name : Call → String
  | get name => name
  | insert p => p.name

def Call.isGet : Call → Bool
  | get _ => true
  | insert _ => false

def reply (cache : PackageCache) : Call → Reply
  | .get name => .package (cache.get name).1
  | .insert p => .stored (cache.insert p).1

def perform (cache : PackageCache) : Call → PackageCache
  | .get name => (cache.get name).2
  | .insert p => (cache.insert p).2

/-- The cache after some calls, the first one first. -/
def after (cache : PackageCache) (calls : List Call) : PackageCache := calls.foldl perform cache

/-- The entry a call makes of its name in a cache that knows nothing about it. -/
def learned (cache : PackageCache) : Call → Option Package
  | .get name => cache.answer name
  | .insert p => some p

/-- The reply to a call whose name has an entry by the end of the call, as the call made it or as it was before. -/
def Call.replied (entry : Option Package) (fresh : Bool) : Call → Reply
  | get _ => .package entry
  | insert _ => .stored fresh

@[simp] theorem after_nil (cache : PackageCache) : cache.after [] = cache := rfl

theorem after_cons (cache : PackageCache) (call : Call) (calls : List Call) :
    cache.after (call :: calls) = (cache.perform call).after calls := rfl

theorem after_append (cache : PackageCache) (calls more : List Call) :
    cache.after (calls ++ more) = (cache.after calls).after more := List.foldl_append

/-! ## A single call -/

/-- A call whose name has an entry is answered from it, and leaves the cache as it is. -/
theorem call_known {cache : PackageCache} {call : Call} {known : Option Package}
    (h : cache.entry? call.name = some known) :
    cache.reply call = call.replied known false ∧ cache.perform call = cache := by
  cases call with
  | get name =>
    have hget : cache.get name = (known, cache) := by rw [get, show cache.entry? name = some known from h]
    exact ⟨by rw [reply, hget]; rfl, congrArg Prod.snd hget⟩
  | insert p =>
    have hcontains : cache.contains p.name = true := by rw [contains, show cache.entry? p.name = some known from h]; rfl
    have hinsert : cache.insert p = (false, cache) := if_pos hcontains
    exact ⟨by rw [reply, hinsert]; rfl, congrArg Prod.snd hinsert⟩

/-- A call whose name has none makes one, and asks the source only if it asks for the package. -/
theorem call_unknown {cache : PackageCache} {call : Call} (h : cache.entry? call.name = none) :
    cache.reply call = call.replied (cache.learned call) true ∧
      cache.perform call = { cache with
        entries := (call.name, cache.learned call) :: cache.entries
        asked := if call.isGet then cache.asked ++ [call.name] else cache.asked } := by
  cases call with
  | get name =>
    have hget : cache.get name = (cache.answer name,
        { cache with entries := (name, cache.answer name) :: cache.entries, asked := cache.asked ++ [name] }) := by
      rw [get, show cache.entry? name = none from h]
    exact ⟨by rw [reply, hget]; rfl, congrArg Prod.snd hget⟩
  | insert p =>
    have hcontains : cache.contains p.name = false := by rw [contains, show cache.entry? p.name = none from h]; rfl
    have hinsert : cache.insert p = (true, { cache with entries := (p.name, some p) :: cache.entries }) :=
      if_neg (by rw [hcontains]; exact Bool.false_ne_true)
    exact ⟨by rw [reply, hinsert]; rfl, congrArg Prod.snd hinsert⟩

theorem source_perform (cache : PackageCache) (call : Call) : (cache.perform call).source = cache.source := by
  cases h : cache.entry? call.name with
  | some known => rw [(call_known h).2]
  | none => rw [(call_unknown h).2]

/-- **What a call does to the entries**: that of its own name is made unless there is one, and no other changes. -/
theorem entry?_perform (cache : PackageCache) (call : Call) (name : String) :
    entry? (cache.perform call) name =
      if name = call.name then some ((cache.entry? name).getD (cache.learned call)) else cache.entry? name := by
  cases h : cache.entry? call.name with
  | some known =>
    rw [(call_known h).2]
    split
    · next hname => rw [hname, h]; rfl
    · rfl
  | none =>
    rw [(call_unknown h).2]
    by_cases hname : name = call.name
    · subst hname
      rw [if_pos rfl, h]
      simp [ entry?]
    · rw [if_neg hname, entry?, List.lookup_cons, beq_false_of_ne hname]
      rfl

/-- A question is put to the source by a call that asks for a package of which nothing is known, and by no other. -/
theorem asked_perform (cache : PackageCache) (call : Call) :
    (cache.perform call).asked =
      cache.asked ++ (if call.isGet ∧ cache.entry? call.name = none then [call.name] else []) := by
  cases h : cache.entry? call.name with
  | some known =>
    rw [(call_known h).2, if_neg (fun hand => nomatch hand.2), List.append_nil]
  | none =>
    rw [(call_unknown h).2]
    cases call.isGet <;> simp

/-! ## Many calls -/

@[simp] theorem source_after : ∀ (calls : List Call) (cache : PackageCache), (cache.after calls).source = cache.source
  | [], _ => rfl
  | call :: calls, cache => by rw [after_cons, source_after calls, source_perform]

/-- An entry that is there stays, and the source is not asked about its name any more. -/
theorem after_known {known : Option Package} {name : String} : ∀ (calls : List Call) (cache : PackageCache),
    cache.entry? name = some known →
      entry? (cache.after calls) name = some known ∧ (cache.after calls).asked.count name = cache.asked.count name
  | [], _, h => ⟨h, rfl⟩
  | call :: calls, cache, h => by
    have hentry : entry? (cache.perform call) name = some known := by
      rw [entry?_perform, h]
      split <;> rfl
    have hasked : (cache.perform call).asked.count name = cache.asked.count name := by
      rw [asked_perform, List.count_append]
      split
      · next hask =>
        have hname : call.name ≠ name := fun heq => by rw [heq, h] at hask; exact nomatch hask.2
        rw [List.count_singleton, beq_false_of_ne hname]
        rfl
      · rfl
    rw [after_cons, ← hasked]
    exact after_known calls _ hentry

/-- Calls that do not concern a name leave what is known about it, and ask nothing about it. -/
theorem after_apart {name : String} : ∀ (calls : List Call) (cache : PackageCache),
    (∀ call ∈ calls, call.name ≠ name) →
      entry? (cache.after calls) name = cache.entry? name ∧
        (cache.after calls).asked.count name = cache.asked.count name
  | [], _, _ => ⟨rfl, rfl⟩
  | call :: calls, cache, h => by
    have hname : call.name ≠ name := h call List.mem_cons_self
    have hentry : entry? (cache.perform call) name = cache.entry? name := by
      rw [entry?_perform, if_neg hname.symm]
    have hasked : (cache.perform call).asked.count name = cache.asked.count name := by
      rw [asked_perform, List.count_append]
      split
      · rw [List.count_singleton, beq_false_of_ne hname]; rfl
      · rfl
    rw [after_cons, ← hentry, ← hasked]
    exact after_apart calls _ fun c hc => h c (List.mem_cons_of_mem call hc)

/-- The questions asked so far stay the first ones. -/
theorem asked_after_append : ∀ (calls : List Call) (cache : PackageCache),
    ∃ more, (cache.after calls).asked = cache.asked ++ more
  | [], _ => ⟨[], (List.append_nil _).symm⟩
  | call :: calls, cache => by
    obtain ⟨more, hmore⟩ := asked_after_append calls (cache.perform call)
    rw [after_cons, hmore, asked_perform, List.append_assoc]
    exact ⟨_, rfl⟩

/-! ## The source -/

/-- A source that answers the questions asked by some calls the same makes no difference to them. -/
theorem after_source {other : PackageSource} : ∀ (calls : List Call) (cache : PackageCache),
    (∀ k name, cache.asked.length ≤ k → (cache.after calls).asked[k]? = some name → other k name = cache.source k name) →
      ({ cache with source := other } : PackageCache).after calls = { cache.after calls with source := other }
  | [], _, _ => rfl
  | call :: calls, cache, h => by
    have hstep : ({ cache with source := other } : PackageCache).perform call =
        { cache.perform call with source := other } := by
      cases hentry : cache.entry? call.name with
      | some known =>
        have hother : entry? ({ cache with source := other } : PackageCache) call.name = some known := hentry
        rw [(call_known hother).2, (call_known hentry).2]
      | none =>
        have hother : entry? ({ cache with source := other } : PackageCache) call.name = none := hentry
        rw [(call_unknown hother).2, (call_unknown hentry).2]
        have hlearned : ({ cache with source := other } : PackageCache).learned call = cache.learned call := by
          cases call with
          | insert p => rfl
          | get name =>
            obtain ⟨more, hmore⟩ := asked_after_append calls (cache.perform (.get name))
            have hasked : (cache.after (.get name :: calls)).asked[cache.asked.length]? = some name := by
              rw [after_cons, hmore, asked_perform, if_pos ⟨rfl, hentry⟩]
              simp [Call.name]
            exact congrArg (Option.map _) (h _ name (Nat.le_refl _) hasked)
        rw [hlearned]
    rw [after_cons, hstep, after_cons]
    refine after_source calls (cache.perform call) fun k name hk hasked => ?_
    rw [source_perform]
    refine h k name (Nat.le_trans ?_ hk) hasked
    rw [asked_perform, List.length_append]
    exact Nat.le_add_right _ _

/-- A fixed table answers every question as it says. -/
theorem answer_of_table {table : List (String × List String)} {cache : PackageCache} {name : String}
    (h : cache.source = .ofTable table) : cache.answer name = (table.lookup name).map (Package.ofExports name) := by
  rw [answer, h]
  rfl

/-! ## A cache from its start on -/

variable (source : PackageSource)

/-- The calls before the first one that concerns a name leave the name unknown. -/
theorem unknown_of_apart {calls : List Call} {name : String} (h : ∀ call ∈ calls, call.name ≠ name) :
    entry? ((ofSource source).after calls) name = none ∧ name ∉ ((ofSource source).after calls).asked := by
  obtain ⟨hentry, hasked⟩ := after_apart calls (ofSource source) h
  exact ⟨hentry, List.count_eq_zero.1 hasked⟩

/-- The entry the first call that concerns a name makes is the entry of the name after any further calls. -/
theorem entry_of_first {before later : List Call} {first : Call} (h : ∀ call ∈ before, call.name ≠ first.name) :
    entry? ((ofSource source).after (before ++ first :: later)) first.name =
        some (((ofSource source).after before).learned first) ∧
      ((ofSource source).after (before ++ first :: later)).asked.count first.name = if first.isGet then 1 else 0 := by
  obtain ⟨hnone, hasked⟩ := unknown_of_apart source h
  have hfirst : entry? (((ofSource source).after before).perform first) first.name =
      some (((ofSource source).after before).learned first) := by
    rw [entry?_perform, if_pos rfl, hnone]
    rfl
  obtain ⟨hentry, hcount⟩ := after_known later _ hfirst
  rw [after_append, after_cons]
  refine ⟨hentry, hcount.trans ?_⟩
  rw [asked_perform, List.count_append, List.count_eq_zero.2 hasked, hnone]
  cases first.isGet <;> simp

/-- What is known of a name that was only ever asked for is what a fixed table says. -/
theorem get_of_table (table : List (String × List String)) (names : List String) (name : String) :
    (((ofTable table).after (names.map .get)).get name).1 = (table.lookup name).map (Package.ofExports name) := by
  let cache := (ofTable table).after (names.map .get)
  have hanswer : cache.answer name = (table.lookup name).map (Package.ofExports name) :=
    answer_of_table (source_after _ _)
  by_cases hname : name ∈ names
  · obtain ⟨before, after, hnames, hbefore⟩ := List.eq_append_cons_of_mem hname
    have hcalls : names.map Call.get = before.map .get ++ .get name :: after.map .get := by
      rw [hnames, List.map_append, List.map_cons]
    have hapart : ∀ call ∈ before.map Call.get, call.name ≠ name := fun call hcall => by
      obtain ⟨other, hother, rfl⟩ := List.mem_map.1 hcall
      exact fun heq => hbefore (heq ▸ hother)
    have hentry : cache.entry? name = some (((ofTable table).after (before.map .get)).learned (.get name)) := by
      dsimp only [cache]
      rw [hcalls]
      exact (entry_of_first (.ofTable table) hapart).1
    have hreply : Reply.package (cache.get name).1 = .package _ := (@call_known cache (.get name) _ hentry).1
    rw [Reply.package.inj hreply]
    exact answer_of_table (source_after _ _)
  · have hapart : ∀ call ∈ names.map Call.get, call.name ≠ name := fun call hcall => by
      obtain ⟨other, hother, rfl⟩ := List.mem_map.1 hcall
      exact fun heq => hname (heq ▸ hother)
    have hnone := (unknown_of_apart (.ofTable table) hapart).1
    have hreply : Reply.package (cache.get name).1 = .package _ := (@call_unknown cache (.get name) hnone).1
    exact (Reply.package.inj hreply).trans hanswer

/-- **The first call that concerns a name settles it.**  Whatever the source answers and whatever is called before and
after, the entry of the name is the package the first call hands over or the source's answer at that moment, be it that
there is none; every further call about the name is answered by that entry and changes nothing.  The source is asked
once about a name whose first call asks for it and never about any other, so that a source that answers those questions
the same makes the same entries.  Over a fixed table whatever is asked is answered as the table says. -/
theorem settled_by_first_call :
    (∀ (before later : List Call) (first : Call), (∀ call ∈ before, call.name ≠ first.name) →
      let start := (ofSource source).after before
      let cache := (ofSource source).after (before ++ first :: later)
      start.reply first = first.replied (start.learned first) true ∧
      cache.entry? first.name = some (start.learned first) ∧
      (∀ call : Call, call.name = first.name →
        cache.reply call = call.replied (start.learned first) false ∧ cache.perform call = cache) ∧
      cache.asked.count first.name = if first.isGet then 1 else 0) ∧
    (∀ (calls : List Call) (name : String), (∀ call ∈ calls, call.name ≠ name) →
      entry? ((ofSource source).after calls) name = none ∧ name ∉ ((ofSource source).after calls).asked) ∧
    (∀ (calls : List Call) (other : PackageSource),
      (∀ k name, ((ofSource source).after calls).asked[k]? = some name → other k name = source k name) →
        (ofSource other).after calls = { (ofSource source).after calls with source := other }) ∧
    ∀ (table : List (String × List String)) (names : List String) (name : String),
      (((ofTable table).after (names.map .get)).get name).1 = (table.lookup name).map (Package.ofExports name) := by
  refine ⟨fun before later first h => ?_, fun calls name => unknown_of_apart source,
    fun calls other h => after_source calls (ofSource source) fun k name _ => h k name, get_of_table⟩
  have hnone := (unknown_of_apart source h).1
  obtain ⟨hentry, hcount⟩ := @entry_of_first source before later first h
  exact ⟨(call_unknown hnone).1, hentry, fun call hcall => call_known (hcall ▸ hentry), hcount⟩

/-- A source that knows nothing when first asked and everything later: the first answer stays, and a package handed over
before it is asked for keeps the source from being asked. -/
theorem settled_of_late_source :
    let source : PackageSource := fun k _ => if k = 0 then none else some ["filter"]
    let calls : List Call := [.get "dplyr", .insert ⟨"stats", ["median"]⟩, .get "dplyr", .get "stats"]
    let cache := (ofSource source).after calls
    cache.reply (.get "dplyr") = .package none ∧ cache.reply (.insert ⟨"dplyr", ["select"]⟩) = .stored false ∧
      cache.entry? "stats" = some (some ⟨"stats", ["median"]⟩) ∧ cache.asked = ["dplyr"] ∧
      cache.entry? "utils" = none := by
  intro source calls cache
  have hget := (settled_by_first_call source).1 [] calls.tail (.get "dplyr") nofun
  have hinsert := (settled_by_first_call source).1 [.get "dplyr"] [.get "dplyr", .get "stats"]
    (.insert ⟨"stats", ["median"]⟩) (by decide)
  have hother := (settled_by_first_call source).2.1 calls "utils" (by decide)
  exact ⟨(hget.2.2.1 (.get "dplyr") rfl).1, (hget.2.2.1 (.insert ⟨"dplyr", ["select"]⟩) rfl).1, hinsert.2.1,
    by decide, hother.1⟩

end PackageCache
end UnionScript
