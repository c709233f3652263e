import ChannelBench.EvictionPassRules

/-! The two eviction-set searches, `cm_linelist` of `cachemap.c` and `map` of `l3_arm.c`. Both repeat
a round that grows an eviction set, shrinks it, filters it by size and, if it passes, collects the
pages it evicts. They differ in the number of `contract` calls, in the number of failures they
tolerate, in what they do with the conflicting page of a rejected set and in how they collect. -/

namespace ChannelBench

open CSem

variable {σ Page : Type}

/-- The variables of the search loop. -/
structure SearchState (σ Page : Type) where
  lines : VList Page
  es : VList Page
  sets : VList (VList Page)
  fail : ℕ
  world : σ

/-- The state before the first round. -/
def SearchState.init (lines : VList Page) (world : σ) : SearchState σ Page where
  lines := lines
  es := vlNew
  sets := vlNew
  fail := 0
  world := world

/-- Calls of `contract` in a row. -/
def contractTimes (M : Machine σ Page) (count : ℕ) (es lines : VList Page) (c : Page) (world : σ) :
    Run (VList Page × VList Page × σ) :=
  forUpto (fun _ s => contract M s.1 s.2.1 c s.2.2) count (es, lines, world)

/-- `vl_len(es) > associativity || vl_len(es) < associativity - 3`. -/
def sizeRejected (associativity : ℤ) (es : VList Page) : Prop :=
  associativity < vlLen es ∨ vlLen es < associativity - 3

instance (associativity : ℤ) (es : VList Page) : Decidable (sizeRejected associativity es) :=
  inferInstanceAs (Decidable (_ ∨ _))

/-! ### x86 -/

/-- One round of the loop of `cm_linelist`. -/
def linelistRound (M : Machine σ Page) (l3Associativity : ℤ) (s : SearchState σ Page) :
    Run (SearchState σ Page ⊕ SearchState σ Page) := do
  if vlLen s.lines = 0 then
    return .inr s
  require (vlLen s.es = 0) .assertion
  if 5 < s.fail then
    return .inr s
  let (found, es, lines, world) ← expand M s.es s.lines s.world
  match found with
  | none =>
      let (es, lines) ← drain es lines
      return .inl { s with lines, es, world, fail := s.fail + 1 }
  | some c =>
      let (es, lines, world) ← contractTimes M 3 es lines c world
      if sizeRejected l3Associativity es then
        let (es, lines) ← drain es lines
        return .inl { s with lines, es, world, fail := s.fail + 1 }
      let set ← vlPush vlNew c
      let (lines, set, world) ← collect M es lines set world
      let (es, set) ← drain es set
      let sets ← vlPush s.sets set
      return .inl { lines, es, sets, world, fail := 0 }

/-- `struct cachemap`. -/
structure Cachemap (Page : Type) where
  nsets : ℕ
  sets : List (VList Page)

/-- `cm_linelist`: the cache map, and what is left in `lines`. -/
def cmLinelist (M : Machine σ Page) (l3Associativity : ℤ) (fuel : ℕ) (lines : VList Page)
    (world : σ) : Run (Cachemap Page × VList Page) := do
  let s ← loop (linelistRound M l3Associativity) fuel (SearchState.init lines world)
  let cmSets ← forUpto (fun i cmSets => do
      let set ← vlGet s.sets i
      return cmSets ++ [set])
    (vlLen s.sets) []
  return ({ nsets := vlLen s.sets, sets := cmSets }, s.lines)

/-- The round finds an eviction set for a page and rejects it for its size. -/
def linelistRejects (M : Machine σ Page) (l3Associativity : ℤ) (s : SearchState σ Page) : Bool :=
  if vlLen s.lines = 0 ∨ 5 < s.fail then false
  else
    match expand M s.es s.lines s.world with
    | .ok (some c, es, lines, world) =>
        match contractTimes M 3 es lines c world with
        | .ok (es, _, _) => decide (sizeRejected l3Associativity es)
        | .error _ => false
    | _ => false

/-- The eviction set that the round finds for a page and accepts. -/
def linelistAccepts (M : Machine σ Page) (l3Associativity : ℤ) (s : SearchState σ Page) : Option (VList Page) :=
  if vlLen s.lines = 0 ∨ 5 < s.fail then none
  else
    match expand M s.es s.lines s.world with
    | .ok (some c, es, lines, world) =>
        match contractTimes M 3 es lines c world with
        | .ok (es, _, _) => if sizeRejected l3Associativity es then none else some es
        | .error _ => none
    | _ => none

/-! ### ARM -/

/-- One round of `while (vl_len(es) < associativity && vl_len(set) > 0) vl_push(es, vl_pop(set))`. -/
def refillRound (associativity : ℤ) : VList Page × VList Page →
    Run ((VList Page × VList Page) ⊕ (VList Page × VList Page))
  | (es, set) => do
      if vlLen es < associativity ∧ 0 < vlLen set then
        let (popped, set) ← vlPop set
        match popped with
        | none => throw .assertion
        | some page =>
            let es ← vlPush es page
            return .inl (es, set)
      else
        return .inr (es, set)

/-- `while (vl_len(es) < associativity && vl_len(set) > 0) vl_push(es, vl_pop(set))`. -/
def refill (associativity : ℤ) (es set : VList Page) : Run (VList Page × VList Page) :=
  loop (refillRound associativity) (vlLen set + 1) (es, set)

/-- One round of the loop of `map`. -/
def mapRound (M : Machine σ Page) (associativity : ℤ) (s : SearchState σ Page) :
    Run (SearchState σ Page ⊕ SearchState σ Page) := do
  if vlLen s.lines = 0 then
    return .inr s
  require (vlLen s.es = 0) .assertion
  if 8 < s.fail then
    return .inr s
  let (found, es, lines, world) ← expand M s.es s.lines s.world
  match found with
  | none =>
      let (es, lines) ← drain es lines
      return .inl { s with lines, es, world, fail := s.fail + 1 }
  | some c =>
      let (es, lines, world) ← contractTimes M 5 es lines c world
      if sizeRejected associativity es then
        let lines ← vlPush lines c
        let (es, lines) ← drain es lines
        return .inl { s with lines, es, world, fail := s.fail + 1 }
      let set ← vlPush vlNew c
      let (lines, set, world) ← collect M es lines set world
      let (es, set) ← refill associativity es set
      let (lines, set, world) ← collect M es lines set world
      let (lines, set, world) ← collect M es lines set world
      let (es, set) ← drain es set
      let sets ← vlPush s.sets set
      return .inl { lines, es, sets, world, fail := 0 }

/-- `map` of `l3_arm.c`: the groups, and what is left in `lines`. The progress notification gets
three numbers and no access to the lists. -/
def l3Map (M : Machine σ Page) (associativity : ℤ) (fuel : ℕ) (lines : VList Page) (world : σ) :
    Run (VList (VList Page) × VList Page) := do
  let s ← loop (mapRound M associativity) fuel (SearchState.init lines world)
  return (s.sets, s.lines)

end ChannelBench
