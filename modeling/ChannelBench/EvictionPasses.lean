import ChannelBench.VList
import Mathlib.Algebra.Order.Group.Multiset
import Mathlib.Data.Multiset.Filter
import Mathlib.Tactic.Abel

/-! The passes of the eviction-set discovery, `checkevict`, `expand`, `contract` and `collect`, which
`cachemap.c` and `l3_arm.c` have in common. Everything outside the lists is a `Machine`: the source
of `random()` and the timed walk, both free to depend on a hidden state, so a machine may answer an
eviction test differently each time it is asked. Each pass has one rule. It holds of every machine,
and takes what is known about the answers as a relation `ans`. -/

namespace ChannelBench

open CSem

variable {σ Page : Type}

/-- What the search observes of the machine. `timedwalk` is given the links that `checkevict` wrote,
the page it starts at and the candidate. -/
structure Machine (σ Page : Type) where
  random : σ → ℕ × σ
  timedwalk : List (Page × Page) → Page → Page → σ → ℤ × σ
  l3Threshold : ℤ

/-- The links `checkevict` writes: from every page to the next one, and from the last to the first. -/
def linkPages (es : VList Page) : Run (List (Page × Page)) :=
  forUpto (fun i links => do
      let page ← vlGet es i
      let next ← vlGet es ((i + 1) % vlLen es)
      return links ++ [(page, next)])
    (vlLen es) []

/-- `checkevict`. -/
def checkevict (M : Machine σ Page) (es : VList Page) (candidate : Page) (world : σ) :
    Run (Bool × σ) := do
  if vlLen es = 0 then
    return (false, world)
  let links ← linkPages es
  let head ← vlGet es 0
  let timed := M.timedwalk links head candidate world
  return (decide (M.l3Threshold < timed.1), timed.2)

/-- One round of the loop of `expand`. -/
def expandRound (M : Machine σ Page) : VList Page × VList Page × σ →
    Run ((VList Page × VList Page × σ) ⊕ (Option Page × VList Page × VList Page × σ))
  | (es, candidates, world) => do
      if 0 < vlLen candidates then
        let (picked, candidates, world) ← vlPoprand M.random candidates world
        match picked with
        | none => throw .assertion
        | some current =>
            let (evicted, world) ← checkevict M es current world
            if evicted then
              return .inr (some current, es, candidates, world)
            let es ← vlPush es current
            return .inl (es, candidates, world)
      else
        return .inr (none, es, candidates, world)

/-- `expand`; `none` is `NULL`. Every round takes one page from the candidates. -/
def expand (M : Machine σ Page) (es candidates : VList Page) (world : σ) :
    Run (Option Page × VList Page × VList Page × σ) :=
  loop (expandRound M) (vlLen candidates + 1) (es, candidates, world)

/-- One round of the loop of `contract`. -/
def contractRound (M : Machine σ Page) (current : Page) : ℕ × VList Page × VList Page × σ →
    Run ((ℕ × VList Page × VList Page × σ) ⊕ (VList Page × VList Page × σ))
  | (i, es, candidates, world) => do
      if i < vlLen es then
        let cand ← vlGet es i
        let (_, es) ← vlDel es i
        let (evicted, world) ← checkevict M es current world
        if evicted then
          let candidates ← vlPush candidates cand
          return .inl (i, es, candidates, world)
        else
          let es ← vlInsert es i cand
          return .inl (i + 1, es, candidates, world)
      else
        return .inr (es, candidates, world)

/-- `contract`. Every round shortens `es` or moves on in it. -/
def contract (M : Machine σ Page) (es candidates : VList Page) (current : Page) (world : σ) :
    Run (VList Page × VList Page × σ) :=
  loop (contractRound M current) (vlLen es + 1) (0, es, candidates, world)

section Collect

variable (test : VList Page → Page → σ → Run (Bool × σ)) (es : VList Page)

/-- One round of the loop of `collect`, with any test for `checkevict`. -/
def collectRoundBy (i : ℕ) : VList Page × VList Page × σ → Run (VList Page × VList Page × σ)
  | (candidates, set, world) => do
      let (p, candidates) ← vlDel candidates i
      let (evicted, world) ← test es p world
      if evicted then
        let set ← vlPush set p
        return (candidates, set, world)
      else
        let candidates ← vlPush candidates p
        return (candidates, set, world)

/-- `collect` with any test for `checkevict`. -/
def collectBy (candidates set : VList Page) (world : σ) : Run (VList Page × VList Page × σ) :=
  forDownto (collectRoundBy test es) (vlLen candidates) (candidates, set, world)

end Collect

/-- `collect`. -/
def collect (M : Machine σ Page) (es candidates set : VList Page) (world : σ) :
    Run (VList Page × VList Page × σ) :=
  collectBy (checkevict M) es candidates set world

/-- A call of the eviction test, with its answer. -/
structure EvictionTest (Page : Type) where
  es : List Page
  page : Page
  evicted : Bool

/-- A test that also writes down its calls. -/
def logged (test : VList Page → Page → σ → Run (Bool × σ)) (es : VList Page) (candidate : Page)
    (st : σ × List (EvictionTest Page)) : Run (Bool × σ × List (EvictionTest Page)) := do
  let (evicted, world) ← test es candidate st.1
  return (evicted, world, st.2 ++ [⟨es.toList, candidate, evicted⟩])

/-- The pages that were tested with an answer, in the order of the tests. -/
def testedPages (evicted : Bool) (tests : List (EvictionTest Page)) : List Page :=
  (tests.filter (·.evicted == evicted)).map EvictionTest.page

theorem testedPages_concat (evicted : Bool) (tests : List (EvictionTest Page)) (t : EvictionTest Page) :
    testedPages evicted (tests ++ [t]) =
      testedPages evicted tests ++ if t.evicted = evicted then [t.page] else [] := by
  rw [testedPages, List.filter_append, List.map_append, ← testedPages]
  split_ifs with h
  · simp [h]
  · simp [h]

theorem testedPages_perm (tests : List (EvictionTest Page)) :
    (testedPages true tests ++ testedPages false tests).Perm (tests.map EvictionTest.page) := by
  have hneg : tests.filter (·.evicted == false) = tests.filter fun t => !(t.evicted == true) := by
    apply List.filter_congr
    intro t _
    cases t.evicted <;> rfl
  rw [testedPages, testedPages, ← List.map_append, hneg]
  exact (List.filter_append_perm _ tests).map _

/-- One round of `while (vl_len(from)) vl_push(to, vl_del(from, 0))`. -/
def drainRound : VList Page × VList Page →
    Run ((VList Page × VList Page) ⊕ (VList Page × VList Page))
  | (source, target) => do
      if vlLen source = 0 then
        return .inr (source, target)
      let (page, source) ← vlDel source 0
      let target ← vlPush target page
      return .inl (source, target)

/-- `while (vl_len(from)) vl_push(to, vl_del(from, 0))`. -/
def drain (source target : VList Page) : Run (VList Page × VList Page) :=
  loop drainRound (vlLen source + 1) (source, target)

/-- The pages in a list, without their order. -/
def VList.pages (vl : VList Page) : Multiset Page := (vl.toList : Multiset Page)

@[simp] theorem VList.card_pages (vl : VList Page) : vl.pages.card = vl.toList.length := rfl

theorem VList.pages_eq_zero {vl : VList Page} : vl.pages = 0 ↔ vl.toList = [] :=
  Multiset.coe_eq_zero _

theorem VList.pages_push {vl vl' : VList Page} {page : Page}
    (h : vl'.toList = vl.toList ++ [page]) : vl'.pages = page ::ₘ vl.pages := by
  rw [VList.pages, h, VList.pages, Multiset.cons_coe]
  exact Multiset.coe_eq_coe.mpr (List.perm_append_singleton _ _)

theorem VList.pages_swapRemove {vl vl' : VList Page} {i : ℕ} (hi : i < vl.toList.length)
    (h : vl'.toList = swapRemove vl.toList i) : vl.toList[i] ::ₘ vl'.pages = vl.pages := by
  rw [VList.pages, h, VList.pages, Multiset.cons_coe]
  exact Multiset.coe_eq_coe.mpr (perm_swapRemove hi)

end ChannelBench
