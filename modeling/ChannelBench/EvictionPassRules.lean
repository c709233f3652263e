import ChannelBench.EvictionPasses

/-! The rules of the passes. `Answers M ans` says that every eviction test of the machine ends and
that its answer satisfies `ans`; every machine satisfies it for the relation that is always true, so
the rules cover arbitrary noise as well as a machine whose answers mean something. -/

namespace ChannelBench

open CSem

variable {σ Page : Type} {M : Machine σ Page} {ans : List Page → Page → Bool → Prop}

/-- The links go out from every page of the eviction set, in order. -/
theorem linkPages_returns (es : VList Page) :
    Returns (linkPages es) fun links : List (Page × Page) =>
      links.map Prod.fst = es.toList := by
  have hrun : Returns (linkPages es) fun links : List (Page × Page) =>
      links.map Prod.fst = es.toList.take es.toList.length := by
    unfold linkPages
    rw [vlLen_eq]
    refine forUpto_returns (fun i (links : List (Page × Page)) => links.map Prod.fst = es.toList.take i)
      rfl ?_
    intro i hi links hlinks
    have hnext : (i + 1) % es.toList.length < es.toList.length := Nat.mod_lt _ (by omega)
    rw [vlGet_eq hi, vlGet_eq hnext]
    refine returns_ok.mpr ?_
    rw [List.map_append, hlinks, List.take_add_one, List.getElem?_eq_getElem hi]
    rfl
  rwa [List.take_length] at hrun

/-- Every test ends with an answer satisfying `ans`. -/
def Answers (M : Machine σ Page) (ans : List Page → Page → Bool → Prop) : Prop :=
  ∀ es candidate world,
    Returns (checkevict M es candidate world) fun r => ans es.toList candidate r.1

/-- An eviction test on a non-empty list walks the links it wrote. -/
theorem checkevict_returns (M : Machine σ Page) {es : VList Page} (candidate : Page) (world : σ)
    (hes : es.toList ≠ []) :
    Returns (checkevict M es candidate world) fun r => ∃ links head,
      links.map Prod.fst = es.toList ∧
        r.1 = decide (M.l3Threshold < (M.timedwalk links head candidate world).1) := by
  have hpos : 0 < es.toList.length := List.length_pos_of_ne_nil hes
  unfold checkevict
  rw [vlLen_eq, if_neg (by omega)]
  refine (linkPages_returns es).bind fun links hlinks => ?_
  rw [vlGet_eq hpos]
  exact returns_ok.mpr ⟨links, _, hlinks, rfl⟩

theorem checkevict_nil (M : Machine σ Page) {es : VList Page} (candidate : Page) (world : σ)
    (hes : es.toList = []) : checkevict M es candidate world = .ok (false, world) := by
  simp [checkevict, hes]
  rfl

/-- Every eviction test ends, whatever the machine does. -/
theorem answers_any (M : Machine σ Page) : Answers M fun _ _ _ => True := by
  intro es candidate world
  by_cases hes : es.toList = []
  · rw [checkevict_nil M candidate world hes]
    exact returns_ok.mpr trivial
  · exact (checkevict_returns M candidate world hes).mono fun _ _ => trivial

/-- What a call of `expand` ends with. -/
inductive Expanded (ans : List Page → Page → Bool → Prop) (J : List Page → Prop)
    (total : Multiset Page) : Option Page × VList Page × VList Page × σ → Prop
  | exhausted {es candidates : VList Page} {world : σ} (hJ : J es.toList)
      (hcandidates : candidates.toList = []) (hpages : es.pages = total) :
      Expanded ans J total (none, es, candidates, world)
  | evicted {c : Page} {es candidates : VList Page} {world : σ} (hJ : J es.toList)
      (htest : ans es.toList c true) (hpages : c ::ₘ (es.pages + candidates.pages) = total) :
      Expanded ans J total (some c, es, candidates, world)

/-- `expand` ends, with an eviction set for a page or with no candidates left. `J` is whatever
survives pushing a page that the list did not evict. -/
theorem expand_returns (hans : Answers M ans) {J : List Page → Prop}
    (hstep : ∀ es page, J es → ans es page false → J (es ++ [page]))
    (es candidates : VList Page) (world : σ) (hJ : J es.toList) :
    Returns (expand M es candidates world) (Expanded ans J (es.pages + candidates.pages)) := by
  refine loop_returns
    (fun s => J s.1.toList ∧ s.1.pages + s.2.1.pages = es.pages + candidates.pages) _
    (fun s => s.2.1.toList.length) ?_ ⟨hJ, rfl⟩ (by rw [vlLen_eq]; exact Nat.lt_succ_self _)
  rintro ⟨es', candidates', world'⟩ ⟨hJ', hpages⟩
  dsimp only at hJ' hpages
  rw [expandRound]
  by_cases hpos : 0 < vlLen candidates'
  · rw [if_pos hpos]
    have hne : candidates'.toList ≠ [] := List.ne_nil_of_length_pos (by rwa [← vlLen_eq])
    refine (vlPoprand_returns M.random world' hne).bind ?_
    rintro ⟨picked, rest, world''⟩ ⟨i, hi, rfl, hdel⟩
    have hrest := VList.pages_swapRemove hi hdel
    refine (hans es' _ world'').bind ?_
    rintro ⟨evicted, world'''⟩ htest
    cases evicted with
    | true =>
        refine returns_pure.mpr (.evicted hJ' htest ?_)
        rw [← Multiset.add_cons, hrest, hpages]
    | false =>
        refine (vlPush_returns es' _).bind fun es'' hpush => returns_pure.mpr ⟨⟨?_, ?_⟩, ?_⟩
        · simp only [hpush]
          exact hstep _ _ hJ' htest
        · simp only [VList.pages_push hpush]
          rw [Multiset.cons_add, ← Multiset.add_cons, hrest, hpages]
        · simp only [hdel, length_swapRemove]
          omega
  · rw [if_neg hpos]
    have hnil : candidates'.toList = [] := by
      rw [vlLen_eq, Nat.not_lt, Nat.le_zero] at hpos
      exact List.eq_nil_of_length_eq_zero hpos
    refine returns_pure.mpr (.exhausted hJ' hnil ?_)
    rw [← hpages, VList.pages_eq_zero.mpr hnil, add_zero]

section Contract

/-- Before a round of `contract`, `K` holds of the pages before the index and of those from it on, and the
pages that are gone are behind the candidates. -/
structure ContractInv (K : List Page → List Page → Prop) (es candidates : VList Page)
    (s : ℕ × VList Page × VList Page × σ) : Prop where
  split : ∃ kept rest, s.2.1.toList = kept ++ rest ∧ kept.length = s.1 ∧ K kept rest
  moved : ∃ removed, s.2.2.1.toList = candidates.toList ++ removed ∧
    (s.2.1.toList ++ removed).Perm es.toList

/-- One more page goes from a list to the end of another. -/
theorem moved_push {es es' es'' candidates candidates' candidates'' : VList Page} {page : Page}
    (hmoved : ∃ removed, candidates'.toList = candidates.toList ++ removed ∧
      (es'.toList ++ removed).Perm es.toList)
    (hback : (page :: es''.toList).Perm es'.toList) (hpush : candidates''.toList = candidates'.toList ++ [page]) :
    ∃ removed, candidates''.toList = candidates.toList ++ removed ∧
      (es''.toList ++ removed).Perm es.toList := by
  obtain ⟨removed, hcandidates, hperm⟩ := hmoved
  refine ⟨removed ++ [page], by rw [hpush, hcandidates, List.append_assoc], ?_⟩
  calc (es''.toList ++ (removed ++ [page])).Perm (page :: (es''.toList ++ removed)) := by
        rw [← List.append_assoc]
        exact List.perm_append_singleton _ _
    List.Perm _ (es'.toList ++ removed) := hback.append_right removed
    List.Perm _ es.toList := hperm

variable (hans : Answers M ans) {K : List Page → List Page → Prop} {current : Page}
  (hdrop : ∀ kept page rest rest', rest'.Perm rest → K kept (page :: rest) →
    ans (kept ++ rest') current true → K kept rest')
  (hkeep : ∀ kept page rest rest', rest'.Perm rest → K kept (page :: rest) →
    ans (kept ++ rest') current false → K (kept ++ [page]) rest)

include hans hdrop hkeep

/-- A round of `contract` gives up the page at the index or moves on behind it. -/
theorem contractRound_returns {es candidates : VList Page} {s : ℕ × VList Page × VList Page × σ}
    (h : ContractInv K es candidates s) :
    Returns (contractRound M current s) (Sum.elim
      (fun t => ContractInv K es candidates t ∧ t.2.1.toList.length - t.1 < s.2.1.toList.length - s.1)
      fun r => K r.1.toList [] ∧ ∃ removed, r.2.1.toList = candidates.toList ++ removed ∧
        (r.1.toList ++ removed).Perm es.toList) := by
  obtain ⟨i, es', candidates', world⟩ := s
  obtain ⟨⟨kept, rest, hsplit, hi, hK⟩, hmoved⟩ := h
  dsimp only at hsplit hi hmoved ⊢
  rw [contractRound]
  cases rest with
  | nil =>
      rw [List.append_nil] at hsplit
      have hend : ¬i < vlLen es' := by
        rw [vlLen_eq, hsplit, hi]
        exact lt_irrefl i
      rw [if_neg hend, returns_pure, Sum.elim_inr, hsplit]
      rw [hsplit] at hmoved
      exact ⟨hK, hmoved⟩
  | cons page rest =>
      have hlt : i < es'.toList.length := by
        rw [hsplit, List.length_append, List.length_cons]
        omega
      have hget : es'.toList[i] = page := by
        simp [hsplit, ← hi]
      rw [vlLen_eq, if_pos hlt, vlGet_eq hlt, hget]
      apply (vlDel_returns hlt).bind
      intro r hdeleted
      obtain ⟨_, es''⟩ := r
      obtain ⟨-, hdel⟩ := hdeleted
      obtain ⟨rest', hrest', hperm⟩ := swapRemove_split kept rest page
      have hes'' : es''.toList = kept ++ rest' := by
        rw [hdel, hsplit, ← hi, hrest']
      apply (hans es'' current world).bind
      intro r htest
      obtain ⟨evicted, world'⟩ := r
      dsimp only at htest ⊢
      rw [hes''] at htest
      cases evicted with
      | true =>
          apply (vlPush_returns candidates' page).bind
          intro candidates'' hpush
          have hback : (page :: es''.toList).Perm es'.toList := by
            rw [hdel, ← hget]
            exact perm_swapRemove hlt
          refine returns_pure.mpr ⟨⟨⟨kept, rest', hes'', hi, hdrop _ _ _ _ hperm hK htest⟩, ?_⟩, ?_⟩
          · exact moved_push hmoved hback hpush
          · simp only [hdel, length_swapRemove]
            omega
      | false =>
          have hle : i ≤ es''.toList.length := by
            rw [hes'', List.length_append]
            omega
          apply (vlInsert_returns page hle).bind
          intro es''' hinsert
          have hback : es'''.toList = es'.toList := by
            rw [hinsert, hdel, ← hget, swapInsert_swapRemove hlt]
          refine returns_pure.mpr ⟨⟨⟨kept ++ [page], rest, ?_, ?_, hkeep _ _ _ _ hperm hK htest⟩, ?_⟩, ?_⟩
          · simp [hback, hsplit]
          · simp [hi]
          · simp only [hback]
            exact hmoved
          · simp only [hback]
            omega

/-- `contract` ends, with the pages it gave up behind the candidates. `K kept rest` holds of the pages
it decided to keep and of those it has not looked at yet: it survives giving up a page that the others
do not need to evict `current`, and keeping one that they do. -/
theorem contract_returns {es candidates : VList Page} (world : σ) (hK : K [] es.toList) :
    Returns (contract M es candidates current world) fun r =>
      K r.1.toList [] ∧ ∃ removed, r.2.1.toList = candidates.toList ++ removed ∧
        (r.1.toList ++ removed).Perm es.toList := by
  have hstart : ContractInv K es candidates (0, es, candidates, world) :=
    ⟨⟨[], es.toList, rfl, rfl, hK⟩, [], by simp, by simp⟩
  apply loop_returns (ContractInv K es candidates) _ (fun s => s.2.1.toList.length - s.1) _ hstart
  · rw [vlLen_eq]
    exact Nat.lt_succ_self _
  · intro s hs
    exact contractRound_returns hans hdrop hkeep hs

end Contract

/-- Pages that went from one list to the end of another are still there. -/
theorem pages_of_removed {es candidates es' candidates' : VList Page}
    (h : ∃ removed, candidates'.toList = candidates.toList ++ removed ∧
      (es'.toList ++ removed).Perm es.toList) :
    es'.pages + candidates'.pages = es.pages + candidates.pages := by
  obtain ⟨removed, hcandidates, hperm⟩ := h
  have hes : es.pages = es'.pages + removed := Multiset.coe_eq_coe.mpr hperm.symm
  have hcand : candidates'.pages = candidates.pages + removed := by
    rw [VList.pages, hcandidates, VList.pages, ← Multiset.coe_add]
  rw [hes, hcand]
  abel

section Collect

variable {test : VList Page → Page → σ → Run (Bool × σ)} {es candidates set : VList Page} {world : σ}
  {answer : Page → Bool → Prop}

/-- The candidates from index `i` on are tested, the last one first. The hits went to the end of `set`, the
others are behind the untested ones, so the untested ones are where they were. Without the log the rounds that
are left lead to the same end. -/
private structure TestedFrom (test : VList Page → Page → σ → Run (Bool × σ)) (es candidates set : VList Page)
    (world : σ) (answer : Page → Bool → Prop) (i : ℕ)
    (s : VList Page × VList Page × σ × List (EvictionTest Page)) : Prop where
  bound : i ≤ candidates.toList.length
  order : s.2.2.2.map EvictionTest.page = (candidates.toList.drop i).reverse
  answers : ∀ t ∈ s.2.2.2, t.es = es.toList ∧ answer t.page t.evicted
  left : ∃ rejects, s.1.toList = candidates.toList.take i ++ rejects ∧
    rejects.Perm (testedPages false s.2.2.2)
  found : s.2.1.toList = set.toList ++ testedPages true s.2.2.2
  plain : forDownto (collectRoundBy test es) i (s.1, s.2.1, s.2.2.1) =
    collectBy test es candidates set world

/-- A deletion at the last of the untouched candidates returns it. -/
private theorem vlDel_untested {candidates' : VList Page} {l rejects : List Page} {i : ℕ} (hi : i < l.length)
    (hleft : candidates'.toList = l.take (i + 1) ++ rejects) :
    Returns (vlDel candidates' i) fun r => r.1 = l[i] ∧
      ∃ rejects', r.2.toList = l.take i ++ rejects' ∧ rejects'.Perm rejects := by
  rw [List.take_add_one, List.getElem?_eq_getElem hi, Option.toList_some, List.append_assoc,
    List.singleton_append] at hleft
  have htake : (l.take i).length = i := by
    rw [List.length_take]
    omega
  have hlt : i < candidates'.toList.length := by
    rw [hleft, List.length_append, List.length_cons]
    omega
  obtain ⟨rejects', hsplit, hperm⟩ := swapRemove_split (l.take i) rejects l[i]
  rw [htake, ← hleft] at hsplit
  apply (vlDel_returns hlt).mono
  intro r hr
  obtain ⟨hpage, hdel⟩ := hr
  refine ⟨?_, rejects', hdel.trans hsplit, hperm⟩
  rw [hpage]
  simp only [hleft]
  rw [List.getElem_append_right htake.le]
  simp only [htake, Nat.sub_self, List.getElem_cons_zero]

/-- A round whose candidate and answer are known. -/
private theorem collectRoundBy_eq {candidates rest set : VList Page} {i : ℕ} {p : Page} {world world' : σ}
    {evicted : Bool} (hdel : vlDel candidates i = .ok (p, rest)) (hrun : test es p world = .ok (evicted, world')) :
    collectRoundBy test es i (candidates, set, world) =
      if evicted then
        vlPush set p >>= fun set => pure (rest, set, world')
      else
        vlPush rest p >>= fun candidates => pure (candidates, set, world') := by
  rw [collectRoundBy, hdel, ok_bind]
  dsimp only
  rw [hrun]
  rfl

private theorem collectRoundBy_returns (htest : ∀ p world, Returns (test es p world) fun r => answer p r.1)
    (i : ℕ) (s : VList Page × VList Page × σ × List (EvictionTest Page))
    (hs : TestedFrom test es candidates set world answer (i + 1) s) :
    Returns (collectRoundBy (logged test) es i s) (TestedFrom test es candidates set world answer i) := by
  obtain ⟨candidates', set', world', tests⟩ := s
  obtain ⟨hi, horder, hanswers, ⟨rejects, hleft, hrejects⟩, hfound, hplain⟩ := hs
  dsimp only at horder hanswers hleft hrejects hfound hplain
  have hpage : i < candidates.toList.length := hi
  obtain ⟨⟨p, candidates''⟩, hdel, hp, rejects', hrest, hperm⟩ := vlDel_untested hpage hleft
  dsimp only at hp hrest
  subst hp
  obtain ⟨⟨evicted, world''⟩, hrun, hanswer⟩ := htest candidates.toList[i] world'
  dsimp only at hanswer
  let asked : EvictionTest Page := ⟨es.toList, candidates.toList[i], evicted⟩
  have horder' : (tests ++ [asked]).map EvictionTest.page = (candidates.toList.drop i).reverse := by
    rw [List.map_append, horder, List.drop_eq_getElem_cons hpage, List.reverse_cons]
    rfl
  have hanswers' : ∀ t ∈ tests ++ [asked], t.es = es.toList ∧ answer t.page t.evicted := by
    intro t ht
    rcases List.mem_append.mp ht with ht | ht
    · exact hanswers t ht
    · rw [List.mem_singleton.mp ht]
      exact ⟨rfl, hanswer⟩
  have hlogged : logged test es candidates.toList[i] (world', tests) =
      .ok (evicted, world'', tests ++ [asked]) := by
    rw [logged, hrun]
    rfl
  rw [forDownto, collectRoundBy_eq hdel hrun] at hplain
  rw [collectRoundBy_eq hdel hlogged]
  cases evicted with
  | true =>
      obtain ⟨set'', hpush, hset⟩ := vlPush_returns set' candidates.toList[i]
      rw [if_pos rfl, hpush] at hplain ⊢
      refine returns_pure.mpr ⟨hpage.le, horder', hanswers', ⟨rejects', hrest, ?_⟩, ?_, hplain⟩
      · rw [testedPages_concat, if_neg (fun h => nomatch h), List.append_nil]
        exact hperm.trans hrejects
      · rw [testedPages_concat, if_pos rfl, hset, hfound, List.append_assoc]
  | false =>
      obtain ⟨rest, hpush, hset⟩ := vlPush_returns candidates'' candidates.toList[i]
      rw [if_neg Bool.false_ne_true, hpush] at hplain ⊢
      refine returns_pure.mpr
        ⟨hpage.le, horder', hanswers', ⟨rejects' ++ [candidates.toList[i]], ?_, ?_⟩, ?_, hplain⟩
      · rw [hset, hrest, List.append_assoc]
      · rw [testedPages_concat, if_pos rfl]
        exact (hperm.trans hrejects).append_right _
      · rw [testedPages_concat, if_neg (fun h => nomatch h), List.append_nil]
        exact hfound

/-- `collect` tests every candidate once, the last one first. It appends those whose test was positive to
`set`, and those whose test was negative stay. -/
theorem collectBy_returns (htest : ∀ p world, Returns (test es p world) fun r => answer p r.1)
    (candidates set : VList Page) (world : σ) :
    Returns (collectBy (logged test) es candidates set (world, [])) fun r =>
      collectBy test es candidates set world = .ok (r.1, r.2.1, r.2.2.1) ∧
        r.2.2.2.map EvictionTest.page = candidates.toList.reverse ∧
        (∀ t ∈ r.2.2.2, t.es = es.toList ∧ answer t.page t.evicted) ∧
        r.2.1.toList = set.toList ++ testedPages true r.2.2.2 ∧
        r.1.toList.Perm (testedPages false r.2.2.2) := by
  have hstart : TestedFrom test es candidates set world answer (vlLen candidates) (candidates, set, world, []) := by
    refine ⟨(vlLen_eq candidates).le, ?_, fun t ht => absurd ht List.not_mem_nil, ⟨[], ?_, .refl _⟩, ?_, rfl⟩
    · rw [vlLen_eq, List.drop_length]
      rfl
    · rw [vlLen_eq, List.take_length, List.append_nil]
    · exact (List.append_nil _).symm
  apply (forDownto_returns _ (collectRoundBy_returns htest) hstart).mono
  intro r hr
  obtain ⟨-, horder, hanswers, ⟨rejects, hleft, hrejects⟩, hfound, hplain⟩ := hr
  rw [List.take_zero, List.nil_append] at hleft
  exact ⟨hplain.symm, horder, hanswers, hfound, hleft ▸ hrejects⟩

end Collect

/-- `collect` ends. It splits the candidates into those whose test was positive, which it appends to
`set`, and those whose test was negative, which stay. -/
theorem collect_returns (hans : Answers M ans) (es candidates set : VList Page) (world : σ) :
    Returns (collect M es candidates set world) fun r => ∃ hits,
      r.2.1.toList = set.toList ++ hits ∧ (hits ++ r.1.toList).Perm candidates.toList ∧
        (∀ p ∈ hits, ans es.toList p true) ∧ ∀ p ∈ r.1.toList, ans es.toList p false := by
  obtain ⟨r, -, hplain, horder, hanswers, hfound, hleft⟩ :=
    collectBy_returns (fun p world => hans es p world) candidates set world
  have hpages : ∀ evicted, ∀ p ∈ testedPages evicted r.2.2.2, ans es.toList p evicted := by
    intro evicted p hp
    obtain ⟨t, ht, rfl⟩ := List.mem_map.mp hp
    obtain ⟨ht, hevicted⟩ := List.mem_filter.mp ht
    rw [← beq_iff_eq.mp hevicted]
    exact (hanswers t ht).2
  rw [collect, hplain, returns_ok]
  refine ⟨testedPages true r.2.2.2, hfound, ?_, hpages true, fun p hp => hpages false p (hleft.mem_iff.mp hp)⟩
  calc (testedPages true r.2.2.2 ++ r.1.toList).Perm (testedPages true r.2.2.2 ++ testedPages false r.2.2.2) :=
        hleft.append_left _
    List.Perm _ (r.2.2.2.map EvictionTest.page) := testedPages_perm r.2.2.2
    _ = candidates.toList.reverse := horder
    List.Perm _ candidates.toList := List.reverse_perm _

/-- **One test for each candidate.** On distinct candidates `collect` tests every candidate once and no other
page, always with the same eviction set. It appends the pages whose test was positive to `set` and leaves those
whose test was negative. -/
theorem collect_tests_once (M : Machine σ Page) (es candidates set : VList Page) (world : σ)
    (hdistinct : candidates.toList.Nodup) :
    Returns (collectBy (logged (checkevict M)) es candidates set (world, [])) fun r =>
      collect M es candidates set world = .ok (r.1, r.2.1, r.2.2.1) ∧
        (r.2.2.2.map EvictionTest.page).Nodup ∧
        (∀ p, p ∈ r.2.2.2.map EvictionTest.page ↔ p ∈ candidates.toList) ∧
        (∀ t ∈ r.2.2.2, t.es = es.toList) ∧
        r.2.1.toList = set.toList ++ testedPages true r.2.2.2 ∧
        r.1.toList.Perm (testedPages false r.2.2.2) := by
  let anything : Page → Bool → Prop := fun _ _ => True
  have htest : ∀ p world, Returns (checkevict M es p world) fun r => anything p r.1 := answers_any M es
  apply (collectBy_returns htest candidates set world).mono
  intro r hr
  obtain ⟨hplain, horder, hanswers, hfound, hleft⟩ := hr
  refine ⟨hplain, ?_, ?_, fun t ht => (hanswers t ht).1, hfound, hleft⟩
  · rw [horder, List.nodup_reverse]
    exact hdistinct
  · intro p
    rw [horder, List.mem_reverse]

/-- A machine that answers yes and no in turn. -/
def alternatingMachine : Machine ℕ ℕ where
  random := fun draw => (draw, draw + 1)
  timedwalk := fun _ _ _ count => (if count % 2 = 0 then 300 else 100, count + 1)
  l3Threshold := 200

theorem collect_tests_once_alternating :
    Returns (collectBy (logged (checkevict alternatingMachine)) (VList.ofList [7, 8]) (VList.ofList [1, 2, 3])
        (VList.ofList [4]) (0, [])) fun r =>
      (r.2.2.2.map EvictionTest.page).Nodup ∧
        (∀ p, p ∈ r.2.2.2.map EvictionTest.page ↔ p ∈ [1, 2, 3]) ∧
        r.2.1.toList = [4] ++ testedPages true r.2.2.2 :=
  (collect_tests_once alternatingMachine (VList.ofList [7, 8]) (VList.ofList [1, 2, 3]) (VList.ofList [4]) 0
    (by decide)).mono fun _ h => ⟨h.2.1, h.2.2.1, h.2.2.2.2.1⟩

/-- Draining a list moves all its pages. -/
theorem drain_returns (source target : VList Page) :
    Returns (drain source target) fun r =>
      r.1.toList = [] ∧ r.2.pages = source.pages + target.pages := by
  refine loop_returns (fun s => s.1.pages + s.2.pages = source.pages + target.pages) _
    (fun s => s.1.toList.length) ?_ rfl (by rw [vlLen_eq]; exact Nat.lt_succ_self _)
  rintro ⟨source', target'⟩ hpages
  dsimp only at hpages
  rw [drainRound, vlLen_eq]
  by_cases hnil : source'.toList.length = 0
  · have hempty : source'.toList = [] := List.eq_nil_of_length_eq_zero hnil
    rw [if_pos hnil]
    refine returns_pure.mpr ⟨hempty, ?_⟩
    rw [← hpages, VList.pages_eq_zero.mpr hempty, zero_add]
  · have hpos : 0 < source'.toList.length := Nat.pos_of_ne_zero hnil
    rw [if_neg hnil]
    refine (vlDel_returns hpos).bind ?_
    rintro ⟨page, source''⟩ ⟨rfl, hdel⟩
    refine (vlPush_returns target' _).bind fun target'' hpush => returns_pure.mpr ⟨?_, ?_⟩
    · rw [← hpages, ← VList.pages_swapRemove hpos hdel]
      simp only [VList.pages_push hpush]
      rw [Multiset.add_cons, Multiset.cons_add]
    · simp only [hdel, length_swapRemove]
      omega

end ChannelBench
