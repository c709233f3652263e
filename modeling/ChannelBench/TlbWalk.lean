import ChannelBench.TlbState
import ChannelBench.CShuffle

/-! The chain that `allocbuf` lays out and the walk of `tlb_probe` along it. The order of the pages is a
permutation that leaves page 0 in front, so the words of the chain lie in different pages and no link of it
is 0; the walk stops where `secret` tells it to. -/

namespace ChannelBench

open CSem

variable {σ τ : Type}

/-! ### The order of the pages -/

/-- An order of the pages that starts with page 0. -/
structure PageOrder (pages : ℕ) (r : List ℕ) : Prop where
  perm : r.Perm (List.range pages)
  first : r[0]? = some 0

section Order

variable {pages : ℕ} {r : List ℕ}

theorem PageOrder.length_eq (h : PageOrder pages r) : r.length = pages := by
  rw [h.perm.length_eq, List.length_range]

theorem PageOrder.nodup (h : PageOrder pages r) : r.Nodup := h.perm.nodup_iff.mpr List.nodup_range

theorem PageOrder.lt (h : PageOrder pages r) {i : ℕ} (hi : i < r.length) : r[i] < pages :=
  List.mem_range.mp (h.perm.subset (List.getElem_mem hi))

/-- Only the first page of the order is page 0. -/
theorem PageOrder.pos (h : PageOrder pages r) {i : ℕ} (hi : i < r.length) (hpos : 0 < i) : 0 < r[i] := by
  have hlen : 0 < r.length := by omega
  have hfirst : r[0] = 0 := by
    have hget := h.first
    rw [List.getElem?_eq_getElem hlen] at hget
    exact Option.some.inj hget
  have hne : r[i] ≠ r[0] := by
    rw [Ne, h.nodup.getElem_inj_iff]
    omega
  omega

theorem tlbShuffle_returns (random : σ → ℕ × σ) (hpages : 0 < pages) (world : σ) :
    Returns (tlbShuffle random pages (List.range pages) world) fun st => PageOrder pages st.1 := by
  have hstart : PageOrder pages (List.range pages) := by
    refine ⟨.refl _, ?_⟩
    rw [List.getElem?_range hpages]
  apply forUpto_returns (fun _ (st : List ℕ × σ) => PageOrder pages st.1) hstart
  intro k hk st horder
  have hlen := horder.length_eq
  have hdraw := Nat.mod_lt (random st.2).1 (show 0 < pages - (k + 1) by omega)
  have hi : k + 1 < st.1.length := by omega
  have hj : k + 1 + (random st.2).1 % (pages - (k + 1)) < st.1.length := by omega
  apply (swapAt_returns hj hi).bind
  intro r hswap
  refine returns_pure.mpr ⟨(hswap.perm hj hi).trans horder.perm, ?_⟩
  rw [hswap.getElem?_eq, Equiv.swap_apply_of_ne_of_ne (by omega) (by omega)]
  exact horder.first

end Order

/-! ### The chain -/

/-- The word of the chain in the page at a position of the order. -/
def tlbCell (spy : ℕ) (r : List ℕ) (i : ℕ) : ℤ := (1024 * r.getD i 0 + offset i spy : ℕ)

theorem offset_lt (i spy : ℕ) : offset i spy < 1024 := by
  unfold offset
  split_ifs <;> decide

@[simp] theorem offset_zero (spy : ℕ) : offset 0 spy = 0 := by simp [offset]

section Cell

variable {pages spy i : ℕ} {r : List ℕ}

theorem tlbCell_eq (hi : i < r.length) : tlbCell spy r i = (1024 * r[i] + offset i spy : ℕ) := by
  rw [tlbCell, List.getD_eq_getElem?_getD, List.getElem?_eq_getElem hi, Option.getD_some]

theorem tlbCell_page (hi : i < r.length) : tlbCell spy r i / 1024 = r[i] := by
  have hoffset := offset_lt i spy
  rw [tlbCell_eq hi]
  omega

theorem tlbCell_offset : tlbCell spy r i % 1024 = offset i spy := by
  have hoffset := offset_lt i spy
  unfold tlbCell
  omega

theorem tlbCell_zero (h : PageOrder pages r) : tlbCell spy r 0 = 0 := by
  rw [tlbCell, List.getD_eq_getElem?_getD, h.first, offset_zero]
  rfl

theorem tlbCell_pos (h : PageOrder pages r) (hi : i < r.length) (hpos : 0 < i) : 0 < tlbCell spy r i := by
  have hpage := h.pos hi hpos
  rw [tlbCell_eq hi]
  omega

theorem tlbCell_injOn (h : PageOrder pages r) {j : ℕ} (hi : i < r.length) (hj : j < r.length)
    (heq : tlbCell spy r i = tlbCell spy r j) : i = j := by
  have hpage : tlbCell spy r i / 1024 = tlbCell spy r j / 1024 := congrArg (· / 1024) heq
  rw [tlbCell_page hi, tlbCell_page hj, Nat.cast_inj, h.nodup.getElem_inj_iff] at hpage
  exact hpage

/-- The pages of the first words of the chain. -/
theorem tlbCell_pages {k : ℕ} (hk : k ≤ r.length) :
    ((List.range k).map (tlbCell spy r)).map (· / 1024) = (r.take k).map Nat.cast := by
  apply List.ext_getElem
  · simp [hk]
  intro i hi hi'
  rw [List.length_map, List.length_take] at hi'
  simp only [List.getElem_map, List.getElem_range, List.getElem_take]
  exact tlbCell_page (by omega)

end Cell

/-- The words of a chain: each of them leads to the next one. -/
structure TlbChain (pages spy : ℕ) (r : List ℕ) (m : TlbBuf) : Prop where
  order : PageOrder pages r
  inside : ∀ i, i < pages → m.Inside (tlbCell spy r i)
  link : ∀ i, i + 1 < pages → m.words (tlbCell spy r i) = tlbCell spy r (i + 1)

/-- The words of a block do not matter for what is inside it. -/
theorem TlbBuf.write_eq {m : TlbBuf} (words : ℤ → ℤ) {i : ℤ} (value : ℤ) (h : m.Inside i) :
    { m with words }.write i value = .ok { m with words := Function.update words i value } := by
  have hinside : ({ m with words } : TlbBuf).Inside i := h
  rw [write, require_pos hinside]
  rfl

theorem tlbLink_returns {pages : ℕ} (spy : ℕ) {r : List ℕ} {m : TlbBuf} (hpages : 0 < pages)
    (horder : PageOrder pages r) (hinside : ∀ i, i < pages → m.Inside (tlbCell spy r i)) :
    Returns (tlbLink pages spy r m) fun m' =>
      TlbChain pages spy r m' ∧ ∃ words, m' = { m with words } := by
  have hlen := horder.length_eq
  have hloop : Returns (forUpto (fun i m => do
      let here ← readAt r i
      let next ← readAt r (i + 1)
      m.write (1024 * here + offset i spy : ℕ) (1024 * next + offset (i + 1) spy : ℕ)) (pages - 1) m) fun m' =>
      (∃ words, m' = { m with words }) ∧
        ∀ j, j < pages - 1 → m'.words (tlbCell spy r j) = tlbCell spy r (j + 1) := by
    apply forUpto_returns (fun i (m' : TlbBuf) => (∃ words, m' = { m with words }) ∧
      ∀ j, j < i → m'.words (tlbCell spy r j) = tlbCell spy r (j + 1))
      ⟨⟨m.words, rfl⟩, fun j hj => absurd hj (Nat.not_lt_zero j)⟩
    intro i hi m' hlinked
    obtain ⟨⟨words, rfl⟩, hlink⟩ := hlinked
    have hhere : i < r.length := by omega
    have hnext : i + 1 < r.length := by omega
    rw [readAt_eq hhere, ok_bind, readAt_eq hnext, ok_bind, ← tlbCell_eq hhere, ← tlbCell_eq hnext,
      TlbBuf.write_eq words _ (hinside _ (by omega)), returns_ok]
    refine ⟨⟨_, rfl⟩, ?_⟩
    intro j hj
    rcases Nat.lt_succ_iff_lt_or_eq.mp hj with hlt | rfl
    · have hne : tlbCell spy r j ≠ tlbCell spy r i := by
        intro heq
        have := tlbCell_injOn horder (by omega) hhere heq
        omega
      exact (Function.update_of_ne hne _ _).trans (hlink j hlt)
    · exact Function.update_self _ _ _
  apply hloop.bind
  intro m' hlinked
  obtain ⟨⟨words, rfl⟩, hlink⟩ := hlinked
  have hlast : pages - 1 < r.length := by omega
  rw [require_pos hpages, pure_bind, readAt_eq hlast, ok_bind, ← tlbCell_eq hlast,
    TlbBuf.write_eq words _ (hinside _ (by omega)), returns_ok]
  refine ⟨⟨horder, hinside, ?_⟩, _, rfl⟩
  intro i hi
  have hne : tlbCell spy r i ≠ tlbCell spy r (pages - 1) := by
    intro heq
    have := tlbCell_injOn horder (by omega) hlast heq
    omega
  exact (Function.update_of_ne hne _ _).trans (hlink i (by omega))

/-! ### The walk -/

/-- The words that a walk over `k` pages reads. -/
theorem tlbProbe_returns {pages spy : ℕ} {r : List ℕ} {m : TlbBuf} (h : TlbChain pages spy r m)
    (rdtscp : τ → BitVec 32 × τ) {k : ℕ} (hpos : 1 ≤ k) (hk : k ≤ pages) (world : τ) :
    Returns (tlbProbe rdtscp m k world) fun out => out.1 = (List.range k).map (tlbCell spy r) := by
  have hlen := h.order.length_eq
  have hround : Returns (loop (tlbProbeRound m) ((k : ℤ).toNat + 1) ⟨[], 0, k⟩) fun walk =>
      walk.reads = (List.range k).map (tlbCell spy r) := by
    apply loop_returns (fun (st : TlbWalk) => ∃ j, j < k ∧ st.reads = (List.range j).map (tlbCell spy r) ∧
      st.i = tlbCell spy r j ∧ st.secret = k - j) _ (fun st : TlbWalk => st.secret.toNat) _
      ⟨0, hpos, rfl, (tlbCell_zero h.order).symm, by simp⟩ (Nat.lt_succ_self _)
    intro st hst
    obtain ⟨reads, i, secret⟩ := st
    obtain ⟨j, hj, hreads, hi, hsecret⟩ := hst
    dsimp only at hreads hi hsecret ⊢
    subst hreads hi hsecret
    have hsucc : (List.range j).map (tlbCell spy r) ++ [tlbCell spy r j] =
        (List.range (j + 1)).map (tlbCell spy r) := by
      rw [List.range_succ, List.map_append]
      rfl
    rw [tlbProbeRound, TlbBuf.read, require_pos (h.inside j (by omega)), pure_bind, pure_bind]
    dsimp only
    rw [hsucc]
    by_cases hlast : j + 1 = k
    · -- the secret runs out, whatever the last word holds
      subst hlast
      split_ifs with hzero hmore
      · exact absurd hmore (by omega)
      · exact returns_pure.mpr rfl
      · exact returns_pure.mpr rfl
    · have hnext : 0 < tlbCell spy r (j + 1) := tlbCell_pos h.order (by omega) (Nat.succ_pos j)
      rw [h.link j (by omega), if_pos (by omega), if_pos (by omega), returns_pure]
      refine ⟨⟨j + 1, by omega, rfl, rfl, ?_⟩, ?_⟩
      · push_cast
        ring
      · dsimp only
        omega
  unfold tlbProbe
  dsimp only
  rw [if_neg (by omega)]
  apply hround.bind
  intro walk hwalk
  exact returns_pure.mpr hwalk

section Alloc

variable {sizeofPtr spy : ℕ} {C : TlbConfig}

/-- From 524287 pages on the size of the block is not an `int`. -/
theorem allocbuf_overflows (random : σ → ℕ × σ) (hpages : 524286 < C.pages spy)
    (b : Malloc sizeofPtr (C.pages spy * 4096 + 4096)) (leftovers : (ℤ → ℤ) × (Fin (C.pages spy) → ℕ))
    (world : σ) : allocbuf random C spy b leftovers world = .error .overflow := by
  have hint : ¬C.pages spy * 4096 + 4096 < 2 ^ 31 := by omega
  unfold allocbuf
  dsimp only
  rw [require, if_neg hint]
  rfl

/-- `allocbuf` lays out a chain, in page-aligned pages that lie in its block. -/
theorem allocbuf_returns (random : σ → ℕ × σ) (hpages : 1 ≤ C.pages spy) (hmax : C.pages spy ≤ 524286)
    (b : Malloc sizeofPtr (C.pages spy * 4096 + 4096)) (leftovers : (ℤ → ℤ) × (Fin (C.pages spy) → ℕ))
    (world : σ) :
    Returns (allocbuf random C spy b leftovers world) fun out =>
      (∃ r, TlbChain (C.pages spy) spy r out.1) ∧ out.1.block = b.address ∧
        out.1.size = C.pages spy * 4096 + 4096 ∧ out.1.buf % 4096 = 0 := by
  have hsize : C.pages spy ≤ (List.ofFn leftovers.2).length := by rw [List.length_ofFn]
  have hint : C.pages spy * 4096 + 4096 < 2 ^ 31 := by omega
  unfold allocbuf
  dsimp only
  rw [require_pos hint, pure_bind]
  apply (fill_returns (fun i => i) hsize).bind
  intro r hr
  have hr : r = List.range (C.pages spy) := by
    rw [hr, List.map_id', List.drop_of_length_le (by rw [List.length_ofFn]), List.append_nil]
  subst hr
  apply (tlbShuffle_returns random hpages world).bind
  intro st horder
  have hlen := horder.length_eq
  have hlinked := tlbLink_returns (m := {
    block := b.address
    size := C.pages spy * 4096 + 4096
    buf := (b.address + 4096) / 4096 * 4096
    words := leftovers.1 }) spy hpages horder ?_
  · apply hlinked.bind
    intro m hm
    obtain ⟨hchain, words, rfl⟩ := hm
    exact returns_pure.mpr ⟨⟨st.1, hchain⟩, rfl, rfl, Nat.mul_mod_left _ _⟩
  · intro i hi
    have hoffset := offset_lt i spy
    have hpage := horder.lt (show i < st.1.length by omega)
    rw [tlbCell_eq (by omega)]
    dsimp only [TlbBuf.Inside]
    omega

/-- The reads of a walk along `k` of the pages of a page-aligned buffer: one word in each of `k` different
pages, from page 0 on, and all of them in the block from `block` on. -/
structure WalksPages (block pages k buf : ℕ) (reads : List ℤ) : Prop where
  aligned : buf % 4096 = 0
  count : reads.length = k
  distinct : (reads.map (· / 1024)).Nodup
  first : (reads.map (· / 1024)).head? = some 0
  page : ∀ i ∈ reads, 0 ≤ i / 1024 ∧ i / 1024 < pages
  inside : ∀ i ∈ reads, (block : ℤ) ≤ buf + 4 * i ∧ buf + 4 * i + 4 ≤ (block + (pages * 4096 + 4096) : ℕ)

/-- **A walk touches as many pages as the secret says**, of a buffer whose size is an `int`. -/
theorem tlbProbe_walks_pages (random : σ → ℕ × σ) (hpages : 1 ≤ C.pages spy)
    (hmax : C.pages spy ≤ 524286) (b : Malloc sizeofPtr (C.pages spy * 4096 + 4096))
    (leftovers : (ℤ → ℤ) × (Fin (C.pages spy) → ℕ)) (world : σ) (rdtscp : τ → BitVec 32 × τ) {k : ℕ}
    (hpos : 1 ≤ k) (hk : k ≤ C.pages spy) (time : τ) :
    Returns (allocbuf random C spy b leftovers world) fun out =>
      Returns (tlbProbe rdtscp out.1 k time) fun walk =>
        WalksPages b.address (C.pages spy) k out.1.buf walk.1 := by
  apply (allocbuf_returns random hpages hmax b leftovers world).mono
  intro out hout
  obtain ⟨⟨r, hchain⟩, hblock, hsize, haligned⟩ := hout
  have hlen := hchain.order.length_eq
  apply (tlbProbe_returns hchain rdtscp hpos hk time).mono
  intro walk hreads
  have hpages' : walk.1.map (· / 1024) = (r.take k).map Nat.cast := by
    rw [hreads]
    exact tlbCell_pages (by omega)
  have hpage : ∀ i ∈ walk.1, 0 ≤ i / 1024 ∧ i / 1024 < (C.pages spy : ℕ) := by
    intro i hi
    have hmem : i / 1024 ∈ (r.take k).map Nat.cast := hpages' ▸ List.mem_map_of_mem hi
    obtain ⟨page, hmem, heq⟩ := List.mem_map.mp hmem
    have hlt := List.mem_range.mp (hchain.order.perm.subset (List.mem_of_mem_take hmem))
    omega
  refine ⟨haligned, ?_, ?_, ?_, hpage, ?_⟩
  · rw [hreads, List.length_map, List.length_range]
  · rw [hpages']
    exact (hchain.order.nodup.sublist (List.take_sublist k r)).map Nat.cast_injective
  · have hfirst : (r.take k)[0]? = some 0 := by
      rw [List.getElem?_take_of_lt hpos]
      exact hchain.order.first
    rw [hpages', List.head?_eq_getElem?, List.getElem?_map, hfirst]
    rfl
  · intro i hi
    rw [hreads] at hi
    obtain ⟨j, hj, rfl⟩ := List.mem_map.mp hi
    have hinside := hchain.inside j (lt_of_lt_of_le (List.mem_range.mp hj) hk)
    rwa [TlbBuf.Inside, hblock, hsize] at hinside

/-- The trojan's walk over three pages of the source's buffer. -/
theorem tlbProbe_walks_pages_three :
    Returns (allocbuf (fun draw => (draw, draw + 1)) tlbSpy 0 (⟨4096, by decide, by decide⟩ : Malloc 8 _)
        (fun _ => 0, fun _ => 0) 5) fun out =>
      Returns (tlbProbe (fun now => (BitVec.ofNat 32 now, now + 30)) out.1 3 100) fun walk =>
        WalksPages 4096 64 3 out.1.buf walk.1 :=
  tlbProbe_walks_pages _ (show 1 ≤ tlbSpy.pages 0 by decide) (by decide) ⟨4096, by decide, by decide⟩ _ _ _
    (k := 3) (by decide) (by decide) _

/-- The walk over one page of a million: the block for them has no size. -/
theorem tlbProbe_too_many_pages :
    ¬Returns (allocbuf (fun draw => (draw, draw + 1)) ⟨1048575, 1048575⟩ 1
        (⟨4096, by decide, by decide⟩ : Malloc 8 _) (fun _ => 0, fun _ => 0) 5) fun out =>
      Returns (tlbProbe (fun now => (BitVec.ofNat 32 now, now + 30)) out.1 1 100) fun walk =>
        WalksPages 4096 1048575 1 out.1.buf walk.1 := by
  rw [allocbuf_overflows _ (show 524286 < (⟨1048575, 1048575⟩ : TlbConfig).pages 1 by decide), returns_error]
  exact not_false

/-! ### The offsets in the pages -/

/-- The offset that the macro is meant to give: the sum of the product and of the conditional. -/
def spreadOffset (i spy : ℕ) : ℕ := i * 793 % 512 + if spy ≠ 0 ∧ i % 2 = 1 then 512 else 0

/-- A walk over different offsets, those of `spreadOffset`. -/
structure SpreadsOffsets (spy : ℕ) (reads : List ℤ) : Prop where
  distinct : (reads.map (· % 1024)).Nodup
  formula : reads.map (· % 1024) = (List.range reads.length).map fun i => (spreadOffset i spy : ℤ)

/-- Behind page 0 the macro gives the same offset to all pages up to page 511. -/
theorem offset_of_pos {i spy : ℕ} (hpos : 0 < i) (hi : i < 512) : offset i spy = 512 := by
  have hmod : i * 793 % 512 ≠ 0 := by omega
  rw [offset, if_pos (by omega)]

theorem offsets_nodup_iff {n spy : ℕ} :
    ((List.range n).map fun i => (offset i spy : ℤ)).Nodup ↔ n ≤ 2 := by
  rw [List.nodup_map_iff_inj_on List.nodup_range]
  constructor
  · intro hinj
    by_contra hn
    have hsame : (offset 1 spy : ℤ) = offset 2 spy := by
      rw [offset_of_pos (by decide) (by decide), offset_of_pos (by decide) (by decide)]
    have := hinj 1 (List.mem_range.mpr (by omega)) 2 (List.mem_range.mpr (by omega)) hsame
    omega
  · intro hn i hi j hj heq
    rw [List.mem_range] at hi hj
    have hone : offset 1 spy = 512 := offset_of_pos (by decide) (by decide)
    have hi : i = 0 ∨ i = 1 := by omega
    have hj : j = 0 ∨ j = 1 := by omega
    rcases hi with rfl | rfl <;> rcases hj with rfl | rfl <;> simp [hone] at heq ⊢

/-- The offsets of a walk over all pages. -/
theorem tlbProbe_offsets (random : σ → ℕ × σ) (hpages : 1 ≤ C.pages spy)
    (hmax : C.pages spy ≤ 524286) (b : Malloc sizeofPtr (C.pages spy * 4096 + 4096))
    (leftovers : (ℤ → ℤ) × (Fin (C.pages spy) → ℕ)) (world : σ) (rdtscp : τ → BitVec 32 × τ) (time : τ) :
    Returns (allocbuf random C spy b leftovers world) fun out =>
      Returns (tlbProbe rdtscp out.1 (C.pages spy) time) fun walk =>
        walk.1.length = C.pages spy ∧
          walk.1.map (· % 1024) = (List.range (C.pages spy)).map fun i => (offset i spy : ℤ) := by
  apply (allocbuf_returns random hpages hmax b leftovers world).mono
  intro out hout
  obtain ⟨r, hchain⟩ := hout.1
  apply (tlbProbe_returns hchain rdtscp hpages (le_refl _) time).mono
  intro walk hreads
  rw [hreads, List.length_map, List.length_range, List.map_map]
  exact ⟨rfl, List.map_congr_left fun i _ => tlbCell_offset⟩

/-- **When a walk over all pages spreads its accesses**: over a single page only. The offsets alone are
different for two pages as well. -/
theorem tlbProbe_spreads_iff (random : σ → ℕ × σ) (hpages : 1 ≤ C.pages spy)
    (hmax : C.pages spy ≤ 524286) (b : Malloc sizeofPtr (C.pages spy * 4096 + 4096))
    (leftovers : (ℤ → ℤ) × (Fin (C.pages spy) → ℕ)) (world : σ) (rdtscp : τ → BitVec 32 × τ) (time : τ) :
    Returns (allocbuf random C spy b leftovers world) fun out =>
      Returns (tlbProbe rdtscp out.1 (C.pages spy) time) fun walk =>
        (SpreadsOffsets spy walk.1 ↔ C.pages spy = 1) ∧
          ((walk.1.map (· % 1024)).Nodup ↔ C.pages spy ≤ 2) := by
  apply (tlbProbe_offsets random hpages hmax b leftovers world rdtscp time).mono
  intro out hwalk
  apply hwalk.mono
  intro walk hoffsets
  obtain ⟨hlength, hoffsets⟩ := hoffsets
  have hnodup : (walk.1.map (· % 1024)).Nodup ↔ C.pages spy ≤ 2 := by
    rw [hoffsets]
    exact offsets_nodup_iff
  refine ⟨⟨?_, ?_⟩, hnodup⟩
  · intro hspreads
    by_contra hne
    have hformula := hspreads.formula
    rw [hoffsets, hlength] at hformula
    have hone : (offset 1 spy : ℤ) = spreadOffset 1 spy :=
      List.map_inj_left.mp hformula 1 (List.mem_range.mpr (by omega))
    rw [offset_of_pos (by decide) (by decide), spreadOffset] at hone
    split_ifs at hone <;> omega
  · intro hsingle
    refine ⟨hnodup.mpr (by omega), ?_⟩
    rw [hoffsets, hlength, hsingle]
    simp [spreadOffset]

end Alloc

/-- The trojan's walk over the pages of the source's buffer. -/
theorem tlbProbe_spreads_iff_trojan :
    Returns (allocbuf (fun draw => (draw, draw + 1)) tlbSpy 0 (⟨4096, by decide, by decide⟩ : Malloc 8 _)
        (fun _ => 0, fun _ => 0) 5) fun out =>
      Returns (tlbProbe (fun now => (BitVec.ofNat 32 now, now + 30)) out.1 (tlbSpy.pages 0) 100) fun walk =>
        (SpreadsOffsets 0 walk.1 ↔ tlbSpy.pages 0 = 1) ∧
          ((walk.1.map (· % 1024)).Nodup ↔ tlbSpy.pages 0 ≤ 2) :=
  tlbProbe_spreads_iff _ (show 1 ≤ tlbSpy.pages 0 by decide) (by decide) ⟨4096, by decide, by decide⟩ _ _ _ _

/-- The spy's walk over the pages of the source's buffer repeats an offset. -/
theorem tlbProbe_not_spread :
    ¬Returns (allocbuf (fun draw => (draw, draw + 1)) tlbSpy 1 (⟨4096, by decide, by decide⟩ : Malloc 8 _)
        (fun _ => 0, fun _ => 0) 5) fun out =>
      Returns (tlbProbe (fun now => (BitVec.ofNat 32 now, now + 30)) out.1 (tlbSpy.pages 1) 100) fun walk =>
        (walk.1.map (· % 1024)).Nodup := by
  intro hspread
  have hpages : tlbSpy.pages 1 = 32 := rfl
  have hwalk := tlbProbe_offsets (fun draw => (draw, draw + 1)) (show 1 ≤ tlbSpy.pages 1 by decide)
    (by decide) (⟨4096, by decide, by decide⟩ : Malloc 8 _) (fun _ => 0, fun _ => 0) 5
    (fun now => (BitVec.ofNat 32 now, now + 30)) 100
  have hboth := hspread.and hwalk
  obtain ⟨out, -, hspread, hwalk⟩ := hboth
  obtain ⟨walk, -, hnodup, -, hoffsets⟩ := hspread.and hwalk
  rw [hoffsets, offsets_nodup_iff, hpages] at hnodup
  omega

end ChannelBench
