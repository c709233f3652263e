import ChannelBench.MpiKaratsuba

/-! Products of operands of different numbers of limbs, `mpihelp_mul_karatsuba_case` and `mpihelp_mul`. The
temporary space is allocated on demand, and a context keeps it for the products to come. -/

namespace ChannelBench

open CSem

/-- The limbs, and the first address that was not handed out yet. -/
structure LimbSpace where
  mem : Limbs
  free : ℕ

/-- `mpi_alloc_limb_space`. Space that was freed is not handed out again. -/
def mpiAllocLimbSpace (h : LimbSpace) (nlimbs : ℕ) : LimbSpace × ℕ := ({ h with free := h.free + nlimbs }, h.free)

/-- `struct karatsuba_ctx` but for `next`. A pointer is kept with its size. -/
structure KaratsubaCtx where
  tspace : Option (ℕ × ℕ) := none
  tp : Option (ℕ × ℕ) := none

/-- `if (!ctx->tspace || ctx->tspace_size < vsize) …`, and likewise for `tp`. -/
def reserve (h : LimbSpace) (space : Option (ℕ × ℕ)) (vsize : ℕ) : LimbSpace × (ℕ × ℕ) :=
  match space with
  | some (p, size) =>
      if size < vsize then
        let (h, p) := mpiAllocLimbSpace h (2 * vsize)
        (h, (p, vsize))
      else (h, (p, size))
  | none =>
      let (h, p) := mpiAllocLimbSpace h (2 * vsize)
      (h, (p, vsize))

/-- The high part of a product of `m + n` limbs at `tp` becomes that of the result, and the low part is added. -/
def addProduct (mem : Limbs) (prodp tp m n : ℕ) : Run Limbs := do
  let (mem, cy) ← mpihelpAddN mem prodp prodp tp m
  let (mem, _) ← mpihelpAdd1 mem (prodp + m) (tp + m) n cy
  return mem

/-- A round of the loop over the blocks of `vsize` limbs of `u`. -/
def karatsubaBlock (vp vsize tspace tp : ℕ) (st : Limbs × ℕ × ℕ × ℕ) :
    Run ((Limbs × ℕ × ℕ × ℕ) ⊕ (Limbs × ℕ × ℕ × ℕ)) := do
  let (mem, prodp, up, usize) := st
  let mem ← mpnMulNRecurse vsize mem tp up vp vsize tspace
  let mem ← addProduct mem prodp tp vsize vsize
  let st := (mem, prodp + vsize, up + vsize, usize - vsize)
  if vsize ≤ usize - vsize then
    return .inl st
  else
    return .inr st

/-- `if (usize >= vsize) …`: the blocks after the first one. -/
def karatsubaBlocks (h : LimbSpace) (tp : Option (ℕ × ℕ)) (prodp up usize vp vsize tspace : ℕ) :
    Run (LimbSpace × Option (ℕ × ℕ) × ℕ × ℕ × ℕ) := do
  if vsize ≤ usize then
    let (h, tp) := reserve h tp vsize
    let (mem, prodp, up, usize) ← loop (karatsubaBlock vp vsize tspace tp.1) (usize + 1) (h.mem, prodp, up, usize)
    return ({ h with mem := mem }, some tp, prodp, up, usize)
  else
    return (h, tp, prodp, up, usize)

/-- `mpihelp_mul_karatsuba_case`, for recursions of at most the given depth. The list is the context and those
behind it; one that is not there yet is a cleared one. -/
def mpihelpMulKaratsubaCase :
    ℕ → LimbSpace → ℕ → ℕ → ℕ → ℕ → ℕ → List KaratsubaCtx → Run (LimbSpace × List KaratsubaCtx)
  | 0, _, _, _, _, _, _, _ => throw .rounds
  | depth + 1, h, prodp, up, usize, vp, vsize, ctxs => do
      let ctx := ctxs.headD {}
      let (h, tspace) := reserve h ctx.tspace vsize
      let mem ← mpnMulNRecurse vsize h.mem prodp up vp vsize tspace.1
      let (h, tp, prodp, up, usize) ← karatsubaBlocks { h with mem := mem } ctx.tp (prodp + vsize) (up + vsize)
        (usize - vsize) vp vsize tspace.1
      let ctx := { tspace := some tspace, tp := tp }
      if usize ≠ 0 then
        -- the first branch is `mpihelp_mul` for a second operand below the threshold
        let (h, next) ← (if usize < karatsubaThreshold then do
            let (mem, _) ← mulRows h.mem tspace.1 vp vsize up usize
            return ({ h with mem := mem }, ctxs.tail)
          else
            mpihelpMulKaratsubaCase depth h tspace.1 vp vsize up usize ctxs.tail)
        let mem ← addProduct h.mem prodp tspace.1 vsize usize
        return ({ h with mem := mem }, ctx :: next)
      else
        return (h, ctx :: ctxs.tail)

/-- `mpihelp_mul`: the limbs after it, and the most significant limb of the product. -/
def mpihelpMul (h : LimbSpace) (prodp up usize vp vsize : ℕ) : Run (LimbSpace × Limb) := do
  if vsize < karatsubaThreshold then
    if vsize = 0 then
      return (h, 0)
    let (mem, cy) ← mulRows h.mem prodp up usize vp vsize
    return ({ h with mem := mem }, cy)
  let (h, _) ← mpihelpMulKaratsubaCase vsize h prodp up usize vp vsize []
  return (h, h.mem (prodp + (usize + vsize - 1)))

/-! ### The spaces of a context -/

/-- The spaces of a context and of those behind it, each of twice as many limbs as its size. -/
def blocks (ctxs : List KaratsubaCtx) : List (ℕ × ℕ) := ctxs.flatMap fun ctx => ctx.tspace.toList ++ ctx.tp.toList

/-- Limbs that were handed out, and to no context. -/
structure Held (free : ℕ) (ctxs : List KaratsubaCtx) (p n : ℕ) : Prop where
  below : p + n ≤ free
  clear : ∀ b ∈ blocks ctxs, Apart p n b.1 (2 * b.2)

/-- The spaces of contexts were handed out, and no limb was handed out twice. -/
def Separate (free : ℕ) : List KaratsubaCtx → Prop
  | [] => True
  | ctx :: next => (∀ b ∈ ctx.tspace, Held free next b.1 (2 * b.2)) ∧ (∀ b ∈ ctx.tp, Held free next b.1 (2 * b.2)) ∧
      (∀ b ∈ ctx.tspace, ∀ b' ∈ ctx.tp, Apart b.1 (2 * b.2) b'.1 (2 * b'.2)) ∧ Separate free next

section Spaces

variable {free free' p n q m : ℕ} {ctxs ctxs' : List KaratsubaCtx} {ctx : KaratsubaCtx} {b : ℕ × ℕ}

theorem mem_blocks_cons : b ∈ blocks (ctx :: ctxs) ↔ b ∈ ctx.tspace ∨ b ∈ ctx.tp ∨ b ∈ blocks ctxs := by
  simp [blocks]

theorem mem_blocks_headD (h : b ∈ (ctxs.headD {}).tspace ∨ b ∈ (ctxs.headD {}).tp) : b ∈ blocks ctxs := by
  cases ctxs with
  | nil => exact absurd h (by simp)
  | cons ctx next =>
      rw [mem_blocks_cons]
      rcases h with h | h
      · exact .inl h
      · exact .inr (.inl h)

theorem mem_blocks_tail (h : b ∈ blocks ctxs.tail) : b ∈ blocks ctxs := by
  cases ctxs with
  | nil => exact h
  | cons ctx next => exact mem_blocks_cons.mpr (.inr (.inr h))

theorem Held.part (h : Held free ctxs p n) (hp : p ≤ q) (hq : q + m ≤ p + n) : Held free ctxs q m where
  below := by
    have hbelow := h.below
    omega
  clear b hb := by
    have hclear := h.clear b hb
    omega

theorem Held.tail (h : Held free ctxs p n) : Held free ctxs.tail p n where
  below := h.below
  clear b hb := h.clear b (mem_blocks_tail hb)

/-- Contexts may keep spaces and get new ones. -/
theorem Held.later (h : Held free ctxs p n) (hfree : free ≤ free')
    (hblocks : ∀ b ∈ blocks ctxs', b ∈ blocks ctxs ∨ free ≤ b.1) : Held free' ctxs' p n where
  below := Nat.le_trans h.below hfree
  clear b hb := by
    have hbelow := h.below
    rcases hblocks b hb with hold | hnew
    · exact h.clear b hold
    · exact .inl (by omega)

theorem Separate.tail (h : Separate free ctxs) : Separate free ctxs.tail := by
  cases ctxs with
  | nil => trivial
  | cons ctx next => exact h.2.2.2

/-- More may be handed out. -/
theorem Separate.later : ∀ {ctxs : List KaratsubaCtx}, Separate free ctxs → free ≤ free' → Separate free' ctxs
  | [], _, _ => trivial
  | _ :: _, h, hfree => ⟨fun b hb => (h.1 b hb).later hfree fun _ => .inl,
      fun b hb => (h.2.1 b hb).later hfree fun _ => .inl, h.2.2.1, Separate.later h.2.2.2 hfree⟩

theorem Separate.tspace (h : Separate free ctxs) (hb : b ∈ (ctxs.headD {}).tspace) :
    Held free ctxs.tail b.1 (2 * b.2) := by
  cases ctxs with
  | nil => exact absurd hb (by simp)
  | cons ctx next => exact h.1 b hb

theorem Separate.tp (h : Separate free ctxs) (hb : b ∈ (ctxs.headD {}).tp) : Held free ctxs.tail b.1 (2 * b.2) := by
  cases ctxs with
  | nil => exact absurd hb (by simp)
  | cons ctx next => exact h.2.1 b hb

theorem Separate.apart (h : Separate free ctxs) {b' : ℕ × ℕ} (hb : b ∈ (ctxs.headD {}).tspace)
    (hb' : b' ∈ (ctxs.headD {}).tp) : Apart b.1 (2 * b.2) b'.1 (2 * b'.2) := by
  cases ctxs with
  | nil => exact absurd hb (by simp)
  | cons ctx next => exact h.2.2.1 b hb b' hb'

end Spaces

/-- A space that is large enough, the one that was there or a new one. -/
theorem reserve_spec (h : LimbSpace) (space : Option (ℕ × ℕ)) (vsize : ℕ) :
    ∃ (h' : LimbSpace) (b : ℕ × ℕ), reserve h space vsize = (h', b) ∧ h'.mem = h.mem ∧ h.free ≤ h'.free ∧ vsize ≤ b.2 ∧
      (b ∈ space ∨ h.free ≤ b.1 ∧ b.1 + 2 * b.2 ≤ h'.free) := by
  have hnew : ∃ (h' : LimbSpace) (b : ℕ × ℕ),
      (({ h with free := h.free + 2 * vsize } : LimbSpace), (h.free, vsize)) = (h', b) ∧ h'.mem = h.mem ∧
        h.free ≤ h'.free ∧ vsize ≤ b.2 ∧ (b ∈ space ∨ h.free ≤ b.1 ∧ b.1 + 2 * b.2 ≤ h'.free) :=
    ⟨_, _, rfl, rfl, Nat.le_add_right _ _, Nat.le_refl _, .inr ⟨Nat.le_refl _, Nat.le_refl _⟩⟩
  cases space with
  | none => exact hnew
  | some b =>
      obtain ⟨p, size⟩ := b
      unfold reserve
      dsimp only
      by_cases hlt : size < vsize
      · rw [if_pos hlt]
        exact hnew
      · rw [if_neg hlt]
        exact ⟨h, (p, size), rfl, rfl, Nat.le_refl _, Nat.le_of_not_lt hlt, .inl rfl⟩

/-! ### Blocks of the first operand -/

section Blocks

variable {prodp up vp vsize tspace tp t k m n : ℕ}

/-- A product of the next limbs is added, and the product so far extends to these. -/
theorem addProduct_returns (mem : Limbs) {u : Limbs} {V : ℕ} (hm : 0 < m) (hn : 0 < n) (hV : V < radix 32 ^ m)
    (hapart : Apart prodp (k + (m + n)) t (m + n)) (hsofar : num mem prodp (k + m) = num u up k * V)
    (hnext : num mem t (m + n) = num u (up + k) n * V) :
    Returns (addProduct mem (prodp + k) t m n) fun mem' =>
      num mem' prodp (k + n + m) = num u up (k + n) * V ∧ Writes (prodp + k) (m + n) mem mem' := by
  unfold addProduct
  apply (mpihelpAddN_returns mem hm (.inl (Nat.le_refl _)) (Apart.readsAhead (by omega))).bind
  intro r hr
  obtain ⟨mem1, cy⟩ := r
  obtain ⟨hsum1, -, hwrites1⟩ := hr
  dsimp only at hsum1 hwrites1 ⊢
  apply (mpihelpAdd1_returns mem1 cy hn (Apart.readsAhead (by omega))).bind
  intro r hr
  obtain ⟨mem2, lost⟩ := r
  obtain ⟨hsum2, -, hwrites2⟩ := hr
  dsimp only at hsum2 hwrites2 ⊢
  refine returns_pure.mpr ⟨?_, (hwrites1.mono (by omega) (by omega)).trans (hwrites2.mono (by omega) (by omega))⟩
  have hlow : num mem2 prodp k = num mem prodp k := by
    rw [hwrites2.num_eq (by omega), hwrites1.num_eq (by omega)]
  have hmid : num mem2 (prodp + k) m = num mem1 (prodp + k) m := hwrites2.num_eq (by omega)
  have hhigh : num mem1 (t + m) n = num mem (t + m) n := hwrites1.num_eq (by omega)
  have hresult : num mem2 prodp (k + n + m) =
      num mem2 prodp k + (num mem2 (prodp + k) m + num mem2 (prodp + k + m) n * radix 32 ^ m) * radix 32 ^ k := by
    rw [show k + n + m = k + (m + n) by omega, num_add, num_add]
  rw [num_add] at hsofar hnext
  rw [hhigh] at hsum2
  -- the carry that is lost is that of a product that fits
  have hvalue : num mem2 prodp (k + n + m) + lost.toNat * radix 32 ^ (k + n + m) = num u up (k + n) * V := by
    rw [hresult, hlow, hmid, num_add u up k n, pow_add, pow_add]
    linear_combination hsofar + radix 32 ^ k * hnext + radix 32 ^ k * hsum1 + radix 32 ^ (k + m) * hsum2
  have hfits : num u up (k + n) * V < radix 32 ^ (k + n + m) := by
    rw [pow_add]
    exact Nat.mul_lt_mul'' (num_lt u up (k + n)) hV
  have hlost : lost.toNat = 0 := by
    by_contra hne
    have hmul := Nat.mul_le_mul_right (radix 32 ^ (k + n + m)) (Nat.one_le_iff_ne_zero.mpr hne)
    omega
  rw [hlost, Nat.zero_mul] at hvalue
  exact hvalue

/-- The result, the operands and the temporary spaces of a product by blocks are apart. -/
structure BlockRanges (prodp up usize vp m tspace tp : ℕ) : Prop where
  prod_up : Apart prodp (usize + m) up usize
  prod_vp : Apart prodp (usize + m) vp m
  prod_tspace : Apart prodp (usize + m) tspace (2 * m)
  prod_tp : Apart prodp (usize + m) tp (2 * m)
  tspace_tp : Apart tspace (2 * m) tp (2 * m)
  tspace_up : Apart tspace (2 * m) up usize
  tspace_vp : Apart tspace (2 * m) vp m
  tp_up : Apart tp (2 * m) up usize
  tp_vp : Apart tp (2 * m) vp m

/-- The limbs that such a product writes. -/
abbrev InBlockRanges (prodp usize m tspace tp a : ℕ) : Prop :=
  ¬Apart a 1 prodp (usize + m) ∨ ¬Apart a 1 tspace (2 * m) ∨ ¬Apart a 1 tp (2 * m)

/-- The product of the first `k` limbs of `u`. -/
structure ProductSoFar (u : Limbs) (prodp up usize vp m tspace tp k : ℕ) (mem : Limbs) : Prop where
  value : num mem prodp (k + m) = num u up k * num u vp m
  frame : WritesIn (InBlockRanges prodp usize m tspace tp) u mem

/-- A round leaves the product of the blocks so far. -/
theorem karatsubaBlock_returns {u mem : Limbs} {usize : ℕ} (hm : 0 < m)
    (hranges : BlockRanges prodp up usize vp m tspace tp) (hk : k + m ≤ usize)
    (h : ProductSoFar u prodp up usize vp m tspace tp k mem) :
    Returns (mpnMulNRecurse m mem tp (up + k) vp m tspace >>= fun mem => addProduct mem (prodp + k) tp m m)
      (ProductSoFar u prodp up usize vp m tspace tp (k + m)) := by
  obtain ⟨hpu, hpv, hpt, hpp, htt, htu, htv, hqu, hqv⟩ := hranges
  apply (mpnMulNRecurse_multiplies hm (Nat.le_refl m) mem tp (up + k) vp tspace (by omega) (by omega) (by omega)
    (by omega) (by omega)).bind
  intro mem1 hmem1
  obtain ⟨hproduct, hwrites1⟩ := hmem1
  rw [h.frame.num_eq (by omega), h.frame.num_eq (by omega)] at hproduct
  have hsofar1 : num mem1 prodp (k + m) = num u up k * num u vp m := by rw [hwrites1.num_eq (by omega), h.value]
  rw [Nat.two_mul] at hproduct
  apply (addProduct_returns mem1 hm hm (num_lt u vp m) (by omega) hsofar1 hproduct).mono
  intro mem2 hmem2
  exact ⟨hmem2.1, (h.frame.trans (hwrites1.mono (by omega))).trans (hmem2.2.writesIn (by omega))⟩

theorem karatsubaLoop_returns {u mem : Limbs} {usize : ℕ} (hm : 0 < m)
    (hranges : BlockRanges prodp up usize vp m tspace tp) {fuel : ℕ} (hk : k + m ≤ usize) (hfuel : usize - k < fuel)
    (h : ProductSoFar u prodp up usize vp m tspace tp k mem) :
    Returns (loop (karatsubaBlock vp m tspace tp) fuel (mem, prodp + k, up + k, usize - k)) fun st =>
      ∃ j, j ≤ usize ∧ usize < j + m ∧ st.2 = (prodp + j, up + j, usize - j) ∧
        ProductSoFar u prodp up usize vp m tspace tp j st.1 := by
  apply loop_returns (fun st : Limbs × ℕ × ℕ × ℕ => ∃ j, j + m ≤ usize ∧ st.2 = (prodp + j, up + j, usize - j) ∧
      ProductSoFar u prodp up usize vp m tspace tp j st.1) _ fun st => st.2.2.2
  · rintro ⟨mem, p, q, rest⟩ ⟨j, hj, hst, hblocks⟩
    obtain ⟨rfl, rfl, rfl⟩ : p = prodp + j ∧ q = up + j ∧ rest = usize - j := by simpa using hst
    have hround := karatsubaBlock_returns hm hranges hj hblocks
    unfold karatsubaBlock
    dsimp only at hround ⊢
    rw [← bind_assoc]
    apply hround.bind
    intro mem' hmem'
    have hnext : (prodp + j + m, up + j + m, usize - j - m) = (prodp + (j + m), up + (j + m), usize - (j + m)) := by
      rw [Nat.add_assoc, Nat.add_assoc, Nat.sub_sub]
    by_cases hmore : m ≤ usize - j - m
    · rw [if_pos hmore]
      apply returns_pure.mpr
      exact ⟨⟨j + m, by omega, hnext, hmem'⟩, by show usize - j - m < usize - j; omega⟩
    · rw [if_neg hmore]
      exact returns_pure.mpr ⟨j + m, by omega, by omega, hnext, hmem'⟩
  · exact ⟨k, hk, rfl, h⟩
  · exact hfuel

/-- What is left when fewer than `m` limbs of `u` are left, with what happened to `tp`. -/
structure BlocksDone (u : Limbs) (free : ℕ) (tp : Option (ℕ × ℕ)) (prodp up usize vp m tspace : ℕ)
    (r : LimbSpace × Option (ℕ × ℕ) × ℕ × ℕ × ℕ) : Prop where
  rest : ∃ j, j ≤ usize ∧ usize < j + m ∧ r.2.2 = (prodp + j, up + j, usize - j) ∧
    num r.1.mem prodp (j + m) = num u up j * num u vp m
  frame : ∀ a, a < free → Apart a 1 prodp (usize + m) → Apart a 1 tspace (2 * m) →
    (∀ b ∈ tp, Apart a 1 b.1 (2 * b.2)) → r.1.mem a = u a
  grows : free ≤ r.1.free
  space : ∀ b ∈ r.2.1, b ∈ tp ∨ free ≤ b.1 ∧ b.1 + 2 * b.2 ≤ r.1.free

theorem karatsubaBlocks_returns {u : Limbs} {h : LimbSpace} {usize : ℕ} {tp : Option (ℕ × ℕ)} (hm : 0 < m)
    (hle : m ≤ usize) (hsofar : num h.mem prodp (m + m) = num u up m * num u vp m)
    (hframe : ∀ a, Apart a 1 prodp (usize + m) → Apart a 1 tspace (2 * m) → h.mem a = u a)
    (hranges : ∀ b : ℕ × ℕ, m ≤ b.2 → b ∈ tp ∨ h.free ≤ b.1 → BlockRanges prodp up usize vp m tspace b.1) :
    Returns (karatsubaBlocks h tp (prodp + m) (up + m) (usize - m) vp m tspace)
      (BlocksDone u h.free tp prodp up usize vp m tspace) := by
  unfold karatsubaBlocks
  by_cases hmore : m ≤ usize - m
  · rw [if_pos hmore]
    obtain ⟨h', b, hreserve, hmem, hfree, hb, hold⟩ := reserve_spec h tp m
    rw [hreserve]
    dsimp only
    rw [hmem]
    have hspaces := hranges b hb (hold.imp id And.left)
    have hstart : ProductSoFar u prodp up usize vp m tspace b.1 m h.mem := by
      refine ⟨hsofar, ?_⟩
      intro a ha
      exact hframe a (by omega) (by omega)
    apply (karatsubaLoop_returns hm hspaces (by omega) (Nat.lt_succ_self _) hstart).bind
    intro st hst
    obtain ⟨mem', p, q, rest⟩ := st
    obtain ⟨j, hj, hrest, hst, hdone⟩ := hst
    apply returns_pure.mpr
    constructor
    · exact ⟨j, hj, hrest, hst, hdone.value⟩
    · intro a ha hprod htspace htp
      apply hdone.frame
      rcases hold with hold | hnew
      · have hclear := htp b hold
        omega
      · omega
    · exact hfree
    · intro b' hb'
      obtain rfl : b = b' := by simpa using hb'
      exact hold
  · rw [if_neg hmore]
    apply returns_pure.mpr
    constructor
    · exact ⟨m, hle, by omega, rfl, hsofar⟩
    · intro a _ hprod htspace _
      exact hframe a hprod htspace
    · exact Nat.le_refl _
    · intro b hb
      exact .inl hb

end Blocks

/-! ### Products by blocks -/

section Multiply

variable {h : LimbSpace} {ctxs : List KaratsubaCtx} {prodp up usize vp vsize : ℕ}

theorem Separate.below {free : ℕ} : ∀ {ctxs : List KaratsubaCtx}, Separate free ctxs →
    ∀ b ∈ blocks ctxs, b.1 + 2 * b.2 ≤ free
  | [], _, b, hb => absurd hb (by simp [blocks])
  | ctx :: next, hsep, b, hb => by
      rcases mem_blocks_cons.mp hb with h | h | h
      · exact (hsep.1 b h).below
      · exact (hsep.2.1 b h).below
      · exact Separate.below hsep.2.2.2 b h

/-- What a product leaves: its value, the limbs that are held, and contexts whose spaces are theirs or new. -/
structure Multiplied (h : LimbSpace) (ctxs : List KaratsubaCtx) (prodp n value : ℕ)
    (r : LimbSpace × List KaratsubaCtx) : Prop where
  value : num r.1.mem prodp n = value
  frame : ∀ a, Held h.free ctxs a 1 → Apart a 1 prodp n → r.1.mem a = h.mem a
  grows : h.free ≤ r.1.free
  spaces : ∀ b ∈ blocks r.2, b ∈ blocks ctxs ∨ h.free ≤ b.1
  separate : Separate r.1.free r.2

theorem Multiplied.num_eq {n value q m : ℕ} {r : LimbSpace × List KaratsubaCtx}
    (hr : Multiplied h ctxs prodp n value r) (hq : Held h.free ctxs q m) (hapart : Apart q m prodp n) :
    num r.1.mem q m = num h.mem q m :=
  num_congr fun i hi => hr.frame (q + i) (hq.part (by omega) (by omega)) (by omega)

/-- The product of the blocks leaves fewer limbs of `u` than `v` has, and these are multiplied next. -/
theorem mpihelpMulKaratsubaCase_returns : ∀ {depth : ℕ} {h : LimbSpace} {ctxs : List KaratsubaCtx}
    {prodp up usize vp vsize : ℕ}, 0 < vsize → vsize ≤ usize → vsize ≤ depth → Separate h.free ctxs →
    Held h.free ctxs prodp (usize + vsize) → Held h.free ctxs up usize → Held h.free ctxs vp vsize →
    Apart prodp (usize + vsize) up usize → Apart prodp (usize + vsize) vp vsize →
      Returns (mpihelpMulKaratsubaCase depth h prodp up usize vp vsize ctxs)
        (Multiplied h ctxs prodp (usize + vsize) (num h.mem up usize * num h.mem vp vsize))
  | 0, _, _, _, _, _, _, _, hv, _, hdepth, _, _, _, _, _, _ => absurd hv (by omega)
  | depth + 1, h, ctxs, prodp, up, usize, vp, vsize, hv, hle, hdepth, hsep, hprod, hu, hvp, hpu, hpv => by
      obtain ⟨h1, t, hreserve, hmem1, hgrows1, hsize, hold⟩ := reserve_spec h (ctxs.headD {}).tspace vsize
      -- the temporary space is apart from what is held
      have htspace : ∀ {q m : ℕ}, Held h.free ctxs q m → Apart q m t.1 (2 * t.2) := by
        intro q m hq
        rcases hold with hold | hnew
        · exact hq.clear t (mem_blocks_headD (.inl hold))
        · have hbelow := hq.below
          omega
      have ht : Held h1.free ctxs.tail t.1 (2 * t.2) := by
        rcases hold with hold | hnew
        · exact (hsep.tspace hold).later hgrows1 fun b hb => .inl hb
        · refine ⟨hnew.2, fun b hb => .inr ?_⟩
          have hbelow := hsep.tail.below b hb
          omega
      have htp := htspace hprod
      have htu := htspace hu
      have htv := htspace hvp
      unfold mpihelpMulKaratsubaCase
      dsimp only
      rw [hreserve]
      dsimp only
      rw [hmem1]
      apply (mpnMulNRecurse_multiplies hv (Nat.le_refl _) h.mem prodp up vp t.1 (by omega) (by omega) (by omega)
        (by omega) (by omega)).bind
      intro mem2 hmem2
      obtain ⟨hfirst, hwrites2⟩ := hmem2
      rw [Nat.two_mul] at hfirst
      have htpspace : ∀ b : ℕ × ℕ, b ∈ (ctxs.headD {}).tp ∨ h1.free ≤ b.1 → Apart t.1 (2 * t.2) b.1 (2 * b.2) := by
        intro b hb
        rcases hb with hb | hb
        · rcases hold with hold | hnew
          · exact hsep.apart hold hb
          · have hbelow := (hsep.tp hb).below
            omega
        · have hbelow := ht.below
          omega
      have hranges : ∀ b : ℕ × ℕ, vsize ≤ b.2 → b ∈ (ctxs.headD {}).tp ∨ h1.free ≤ b.1 →
          BlockRanges prodp up usize vp vsize t.1 b.1 := by
        intro b hb hbold
        have hclear : ∀ {q m : ℕ}, Held h.free ctxs q m → Apart q m b.1 (2 * b.2) := by
          intro q m hq
          rcases hbold with hbold | hnew
          · exact hq.clear b (mem_blocks_headD (.inr hbold))
          · have hbelow := hq.below
            omega
        have hbp := hclear hprod
        have hbu := hclear hu
        have hbv := hclear hvp
        have hbt := htpspace b hbold
        constructor <;> omega
      apply (karatsubaBlocks_returns (u := h.mem) (h := ⟨mem2, h1.free⟩) hv hle hfirst
        (by intro a _ _; exact hwrites2 a (by omega)) hranges).bind
      intro r hr
      obtain ⟨h3, tp, p, q, rest⟩ := r
      obtain ⟨⟨j, hj, hrest, hst, hvalue3⟩, hframe3, hgrows3, hspace3⟩ := hr
      obtain ⟨rfl, rfl, rfl⟩ : p = prodp + j ∧ q = up + j ∧ rest = usize - j := by simpa using hst
      dsimp only at hvalue3 hframe3 hgrows3 hspace3 ⊢
      have hkeep3 : ∀ a, Held h.free ctxs a 1 → Apart a 1 prodp (usize + vsize) → h3.mem a = h.mem a := by
        intro a ha hap
        have hat := htspace ha
        have hbelow := ha.below
        exact hframe3 a (by omega) hap (by omega) fun b hb => ha.clear b (mem_blocks_headD (.inr hb))
      have hgrows : h.free ≤ h3.free := Nat.le_trans hgrows1 hgrows3
      have hlater : ∀ {q m : ℕ}, Held h.free ctxs q m → Held h3.free ctxs.tail q m := fun hq =>
        hq.tail.later hgrows fun b hb => .inl hb
      have ht3 : Held h3.free ctxs.tail t.1 (2 * t.2) := ht.later hgrows3 fun b hb => .inl hb
      -- the context keeps its spaces, next to those of the contexts behind it
      have hctx : ∀ {free : ℕ} {next : List KaratsubaCtx}, h3.free ≤ free →
          (∀ b ∈ blocks next, b ∈ blocks ctxs.tail ∨ h3.free ≤ b.1) → Separate free next →
            Separate free ({ tspace := some t, tp := tp } :: next) ∧
              ∀ b ∈ blocks ({ tspace := some t, tp := tp } :: next), b ∈ blocks ctxs ∨ h.free ≤ b.1 := by
        intro free next hfree hnext hsepnext
        refine ⟨⟨?_, ?_, ?_, hsepnext⟩, ?_⟩
        · intro b hb
          obtain rfl : t = b := by simpa using hb
          exact ht3.later hfree hnext
        · intro b hb
          rcases hspace3 b hb with hbold | hnew
          · exact ((hsep.tp hbold).later hgrows fun b hb => .inl hb).later hfree hnext
          · refine Held.later (show Held h3.free ctxs.tail b.1 (2 * b.2) from ?_) hfree hnext
            refine ⟨hnew.2, fun b' hb' => .inr ?_⟩
            have hbelow := hsep.tail.below b' hb'
            omega
        · intro b hb b' hb'
          obtain rfl : t = b := by simpa using hb
          exact htpspace b' ((hspace3 b' hb').imp id And.left)
        · intro b hb
          rcases mem_blocks_cons.mp hb with hb | hb | hb
          · obtain rfl : t = b := by simpa using hb
            exact hold.imp (fun hb => mem_blocks_headD (.inl hb)) And.left
          · exact (hspace3 b hb).imp (fun hb => mem_blocks_headD (.inr hb)) fun hb => by omega
          · exact (hnext b hb).imp mem_blocks_tail (by omega)
      by_cases hdone : usize - j = 0
      · rw [if_neg (not_not.mpr hdone)]
        obtain rfl : j = usize := by omega
        obtain ⟨hsep', hspaces'⟩ := hctx (Nat.le_refl _) (fun b hb => .inl hb)
          (Separate.later hsep.tail hgrows)
        exact returns_pure.mpr ⟨hvalue3, hkeep3, hgrows, hspaces', hsep'⟩
      · rw [if_pos hdone]
        have hrestlt : usize - j < vsize := by omega
        have hvp3 : num h3.mem vp vsize = num h.mem vp vsize :=
          num_congr fun i hi => hkeep3 (vp + i) (hvp.part (by omega) (by omega)) (by omega)
        have hup3 : num h3.mem (up + j) (usize - j) = num h.mem (up + j) (usize - j) :=
          num_congr fun i hi => hkeep3 (up + j + i) (hu.part (by omega) (by omega)) (by omega)
        have hrestprod : Returns (if usize - j < karatsubaThreshold then do
              let (mem, _) ← mulRows h3.mem t.1 vp vsize (up + j) (usize - j)
              return (({ h3 with mem := mem } : LimbSpace), ctxs.tail)
            else mpihelpMulKaratsubaCase depth h3 t.1 vp vsize (up + j) (usize - j) ctxs.tail)
            (Multiplied h3 ctxs.tail t.1 (vsize + (usize - j))
              (num h.mem vp vsize * num h.mem (up + j) (usize - j))) := by
          rw [← hvp3, ← hup3]
          by_cases hsmall : usize - j < karatsubaThreshold
          · rw [if_pos hsmall]
            apply (mulRows_returns h3.mem hv (by omega) (by omega) (by omega)).bind
            intro r hr
            obtain ⟨hvalue, -, hwrites⟩ := hr
            apply returns_pure.mpr
            exact ⟨hvalue, fun a _ ha => hwrites a (by omega), Nat.le_refl _, fun b hb => .inl hb,
              hsep.tail.later hgrows⟩
          · rw [if_neg hsmall]
            exact mpihelpMulKaratsubaCase_returns (by omega) (by omega) (by omega) (hsep.tail.later hgrows)
              (ht3.part (Nat.le_refl _) (by omega)) (hlater hvp) ((hlater hu).part (by omega) (by omega))
              (by omega) (by omega)
        apply hrestprod.bind
        intro r hr
        obtain ⟨h4, next⟩ := r
        dsimp only
        have hrest4 : num h4.mem t.1 (vsize + (usize - j)) = num h.mem (up + j) (usize - j) * num h.mem vp vsize := by
          rw [hr.value, Nat.mul_comm]
        have hsofar4 : num h4.mem prodp (j + vsize) = num h.mem up j * num h.mem vp vsize := by
          rw [hr.num_eq ((hlater hprod).part (by omega) (by omega)) (by omega), hvalue3]
        apply (addProduct_returns h4.mem hv (by omega) (num_lt h.mem vp vsize) (by omega) hsofar4 hrest4).bind
        intro mem5 hmem5
        obtain ⟨hvalue5, hwrites5⟩ := hmem5
        rw [Nat.add_sub_cancel' hj] at hvalue5
        obtain ⟨hsep', hspaces'⟩ := hctx hr.grows hr.spaces hr.separate
        apply returns_pure.mpr
        refine ⟨hvalue5, ?_, Nat.le_trans hgrows hr.grows, hspaces', hsep'⟩
        intro a ha hap
        have hat := htspace ha
        show mem5 a = h.mem a
        rw [hwrites5 a (by omega), hr.frame a (hlater ha) (by omega), hkeep3 a ha hap]

/-- `mpihelp_mul` leaves the product, and returns its most significant limb. -/
theorem mpihelpMul_returns {h : LimbSpace} {prodp up usize vp vsize : ℕ} (hv : 0 < vsize) (hle : vsize ≤ usize)
    (hprod : prodp + (usize + vsize) ≤ h.free) (hu : up + usize ≤ h.free) (hvp : vp + vsize ≤ h.free)
    (hpu : Apart prodp (usize + vsize) up usize) (hpv : Apart prodp (usize + vsize) vp vsize) :
    Returns (mpihelpMul h prodp up usize vp vsize) fun r =>
      num r.1.mem prodp (usize + vsize) = num h.mem up usize * num h.mem vp vsize ∧
        r.2 = r.1.mem (prodp + (usize + vsize - 1)) ∧ h.free ≤ r.1.free ∧
        ∀ a, a < h.free → Apart a 1 prodp (usize + vsize) → r.1.mem a = h.mem a := by
  have hnone : ∀ {q m : ℕ}, q + m ≤ h.free → Held h.free [] q m :=
    fun hq => ⟨hq, fun b hb => absurd hb (by simp [blocks])⟩
  unfold mpihelpMul
  by_cases hsmall : vsize < karatsubaThreshold
  · rw [if_pos hsmall, if_neg (by omega)]
    apply (mulRows_returns h.mem (by omega) hv hpu hpv).bind
    intro r hr
    obtain ⟨hvalue, htop, hwrites⟩ := hr
    exact returns_pure.mpr ⟨hvalue, htop, Nat.le_refl _, fun a _ ha => hwrites a (by omega)⟩
  · rw [if_neg hsmall]
    apply (mpihelpMulKaratsubaCase_returns hv hle (Nat.le_refl _) (show Separate h.free [] from trivial) (hnone hprod)
      (hnone hu) (hnone hvp) hpu hpv).bind
    intro r hr
    exact returns_pure.mpr ⟨hr.value, rfl, hr.grows, fun a ha => hr.frame a (hnone ha)⟩

end Multiply

end ChannelBench
