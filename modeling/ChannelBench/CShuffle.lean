import ChannelBench.CArray
import ChannelBench.CMachine
import Mathlib.Algebra.BigOperators.Group.List.Lemmas
import Mathlib.Data.Nat.Factorial.BigOperators
import Mathlib.Data.Fintype.BigOperators
import Mathlib.Data.Fintype.Perm
import Mathlib.Data.List.OfFn
import Mathlib.Algebra.Group.End

/-! In-place shuffles. Round `i` of `n` exchanges entry `i` with one of the entries from `i` on, drawn by
its distance, so a shuffle is the product of these transpositions in order. Different draws give different
products, since the first position at which two draw vectors differ ends up with different entries, and
there are as many draw vectors as permutations. -/

namespace CSem

/-- The draws of a shuffle of `n` entries. -/
abbrev Draws (n : ℕ) : Type := (i : Fin n) → Fin (n - i)

variable {n : ℕ}

/-- The entry that round `i` exchanges with entry `i`. -/
def Draws.target (r : Draws n) (i : Fin n) : Fin n := ⟨i + r i, by have := (r i).isLt; omega⟩

/-- The exchanges in order. -/
def Draws.exchanges (r : Draws n) : List (Equiv.Perm (Fin n)) :=
  List.ofFn fun i => Equiv.swap i (r.target i)

/-- The permutation that the draws add up to. -/
def Draws.perm (r : Draws n) : Equiv.Perm (Fin n) := r.exchanges.prod

@[simp] theorem Draws.length_exchanges (r : Draws n) : r.exchanges.length = n := by
  rw [exchanges, List.length_ofFn]

theorem Draws.getElem_exchanges (r : Draws n) {i : ℕ} (hi : i < n) :
    getElem r.exchanges i (by rwa [r.length_exchanges]) = Equiv.swap ⟨i, hi⟩ (r.target ⟨i, hi⟩) := by
  simp [exchanges]

theorem Draws.le_target (r : Draws n) (i : Fin n) : i ≤ r.target i := Fin.mk_le_mk.mpr (Nat.le_add_right _ _)

/-! ### Every permutation comes from one draw vector -/

theorem prod_apply_of_fixed {α : Type} {l : List (Equiv.Perm α)} {k : α} (h : ∀ e ∈ l, e k = k) :
    l.prod k = k := by
  induction l with
  | nil => rfl
  | cons e l ih =>
      rw [List.prod_cons, Equiv.Perm.mul_apply, ih fun e' he' => h e' (List.mem_cons_of_mem e he'),
        h e List.mem_cons_self]

/-- The exchanges from round `i` on. -/
def Draws.permFrom (r : Draws n) (i : ℕ) : Equiv.Perm (Fin n) := (r.exchanges.drop i).prod

theorem Draws.permFrom_succ (r : Draws n) {i : ℕ} (hi : i < n) :
    r.permFrom i = Equiv.swap ⟨i, hi⟩ (r.target ⟨i, hi⟩) * r.permFrom (i + 1) := by
  rw [permFrom, List.drop_eq_getElem_cons (by rwa [r.length_exchanges]), List.prod_cons, r.getElem_exchanges hi]
  rfl

/-- Later rounds leave the earlier entries alone. -/
theorem Draws.permFrom_apply_of_lt (r : Draws n) {i : ℕ} {k : Fin n} (hk : (k : ℕ) < i) : r.permFrom i k = k := by
  apply prod_apply_of_fixed
  intro e he
  obtain ⟨j, hj, rfl⟩ := List.getElem_of_mem he
  rw [List.length_drop, r.length_exchanges] at hj
  rw [List.getElem_drop, r.getElem_exchanges (by omega)]
  have hle := r.le_target ⟨i + j, by omega⟩
  rw [Fin.le_def] at hle
  apply Equiv.swap_apply_of_ne_of_ne <;> rw [Ne, Fin.ext_iff] <;> dsimp only at hle ⊢ <;> omega

/-- The entry that round `i` brings to its place stays there. -/
theorem Draws.permFrom_apply_self (r : Draws n) {i : ℕ} (hi : i < n) :
    r.permFrom i ⟨i, hi⟩ = r.target ⟨i, hi⟩ := by
  rw [r.permFrom_succ hi, Equiv.Perm.mul_apply, r.permFrom_apply_of_lt (Nat.lt_succ_self i), Equiv.swap_apply_left]

theorem Draws.eq_of_target_eq {r r' : Draws n} {i : Fin n} (h : r.target i = r'.target i) : r i = r' i := by
  have hval := congrArg Fin.val h
  exact Fin.ext (Nat.add_left_cancel hval)

theorem Draws.perm_injective : Function.Injective (Draws.perm : Draws n → Equiv.Perm (Fin n)) := by
  intro r r' h
  have hstart : r.permFrom 0 = r'.permFrom 0 := h
  -- equal products from round `i` on have the same draw in round `i`
  have hfrom : ∀ i, i ≤ n → r.permFrom i = r'.permFrom i := by
    intro i hi
    induction i with
    | zero => exact hstart
    | succ i ih =>
        have hsame := ih (by omega)
        have htarget : r.target ⟨i, hi⟩ = r'.target ⟨i, hi⟩ := by
          rw [← r.permFrom_apply_self hi, ← r'.permFrom_apply_self hi, hsame]
        rw [r.permFrom_succ hi, r'.permFrom_succ hi, htarget] at hsame
        exact mul_left_cancel hsame
  funext i
  apply eq_of_target_eq
  rw [← r.permFrom_apply_self i.isLt, ← r'.permFrom_apply_self i.isLt, hfrom i (by omega)]

theorem card_draws (n : ℕ) : Fintype.card (Draws n) = n.factorial := by
  rw [Fintype.card_pi]
  simp only [Fintype.card_fin]
  rw [Fin.prod_univ_eq_prod_range (fun i => n - i) n, ← Nat.descFactorial_eq_prod_range, Nat.descFactorial_self]

/-- The draw vectors and the permutations correspond to each other. -/
theorem Draws.perm_bijective (n : ℕ) : Function.Bijective (Draws.perm : Draws n → Equiv.Perm (Fin n)) := by
  rw [Fintype.bijective_iff_injective_and_card, card_draws, Fintype.card_perm, Fintype.card_fin]
  exact ⟨Draws.perm_injective, rfl⟩

/-! ### What a permutation does to an array -/

/-- A permutation of the first `n` indices, on all indices. -/
def onIndex (e : Equiv.Perm (Fin n)) (k : ℕ) : ℕ := if h : k < n then e ⟨k, h⟩ else k

theorem onIndex_lt {e : Equiv.Perm (Fin n)} {k : ℕ} (hk : k < n) : onIndex e k < n := by
  rw [onIndex, dif_pos hk]
  exact (e ⟨k, hk⟩).isLt

theorem onIndex_of_le {e : Equiv.Perm (Fin n)} {k : ℕ} (hk : n ≤ k) : onIndex e k = k :=
  dif_neg (Nat.not_lt.mpr hk)

theorem onIndex_mul (e e' : Equiv.Perm (Fin n)) (k : ℕ) : onIndex (e * e') k = onIndex e (onIndex e' k) := by
  by_cases hk : k < n
  · rw [onIndex, onIndex, onIndex, dif_pos hk, dif_pos hk, dif_pos (Fin.isLt _), Equiv.Perm.mul_apply]
  · rw [onIndex_of_le (Nat.not_lt.mp hk), onIndex_of_le (Nat.not_lt.mp hk), onIndex_of_le (Nat.not_lt.mp hk)]

theorem onIndex_swap (i p : Fin n) (k : ℕ) : onIndex (Equiv.swap i p) k = Equiv.swap (i : ℕ) p k := by
  by_cases hk : k < n
  · rw [onIndex, dif_pos hk, Equiv.swap_apply_def, Equiv.swap_apply_def]
    simp only [Fin.ext_iff]
    split_ifs <;> rfl
  · have hi := i.isLt
    have hp := p.isLt
    rw [onIndex_of_le (Nat.not_lt.mp hk), Equiv.swap_apply_of_ne_of_ne (by omega) (by omega)]

/-- An array after a permutation of its first `n` entries. -/
structure Permuted {α : Type} (e : Equiv.Perm (Fin n)) (array array' : List α) : Prop where
  length_eq : array'.length = array.length
  getElem?_eq : ∀ k, array'[k]? = array[onIndex e k]?

section Permuted

variable {α : Type} {e : Equiv.Perm (Fin n)} {array array' array'' : List α}

theorem Permuted.refl (array : List α) : Permuted (1 : Equiv.Perm (Fin n)) array array := by
  refine ⟨rfl, ?_⟩
  intro k
  have hone : onIndex (1 : Equiv.Perm (Fin n)) k = k := by
    unfold onIndex
    split_ifs <;> rfl
  rw [hone]

theorem Permuted.swap (h : Permuted e array array') {i p : Fin n} (hswap : Swapped i p array' array'') :
    Permuted (e * Equiv.swap i p) array array'' := by
  refine ⟨hswap.length_eq.trans h.length_eq, ?_⟩
  intro k
  rw [hswap.getElem?_eq, h.getElem?_eq, onIndex_mul, onIndex_swap]

/-- The entries behind the first `n` stay. -/
theorem Permuted.drop_eq (h : Permuted e array array') : array'.drop n = array.drop n := by
  apply List.ext_getElem?
  intro k
  rw [List.getElem?_drop, List.getElem?_drop, h.getElem?_eq, onIndex_of_le (Nat.le_add_right n k)]

/-- The first entries of an array, one for each index. -/
theorem take_eq_ofFn (f : ℕ → ℕ) (hf : ∀ k, k < n → f k < array.length) (hn : n ≤ array'.length)
    (h : ∀ k, k < n → array'[k]? = array[f k]?) :
    array'.take n = List.ofFn fun i : Fin n => getElem array (f i) (hf i i.isLt) := by
  apply List.ext_getElem?
  intro k
  rw [List.getElem?_ofFn]
  by_cases hk : k < n
  · rw [List.getElem?_take_of_lt hk, h k hk, dif_pos hk, List.getElem?_eq_getElem (hf k hk)]
  · rw [dif_neg hk, List.getElem?_eq_none]
    rw [List.length_take]
    omega

/-- The first `n` entries are those of the array in another order. -/
theorem Permuted.take_perm (h : Permuted e array array') (hn : n ≤ array.length) :
    (array'.take n).Perm (array.take n) := by
  have hindex : ∀ k, k < n → onIndex e k < array.length := fun k hk => (onIndex_lt hk).trans_le hn
  have hnew := take_eq_ofFn (onIndex e) hindex (by rwa [h.length_eq]) fun k _ => h.getElem?_eq k
  have hold : array.take n = List.ofFn fun i : Fin n => getElem array (id (i : ℕ)) (i.isLt.trans_le hn) :=
    take_eq_ofFn id (fun k hk => hk.trans_le hn) hn fun k _ => rfl
  have hcomp : (fun i : Fin n => getElem array (onIndex e i) (hindex i i.isLt)) =
      (fun i : Fin n => getElem array (id (i : ℕ)) (i.isLt.trans_le hn)) ∘ e := by
    funext i
    simp only [onIndex, dif_pos i.isLt, Function.comp_apply, id_eq]
  rw [hnew, hold, hcomp]
  exact e.ofFn_comp_perm _

/-- An exchange keeps the multiset of the entries. -/
theorem Swapped.perm {i p : ℕ} (h : Swapped i p array array') (hi : i < array.length)
    (hp : p < array.length) : array'.Perm array := by
  have hpermuted := (Permuted.refl (n := array.length) array).swap (i := ⟨i, hi⟩) (p := ⟨p, hp⟩) h
  have hperm := hpermuted.take_perm (le_refl _)
  rwa [List.take_length, ← h.length_eq, List.take_length] at hperm

end Permuted

/-! ### The loop -/

section Loop

variable {σ : Type} (random : σ → ℕ × σ)

/-- The draws `random() % (n - i)`. -/
def drawsOf (n : ℕ) (world : σ) : Draws n :=
  fun i => ⟨(random (worldAt random world i)).1 % (n - i), Nat.mod_lt _ (by omega)⟩

/-- Every draw vector is what some source draws. -/
theorem exists_drawsOf (r : Draws n) : ∃ (draw : ℕ → ℕ), drawsOf (fun i => (draw i, i + 1)) n 0 = r := by
  refine ⟨fun i => if h : i < n then r ⟨i, h⟩ else 0, ?_⟩
  have hworld : ∀ (draw : ℕ → ℕ) i, worldAt (fun i => (draw i, i + 1)) 0 i = i := by
    intro draw i
    induction i with
    | zero => rfl
    | succ i ih => rw [worldAt_succ, ih]
  funext i
  apply Fin.ext
  show _ % (n - (i : ℕ)) = _
  rw [hworld]
  dsimp only
  rw [dif_pos i.isLt, Nat.mod_eq_of_lt (r i).isLt]

/-- The exchanges of the first rounds. -/
def Draws.permUpto (r : Draws n) (i : ℕ) : Equiv.Perm (Fin n) := (r.exchanges.take i).prod

theorem Draws.permUpto_succ (r : Draws n) {i : ℕ} (hi : i < n) :
    r.permUpto (i + 1) = r.permUpto i * Equiv.swap ⟨i, hi⟩ (r.target ⟨i, hi⟩) := by
  rw [permUpto, List.take_succ_eq_append_getElem (by rwa [r.length_exchanges]), List.prod_append,
    List.prod_singleton, r.getElem_exchanges hi]
  rfl

theorem Draws.permUpto_all (r : Draws n) : r.permUpto n = r.perm := by
  rw [permUpto, List.take_of_length_le r.length_exchanges.le]
  rfl

/-- One round of a shuffle, in which the source has drawn `i` times before. -/
theorem shuffleRound_returns {α : Type} {world : σ} {array array' : List α} {i : ℕ} (hi : i < n)
    (hn : n ≤ array.length) (h : Permuted ((drawsOf random n world).permUpto i) array array') :
    Returns (swapAt array' i ((random (worldAt random world i)).1 % (n - i) + i))
      (Permuted ((drawsOf random n world).permUpto (i + 1)) array) := by
  have hmod := Nat.mod_lt (random (worldAt random world i)).1 (show 0 < n - i by omega)
  apply (swapAt_returns (by rw [h.length_eq]; omega) (by rw [h.length_eq]; omega)).mono
  intro array'' hswap
  rw [Draws.permUpto_succ _ hi]
  apply h.swap
  rw [Nat.add_comm] at hswap
  exact hswap

/-- `for (i = 0; i < n; i++) { p = random() % (n - i) + i; exchange array[i] and array[p] }`. -/
theorem shuffle_returns {α : Type} {array : List α} (hn : n ≤ array.length) (world : σ) :
    Returns (forUpto (fun i st => do
        let draw := random st.2
        let p := draw.1 % (n - i) + i
        let array ← swapAt st.1 i p
        return (array, draw.2))
      n (array, world)) fun r =>
      Permuted (drawsOf random n world).perm array r.1 ∧ r.2 = worldAt random world n := by
  rw [← Draws.permUpto_all]
  have hstart : Permuted ((drawsOf random n world).permUpto 0) array array := .refl array
  apply forUpto_returns (fun i (st : List α × σ) =>
    Permuted ((drawsOf random n world).permUpto i) array st.1 ∧ st.2 = worldAt random world i) ⟨hstart, rfl⟩
  rintro i hi ⟨array', world'⟩ ⟨hpermuted, rfl⟩
  apply (shuffleRound_returns random hi hn hpermuted).bind
  intro array'' h
  exact returns_pure.mpr ⟨h, (worldAt_succ random world i).symm⟩

end Loop

end CSem
