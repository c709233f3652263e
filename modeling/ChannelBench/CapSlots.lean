import Mathlib.Algebra.Ring.Nat
import Mathlib.Data.Int.ConditionallyCompleteOrder
import Mathlib.Order.ConditionallyCompleteLattice.Basic
import Mathlib.Tactic.Common

/-! The capabilities a benchmark process presents to its allocator. The process knows the first free slot of
its CSpace only, so `bench_support.c` reconstructs the used slots from the layout that `sel4utils` gives to
every process: the null slot is never used, the slot of the ASID pool is empty on x86-64, and the two slots
of the real-time kernel are empty elsewhere. One function counts the used slots and another one numbers
them, each with its own treatment of the holes. -/

namespace ChannelBench

/-- The configuration switches that decide which slots are holes. -/
structure CapConfig where
  archX86_64 : Bool
  kernelRt : Bool
  deriving DecidableEq, Repr

/-- The CSpace of a process: where `sel4utils` puts the holes, and the first free slot behind them. The
slots of a CSpace are numbered within the range of `int`. -/
structure CspaceLayout where
  asidPoolSlot : ℕ
  schedContextSlot : ℕ
  firstFree : ℕ
  one_lt_asidPool : 1 < asidPoolSlot
  asidPool_lt_schedContext : asidPoolSlot < schedContextSlot
  schedContext_lt_firstFree : schedContextSlot + 1 < firstFree
  firstFree_lt : firstFree < 2 ^ 31

/-- A process with the ASID pool in slot 4, the two slots of the real-time kernel behind the TCB, and five
capabilities that the manager copied into its CSpace. -/
def processLayout : CspaceLayout where
  asidPoolSlot := 4
  schedContextSlot := 6
  firstFree := 13
  one_lt_asidPool := by decide
  asidPool_lt_schedContext := by decide
  schedContext_lt_firstFree := by decide
  firstFree_lt := by decide

variable (config : CapConfig) (cspace : CspaceLayout)

/-- `get_cap_count`; `int last` takes a `seL4_CPtr`. -/
def getCapCount : ℤ :=
  let last := (cspace.firstFree : ℤ).bmod (2 ^ 32)
  let last := last - 1
  let last := if config.archX86_64 then last - 1 else last
  if !config.kernelRt then last - 2 else last

/-- `get_nth_cap`; the `int` is returned as a `seL4_CPtr`. -/
def getNthCap (n : ℤ) : ℕ :=
  if n < getCapCount config cspace then
    let n := n + 1
    let n := if config.archX86_64 ∧ cspace.asidPoolSlot ≤ n then n + 1 else n
    let n := if !config.kernelRt ∧ cspace.schedContextSlot ≤ n then n + 2 else n
    (n % 2 ^ 64).toNat
  else 0

/-- The slots that hold a capability. -/
def usedSlots : Set ℕ :=
  {slot | 1 ≤ slot ∧ slot < cspace.firstFree ∧ (config.archX86_64 = true → slot ≠ cspace.asidPoolSlot) ∧
    (config.kernelRt = false → slot ≠ cspace.schedContextSlot ∧ slot ≠ cspace.schedContextSlot + 1)}

/-! ### Skipping a hole -/

/-- The numbers from `hole` on, moved up by `size`. -/
def skip (hole size n : ℤ) : ℤ := if hole ≤ n then n + size else n

theorem skip_strictMono (hole : ℤ) {size : ℤ} (hsize : 0 ≤ size) : StrictMono (skip hole size) := by
  intro m n hmn
  unfold skip
  split_ifs <;> omega

/-- What is skipped is the hole. -/
theorem exists_skip {hole size m : ℤ} :
    (∃ n, skip hole size n = m) ↔ ¬(hole ≤ m ∧ m < hole + size) := by
  unfold skip
  constructor
  · rintro ⟨n, rfl⟩
    split_ifs <;> omega
  · intro hm
    by_cases hlow : m < hole
    · exact ⟨m, if_neg (by omega)⟩
    · refine ⟨m - size, ?_⟩
      rw [if_pos (by omega)]
      omega

/-! ### The slots in order -/

/-- The number of slots in the hole of the ASID pool. -/
def CapConfig.asidHole : ℤ := if config.archX86_64 then 1 else 0

/-- The number of slots in the hole of the scheduling context. -/
def CapConfig.schedHole : ℤ := if config.kernelRt then 0 else 2

theorem CapConfig.asidHole_nonneg : 0 ≤ config.asidHole := by
  unfold asidHole
  split_ifs <;> omega

theorem CapConfig.schedHole_nonneg : 0 ≤ config.schedHole := by
  unfold schedHole
  split_ifs <;> omega

/-- The slot of a number, for all numbers. -/
def slotOf (n : ℤ) : ℤ :=
  skip cspace.schedContextSlot config.schedHole (skip cspace.asidPoolSlot config.asidHole (n + 1))

theorem slotOf_strictMono : StrictMono (slotOf config cspace) := by
  intro m n hmn
  apply skip_strictMono _ config.schedHole_nonneg
  apply skip_strictMono _ config.asidHole_nonneg
  omega

/-- The count is the last slot, moved back over the holes. -/
theorem getCapCount_eq :
    getCapCount config cspace = cspace.firstFree - 1 - config.asidHole - config.schedHole := by
  have hfits := cspace.firstFree_lt
  have hint : (cspace.firstFree : ℤ).bmod (2 ^ 32) = cspace.firstFree := by
    apply Int.bmod_eq_of_le <;> omega
  rw [getCapCount, hint, CapConfig.asidHole, CapConfig.schedHole]
  cases config.archX86_64 <;> cases config.kernelRt <;> simp

/-- The number behind the last one has the first free slot. -/
theorem slotOf_count : slotOf config cspace (getCapCount config cspace) = cspace.firstFree := by
  have hasid := cspace.asidPool_lt_schedContext
  have hsched := cspace.schedContext_lt_firstFree
  rw [getCapCount_eq]
  unfold slotOf skip CapConfig.asidHole CapConfig.schedHole
  split_ifs <;> omega

theorem slotOf_zero : slotOf config cspace 0 = 1 := by
  have hone := cspace.one_lt_asidPool
  have hasid := cspace.asidPool_lt_schedContext
  unfold slotOf skip
  split_ifs <;> omega

/-- A number counts when its slot is in use. -/
theorem slotOf_mem_iff {n : ℤ} :
    (0 ≤ n ∧ n < getCapCount config cspace) ↔
      1 ≤ slotOf config cspace n ∧ slotOf config cspace n < cspace.firstFree := by
  have hmono := slotOf_strictMono config cspace
  have hle := hmono.le_iff_le (a := 0) (b := n)
  have hlt := hmono.lt_iff_lt (a := n) (b := getCapCount config cspace)
  rw [slotOf_zero] at hle
  rw [slotOf_count] at hlt
  rw [hle, hlt]

theorem getNthCap_eq {n : ℤ} (hn : 0 ≤ n) (hcount : n < getCapCount config cspace) :
    (getNthCap config cspace n : ℤ) = slotOf config cspace n := by
  obtain ⟨hpos, hlt⟩ := (slotOf_mem_iff config cspace).mp ⟨hn, hcount⟩
  have hfits := cspace.firstFree_lt
  have hskip : getNthCap config cspace n = (slotOf config cspace n % 2 ^ 64).toNat := by
    rw [getNthCap, if_pos hcount]
    unfold slotOf skip CapConfig.asidHole CapConfig.schedHole
    cases config.archX86_64 <;> cases config.kernelRt <;> simp
  omega

/-- Every slot but those of the holes has a number. -/
theorem exists_slotOf {m : ℤ} : (∃ n, slotOf config cspace n = m) ↔
    (config.archX86_64 = true → m ≠ cspace.asidPoolSlot) ∧
      (config.kernelRt = false → m ≠ cspace.schedContextSlot ∧ m ≠ cspace.schedContextSlot + 1) := by
  have hasid := cspace.asidPool_lt_schedContext
  constructor
  · rintro ⟨n, rfl⟩
    unfold slotOf skip CapConfig.asidHole CapConfig.schedHole
    cases config.archX86_64 <;> cases config.kernelRt <;> simp <;> split_ifs <;> omega
  · rintro ⟨hnotAsid, hnotSched⟩
    obtain ⟨x, hx⟩ : ∃ x, skip cspace.schedContextSlot config.schedHole x = m := by
      rw [exists_skip, CapConfig.schedHole]
      cases hrt : config.kernelRt <;> simp [hrt] at hnotSched ⊢
      omega
    obtain ⟨y, hy⟩ : ∃ y, skip cspace.asidPoolSlot config.asidHole y = x := by
      rw [exists_skip]
      rintro ⟨hge, hlt⟩
      have hlow : x < cspace.schedContextSlot := by
        unfold CapConfig.asidHole at hlt
        split_ifs at hlt <;> omega
      rw [skip, if_neg (not_le.mpr hlow)] at hx
      unfold CapConfig.asidHole at hlt
      split_ifs at hlt with hx86
      · exact hnotAsid hx86 (by omega)
      · omega
    exact ⟨y - 1, by rw [slotOf, Int.sub_add_cancel, hy, hx]⟩

/-- **The numbering of the capabilities.** It goes up through exactly the used slots, and there is no
capability behind the last one. -/
theorem getNthCap_enumerates :
    StrictMonoOn (getNthCap config cspace) (Set.Ico 0 (getCapCount config cspace)) ∧
      getNthCap config cspace '' Set.Ico 0 (getCapCount config cspace) = usedSlots config cspace ∧
        ∀ n, getCapCount config cspace ≤ n → getNthCap config cspace n = 0 := by
  refine ⟨?_, ?_, ?_⟩
  · intro m hm n hn hmn
    have hlt := slotOf_strictMono config cspace hmn
    rw [← getNthCap_eq config cspace hm.1 hm.2, ← getNthCap_eq config cspace hn.1 hn.2] at hlt
    exact_mod_cast hlt
  · ext slot
    constructor
    · rintro ⟨n, hn, rfl⟩
      obtain ⟨hpos, hlt⟩ := (slotOf_mem_iff config cspace).mp hn
      obtain ⟨hasid, hsched⟩ := (exists_slotOf config cspace).mp ⟨n, rfl⟩
      rw [← getNthCap_eq config cspace hn.1 hn.2] at hpos hlt hasid hsched
      exact ⟨by exact_mod_cast hpos, by exact_mod_cast hlt, by exact_mod_cast hasid, by exact_mod_cast hsched⟩
    · rintro ⟨hpos, hlt, hasid, hsched⟩
      obtain ⟨n, hn⟩ := (exists_slotOf config cspace (m := slot)).mpr
        ⟨by exact_mod_cast hasid, by exact_mod_cast hsched⟩
      have hmem : 0 ≤ n ∧ n < getCapCount config cspace := by
        rw [slotOf_mem_iff, hn]
        exact ⟨by exact_mod_cast hpos, by exact_mod_cast hlt⟩
      refine ⟨n, hmem, ?_⟩
      have heq := getNthCap_eq config cspace hmem.1 hmem.2
      rw [hn] at heq
      exact_mod_cast heq
  · intro n hn
    exact if_neg (not_lt.mpr hn)

/-- On x86-64 without the real-time kernel the process has nine capabilities, around two holes. -/
theorem getNthCap_enumerates_process :
    getNthCap ⟨true, false⟩ processLayout '' Set.Ico 0 9 = usedSlots ⟨true, false⟩ processLayout := by
  have hcount : getCapCount ⟨true, false⟩ processLayout = 9 := by decide
  rw [← hcount]
  exact (getNthCap_enumerates ⟨true, false⟩ processLayout).2.1

example : (List.range 9).map (fun n : ℕ => getNthCap ⟨true, false⟩ processLayout n) =
    [1, 2, 3, 5, 8, 9, 10, 11, 12] := by decide

end ChannelBench
