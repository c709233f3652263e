import Mathlib.Data.Nat.Basic
import Mathlib.Logic.Function.Basic
import Mathlib.Tactic.Common
import Mathlib.Tactic.Ring

/-! A byte-addressed memory with little-endian loads and stores of any width. Reasoning about it
needs two facts: a load reads back what a store of the same width wrote, and a store changes no byte
outside its range. -/

namespace CSem

/-- A memory: a byte at every address. -/
abbrev Mem := ℕ → BitVec 8

/-- The address of a block that an allocation returned: not `NULL`, and the block is in the address
space. -/
structure Malloc (sizeofPtr size : ℕ) where
  address : ℕ
  pos : 0 < address
  fits : address + size ≤ 256 ^ sizeofPtr

/-- The value of the `width` bytes from an address on. -/
def load (mem : Mem) : (width : ℕ) → (address : ℕ) → ℕ
  | 0, _ => 0
  | width + 1, address => (mem address).toNat + 256 * load mem width (address + 1)

/-- The memory after writing a value to the `width` bytes from an address on. -/
def store (mem : Mem) : (width : ℕ) → (address : ℕ) → (value : ℕ) → Mem
  | 0, _, _ => mem
  | width + 1, address, value =>
      store (Function.update mem address (BitVec.ofNat 8 value)) width (address + 1) (value / 256)

/-- A store changes no byte outside its range. -/
theorem store_apply_of_outside (mem : Mem) (width address value : ℕ) {a : ℕ}
    (ha : a < address ∨ address + width ≤ a) : store mem width address value a = mem a := by
  induction width generalizing mem address value with
  | zero => rfl
  | succ width ih =>
      rw [store, ih _ _ _ (by omega), Function.update_of_ne (by omega)]

theorem load_congr {mem mem' : Mem} {width address : ℕ}
    (h : ∀ a, address ≤ a → a < address + width → mem a = mem' a) :
    load mem width address = load mem' width address := by
  induction width generalizing address with
  | zero => rfl
  | succ width ih =>
      rw [load, load, h address (le_refl _) (by omega),
        ih fun a hlow hhigh => h a (by omega) (by omega)]

/-- A load of a range that a store does not touch. -/
theorem load_store_of_disjoint (mem : Mem) {width address width' address' : ℕ} (value : ℕ)
    (h : address' + width' ≤ address ∨ address + width ≤ address') :
    load (store mem width address value) width' address' = load mem width' address' := by
  apply load_congr
  intro a hlow hhigh
  exact store_apply_of_outside mem width address value (by omega)

/-- A load reads back what was stored. -/
theorem load_store_same (mem : Mem) (width address value : ℕ) (hvalue : value < 256 ^ width) :
    load (store mem width address value) width address = value := by
  induction width generalizing mem address value with
  | zero =>
      rw [pow_zero] at hvalue
      rw [load]
      omega
  | succ width ih =>
      have hbyte : store (Function.update mem address (BitVec.ofNat 8 value)) width (address + 1)
          (value / 256) address = BitVec.ofNat 8 value := by
        rw [store_apply_of_outside _ _ _ _ (by omega), Function.update_self]
      have hrest : value / 256 < 256 ^ width := by
        rw [pow_succ] at hvalue
        exact Nat.div_lt_of_lt_mul (by rwa [Nat.mul_comm])
      rw [store, load, ih _ _ _ hrest, hbyte, BitVec.toNat_ofNat]
      exact Nat.mod_add_div value 256

theorem load_mod_256 (mem : Mem) (width address : ℕ) :
    load mem (width + 1) address % 256 = (mem address).toNat ∧
      load mem (width + 1) address / 256 = load mem width (address + 1) := by
  have hbyte := (mem address).isLt
  rw [load]
  omega

/-- Storing what is there changes nothing. -/
theorem store_load_same (mem : Mem) (width address : ℕ) :
    store mem width address (load mem width address) = mem := by
  induction width generalizing address with
  | zero => rfl
  | succ width ih =>
      obtain ⟨hlow, hhigh⟩ := load_mod_256 mem width address
      have hbyte : BitVec.ofNat 8 (load mem (width + 1) address) = mem address := by
        apply BitVec.eq_of_toNat_eq
        rw [BitVec.toNat_ofNat]
        exact hlow
      rw [store, hbyte, Function.update_eq_self, hhigh, ih]

/-- A store of one byte takes the low byte of its value. -/
theorem store_byte (mem : Mem) (address value : ℕ) :
    store mem 1 address (value &&& 0xff) = Function.update mem address (BitVec.ofNat 8 value) := by
  have hlow : value &&& 0xff = value % 2 ^ 8 := Nat.and_two_pow_sub_one_eq_mod value 8
  have hbyte : BitVec.ofNat 8 (value % 2 ^ 8) = BitVec.ofNat 8 value := by
    apply BitVec.eq_of_toNat_eq
    rw [BitVec.toNat_ofNat, BitVec.toNat_ofNat, Nat.mod_mod]
  rw [hlow, store, store, hbyte]

/-- A word stored byte by byte. -/
theorem store_word_bytes (mem : Mem) (address value : ℕ) :
    store (store (store (store mem 1 address (value &&& 0xff)) 1 (address + 1) (value >>> 8 &&& 0xff))
      1 (address + 2) (value >>> 16 &&& 0xff)) 1 (address + 3) (value >>> 24 &&& 0xff) =
        store mem 4 address value := by
  have h16 : value >>> 16 = value / 256 / 256 := by
    rw [Nat.shiftRight_eq_div_pow, Nat.div_div_eq_div_mul]
  have h24 : value >>> 24 = value / 256 / 256 / 256 := by
    rw [Nat.shiftRight_eq_div_pow, Nat.div_div_eq_div_mul, Nat.div_div_eq_div_mul]
  rw [store_byte, store_byte, store_byte, store_byte, h16, h24, Nat.shiftRight_eq_div_pow]
  rfl

end CSem
