import ChannelBench.CCipher
import Mathlib.Data.Fin.VecNotation
import Mathlib.Tactic.FinCases

/-! The Rijndael cipher on blocks of four columns of four bytes, as what `aes_core.c` computes. Bytes are
polynomials over the field of two elements, modulo `x^8 + x^4 + x^3 + x + 1`. The S-box inverts a byte and maps
it affinely; a round moves row `r` by `r` columns and multiplies every column by a circulant matrix. -/

namespace ChannelBench

open CSem

/-! ### Bytes -/

/-- The product of a byte by the polynomial `x`. -/
def xtime (b : BitVec 8) : BitVec 8 := if b.msb then b <<< 1 ^^^ 0x1b#8 else b <<< 1

/-- The product by the first bits of a byte. -/
def gmulBits : ℕ → BitVec 8 → BitVec 8 → BitVec 8
  | 0, _, _ => 0#8
  | n + 1, a, b => (if a.getLsbD 0 then b else 0#8) ^^^ gmulBits n (a >>> 1) (xtime b)

/-- The product of two bytes. -/
def gmul (a b : BitVec 8) : BitVec 8 := gmulBits 8 a b

/-- The power 254 of a byte, which is its inverse, or zero. -/
def ginv (b : BitVec 8) : BitVec 8 :=
  let b3 := gmul (gmul b b) b
  let b6 := gmul b3 b3
  let b12 := gmul b6 b6
  let b15 := gmul b12 b3
  let b30 := gmul b15 b15
  let b60 := gmul b30 b30
  let b120 := gmul b60 b60
  let b127 := gmul (gmul b120 b6) b
  gmul b127 b127

/-- The S-box. -/
def sbox (b : BitVec 8) : BitVec 8 :=
  let i := ginv b
  i ^^^ i.rotateLeft 1 ^^^ i.rotateLeft 2 ^^^ i.rotateLeft 3 ^^^ i.rotateLeft 4 ^^^ 0x63#8

/-- The inverse of the S-box. -/
def invSbox (b : BitVec 8) : BitVec 8 :=
  ginv (b.rotateLeft 1 ^^^ b.rotateLeft 3 ^^^ b.rotateLeft 6 ^^^ 0x05#8)

/-- What holds of the first 256 numbers holds of all bytes. -/
theorem forall_byte {P : BitVec 8 → Prop} (h : ∀ n < 256, P (BitVec.ofNat 8 n)) (b : BitVec 8) : P b := by
  have hb := h b.toNat b.isLt
  rwa [BitVec.ofNat_toNat, BitVec.setWidth_eq] at hb

theorem xtime_xor (a b : BitVec 8) : xtime (a ^^^ b) = xtime a ^^^ xtime b := by
  unfold xtime
  rw [BitVec.msb_xor, BitVec.shiftLeft_xor_distrib]
  cases a.msb with
  | false =>
      cases b.msb with
      | false => rfl
      | true => simp [BitVec.xor_assoc]
  | true =>
      cases b.msb with
      | false =>
          simp only [Bool.xor_false, if_true, Bool.false_eq_true, if_false]
          ac_rfl
      | true =>
          have hcancel : ∀ x y z : BitVec 8, x ^^^ y = (x ^^^ z) ^^^ (y ^^^ z) := by
            intro x y z
            rw [show (x ^^^ z) ^^^ (y ^^^ z) = (x ^^^ y) ^^^ (z ^^^ z) by ac_rfl, BitVec.xor_self, BitVec.xor_zero]
          exact hcancel _ _ _

theorem gmulBits_xor (n : ℕ) (k a b : BitVec 8) :
    gmulBits n k (a ^^^ b) = gmulBits n k a ^^^ gmulBits n k b := by
  induction n generalizing k a b with
  | zero => exact (BitVec.xor_self).symm
  | succ n ih =>
      rw [gmulBits, gmulBits, gmulBits, xtime_xor, ih]
      split_ifs
      · ac_rfl
      · rw [BitVec.zero_xor, BitVec.zero_xor, BitVec.zero_xor]

/-- The product by a byte is linear. -/
theorem gmul_xor (k a b : BitVec 8) : gmul k (a ^^^ b) = gmul k a ^^^ gmul k b := gmulBits_xor 8 k a b

/-! ### Blocks -/

/-- A column or a row. -/
def col (n : ℕ) : Fin 4 := Fin.ofNat 4 n

@[simp] theorem col_zero : col 0 = 0 := rfl

@[simp] theorem col_one : col 1 = 1 := rfl

@[simp] theorem col_two : col 2 = 2 := rfl

@[simp] theorem col_three : col 3 = 3 := rfl

/-- A block: the byte in a column and a row. -/
abbrev AesBlock := Fin 4 → Fin 4 → BitVec 8

/-- The product of a column by the circulant matrix whose first row is given. -/
def mixBy (row column : Fin 4 → BitVec 8) : Fin 4 → BitVec 8 := fun r =>
  gmul (row 0) (column r) ^^^ gmul (row 1) (column (r + 1)) ^^^ gmul (row 2) (column (r + 2)) ^^^
    gmul (row 3) (column (r + 3))

/-- The first row of the matrix of `MixColumns`. -/
def mixRow : Fin 4 → BitVec 8 := ![0x02#8, 0x03#8, 0x01#8, 0x01#8]

/-- The first row of the inverse of this matrix. -/
def invMixRow : Fin 4 → BitVec 8 := ![0x0e#8, 0x0b#8, 0x0d#8, 0x09#8]

/-- The cipher that substitutes the bytes, takes row `r` of a column from `step * r` columns further on, and
mixes the columns. -/
def rijndael (substitute : BitVec 8 → BitVec 8) (step : Fin 4) (row : Fin 4 → BitVec 8) : KeyAlternating AesBlock where
  addKey block key := fun c r => block c r ^^^ key c r
  confuse block := fun c r => substitute (block (c + step * r) r)
  diffuse block := fun c => mixBy row (block c)

/-- The cipher. -/
def aesCipher : KeyAlternating AesBlock := rijndael sbox 1 mixRow

/-- The inverse cipher, in the order of the cipher. -/
def aesInverse : KeyAlternating AesBlock := rijndael invSbox 3 invMixRow

theorem mixBy_xor (row column column' : Fin 4 → BitVec 8) :
    mixBy row (fun r => column r ^^^ column' r) = fun r => mixBy row column r ^^^ mixBy row column' r := by
  funext r
  simp only [mixBy, gmul_xor]
  ac_rfl

/-- The first entries of the columns of a product of two circulant matrices are those of the identity. -/
def RowsCancel (row' row : Fin 4 → BitVec 8) (b : BitVec 8) : Prop :=
  ∀ j : Fin 4, gmul (row' 0) (gmul (row j) b) ^^^ gmul (row' 1) (gmul (row (j - 1)) b) ^^^
    gmul (row' 2) (gmul (row (j - 2)) b) ^^^ gmul (row' 3) (gmul (row (j - 3)) b) = if j = 0 then b else 0#8

instance (row' row : Fin 4 → BitVec 8) (b : BitVec 8) : Decidable (RowsCancel row' row b) :=
  inferInstanceAs (Decidable (∀ _ : Fin 4, _))

/-- The bytes of the columns `r`, `r + 1`, … come together from all summands of the product. -/
theorem mixBy_mixBy {row' row : Fin 4 → BitVec 8} (h : ∀ b, RowsCancel row' row b)
    (column : Fin 4 → BitVec 8) : mixBy row' (mixBy row column) = column := by
  funext r
  have hindex : ∀ r : Fin 4, r + 1 + 1 = r + 2 ∧ r + 1 + 2 = r + 3 ∧ r + 1 + 3 = r ∧ r + 2 + 1 = r + 3 ∧
      r + 2 + 2 = r ∧ r + 2 + 3 = r + 1 ∧ r + 3 + 1 = r ∧ r + 3 + 2 = r + 1 ∧ r + 3 + 3 = r + 2 := by decide
  obtain ⟨h11, h12, h13, h21, h22, h23, h31, h32, h33⟩ := hindex r
  simp only [mixBy, h11, h12, h13, h21, h22, h23, h31, h32, h33, gmul_xor]
  have h0 : gmul (row' 0) (gmul (row 0) (column r)) ^^^ gmul (row' 1) (gmul (row 3) (column r)) ^^^
      gmul (row' 2) (gmul (row 2) (column r)) ^^^ gmul (row' 3) (gmul (row 1) (column r)) = column r := h _ 0
  have h1 : gmul (row' 0) (gmul (row 1) (column (r + 1))) ^^^ gmul (row' 1) (gmul (row 0) (column (r + 1))) ^^^
      gmul (row' 2) (gmul (row 3) (column (r + 1))) ^^^ gmul (row' 3) (gmul (row 2) (column (r + 1))) = 0#8 := h _ 1
  have h2 : gmul (row' 0) (gmul (row 2) (column (r + 2))) ^^^ gmul (row' 1) (gmul (row 1) (column (r + 2))) ^^^
      gmul (row' 2) (gmul (row 0) (column (r + 2))) ^^^ gmul (row' 3) (gmul (row 3) (column (r + 2))) = 0#8 := h _ 2
  have h3 : gmul (row' 0) (gmul (row 3) (column (r + 3))) ^^^ gmul (row' 1) (gmul (row 2) (column (r + 3))) ^^^
      gmul (row' 2) (gmul (row 1) (column (r + 3))) ^^^ gmul (row' 3) (gmul (row 0) (column (r + 3))) = 0#8 := h _ 3
  calc _ = (gmul (row' 0) (gmul (row 0) (column r)) ^^^ gmul (row' 1) (gmul (row 3) (column r)) ^^^
        gmul (row' 2) (gmul (row 2) (column r)) ^^^ gmul (row' 3) (gmul (row 1) (column r))) ^^^
      (gmul (row' 0) (gmul (row 1) (column (r + 1))) ^^^ gmul (row' 1) (gmul (row 0) (column (r + 1))) ^^^
        gmul (row' 2) (gmul (row 3) (column (r + 1))) ^^^ gmul (row' 3) (gmul (row 2) (column (r + 1)))) ^^^
      (gmul (row' 0) (gmul (row 2) (column (r + 2))) ^^^ gmul (row' 1) (gmul (row 1) (column (r + 2))) ^^^
        gmul (row' 2) (gmul (row 0) (column (r + 2))) ^^^ gmul (row' 3) (gmul (row 3) (column (r + 2)))) ^^^
      (gmul (row' 0) (gmul (row 3) (column (r + 3))) ^^^ gmul (row' 1) (gmul (row 2) (column (r + 3))) ^^^
        gmul (row' 2) (gmul (row 1) (column (r + 3))) ^^^ gmul (row' 3) (gmul (row 0) (column (r + 3)))) := by ac_rfl
    _ = column r := by
      rw [h0, h1, h2, h3, BitVec.xor_zero, BitVec.xor_zero, BitVec.xor_zero]

/-- The two matrices are inverse to each other. -/
theorem rowsCancel_mixRow :
    ∀ n < 256, RowsCancel invMixRow mixRow (BitVec.ofNat 8 n) ∧ RowsCancel mixRow invMixRow (BitVec.ofNat 8 n) := by
  decide +kernel

theorem invMix_mix (column : Fin 4 → BitVec 8) : mixBy invMixRow (mixBy mixRow column) = column :=
  mixBy_mixBy (forall_byte (P := RowsCancel invMixRow mixRow) fun n hn => (rowsCancel_mixRow n hn).1) column

theorem mix_invMix (column : Fin 4 → BitVec 8) : mixBy mixRow (mixBy invMixRow column) = column :=
  mixBy_mixBy (forall_byte (P := RowsCancel mixRow invMixRow) fun n hn => (rowsCancel_mixRow n hn).2) column

/-- Two ciphers with substitutions, steps and matrices that are inverse to each other. -/
theorem rijndael_inverts {substitute substitute' : BitVec 8 → BitVec 8} {step step' : Fin 4}
    {row row' : Fin 4 → BitVec 8} (hbytes : ∀ b, substitute' (substitute b) = b)
    (hsteps : ∀ c r : Fin 4, c + step' * r + step * r = c)
    (hrows : ∀ column, mixBy row' (mixBy row column) = column) :
    (rijndael substitute' step' row').Inverts (rijndael substitute step row) where
  addKey := by
    intro block key
    funext c r
    exact (BitVec.xor_assoc _ _ _).trans (by rw [BitVec.xor_self, BitVec.xor_zero])
  confuse := by
    intro block
    funext c r
    show substitute' (substitute (block (c + step' * r + step * r) r)) = block c r
    rw [hbytes, hsteps]
  diffuse := by
    intro block
    funext c
    exact hrows (block c)
  diffuse_addKey := by
    intro block key
    funext c
    exact mixBy_xor row' (block c) (key c)

/-! ### Words -/

/-- Byte `r` of a word, from the most significant one. -/
def wordByte (word : BitVec 32) (r : Fin 4) : BitVec 8 := (word >>> (24 - 8 * r.val)).setWidth 8

/-- The word with given bytes. -/
def joinBytes (bytes : Fin 4 → BitVec 8) : BitVec 32 :=
  (bytes 0).setWidth 32 <<< 24 ^^^ (bytes 1).setWidth 32 <<< 16 ^^^ (bytes 2).setWidth 32 <<< 8 ^^^
    (bytes 3).setWidth 32

/-! ### The key expansion -/

def subWord (word : BitVec 32) : BitVec 32 := joinBytes fun r => sbox (wordByte word r)

def rotWord (word : BitVec 32) : BitVec 32 := joinBytes fun r => wordByte word (r + 1)

/-- The powers of the polynomial `x`. -/
def rconByte : ℕ → BitVec 8
  | 0 => 0x01#8
  | i + 1 => xtime (rconByte i)

def rconWord (i : ℕ) : BitVec 32 := (rconByte i).setWidth 32 <<< 24

/-- What the word `nk` places back is combined with, `prev` being the word just before. -/
def expandedTemp (nk i : ℕ) (prev : BitVec 32) : BitVec 32 :=
  if i % nk = 0 then subWord (rotWord prev) ^^^ rconWord (i / nk - 1)
  else if 6 < nk ∧ i % nk = 4 then subWord prev
  else prev

/-- The first `n` words are those of the expansion of a key of `nk` words. -/
structure KeyExpansion (nk : ℕ) (userKey : ℕ → BitVec 32) (n : ℕ) (words : ℕ → BitVec 32) : Prop where
  loaded : ∀ i, i < nk → i < n → words i = userKey i
  derived : ∀ i, nk ≤ i → i < n → words i = words (i - nk) ^^^ expandedTemp nk i (words (i - 1))

end ChannelBench
