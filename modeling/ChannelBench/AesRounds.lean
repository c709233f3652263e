import ChannelBench.AesState
import Mathlib.Data.List.GetD

/-! The loops of `AES_encrypt` and `AES_decrypt` compute the rounds of the cipher: a lookup in one of the tables
substitutes a byte and multiplies it by a column of the matrix. -/

namespace ChannelBench

open CSem

/-! ### Bytes of words -/

theorem getLsbD_wordByte (word : BitVec 32) (r : Fin 4) (i : ℕ) :
    (wordByte word r).getLsbD i = (decide (i < 8) && word.getLsbD (24 - 8 * r.val + i)) := by
  rw [wordByte, BitVec.getLsbD_setWidth, BitVec.getLsbD_ushiftRight]

theorem wordByte_xor (a b : BitVec 32) (r : Fin 4) : wordByte (a ^^^ b) r = wordByte a r ^^^ wordByte b r := by
  rw [wordByte, BitVec.ushiftRight_xor_distrib, BitVec.setWidth_xor, wordByte, wordByte]

theorem wordByte_and (a b : BitVec 32) (r : Fin 4) : wordByte (a &&& b) r = wordByte a r &&& wordByte b r := by
  rw [wordByte, BitVec.ushiftRight_and_distrib, BitVec.setWidth_and, wordByte, wordByte]

theorem wordByte_joinBytes (bytes : Fin 4 → BitVec 8) (r : Fin 4) : wordByte (joinBytes bytes) r = bytes r := by
  apply BitVec.eq_of_getLsbD_eq
  intro i hi
  rw [getLsbD_wordByte, joinBytes]
  simp only [BitVec.getLsbD_xor, BitVec.getLsbD_shiftLeft, BitVec.getLsbD_setWidth]
  fin_cases r <;> grind

theorem joinBytes_wordByte (word : BitVec 32) : joinBytes (wordByte word) = word := by
  apply BitVec.eq_of_getLsbD_eq
  intro i hi
  simp only [joinBytes, BitVec.getLsbD_xor, BitVec.getLsbD_shiftLeft, BitVec.getLsbD_setWidth, getLsbD_wordByte]
  grind

theorem word_ext {a b : BitVec 32} (h : ∀ r, wordByte a r = wordByte b r) : a = b := by
  rw [← joinBytes_wordByte a, ← joinBytes_wordByte b, funext h]

/-- The indices that the code takes from a word are its bytes. -/
theorem toNat_byte0 (word : BitVec 32) : (word >>> 24).toNat = (wordByte word 0).toNat := by
  have hlt : (word >>> 24).toNat < 2 ^ 8 := by
    rw [BitVec.toNat_ushiftRight, Nat.shiftRight_eq_div_pow]
    have := word.isLt
    omega
  exact (Nat.mod_eq_of_lt hlt).symm

theorem toNat_and_mask (word : BitVec 32) : (word &&& 0xff#32).toNat = word.toNat % 256 :=
  Nat.and_two_pow_sub_one_eq_mod word.toNat 8

theorem toNat_byte (word : BitVec 32) (r : Fin 4) :
    (word >>> (24 - 8 * r.val) &&& 0xff#32).toNat = (wordByte word r).toNat := by
  rw [toNat_and_mask, wordByte, BitVec.toNat_setWidth]

theorem toNat_byte1 (word : BitVec 32) : (word >>> 16 &&& 0xff#32).toNat = (wordByte word 1).toNat :=
  toNat_byte word 1

theorem toNat_byte2 (word : BitVec 32) : (word >>> 8 &&& 0xff#32).toNat = (wordByte word 2).toNat :=
  toNat_byte word 2

theorem toNat_byte3 (word : BitVec 32) : (word &&& 0xff#32).toNat = (wordByte word 3).toNat := toNat_byte word 3

/-- The words of a block, and of a round key. -/
def wordsBlock (s : AesWords) : AesBlock := fun c r => wordByte (s c) r

def AesKey.roundKey (key : AesKey) (i : ℕ) : AesBlock := fun c r => wordByte (key.rdKey (4 * i + c.val)) r

/-- The block at an address. -/
def blockAt (mem : ℕ → BitVec 8) (address : ℕ) : AesBlock := fun c r => mem (address + 4 * c.val + r.val)

theorem wordByte_getU32 (mem : ℕ → BitVec 8) (pt : ℕ) (r : Fin 4) :
    wordByte (getU32 mem pt) r = mem (pt + r.val) := by
  have hjoin : getU32 mem pt = joinBytes fun r => mem (pt + r.val) := rfl
  rw [hjoin, wordByte_joinBytes]

theorem putU32_inside (mem : ℕ → BitVec 8) (ct : ℕ) (st : BitVec 32) (r : Fin 4) :
    putU32 mem ct st (ct + r.val) = wordByte st r := by
  fin_cases r <;> simp [putU32, Function.update, wordByte]

theorem putU32_outside (mem : ℕ → BitVec 8) {ct a : ℕ} (st : BitVec 32) (ha : a < ct ∨ ct + 4 ≤ a) :
    putU32 mem ct st a = mem a := by
  have h : a ≠ ct ∧ a ≠ ct + 1 ∧ a ≠ ct + 2 ∧ a ≠ ct + 3 := by omega
  simp [putU32, Function.update, h]

/-! ### The tables -/

/-- The word of a table for column `j` of the matrix with the given first row. -/
def tableWord (row : Fin 4 → BitVec 8) (j : Fin 4) (b : BitVec 8) : BitVec 32 :=
  joinBytes fun r => gmul (row (j - r)) b

/-- What the tables of a direction contain. -/
structure AesTables.Compute (tables : AesTables) (substitute : BitVec 8 → BitVec 8) (row : Fin 4 → BitVec 8) :
    Prop where
  last_eq : tables.last = (List.range 256).map fun n => joinBytes fun _ => substitute (BitVec.ofNat 8 n)
  table_eq : ∀ j, tables.table j = tables.last.map fun word => tableWord row j (wordByte word 0)

theorem teTables_compute : teTables.Compute sbox mixRow where
  last_eq := by decide +kernel
  table_eq := by decide +kernel

theorem tdTables_compute : tdTables.Compute invSbox invMixRow where
  last_eq := by decide +kernel
  table_eq := by decide +kernel

section Tables

variable {tables : AesTables} {substitute : BitVec 8 → BitVec 8} {row : Fin 4 → BitVec 8}

theorem AesTables.Compute.getElem?_last (h : tables.Compute substitute row) (b : BitVec 8) :
    tables.last[b.toNat]? = some (joinBytes fun _ => substitute b) := by
  rw [h.last_eq, List.getElem?_map, List.getElem?_range b.isLt, Option.map_some, BitVec.ofNat_toNat,
    BitVec.setWidth_eq]

theorem AesTables.Compute.readAt_last (h : tables.Compute substitute row) (b : BitVec 8) :
    readAt tables.last b.toNat = .ok (joinBytes fun _ => substitute b) := readAt_of_eq_some (h.getElem?_last b)

theorem AesTables.Compute.readAt_table (h : tables.Compute substitute row) (j : Fin 4) (b : BitVec 8) :
    readAt (tables.table j) b.toNat = .ok (tableWord row j (substitute b)) := by
  apply readAt_of_eq_some
  rw [h.table_eq, h.last_eq, List.map_map, List.getElem?_map, List.getElem?_range b.isLt, Option.map_some,
    Function.comp_apply, wordByte_joinBytes, BitVec.ofNat_toNat, BitVec.setWidth_eq]

theorem AesKey.read_eq (key : AesKey) {i : ℕ} (hi : i < aesKeyWords) : key.read i = .ok (key.rdKey i) := by
  rw [AesKey.read, require_pos hi]
  rfl

/-- The four lookups of a word are a column of the product by the matrix. -/
theorem tableWords_mix (row : Fin 4 → BitVec 8) (column : Fin 4 → BitVec 8) (r : Fin 4) :
    wordByte (tableWord row 0 (column 0) ^^^ tableWord row 1 (column 1) ^^^ tableWord row 2 (column 2) ^^^
      tableWord row 3 (column 3)) r = mixBy row column r := by
  simp only [wordByte_xor, tableWord, wordByte_joinBytes, mixBy]
  fin_cases r <;> dsimp <;> ac_rfl

/-- The bytes of a column after the step. -/
def gather (step : Fin 4) (substitute : BitVec 8 → BitVec 8) (s : AesWords) (c : Fin 4) : Fin 4 → BitVec 8 :=
  fun r => substitute (wordByte (s (c + step * r)) r)

/-- A word of a full round: the bytes of a column, substituted and mixed, and the word of the key. -/
theorem AesTables.Compute.column_returns (h : tables.Compute substitute row) (key : AesKey) {k : ℕ}
    (hk : k < aesKeyWords) (s : AesWords) (c : Fin 4) :
    Returns (tables.column key k s c) fun word => ∀ r, wordByte word r =
      mixBy row (gather tables.step substitute s c) r ^^^ wordByte (key.rdKey k) r := by
  unfold AesTables.column
  rw [toNat_byte0, toNat_byte1, toNat_byte2, toNat_byte3]
  simp only [h.readAt_table, key.read_eq hk, ok_bind, returns_pure]
  intro r
  rw [wordByte_xor, ← tableWords_mix]
  simp [gather]

/-- The masked bytes of four words of the last table. -/
theorem AesTables.Compute.maskedBytes_returns (h : tables.Compute substitute row) (bytes : Fin 4 → BitVec 8)
    {a b c d : BitVec 32} (ha : a.toNat = (bytes 0).toNat) (hb : b.toNat = (bytes 1).toNat)
    (hc : c.toNat = (bytes 2).toNat) (hd : d.toNat = (bytes 3).toNat) :
    Returns (maskedBytes tables.last a b c d) fun word => ∀ r, wordByte word r = substitute (bytes r) := by
  unfold maskedBytes
  simp only [ha, hb, hc, hd, h.readAt_last, ok_bind, returns_pure]
  have hones : ∀ b : BitVec 8, b &&& 0xff#8 = b := fun b => BitVec.and_allOnes
  intro r
  simp only [wordByte_xor, wordByte_and, wordByte_joinBytes]
  fin_cases r
  · show _ &&& 0xff#8 ^^^ _ &&& 0#8 ^^^ _ &&& 0#8 ^^^ _ &&& 0#8 = _
    simp [hones]
  · show _ &&& 0#8 ^^^ _ &&& 0xff#8 ^^^ _ &&& 0#8 ^^^ _ &&& 0#8 = _
    simp [hones]
  · show _ &&& 0#8 ^^^ _ &&& 0#8 ^^^ _ &&& 0xff#8 ^^^ _ &&& 0#8 = _
    simp [hones]
  · show _ &&& 0#8 ^^^ _ &&& 0#8 ^^^ _ &&& 0#8 ^^^ _ &&& 0xff#8 = _
    simp [hones]

theorem AesTables.Compute.lastColumn_returns (h : tables.Compute substitute row) (key : AesKey) {k : ℕ}
    (hk : k < aesKeyWords) (t : AesWords) (c : Fin 4) :
    Returns (tables.lastColumn key k t c) fun word => ∀ r, wordByte word r =
      gather tables.step substitute t c r ^^^ wordByte (key.rdKey k) r := by
  unfold AesTables.lastColumn
  apply (h.maskedBytes_returns (fun r => wordByte (t (c + tables.step * r)) r) _ _ _ _).bind
  · intro word hword
    rw [key.read_eq hk, ok_bind, returns_pure]
    intro r
    rw [wordByte_xor, hword, gather]
  · rw [toNat_byte0, Fin.mul_zero, Fin.add_zero]
  · rw [toNat_byte1, Fin.mul_one]
  · exact toNat_byte2 _
  · exact toNat_byte3 _

/-- A full round: the bytes are confused and diffused, and a round key is added. -/
theorem AesTables.Compute.round_returns (h : tables.Compute substitute row) (key : AesKey) {i : ℕ}
    (hi : 4 * i + 3 < aesKeyWords) (s : AesWords) :
    Returns (tables.round key (4 * i) s) fun t => wordsBlock t =
      let C := rijndael substitute tables.step row
      C.addKey (C.diffuse (C.confuse (wordsBlock s))) (key.roundKey i) := by
  unfold AesTables.round
  apply (h.column_returns key (by omega) s 0).bind
  intro t0 h0
  apply (h.column_returns key (by omega) s 1).bind
  intro t1 h1
  apply (h.column_returns key (by omega) s 2).bind
  intro t2 h2
  apply (h.column_returns key hi s 3).bind
  intro t3 h3
  apply returns_pure.mpr
  funext c r
  fin_cases c
  · exact h0 r
  · exact h1 r
  · exact h2 r
  · exact h3 r

/-- The keys of the first full rounds. -/
def AesKey.innerKeys (key : AesKey) (n : ℕ) : List AesBlock := (List.range n).map fun i => key.roundKey (i + 1)

theorem AesKey.innerKeys_succ (key : AesKey) (n : ℕ) :
    key.innerKeys (n + 1) = key.innerKeys n ++ [key.roundKey (n + 1)] := by
  rw [innerKeys, List.range_succ, List.map_append]
  rfl

/-- The loop does two full rounds in a round, and one in the last. -/
theorem AesTables.Compute.rounds_returns (h : tables.Compute substitute row) (key : AesKey) {m : ℕ}
    (hm : 0 < m) (hwords : 8 * m + 3 < aesKeyWords) (s : AesWords) :
    Returns (loop (tables.rounds key) aesKeyWords (s, 0, m)) fun t => t.2 = 4 * (2 * m) ∧
      wordsBlock t.1 = (rijndael substitute tables.step row).fullRounds (key.innerKeys (2 * m - 1)) (wordsBlock s) := by
  apply loop_returns (fun st : AesWords × ℕ × ℕ => ∃ i, i < m ∧ st.2 = (4 * (2 * i), m - i) ∧
    wordsBlock st.1 = (rijndael substitute tables.step row).fullRounds (key.innerKeys (2 * i)) (wordsBlock s)) _
    fun st => st.2.2
  · intro st hst
    obtain ⟨s', st⟩ := st
    obtain ⟨i, hi, rfl, hs'⟩ := hst
    dsimp only at hs'
    unfold AesTables.rounds
    apply (h.round_returns key (show 4 * (2 * i + 1) + 3 < aesKeyWords by omega) s').bind
    intro t ht
    rw [hs', ← KeyAlternating.fullRounds_concat, ← key.innerKeys_succ] at ht
    dsimp only
    by_cases hlast : m - i - 1 = 0
    · rw [if_pos hlast]
      apply returns_pure.mpr
      obtain rfl : m = i + 1 := by omega
      exact ⟨by omega, ht⟩
    · rw [if_neg hlast]
      apply (h.round_returns key (show 4 * (2 * i + 2) + 3 < aesKeyWords by omega) t).bind
      intro u hu
      rw [ht, ← KeyAlternating.fullRounds_concat, ← key.innerKeys_succ] at hu
      apply returns_pure.mpr
      refine ⟨⟨i + 1, by omega, ?_, hu⟩, ?_⟩
      · rw [Prod.mk.injEq]
        omega
      · show m - i - 1 < m - i
        omega
  · exact ⟨0, hm, rfl, rfl⟩
  · show m < aesKeyWords
    omega

/-- Four words put one behind the other are a block. -/
theorem putBlock {mem : ℕ → BitVec 8} {out : ℕ} {w0 w1 w2 w3 : BitVec 32} {mem' : ℕ → BitVec 8}
    (hmem : mem' = putU32 (putU32 (putU32 (putU32 mem out w0) (out + 4) w1) (out + 8) w2) (out + 12) w3) :
    blockAt mem' out = wordsBlock ![w0, w1, w2, w3] ∧ ∀ a, a < out ∨ out + 16 ≤ a → mem' a = mem a := by
  subst hmem
  constructor
  · funext c r
    have hr := r.isLt
    fin_cases c
    · show putU32 _ (out + 12) w3 (out + r.val) = wordByte w0 r
      rw [putU32_outside _ _ (by omega), putU32_outside _ _ (by omega), putU32_outside _ _ (by omega),
        putU32_inside]
    · show putU32 _ (out + 12) w3 (out + 4 + r.val) = wordByte w1 r
      rw [putU32_outside _ _ (by omega), putU32_outside _ _ (by omega), putU32_inside]
    · show putU32 _ (out + 12) w3 (out + 8 + r.val) = wordByte w2 r
      rw [putU32_outside _ _ (by omega), putU32_inside]
    · exact putU32_inside _ _ _ r
  · intro a ha
    rw [putU32_outside _ _ (by omega), putU32_outside _ _ (by omega), putU32_outside _ _ (by omega),
      putU32_outside _ _ (by omega)]

/-- The block function writes the block that the cipher makes of the one it reads, and nothing else. -/
theorem AesTables.Compute.crypt_returns (h : tables.Compute substitute row) (mem : ℕ → BitVec 8) (inp out : ℕ)
    (key : AesKey) {m : ℕ} (hrounds : key.rounds / 2 = m) (hm : 0 < m) (hwords : 8 * m + 3 < aesKeyWords) :
    Returns (tables.crypt mem inp out key) fun mem' =>
      blockAt mem' out = (rijndael substitute tables.step row).run (key.roundKey 0) (key.innerKeys (2 * m - 1))
        (key.roundKey (2 * m)) (blockAt mem inp) ∧
      ∀ a, a < out ∨ out + 16 ≤ a → mem' a = mem a := by
  unfold AesTables.crypt
  rw [key.read_eq (by omega), ok_bind, key.read_eq (by omega), ok_bind, key.read_eq (by omega), ok_bind,
    key.read_eq (by omega), ok_bind, hrounds]
  dsimp only
  apply (h.rounds_returns key hm hwords _).bind
  intro r hr
  obtain ⟨t, rk⟩ := r
  obtain ⟨rfl, ht⟩ := hr
  dsimp only at ht
  apply (h.lastColumn_returns key (by omega) t 0).bind
  intro w0 h0
  apply (h.lastColumn_returns key (by omega) t 1).bind
  intro w1 h1
  apply (h.lastColumn_returns key (by omega) t 2).bind
  intro w2 h2
  apply (h.lastColumn_returns key (by omega) t 3).bind
  intro w3 h3
  apply returns_pure.mpr
  obtain ⟨hblock, hframe⟩ := @putBlock mem out w0 w1 w2 w3 _ rfl
  refine ⟨?_, hframe⟩
  rw [hblock, KeyAlternating.run]
  have hstart : wordsBlock ![getU32 mem inp ^^^ key.rdKey 0, getU32 mem (inp + 4) ^^^ key.rdKey 1,
      getU32 mem (inp + 8) ^^^ key.rdKey 2, getU32 mem (inp + 12) ^^^ key.rdKey 3] =
        (rijndael substitute tables.step row).addKey (blockAt mem inp) (key.roundKey 0) := by
    funext c r
    fin_cases c
    all_goals exact (wordByte_xor _ _ r).trans (congrArg (· ^^^ _) (wordByte_getU32 mem _ r))
  rw [← hstart, ← ht]
  funext c r
  fin_cases c
  · exact h0 r
  · exact h1 r
  · exact h2 r
  · exact h3 r

end Tables

end ChannelBench
