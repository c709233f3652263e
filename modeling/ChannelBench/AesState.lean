import ChannelBench.AesCipher
import ChannelBench.AesTables
import ChannelBench.CArray
import Mathlib.Data.Fin.VecNotation
import Mathlib.Data.BitVec
import Mathlib.Logic.Function.Basic

/-! The functions of `aes_core.c`, with `FULL_UNROLL` undefined as in `aes_locl.h`. A block is read from and
written to a memory of bytes, in which the two may overlap, and every access to a table and to the words of a
key is checked. -/

namespace ChannelBench

open CSem

/-! ### `aes.h` and `aes_locl.h` -/

/-- The length of `rd_key`. -/
def aesKeyWords : ℕ := 60

/-- `AES_KEY`. -/
structure AesKey where
  rdKey : ℕ → BitVec 32
  rounds : ℕ

/-- `key->rd_key[i]`. -/
def AesKey.read (key : AesKey) (i : ℕ) : Run (BitVec 32) := do
  require (i < aesKeyWords) .bounds
  return key.rdKey i

/-- `key->rd_key[i] = word`. -/
def AesKey.write (key : AesKey) (i : ℕ) (word : BitVec 32) : Run AesKey := do
  require (i < aesKeyWords) .bounds
  return { key with rdKey := Function.update key.rdKey i word }

/-- `GETU32`. -/
def getU32 (mem : ℕ → BitVec 8) (pt : ℕ) : BitVec 32 :=
  (mem pt).setWidth 32 <<< 24 ^^^ (mem (pt + 1)).setWidth 32 <<< 16 ^^^ (mem (pt + 2)).setWidth 32 <<< 8 ^^^
    (mem (pt + 3)).setWidth 32

/-- `PUTU32`. -/
def putU32 (mem : ℕ → BitVec 8) (ct : ℕ) (st : BitVec 32) : ℕ → BitVec 8 :=
  let mem := Function.update mem ct ((st >>> 24).setWidth 8)
  let mem := Function.update mem (ct + 1) ((st >>> 16).setWidth 8)
  let mem := Function.update mem (ct + 2) ((st >>> 8).setWidth 8)
  Function.update mem (ct + 3) (st.setWidth 8)

/-! ### The key schedules -/

/-- The bytes `a`, `b`, `c` and `d` of `Te4` in one word: `(Te4[a] & 0xff000000) ^ (Te4[b] & 0x00ff0000) ^ …`. -/
def maskedBytes (table : List (BitVec 32)) (a b c d : BitVec 32) : Run (BitVec 32) := do
  return ((← readAt table a.toNat) &&& 0xff000000#32) ^^^ ((← readAt table b.toNat) &&& 0x00ff0000#32) ^^^
    ((← readAt table c.toNat) &&& 0x0000ff00#32) ^^^ ((← readAt table d.toNat) &&& 0x000000ff#32)

/-- The word that `rcon[i]` and the rotation of `temp` are mixed to. -/
def rotatedWord (temp : BitVec 32) (i : ℕ) : Run (BitVec 32) := do
  return (← maskedBytes te4 (temp >>> 16 &&& 0xff#32) (temp >>> 8 &&& 0xff#32) (temp &&& 0xff#32) (temp >>> 24)) ^^^
    (← readAt rcon i)

/-- `rk[p] = rk[s] ^ rk[p - 1]`. -/
def AesKey.chain (key : AesKey) (p s : ℕ) : Run AesKey := do
  key.write p ((← key.read s) ^^^ (← key.read (p - 1)))

/-- `temp = rk[p - 1]; rk[p] = rk[s] ^ …`, with the rotated bytes of `temp` and `rcon[i]`. -/
def AesKey.chainRotated (key : AesKey) (p s i : ℕ) : Run AesKey := do
  let temp ← key.read (p - 1)
  key.write p ((← key.read s) ^^^ (← rotatedWord temp i))

/-- `temp = rk[p - 1]; rk[p] = rk[s] ^ …`, with the bytes of `temp`. -/
def AesKey.chainSubstituted (key : AesKey) (p s : ℕ) : Run AesKey := do
  let temp ← key.read (p - 1)
  key.write p ((← key.read s) ^^^
    (← maskedBytes te4 (temp >>> 24) (temp >>> 16 &&& 0xff#32) (temp >>> 8 &&& 0xff#32) (temp &&& 0xff#32)))

/-- The loop of `AES_set_encrypt_key` for 128 bits; the state is the key and `i`, and `rk` is `4 * i`. -/
def expand128 (st : AesKey × ℕ) : Run ((AesKey × ℕ) ⊕ AesKey) := do
  let (key, i) := st
  let rk := 4 * i
  let key ← key.chainRotated (rk + 4) rk i
  let key ← key.chain (rk + 5) (rk + 1)
  let key ← key.chain (rk + 6) (rk + 2)
  let key ← key.chain (rk + 7) (rk + 3)
  if i + 1 = 10 then
    return .inr key
  return .inl (key, i + 1)

/-- The loop for 192 bits. -/
def expand192 (st : AesKey × ℕ) : Run ((AesKey × ℕ) ⊕ AesKey) := do
  let (key, i) := st
  let rk := 6 * i
  let key ← key.chainRotated (rk + 6) rk i
  let key ← key.chain (rk + 7) (rk + 1)
  let key ← key.chain (rk + 8) (rk + 2)
  let key ← key.chain (rk + 9) (rk + 3)
  if i + 1 = 8 then
    return .inr key
  let key ← key.chain (rk + 10) (rk + 4)
  let key ← key.chain (rk + 11) (rk + 5)
  return .inl (key, i + 1)

/-- The loop for 256 bits. -/
def expand256 (st : AesKey × ℕ) : Run ((AesKey × ℕ) ⊕ AesKey) := do
  let (key, i) := st
  let rk := 8 * i
  let key ← key.chainRotated (rk + 8) rk i
  let key ← key.chain (rk + 9) (rk + 1)
  let key ← key.chain (rk + 10) (rk + 2)
  let key ← key.chain (rk + 11) (rk + 3)
  if i + 1 = 7 then
    return .inr key
  let key ← key.chainSubstituted (rk + 12) (rk + 4)
  let key ← key.chain (rk + 13) (rk + 5)
  let key ← key.chain (rk + 14) (rk + 6)
  let key ← key.chain (rk + 15) (rk + 7)
  return .inl (key, i + 1)

/-- `rk[i] = GETU32(userKey + 4 * i)`. -/
def AesKey.load (key : AesKey) (mem : ℕ → BitVec 8) (userKey i : ℕ) : Run AesKey :=
  key.write i (getU32 mem (userKey + 4 * i))

/-- `AES_set_encrypt_key`, with `none` for a null pointer; the status and the key after it. -/
def aesSetEncryptKey (mem : ℕ → BitVec 8) (userKey : Option ℕ) (bits : ℤ) (key : Option AesKey) :
    Run (ℤ × Option AesKey) := do
  match userKey, key with
  | some userKey, some key =>
    if bits ≠ 128 ∧ bits ≠ 192 ∧ bits ≠ 256 then
      return (-2, some key)
    let key := { key with rounds := if bits = 128 then 10 else if bits = 192 then 12 else 14 }
    let key ← key.load mem userKey 0
    let key ← key.load mem userKey 1
    let key ← key.load mem userKey 2
    let key ← key.load mem userKey 3
    if bits = 128 then
      return (0, some (← loop expand128 aesKeyWords (key, 0)))
    let key ← key.load mem userKey 4
    let key ← key.load mem userKey 5
    if bits = 192 then
      return (0, some (← loop expand192 aesKeyWords (key, 0)))
    let key ← key.load mem userKey 6
    let key ← key.load mem userKey 7
    if bits = 256 then
      return (0, some (← loop expand256 aesKeyWords (key, 0)))
    return (0, some key)
  | _, key => return (-1, key)

/-- `temp = rk[i]; rk[i] = rk[j]; rk[j] = temp`. -/
def AesKey.swap (key : AesKey) (i j : ℕ) : Run AesKey := do
  let temp ← key.read i
  let key ← key.write i (← key.read j)
  key.write j temp

/-- The loop that inverts the order of the round keys; the state is the key, `i` and `j`. -/
def reverseRound (st : AesKey × ℕ × ℕ) : Run ((AesKey × ℕ × ℕ) ⊕ AesKey) := do
  let (key, i, j) := st
  if i < j then
    let key ← key.swap i j
    let key ← key.swap (i + 1) (j + 1)
    let key ← key.swap (i + 2) (j + 2)
    let key ← key.swap (i + 3) (j + 3)
    return .inl (key, i + 4, j - 4)
  else
    return .inr key

/-- `Te4[i] & 0xff`. -/
def sboxIndex (i : BitVec 32) : Run (BitVec 32) := do
  return (← readAt te4 i.toNat) &&& 0xff#32

/-- The inverse `MixColumn` of the word `rk[p]`. -/
def AesKey.invMix (key : AesKey) (p : ℕ) : Run AesKey := do
  let word ← key.read p
  key.write p ((← readAt td0 (← sboxIndex (word >>> 24)).toNat) ^^^
    (← readAt td1 (← sboxIndex (word >>> 16 &&& 0xff#32)).toNat) ^^^
    (← readAt td2 (← sboxIndex (word >>> 8 &&& 0xff#32)).toNat) ^^^
    (← readAt td3 (← sboxIndex (word &&& 0xff#32)).toNat))

/-- The round of the loop over the inner round keys in which `rk` is `4 * i`. -/
def invMixRound (i : ℕ) (key : AesKey) : Run AesKey := do
  let rk := 4 * i
  let key ← key.invMix rk
  let key ← key.invMix (rk + 1)
  let key ← key.invMix (rk + 2)
  key.invMix (rk + 3)

/-- `AES_set_decrypt_key`. -/
def aesSetDecryptKey (mem : ℕ → BitVec 8) (userKey : Option ℕ) (bits : ℤ) (key : Option AesKey) :
    Run (ℤ × Option AesKey) := do
  match ← aesSetEncryptKey mem userKey bits key with
  | (status, some key) =>
    if status < 0 then
      return (status, some key)
    let key ← loop reverseRound aesKeyWords (key, 0, 4 * key.rounds)
    let key ← forUpto (fun i key => invMixRound (i + 1) key) (key.rounds - 1) key
    return (0, some key)
  | (status, none) => return (status, none)

/-! ### The block functions -/

/-- The variables `s0`, …, `s3`, or `t0`, …, `t3`. -/
abbrev AesWords := Fin 4 → BitVec 32

/-- The tables of a direction, and the step from the column of a byte to the column of the byte below it. -/
structure AesTables where
  table : Fin 4 → List (BitVec 32)
  last : List (BitVec 32)
  step : Fin 4

/-- `Te0[s0 >> 24] ^ Te1[(s1 >> 16) & 0xff] ^ Te2[(s2 >> 8) & 0xff] ^ Te3[s3 & 0xff] ^ rk[k]`, for column `c`. -/
def AesTables.column (tables : AesTables) (key : AesKey) (k : ℕ) (s : AesWords) (c : Fin 4) :
    Run (BitVec 32) := do
  return (← readAt (tables.table (col 0)) (s c >>> 24).toNat) ^^^
    (← readAt (tables.table (col 1)) (s (c + tables.step) >>> 16 &&& 0xff#32).toNat) ^^^
    (← readAt (tables.table (col 2)) (s (c + tables.step * col 2) >>> 8 &&& 0xff#32).toNat) ^^^
    (← readAt (tables.table (col 3)) (s (c + tables.step * col 3) &&& 0xff#32).toNat) ^^^
    (← key.read k)

/-- A full round, with the round key at `rk`. -/
def AesTables.round (tables : AesTables) (key : AesKey) (rk : ℕ) (s : AesWords) : Run AesWords := do
  let t0 ← tables.column key rk s (col 0)
  let t1 ← tables.column key (rk + 1) s (col 1)
  let t2 ← tables.column key (rk + 2) s (col 2)
  let t3 ← tables.column key (rk + 3) s (col 3)
  return ![t0, t1, t2, t3]

/-- The loop over the full rounds; the state is `s0`, …, `s3`, `rk` and `r`. -/
def AesTables.rounds (tables : AesTables) (key : AesKey) (st : AesWords × ℕ × ℕ) :
    Run ((AesWords × ℕ × ℕ) ⊕ (AesWords × ℕ)) := do
  let (s, rk, r) := st
  let t ← tables.round key (rk + 4) s
  let rk := rk + 8
  if r - 1 = 0 then
    return .inr (t, rk)
  let s ← tables.round key rk t
  return .inl (s, rk, r - 1)

/-- A word of the last round, for column `c`. -/
def AesTables.lastColumn (tables : AesTables) (key : AesKey) (k : ℕ) (t : AesWords) (c : Fin 4) :
    Run (BitVec 32) := do
  return (← maskedBytes tables.last (t c >>> 24) (t (c + tables.step) >>> 16 &&& 0xff#32)
      (t (c + tables.step * col 2) >>> 8 &&& 0xff#32) (t (c + tables.step * col 3) &&& 0xff#32)) ^^^ (← key.read k)

/-- The common body of `AES_encrypt` and `AES_decrypt`: the memory after it. -/
def AesTables.crypt (tables : AesTables) (mem : ℕ → BitVec 8) (inp out : ℕ) (key : AesKey) :
    Run (ℕ → BitVec 8) := do
  let s0 := getU32 mem inp ^^^ (← key.read 0)
  let s1 := getU32 mem (inp + 4) ^^^ (← key.read 1)
  let s2 := getU32 mem (inp + 8) ^^^ (← key.read 2)
  let s3 := getU32 mem (inp + 12) ^^^ (← key.read 3)
  let (t, rk) ← loop (tables.rounds key) aesKeyWords (![s0, s1, s2, s3], 0, key.rounds / 2)
  let mem := putU32 mem out (← tables.lastColumn key rk t (col 0))
  let mem := putU32 mem (out + 4) (← tables.lastColumn key (rk + 1) t (col 1))
  let mem := putU32 mem (out + 8) (← tables.lastColumn key (rk + 2) t (col 2))
  return putU32 mem (out + 12) (← tables.lastColumn key (rk + 3) t (col 3))

/-- The tables of `AES_encrypt`; row `r` of column `c` is in column `c + r`. -/
def teTables : AesTables := ⟨![te0, te1, te2, te3], te4, col 1⟩

/-- The tables of `AES_decrypt`; row `r` of column `c` is in column `c - r`. -/
def tdTables : AesTables := ⟨![td0, td1, td2, td3], td4, col 3⟩

/-- `AES_encrypt`. -/
def aesEncrypt (mem : ℕ → BitVec 8) (inp out : ℕ) (key : AesKey) : Run (ℕ → BitVec 8) :=
  teTables.crypt mem inp out key

/-- `AES_decrypt`. -/
def aesDecrypt (mem : ℕ → BitVec 8) (inp out : ℕ) (key : AesKey) : Run (ℕ → BitVec 8) :=
  tdTables.crypt mem inp out key

end ChannelBench
