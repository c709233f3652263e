import ChannelBench.AesRounds

/-! The key schedules of `aes_core.c`. The words that `AES_set_encrypt_key` writes satisfy the recurrence of the
key expansion, and those of `AES_set_decrypt_key` are the round keys for the inverse cipher, so what one block
function does the other one undoes. -/

namespace ChannelBench

open CSem

/-! ### The key expansion -/

section Expansion

variable {nk n : ℕ} {userKey words : ℕ → BitVec 32} {word : BitVec 32}

theorem KeyExpansion.load (h : KeyExpansion nk userKey n words) (hn : n < nk) (hword : word = userKey n) :
    KeyExpansion nk userKey (n + 1) (Function.update words n word) where
  loaded := by
    intro i hi hlt
    rcases Nat.lt_succ_iff_lt_or_eq.mp hlt with hlt | rfl
    · rw [Function.update_of_ne (Nat.ne_of_lt hlt), h.loaded i hi hlt]
    · rw [Function.update_self, hword]
  derived := fun i hi hlt => by omega

theorem KeyExpansion.derive (h : KeyExpansion nk userKey n words) (hnk : 0 < nk) (hn : nk ≤ n)
    (hword : word = words (n - nk) ^^^ expandedTemp nk n (words (n - 1))) :
    KeyExpansion nk userKey (n + 1) (Function.update words n word) where
  loaded := by
    intro i hi hlt
    rw [Function.update_of_ne (by omega), h.loaded i hi (by omega)]
  derived := by
    intro i hi hlt
    rw [Function.update_of_ne (show i - nk ≠ n by omega), Function.update_of_ne (show i - 1 ≠ n by omega)]
    rcases Nat.lt_succ_iff_lt_or_eq.mp hlt with hlt | rfl
    · rw [Function.update_of_ne (Nat.ne_of_lt hlt), h.derived i hi hlt]
    · rw [Function.update_self, hword]

end Expansion

/-! ### `AES_set_encrypt_key` -/

/-- The key while its words are being written: the first `n` are, and the others are those of before. -/
structure AesKey.Filled (start : AesKey) (nk : ℕ) (userKey : ℕ → BitVec 32) (n : ℕ) (key : AesKey) : Prop where
  expanded : KeyExpansion nk userKey n key.rdKey
  rest : ∀ i, n ≤ i → key.rdKey i = start.rdKey i
  rounds_eq : key.rounds = start.rounds

theorem AesKey.write_eq (key : AesKey) {i : ℕ} (hi : i < aesKeyWords) (word : BitVec 32) :
    key.write i word = .ok { key with rdKey := Function.update key.rdKey i word } := by
  rw [AesKey.write, require_pos hi]
  rfl

section Fill

variable {start key : AesKey} {nk n : ℕ} {userKey : ℕ → BitVec 32}

theorem AesKey.Filled.write (h : start.Filled nk userKey n key) (hn : n < aesKeyWords) {word : BitVec 32}
    (hword : KeyExpansion nk userKey (n + 1) (Function.update key.rdKey n word)) :
    Returns (key.write n word) (start.Filled nk userKey (n + 1)) := by
  rw [key.write_eq hn, returns_ok]
  refine ⟨hword, ?_, h.rounds_eq⟩
  intro i hi
  dsimp only
  rw [Function.update_of_ne (by omega), h.rest i (by omega)]

theorem AesKey.Filled.load {mem : ℕ → BitVec 8} {address : ℕ}
    (h : start.Filled nk (fun i => getU32 mem (address + 4 * i)) n key) (hnk : n < nk) (hn : n < aesKeyWords) :
    Returns (key.load mem address n) (start.Filled nk (fun i => getU32 mem (address + 4 * i)) (n + 1)) :=
  h.write hn (h.expanded.load hnk rfl)

/-- `rk[p] = rk[s] ^ rk[p - 1]`, away from the multiples of `nk`. -/
theorem AesKey.Filled.chain (h : start.Filled nk userKey n key) {s : ℕ} (hs : s + nk = n) (hnk : 0 < nk)
    (hn : n < aesKeyWords) (hmod : n % nk ≠ 0) (hsub : ¬(6 < nk ∧ n % nk = 4)) :
    Returns (key.chain n s) (start.Filled nk userKey (n + 1)) := by
  unfold AesKey.chain
  rw [key.read_eq (by omega), ok_bind, key.read_eq (by omega), ok_bind]
  apply h.write hn
  apply h.expanded.derive hnk (by omega)
  rw [expandedTemp, if_neg hmod, if_neg hsub, ← hs, Nat.add_sub_cancel]

/-- The masked bytes of the S-box table. -/
theorem maskedBytes_te4 (bytes : Fin 4 → BitVec 8) {a b c d : BitVec 32} (ha : a.toNat = (bytes 0).toNat)
    (hb : b.toNat = (bytes 1).toNat) (hc : c.toNat = (bytes 2).toNat) (hd : d.toNat = (bytes 3).toNat) :
    maskedBytes te4 a b c d = .ok (joinBytes fun r => sbox (bytes r)) := by
  obtain ⟨word, hword, hbytes⟩ := teTables_compute.maskedBytes_returns bytes ha hb hc hd
  have heq : word = joinBytes fun r => sbox (bytes r) := word_ext fun r => by rw [hbytes, wordByte_joinBytes]
  rw [← heq]
  exact hword

theorem readAt_rcon {i : ℕ} (hi : i < 10) : readAt rcon i = .ok (rconWord i) := by
  have hall : ∀ i < 10, rcon[i]? = some (rconWord i) := by decide
  exact readAt_of_eq_some (hall i hi)

theorem rotatedWord_eq (temp : BitVec 32) {i : ℕ} (hi : i < 10) :
    rotatedWord temp i = .ok (subWord (rotWord temp) ^^^ rconWord i) := by
  have hmasked : maskedBytes te4 (temp >>> 16 &&& 0xff#32) (temp >>> 8 &&& 0xff#32) (temp &&& 0xff#32) (temp >>> 24) =
      .ok (joinBytes fun r => sbox (wordByte temp (r + 1))) :=
    maskedBytes_te4 (fun r => wordByte temp (r + 1)) (toNat_byte1 temp) (toNat_byte2 temp) (toNat_byte3 temp)
      (toNat_byte0 temp)
  rw [rotatedWord, hmasked, ok_bind, readAt_rcon hi, ok_bind, subWord, rotWord]
  simp only [wordByte_joinBytes]
  rfl

theorem AesKey.Filled.chainRotated (h : start.Filled nk userKey n key) {i : ℕ} (hi : i < 10) (hnk : 0 < nk)
    (hs : nk * i + nk = n) (hn : n < aesKeyWords) :
    Returns (key.chainRotated n (nk * i) i) (start.Filled nk userKey (n + 1)) := by
  unfold AesKey.chainRotated
  rw [key.read_eq (by omega), ok_bind, key.read_eq (by omega), ok_bind, rotatedWord_eq _ hi, ok_bind]
  apply h.write hn
  apply h.expanded.derive hnk (by omega)
  have hdiv : n = nk * (i + 1) := by rw [Nat.mul_succ, hs]
  have hmod : n % nk = 0 := by rw [hdiv, Nat.mul_mod_right]
  have hquot : n / nk - 1 = i := by rw [hdiv, Nat.mul_div_cancel_left _ hnk, Nat.add_sub_cancel]
  rw [expandedTemp, if_pos hmod, hquot, ← hs, Nat.add_sub_cancel]

theorem AesKey.Filled.chainSubstituted (h : start.Filled nk userKey n key) {s : ℕ} (hs : s + nk = n)
    (hnk : 6 < nk) (hn : n < aesKeyWords) (hmod : n % nk = 4) :
    Returns (key.chainSubstituted n s) (start.Filled nk userKey (n + 1)) := by
  unfold AesKey.chainSubstituted
  rw [key.read_eq (by omega), ok_bind, key.read_eq (by omega), ok_bind,
    maskedBytes_te4 (wordByte (key.rdKey (n - 1))) (toNat_byte0 _) (toNat_byte1 _) (toNat_byte2 _) (toNat_byte3 _),
    ok_bind]
  apply h.write hn
  apply h.expanded.derive (by omega) (by omega)
  rw [expandedTemp, if_neg (by omega), if_pos ⟨hnk, hmod⟩, ← hs, Nat.add_sub_cancel, subWord]

/-! The loops: before round `i` the words of the first `i + 1` groups of `nk` are there. -/

theorem expand128_returns (h : start.Filled 4 userKey 4 key) :
    Returns (loop expand128 aesKeyWords (key, 0)) (start.Filled 4 userKey 44) := by
  apply loop_returns (fun st : AesKey × ℕ => st.2 < 10 ∧ start.Filled 4 userKey (4 * st.2 + 4) st.1) _
    fun st => 10 - st.2
  · intro st hst
    obtain ⟨key, i⟩ := st
    obtain ⟨hi, hkey⟩ := hst
    dsimp only at hi hkey
    have hwords : 4 * i + 7 < aesKeyWords := by unfold aesKeyWords; omega
    unfold expand128
    apply (hkey.chainRotated hi (by decide) rfl (by omega)).bind
    intro key hkey
    apply (hkey.chain (by omega) (by decide) (by omega) (by omega) (by omega)).bind
    intro key hkey
    apply (hkey.chain (by omega) (by decide) (by omega) (by omega) (by omega)).bind
    intro key hkey
    apply (hkey.chain (by omega) (by decide) (by omega) (by omega) (by omega)).bind
    intro key hkey
    dsimp only
    split_ifs with hlast
    · apply returns_pure.mpr
      obtain rfl : i = 9 := by omega
      exact hkey
    · apply returns_pure.mpr
      exact ⟨⟨by omega, hkey⟩, by show 10 - (i + 1) < 10 - i; omega⟩
  · exact ⟨(by decide : 0 < 10), h⟩
  · exact (by decide : 10 - 0 < aesKeyWords)

theorem expand192_returns (h : start.Filled 6 userKey 6 key) :
    Returns (loop expand192 aesKeyWords (key, 0)) (start.Filled 6 userKey 52) := by
  apply loop_returns (fun st : AesKey × ℕ => st.2 < 8 ∧ start.Filled 6 userKey (6 * st.2 + 6) st.1) _
    fun st => 8 - st.2
  · intro st hst
    obtain ⟨key, i⟩ := st
    obtain ⟨hi, hkey⟩ := hst
    dsimp only at hi hkey
    have hwords : 6 * i + 9 < aesKeyWords := by unfold aesKeyWords; omega
    unfold expand192
    apply (hkey.chainRotated (by omega) (by decide) rfl (by omega)).bind
    intro key hkey
    apply (hkey.chain (by omega) (by decide) (by omega) (by omega) (by omega)).bind
    intro key hkey
    apply (hkey.chain (by omega) (by decide) (by omega) (by omega) (by omega)).bind
    intro key hkey
    apply (hkey.chain (by omega) (by decide) (by omega) (by omega) (by omega)).bind
    intro key hkey
    dsimp only
    split_ifs with hlast
    · apply returns_pure.mpr
      obtain rfl : i = 7 := by omega
      exact hkey
    · -- the round is not the last one, so two more words have room
      have hmore : 6 * i + 11 < aesKeyWords := by unfold aesKeyWords; omega
      apply (hkey.chain (by omega) (by decide) (by omega) (by omega) (by omega)).bind
      intro key hkey
      apply (hkey.chain (by omega) (by decide) (by omega) (by omega) (by omega)).bind
      intro key hkey
      apply returns_pure.mpr
      exact ⟨⟨by omega, hkey⟩, by show 8 - (i + 1) < 8 - i; omega⟩
  · exact ⟨(by decide : 0 < 8), h⟩
  · exact (by decide : 8 - 0 < aesKeyWords)

theorem expand256_returns (h : start.Filled 8 userKey 8 key) :
    Returns (loop expand256 aesKeyWords (key, 0)) (start.Filled 8 userKey 60) := by
  apply loop_returns (fun st : AesKey × ℕ => st.2 < 7 ∧ start.Filled 8 userKey (8 * st.2 + 8) st.1) _
    fun st => 7 - st.2
  · intro st hst
    obtain ⟨key, i⟩ := st
    obtain ⟨hi, hkey⟩ := hst
    dsimp only at hi hkey
    have hwords : 8 * i + 11 < aesKeyWords := by unfold aesKeyWords; omega
    unfold expand256
    apply (hkey.chainRotated (by omega) (by decide) rfl (by omega)).bind
    intro key hkey
    apply (hkey.chain (by omega) (by decide) (by omega) (by omega) (by omega)).bind
    intro key hkey
    apply (hkey.chain (by omega) (by decide) (by omega) (by omega) (by omega)).bind
    intro key hkey
    apply (hkey.chain (by omega) (by decide) (by omega) (by omega) (by omega)).bind
    intro key hkey
    dsimp only
    split_ifs with hlast
    · apply returns_pure.mpr
      obtain rfl : i = 6 := by omega
      exact hkey
    · have hmore : 8 * i + 15 < aesKeyWords := by unfold aesKeyWords; omega
      apply (hkey.chainSubstituted (by omega) (by decide) (by omega) (by omega)).bind
      intro key hkey
      apply (hkey.chain (by omega) (by decide) (by omega) (by omega) (by omega)).bind
      intro key hkey
      apply (hkey.chain (by omega) (by decide) (by omega) (by omega) (by omega)).bind
      intro key hkey
      apply (hkey.chain (by omega) (by decide) (by omega) (by omega) (by omega)).bind
      intro key hkey
      apply returns_pure.mpr
      exact ⟨⟨by omega, hkey⟩, by show 7 - (i + 1) < 7 - i; omega⟩
  · exact ⟨(by decide : 0 < 7), h⟩
  · exact (by decide : 7 - 0 < aesKeyWords)

end Fill

/-- The lengths of a key in words. -/
def aesKeySizes : List ℕ := [4, 6, 8]

/-- The key that `AES_set_encrypt_key` makes of a user key of `nk` words. -/
structure AesKey.SetFrom (start : AesKey) (mem : ℕ → BitVec 8) (userKey nk : ℕ) (key : AesKey) : Prop where
  rounds_eq : key.rounds = nk + 6
  expanded : KeyExpansion nk (fun i => getU32 mem (userKey + 4 * i)) (4 * (key.rounds + 1)) key.rdKey
  rest : ∀ i, 4 * (key.rounds + 1) ≤ i → key.rdKey i = start.rdKey i

theorem AesKey.Filled.setFrom {start key : AesKey} {mem : ℕ → BitVec 8} {userKey nk n : ℕ}
    (h : ({ start with rounds := nk + 6 } : AesKey).Filled nk (fun i => getU32 mem (userKey + 4 * i)) n key)
    (hn : 4 * (nk + 7) = n) : start.SetFrom mem userKey nk key where
  rounds_eq := h.rounds_eq
  expanded := by
    have hrounds : key.rounds = nk + 6 := h.rounds_eq
    rw [hrounds, hn]
    exact h.expanded
  rest := by
    have hrounds : key.rounds = nk + 6 := h.rounds_eq
    rw [hrounds, hn]
    exact h.rest

/-- Nothing has been written yet. -/
theorem AesKey.filled_zero (start : AesKey) (nk : ℕ) (userKey : ℕ → BitVec 32) : start.Filled nk userKey 0 start where
  expanded := ⟨fun _ _ hi => absurd hi (Nat.not_lt_zero _), fun _ _ hi => absurd hi (Nat.not_lt_zero _)⟩
  rest := fun _ _ => rfl
  rounds_eq := rfl

/-- A key of 128, 192 or 256 bits is expanded. -/
theorem aesSetEncryptKey_of_size (mem : ℕ → BitVec 8) (userKey : ℕ) (start : AesKey) {nk : ℕ}
    (hnk : nk ∈ aesKeySizes) :
    Returns (aesSetEncryptKey mem (some userKey) (32 * nk) (some start)) fun r =>
      ∃ key, r = (0, some key) ∧ start.SetFrom mem userKey nk key := by
  have hwords : 8 < aesKeyWords := by decide
  have hload : ∀ {nk n : ℕ} {start key : AesKey},
      start.Filled nk (fun i => getU32 mem (userKey + 4 * i)) n key → n < nk → n < 8 →
      Returns (key.load mem userKey n) (start.Filled nk (fun i => getU32 mem (userKey + 4 * i)) (n + 1)) :=
    fun h hnk hn => h.load hnk (by omega)
  unfold aesSetEncryptKey
  dsimp only
  simp only [aesKeySizes, List.mem_cons, List.not_mem_nil, or_false] at hnk
  obtain rfl | rfl | rfl := hnk
  · rw [if_neg (by decide)]
    apply (hload (AesKey.filled_zero { start with rounds := 10 } 4 _) (by decide) (by decide)).bind
    intro key hkey
    apply (hload hkey (by decide) (by decide)).bind
    intro key hkey
    apply (hload hkey (by decide) (by decide)).bind
    intro key hkey
    apply (hload hkey (by decide) (by decide)).bind
    intro key hkey
    rw [if_pos (by decide)]
    apply (expand128_returns hkey).bind
    intro key hkey
    exact returns_pure.mpr ⟨key, rfl, hkey.setFrom rfl⟩
  · rw [if_neg (by decide)]
    apply (hload (AesKey.filled_zero { start with rounds := 12 } 6 _) (by decide) (by decide)).bind
    intro key hkey
    apply (hload hkey (by decide) (by decide)).bind
    intro key hkey
    apply (hload hkey (by decide) (by decide)).bind
    intro key hkey
    apply (hload hkey (by decide) (by decide)).bind
    intro key hkey
    rw [if_neg (by decide)]
    apply (hload hkey (by decide) (by decide)).bind
    intro key hkey
    apply (hload hkey (by decide) (by decide)).bind
    intro key hkey
    rw [if_pos (by decide)]
    apply (expand192_returns hkey).bind
    intro key hkey
    exact returns_pure.mpr ⟨key, rfl, hkey.setFrom rfl⟩
  · rw [if_neg (by decide)]
    apply (hload (AesKey.filled_zero { start with rounds := 14 } 8 _) (by decide) (by decide)).bind
    intro key hkey
    apply (hload hkey (by decide) (by decide)).bind
    intro key hkey
    apply (hload hkey (by decide) (by decide)).bind
    intro key hkey
    apply (hload hkey (by decide) (by decide)).bind
    intro key hkey
    rw [if_neg (by decide)]
    apply (hload hkey (by decide) (by decide)).bind
    intro key hkey
    apply (hload hkey (by decide) (by decide)).bind
    intro key hkey
    rw [if_neg (by decide)]
    apply (hload hkey (by decide) (by decide)).bind
    intro key hkey
    apply (hload hkey (by decide) (by decide)).bind
    intro key hkey
    rw [if_pos (by decide)]
    apply (expand256_returns hkey).bind
    intro key hkey
    exact returns_pure.mpr ⟨key, rfl, hkey.setFrom rfl⟩

/-- The arguments of the key schedules: those that are refused with a status, and a key of one of the sizes. -/
inductive KeyRequest (mem : ℕ → BitVec 8) : Option ℕ → ℤ → Option AesKey → Prop
  | missing {userKey : Option ℕ} {bits : ℤ} {key : Option AesKey} (h : userKey = none ∨ key = none)
      (heq : aesSetEncryptKey mem userKey bits key = .ok (-1, key)) : KeyRequest mem userKey bits key
  | badSize {user : ℕ} {bits : ℤ} {start : AesKey} (h : bits ≠ 128 ∧ bits ≠ 192 ∧ bits ≠ 256)
      (heq : aesSetEncryptKey mem (some user) bits (some start) = .ok (-2, some start)) :
      KeyRequest mem (some user) bits (some start)
  | good {user : ℕ} {start : AesKey} {nk : ℕ} (hnk : nk ∈ aesKeySizes) :
      KeyRequest mem (some user) (32 * nk) (some start)

theorem keyRequest (mem : ℕ → BitVec 8) (userKey : Option ℕ) (bits : ℤ) (key : Option AesKey) :
    KeyRequest mem userKey bits key := by
  cases userKey with
  | none => exact .missing (.inl rfl) rfl
  | some user =>
      cases key with
      | none => exact .missing (.inr rfl) rfl
      | some start =>
          by_cases hbits : bits ≠ 128 ∧ bits ≠ 192 ∧ bits ≠ 256
          · apply KeyRequest.badSize hbits
            unfold aesSetEncryptKey
            dsimp only
            rw [if_pos hbits]
            rfl
          · obtain ⟨nk, hnk, rfl⟩ : ∃ nk ∈ aesKeySizes, bits = 32 * nk := by
              simp only [aesKeySizes, List.mem_cons, List.not_mem_nil, or_false]
              obtain h | h | h : bits = 128 ∨ bits = 192 ∨ bits = 256 := by omega
              · exact ⟨4, by omega, h⟩
              · exact ⟨6, by omega, h⟩
              · exact ⟨8, by omega, h⟩
            exact .good hnk

theorem not_mem_aesKeySizes {bits : ℤ} (hbits : bits ≠ 128 ∧ bits ≠ 192 ∧ bits ≠ 256) {nk : ℕ}
    (hnk : nk ∈ aesKeySizes) : bits ≠ 32 * nk := by
  simp only [aesKeySizes, List.mem_cons, List.not_mem_nil, or_false] at hnk
  omega

theorem aesKeySizes_bits {nk : ℕ} (hnk : nk ∈ aesKeySizes) :
    ¬((32 * nk : ℤ) ≠ 128 ∧ (32 * nk : ℤ) ≠ 192 ∧ (32 * nk : ℤ) ≠ 256) :=
  fun hbits => not_mem_aesKeySizes hbits hnk rfl

/-- What a key schedule answers: a missing key and a number of bits that is no key size are refused with their
status and leave the key alone, and every other key satisfies `P`. -/
def AnswersKey (userKey : Option ℕ) (bits : ℤ) (key : Option AesKey) (P : ℕ → AesKey → ℕ → AesKey → Prop)
    (r : ℤ × Option AesKey) : Prop :=
  (userKey = none ∨ key = none → r = (-1, key)) ∧
    ∀ user start, userKey = some user → key = some start →
      (bits ≠ 128 ∧ bits ≠ 192 ∧ bits ≠ 256 → r = (-2, key)) ∧
      ∀ nk ∈ aesKeySizes, bits = 32 * nk → ∃ key', r = (0, some key') ∧ P user start nk key'

section Answers

variable {userKey : Option ℕ} {bits : ℤ} {key : Option AesKey} {P : ℕ → AesKey → ℕ → AesKey → Prop}

theorem answersKey_missing (h : userKey = none ∨ key = none) : AnswersKey userKey bits key P (-1, key) := by
  refine ⟨fun _ => rfl, ?_⟩
  intro user start huser hstart
  rw [huser, hstart] at h
  simp at h

theorem answersKey_badSize {user : ℕ} {start : AesKey} (h : bits ≠ 128 ∧ bits ≠ 192 ∧ bits ≠ 256) :
    AnswersKey (some user) bits (some start) P (-2, some start) := by
  refine ⟨fun hmissing => by simp at hmissing, ?_⟩
  intro _ _ _ _
  exact ⟨fun _ => rfl, fun nk hnk hbits => absurd hbits (not_mem_aesKeySizes h hnk)⟩

theorem answersKey_good {user : ℕ} {start : AesKey} {nk : ℕ} (hnk : nk ∈ aesKeySizes) {r : ℤ × Option AesKey}
    (h : ∃ key', r = (0, some key') ∧ P user start nk key') :
    AnswersKey (some user) (32 * nk) (some start) P r := by
  refine ⟨fun hmissing => by simp at hmissing, ?_⟩
  intro user' start' huser hstart
  cases huser
  cases hstart
  refine ⟨fun hbits => absurd hbits (aesKeySizes_bits hnk), ?_⟩
  intro nk' _ hsize
  obtain rfl : nk' = nk := by omega
  exact h

end Answers

/-- **The key schedule is the key expansion.** Every call that is not refused writes the words of the expansion of
the user key, and no word behind them. -/
theorem aesSetEncryptKey_expands (mem : ℕ → BitVec 8) (userKey : Option ℕ) (bits : ℤ) (key : Option AesKey) :
    Returns (aesSetEncryptKey mem userKey bits key)
      (AnswersKey userKey bits key fun user start nk key' => start.SetFrom mem user nk key') := by
  cases keyRequest mem userKey bits key with
  | missing h heq =>
      rw [heq, returns_ok]
      exact answersKey_missing h
  | badSize h heq =>
      rw [heq, returns_ok]
      exact answersKey_badSize h
  | good hnk => exact (aesSetEncryptKey_of_size mem _ _ hnk).mono fun r hr => answersKey_good hnk hr

/-! ### `AES_set_decrypt_key` -/

/-- After the exchange of the first `k` words from `i` on with those from `j` on. -/
def exchanged (i j k : ℕ) (words : ℕ → BitVec 32) (p : ℕ) : BitVec 32 :=
  if i ≤ p ∧ p < i + k then words (p - i + j) else if j ≤ p ∧ p < j + k then words (p - j + i) else words p

theorem AesKey.swap_returns {start key : AesKey} {i j k : ℕ} (hij : i + 4 ≤ j) (hk : k < 4)
    (hj : j + k < aesKeyWords) (hkey : key = { start with rdKey := exchanged i j k start.rdKey }) :
    Returns (key.swap (i + k) (j + k)) (· = { start with rdKey := exchanged i j (k + 1) start.rdKey }) := by
  subst hkey
  unfold AesKey.swap
  rw [AesKey.read_eq _ (by omega), ok_bind, AesKey.read_eq _ hj, ok_bind, AesKey.write_eq _ (by omega), ok_bind,
    AesKey.write_eq _ hj, returns_ok]
  congr 1
  funext p
  dsimp only
  have hleft : exchanged i j k start.rdKey (i + k) = start.rdKey (i + k) := by
    rw [exchanged, if_neg (by omega), if_neg (by omega)]
  have hright : exchanged i j k start.rdKey (j + k) = start.rdKey (j + k) := by
    rw [exchanged, if_neg (by omega), if_neg (by omega)]
  rw [hleft, hright]
  by_cases hpj : p = j + k
  · subst hpj
    rw [Function.update_self, exchanged, if_neg (by omega), if_pos (by omega), show j + k - j + i = i + k by omega]
  · rw [Function.update_of_ne hpj]
    by_cases hpi : p = i + k
    · subst hpi
      rw [Function.update_self, exchanged, if_pos (by omega), show i + k - i + j = j + k by omega]
    · have hi : (i ≤ p ∧ p < i + k) ↔ i ≤ p ∧ p < i + (k + 1) := by omega
      have hj : (j ≤ p ∧ p < j + k) ↔ j ≤ p ∧ p < j + (k + 1) := by omega
      rw [Function.update_of_ne hpi]
      simp only [exchanged, hi, hj]

/-- The round keys in the opposite order, as far as `k` of them from both ends. -/
def reversedTo (rounds k : ℕ) (words : ℕ → BitVec 32) (p : ℕ) : BitVec 32 :=
  if p / 4 ≤ rounds ∧ (p / 4 < k ∨ rounds - k < p / 4) then words (4 * (rounds - p / 4) + p % 4) else words p

theorem reversedTo_succ {rounds k : ℕ} (hk : 2 * k < rounds) (words : ℕ → BitVec 32) :
    exchanged (4 * k) (4 * (rounds - k)) 4 (reversedTo rounds k words) = reversedTo rounds (k + 1) words := by
  funext p
  by_cases hlow : p / 4 = k
  · rw [exchanged, if_pos (by omega), reversedTo, if_neg (by omega), reversedTo, if_pos (by omega)]
    exact congrArg words (by omega)
  · rw [exchanged, if_neg (by omega)]
    by_cases hhigh : p / 4 = rounds - k
    · rw [if_pos (by omega), reversedTo, if_neg (by omega), reversedTo, if_pos (by omega)]
      exact congrArg words (by omega)
    · have hsame : (p / 4 ≤ rounds ∧ (p / 4 < k ∨ rounds - k < p / 4)) ↔
          p / 4 ≤ rounds ∧ (p / 4 < k + 1 ∨ rounds - (k + 1) < p / 4) := by omega
      rw [if_neg (by omega), reversedTo, reversedTo]
      simp only [hsame]

/-- All round keys are in the opposite order when the two ends have met. -/
theorem reversedTo_of_le {rounds k : ℕ} (hk : rounds ≤ 2 * k) (words : ℕ → BitVec 32) :
    reversedTo rounds k words = reversedTo rounds (rounds + 1) words := by
  funext p
  by_cases hp : p / 4 ≤ rounds ∧ (p / 4 < k ∨ rounds - k < p / 4)
  · rw [reversedTo, if_pos hp, reversedTo, if_pos (by omega)]
  · rw [reversedTo, if_neg hp, reversedTo]
    by_cases hle : p / 4 ≤ rounds
    · rw [if_pos (by omega)]
      exact congrArg words (by omega)
    · rw [if_neg (by omega)]

theorem reverse_returns (start : AesKey) (hrounds : 4 * start.rounds + 3 < aesKeyWords) :
    Returns (loop reverseRound aesKeyWords (start, 0, 4 * start.rounds)) (· = { start with
      rdKey := reversedTo start.rounds (start.rounds + 1) start.rdKey }) := by
  apply loop_returns (fun st : AesKey × ℕ × ℕ => ∃ k, 2 * k ≤ start.rounds + 1 ∧ st =
    ({ start with rdKey := reversedTo start.rounds k start.rdKey }, 4 * k, 4 * (start.rounds - k))) _ fun st => st.2.2
  · intro st hst
    obtain ⟨k, hk, rfl⟩ := hst
    unfold reverseRound
    dsimp only
    by_cases hlt : 4 * k < 4 * (start.rounds - k)
    · rw [if_pos hlt]
      have hstart : ({ start with rdKey := reversedTo start.rounds k start.rdKey } : AesKey) = { start with
          rdKey := exchanged (4 * k) (4 * (start.rounds - k)) 0 (reversedTo start.rounds k start.rdKey) } := by
        congr 1
        funext p
        rw [exchanged, if_neg (by omega), if_neg (by omega)]
      have hswap : ∀ {n : ℕ} {key : AesKey}, n < 4 → key = { start with
          rdKey := exchanged (4 * k) (4 * (start.rounds - k)) n (reversedTo start.rounds k start.rdKey) } →
          Returns (key.swap (4 * k + n) (4 * (start.rounds - k) + n)) (· = { start with
            rdKey := exchanged (4 * k) (4 * (start.rounds - k)) (n + 1) (reversedTo start.rounds k start.rdKey) }) := by
        intro n key hn hkey
        exact @AesKey.swap_returns { start with rdKey := reversedTo start.rounds k start.rdKey } key _ _ n
          (by omega) hn (by omega) hkey
      apply (hswap (by decide) hstart).bind
      intro key hkey
      apply (hswap (by decide) hkey).bind
      intro key hkey
      apply (hswap (by decide) hkey).bind
      intro key hkey
      apply (hswap (by decide) hkey).bind
      intro key hkey
      rw [reversedTo_succ (by omega)] at hkey
      apply returns_pure.mpr
      refine ⟨⟨k + 1, by omega, ?_⟩, ?_⟩
      · rw [hkey]
        congr 2
        omega
      · show 4 * (start.rounds - k) - 4 < 4 * (start.rounds - k)
        omega
    · rw [if_neg hlt]
      apply returns_pure.mpr
      have hdone := reversedTo_of_le (show start.rounds ≤ 2 * k by omega) start.rdKey
      exact congrArg (fun rdKey => ({ start with rdKey } : AesKey)) hdone
  · refine ⟨0, by omega, ?_⟩
    congr 1
    have hnone : reversedTo start.rounds 0 start.rdKey = start.rdKey := by
      funext p
      rw [reversedTo, if_neg (by omega)]
    rw [hnone]
  · show 4 * start.rounds < aesKeyWords
    omega

/-- The inverse of the S-box is in the other last table. -/
theorem invSbox_sbox (b : BitVec 8) : invSbox (sbox b) = b := by
  have hall : (te4.map fun word => wordByte (td4.getD (wordByte word 0).toNat 0#32) 0) =
      (List.range 256).map (BitVec.ofNat 8) := by decide +kernel
  have hte : te4[b.toNat]? = some (joinBytes fun _ => sbox b) := teTables_compute.getElem?_last b
  have htd : td4[(sbox b).toNat]? = some (joinBytes fun _ => invSbox (sbox b)) :=
    tdTables_compute.getElem?_last (sbox b)
  have hb : (te4.map fun word => wordByte (td4.getD (wordByte word 0).toNat 0#32) 0)[b.toNat]? =
      ((List.range 256).map (BitVec.ofNat 8))[b.toNat]? := by rw [hall]
  rw [List.getElem?_map, hte, Option.map_some, wordByte_joinBytes, List.getD_eq_getElem?_getD, htd,
    Option.getD_some, wordByte_joinBytes, List.getElem?_map, List.getElem?_range b.isLt, Option.map_some,
    BitVec.ofNat_toNat, BitVec.setWidth_eq] at hb
  exact Option.some_inj.mp hb

theorem sbox_invSbox (b : BitVec 8) : sbox (invSbox b) = b := by
  have hinj : Function.Injective sbox := fun a b hab => by rw [← invSbox_sbox a, hab, invSbox_sbox]
  have : Finite (BitVec 8) := Finite.of_injective BitVec.toFin fun a b hab => BitVec.eq_of_toFin_eq hab
  obtain ⟨a, rfl⟩ := (Finite.injective_iff_surjective.mp hinj) b
  rw [invSbox_sbox]

theorem sboxIndex_eq {i : BitVec 32} {b : BitVec 8} (hi : i.toNat = b.toNat) :
    ∃ index : BitVec 32, sboxIndex i = .ok index ∧ index.toNat = (sbox b).toNat := by
  have hread : readAt te4 i.toNat = .ok (joinBytes fun _ => sbox b) := by
    rw [hi]
    exact teTables_compute.readAt_last b
  refine ⟨joinBytes (fun _ => sbox b) &&& 0xff#32, ?_, ?_⟩
  · rw [sboxIndex, hread]
    rfl
  · rw [toNat_byte3, wordByte_joinBytes]

/-- The inverse `MixColumn` of a word. -/
def invMixWord (word : BitVec 32) : BitVec 32 := joinBytes (mixBy invMixRow (wordByte word))

theorem AesKey.invMix_eq (key : AesKey) {p : ℕ} (hp : p < aesKeyWords) :
    key.invMix p = .ok { key with rdKey := Function.update key.rdKey p (invMixWord (key.rdKey p)) } := by
  obtain ⟨i0, h0, hi0⟩ := sboxIndex_eq (toNat_byte0 (key.rdKey p))
  obtain ⟨i1, h1, hi1⟩ := sboxIndex_eq (toNat_byte1 (key.rdKey p))
  obtain ⟨i2, h2, hi2⟩ := sboxIndex_eq (toNat_byte2 (key.rdKey p))
  obtain ⟨i3, h3, hi3⟩ := sboxIndex_eq (toNat_byte3 (key.rdKey p))
  have htable : ∀ j b, readAt (tdTables.table j) (sbox b).toNat = .ok (tableWord invMixRow j b) := by
    intro j b
    rw [tdTables_compute.readAt_table, invSbox_sbox]
  unfold AesKey.invMix
  rw [key.read_eq hp, ok_bind, h0, ok_bind, hi0, show readAt td0 _ = _ from htable 0 _, ok_bind, h1, ok_bind, hi1,
    show readAt td1 _ = _ from htable 1 _, ok_bind, h2, ok_bind, hi2, show readAt td2 _ = _ from htable 2 _, ok_bind,
    h3, ok_bind, hi3, show readAt td3 _ = _ from htable 3 _, ok_bind, key.write_eq hp]
  have hword : invMixWord (key.rdKey p) = tableWord invMixRow 0 (wordByte (key.rdKey p) 0) ^^^
      tableWord invMixRow 1 (wordByte (key.rdKey p) 1) ^^^ tableWord invMixRow 2 (wordByte (key.rdKey p) 2) ^^^
      tableWord invMixRow 3 (wordByte (key.rdKey p) 3) := by
    apply word_ext
    intro r
    rw [tableWords_mix, invMixWord, wordByte_joinBytes]
  rw [hword]

/-- The words from `4` on, as far as `n` of them, after the inverse `MixColumn`. -/
def mixedTo (n : ℕ) (words : ℕ → BitVec 32) (p : ℕ) : BitVec 32 :=
  if 4 ≤ p ∧ p < 4 + n then invMixWord (words p) else words p

theorem AesKey.invMix_returns {start key : AesKey} {n : ℕ} (hn : 4 + n < aesKeyWords)
    (hkey : key = { start with rdKey := mixedTo n start.rdKey }) :
    key.invMix (4 + n) = .ok { start with rdKey := mixedTo (n + 1) start.rdKey } := by
  subst hkey
  rw [AesKey.invMix_eq _ hn]
  congr 2
  funext p
  by_cases hp : p = 4 + n
  · subst hp
    have hbefore : mixedTo n start.rdKey (4 + n) = start.rdKey (4 + n) := if_neg (by omega)
    have hafter : mixedTo (n + 1) start.rdKey (4 + n) = invMixWord (start.rdKey (4 + n)) := if_pos (by omega)
    rw [Function.update_self, hafter]
    exact congrArg invMixWord hbefore
  · have hsame : (4 ≤ p ∧ p < 4 + n) ↔ 4 ≤ p ∧ p < 4 + (n + 1) := by omega
    rw [Function.update_of_ne hp]
    simp only [mixedTo, hsame]

/-- The loop over the inner round keys. -/
theorem invMixRounds_returns (start : AesKey) {rounds : ℕ} (hrounds : 4 * rounds < aesKeyWords) :
    Returns (forUpto (fun i key => invMixRound (i + 1) key) (rounds - 1) start)
      (· = { start with rdKey := mixedTo (4 * (rounds - 1)) start.rdKey }) := by
  apply forUpto_returns fun (i : ℕ) (key : AesKey) => key = { start with rdKey := mixedTo (4 * i) start.rdKey }
  · have hnone : mixedTo (4 * 0) start.rdKey = start.rdKey := by
      funext p
      rw [mixedTo, if_neg (by omega)]
    rw [hnone]
  · intro i hi key hkey
    have hmix : ∀ (k : ℕ) {key : AesKey}, k < 4 → key = { start with rdKey := mixedTo (4 * i + k) start.rdKey } →
        key.invMix (4 * (i + 1) + k) = .ok { start with rdKey := mixedTo (4 * i + k + 1) start.rdKey } := by
      intro k key hk hkey
      rw [show 4 * (i + 1) + k = 4 + (4 * i + k) by omega]
      exact AesKey.invMix_returns (by omega) hkey
    unfold invMixRound
    dsimp only
    rw [show key.invMix (4 * (i + 1)) = _ from hmix 0 (by decide) hkey, ok_bind, hmix 1 (by decide) rfl,
      ok_bind, hmix 2 (by decide) rfl, ok_bind, hmix 3 (by decide) rfl, returns_ok]
    rfl

/-- The key that `AES_set_decrypt_key` makes of the one of `AES_set_encrypt_key`. -/
structure AesKey.InverseOf (key enc : AesKey) : Prop where
  rounds_eq : key.rounds = enc.rounds
  first : key.roundKey 0 = enc.roundKey enc.rounds
  last : key.roundKey key.rounds = enc.roundKey 0
  inner : key.innerKeys (key.rounds - 1) = (enc.innerKeys (enc.rounds - 1)).reverse.map aesInverse.diffuse

/-- The words of the key for the decryption. -/
theorem AesKey.inverseOf (enc : AesKey) (hrounds : 0 < enc.rounds) :
    ({ enc with rdKey := mixedTo (4 * (enc.rounds - 1)) (reversedTo enc.rounds (enc.rounds + 1) enc.rdKey) } :
      AesKey).InverseOf enc := by
  have houter : ∀ i, i = 0 ∨ i = enc.rounds → ∀ c : Fin 4, mixedTo (4 * (enc.rounds - 1))
      (reversedTo enc.rounds (enc.rounds + 1) enc.rdKey) (4 * i + c.val) =
        enc.rdKey (4 * (enc.rounds - i) + c.val) := by
    intro i hi c
    have hc := c.isLt
    rw [mixedTo, if_neg (by omega), reversedTo, if_pos (by omega)]
    exact congrArg enc.rdKey (by omega)
  refine ⟨rfl, ?_, ?_, ?_⟩
  · funext c r
    exact congrArg (wordByte · r) (houter 0 (.inl rfl) c)
  · funext c r
    rw [← Nat.sub_self enc.rounds]
    exact congrArg (wordByte · r) (houter enc.rounds (.inr rfl) c)
  · apply List.ext_getElem
    · simp [AesKey.innerKeys]
    · intro i hi hi'
      have hlt : i < enc.rounds - 1 := by simpa [AesKey.innerKeys] using hi
      simp only [AesKey.innerKeys, List.getElem_map, List.getElem_reverse, List.length_map, List.length_range,
        List.getElem_range]
      funext c r
      have hc := c.isLt
      have hword : mixedTo (4 * (enc.rounds - 1)) (reversedTo enc.rounds (enc.rounds + 1) enc.rdKey)
          (4 * (i + 1) + c.val) = invMixWord (enc.rdKey (4 * (enc.rounds - 1 - 1 - i + 1) + c.val)) := by
        rw [mixedTo, if_pos (by omega), reversedTo, if_pos (by omega)]
        exact congrArg (fun p => invMixWord (enc.rdKey p)) (by omega)
      show wordByte (mixedTo _ _ _) r = mixBy invMixRow _ r
      rw [hword, invMixWord, wordByte_joinBytes]
      rfl

/-- A key of 128, 192 or 256 bits is expanded, and the inverse of the expanded key is built. -/
theorem aesSetDecryptKey_of_size (mem : ℕ → BitVec 8) (userKey : ℕ) (start : AesKey) {nk : ℕ}
    (hnk : nk ∈ aesKeySizes) :
    Returns (aesSetDecryptKey mem (some userKey) (32 * nk) (some start)) fun r =>
      ∃ key enc, r = (0, some key) ∧ start.SetFrom mem userKey nk enc ∧ key.InverseOf enc := by
  unfold aesSetDecryptKey
  apply (aesSetEncryptKey_of_size mem userKey start hnk).bind
  intro r hr
  obtain ⟨enc, rfl, henc⟩ := hr
  have hrounds : enc.rounds = nk + 6 := henc.rounds_eq
  have hsize : nk ≤ 8 := by
    simp only [aesKeySizes, List.mem_cons, List.not_mem_nil, or_false] at hnk
    omega
  have hwords : 4 * enc.rounds + 3 < aesKeyWords := by
    unfold aesKeyWords
    omega
  dsimp only
  rw [if_neg (by decide)]
  apply (reverse_returns enc hwords).bind
  intro key hkey
  subst hkey
  apply (invMixRounds_returns _ (show 4 * enc.rounds < aesKeyWords by omega)).bind
  intro key hkey
  subst hkey
  exact returns_pure.mpr ⟨_, enc, rfl, henc, enc.inverseOf (by omega)⟩

/-- **The key of the decryption is the inverse of the expansion.** Every call that is not refused leaves the round
keys of the expansion in the opposite order, the inner ones mixed backward. -/
theorem aesSetDecryptKey_inverts (mem : ℕ → BitVec 8) (userKey : Option ℕ) (bits : ℤ) (key : Option AesKey) :
    Returns (aesSetDecryptKey mem userKey bits key) (AnswersKey userKey bits key fun user start nk key' =>
      ∃ enc, start.SetFrom mem user nk enc ∧ key'.InverseOf enc) := by
  cases keyRequest mem userKey bits key with
  | missing h heq =>
      have hrefused : aesSetDecryptKey mem userKey bits key = .ok (-1, key) := by
        rw [aesSetDecryptKey, heq, ok_bind]
        cases key <;> rfl
      rw [hrefused, returns_ok]
      exact answersKey_missing h
  | badSize h heq =>
      rw [aesSetDecryptKey, heq, ok_bind]
      dsimp only
      rw [if_pos (by decide), returns_pure]
      exact answersKey_badSize h
  | good hnk =>
      apply (aesSetDecryptKey_of_size mem _ _ hnk).mono
      intro r hr
      obtain ⟨key', enc, hr, henc, hinverse⟩ := hr
      exact answersKey_good hnk ⟨key', hr, enc, henc, hinverse⟩

end ChannelBench
