import ChannelBench.AesKeys

/-! The block functions on the keys of the two schedules. The decryption with the key of `AES_set_decrypt_key`
is the inverse of the encryption with the key of `AES_set_encrypt_key` from the same user key. -/

namespace ChannelBench

open CSem

theorem aesInverse_inverts : aesInverse.Inverts aesCipher :=
  rijndael_inverts invSbox_sbox (by decide) invMix_mix

theorem aesCipher_inverts : aesCipher.Inverts aesInverse :=
  rijndael_inverts sbox_invSbox (by decide) mix_invMix

/-- The words of an expansion are determined by the key. -/
theorem KeyExpansion.unique {nk n : ℕ} {userKey words words' : ℕ → BitVec 32} (hnk : 0 < nk)
    (h : KeyExpansion nk userKey n words) (h' : KeyExpansion nk userKey n words') :
    ∀ i, i < n → words i = words' i := by
  intro i
  induction i using Nat.strong_induction_on with
  | h i ih =>
      intro hi
      by_cases hfirst : i < nk
      · rw [h.loaded i hfirst hi, h'.loaded i hfirst hi]
      · rw [h.derived i (by omega) hi, h'.derived i (by omega) hi, ih (i - nk) (by omega) (by omega),
          ih (i - 1) (by omega) (by omega)]

theorem AesKey.SetFrom.roundKey_eq {start start' key key' : AesKey} {mem : ℕ → BitVec 8} {userKey nk : ℕ}
    (hnk : 0 < nk) (h : start.SetFrom mem userKey nk key) (h' : start'.SetFrom mem userKey nk key') {i : ℕ}
    (hi : i ≤ nk + 6) : key.roundKey i = key'.roundKey i := by
  have hwords := h.expanded
  have hwords' := h'.expanded
  rw [h.rounds_eq] at hwords
  rw [h'.rounds_eq] at hwords'
  funext c r
  have hc := c.isLt
  exact congrArg (wordByte · r) (hwords.unique hnk hwords' (4 * i + c.val) (by omega))

/-- Two keys with the same number of rounds and the same round keys. -/
structure AesKey.Same (key key' : AesKey) : Prop where
  rounds_eq : key.rounds = key'.rounds
  roundKey_eq : ∀ i ≤ key.rounds, key.roundKey i = key'.roundKey i

theorem AesKey.SetFrom.sameKeys {start start' key key' : AesKey} {mem : ℕ → BitVec 8} {userKey nk : ℕ}
    (h : start.SetFrom mem userKey nk key) (hnk : 0 < nk) (h' : start'.SetFrom mem userKey nk key') :
    key.Same key' where
  rounds_eq := h.rounds_eq.trans h'.rounds_eq.symm
  roundKey_eq := by
    intro i hi
    rw [h.rounds_eq] at hi
    exact h.roundKey_eq hnk h' hi

theorem AesKey.InverseOf.of_same {key enc enc' : AesKey} (h : key.InverseOf enc) (hsame : enc.Same enc') :
    key.InverseOf enc' where
  rounds_eq := h.rounds_eq.trans hsame.rounds_eq
  first := by rw [h.first, hsame.roundKey_eq _ (Nat.le_refl _), hsame.rounds_eq]
  last := by rw [h.last, hsame.roundKey_eq _ (Nat.zero_le _)]
  inner := by
    have hkeys : enc.innerKeys (enc.rounds - 1) = enc'.innerKeys (enc.rounds - 1) := by
      apply List.map_congr_left
      intro i hi
      have hlt := List.mem_range.mp hi
      exact hsame.roundKey_eq (i + 1) (by omega)
    rw [h.inner, hkeys, hsame.rounds_eq]

/-- What the encryption with a key makes of a block. -/
def AesKey.encryptBlock (key : AesKey) (block : AesBlock) : AesBlock :=
  aesCipher.run (key.roundKey 0) (key.innerKeys (key.rounds - 1)) (key.roundKey key.rounds) block

/-- What the decryption with a key makes of a block. -/
def AesKey.decryptBlock (key : AesKey) (block : AesBlock) : AesBlock :=
  aesInverse.run (key.roundKey 0) (key.innerKeys (key.rounds - 1)) (key.roundKey key.rounds) block

theorem AesKey.InverseOf.decrypt_encrypt {key enc : AesKey} (h : key.InverseOf enc) (block : AesBlock) :
    key.decryptBlock (enc.encryptBlock block) = block := by
  rw [AesKey.decryptBlock, AesKey.encryptBlock, h.first, h.inner, h.last]
  exact aesInverse_inverts.run _ _ _ block

theorem AesKey.InverseOf.encrypt_decrypt {key enc : AesKey} (h : key.InverseOf enc) (block : AesBlock) :
    enc.encryptBlock (key.decryptBlock block) = block := by
  have hkeys : (((enc.innerKeys (enc.rounds - 1)).reverse.map aesInverse.diffuse).reverse.map aesCipher.diffuse) =
      enc.innerKeys (enc.rounds - 1) := by
    rw [← List.map_reverse, List.reverse_reverse, List.map_map]
    apply List.map_id''
    exact aesCipher_inverts.diffuse
  rw [AesKey.decryptBlock, AesKey.encryptBlock, h.first, h.inner, h.last]
  have hrun := aesCipher_inverts.run (enc.roundKey enc.rounds)
    ((enc.innerKeys (enc.rounds - 1)).reverse.map aesInverse.diffuse) (enc.roundKey 0) block
  rw [hkeys] at hrun
  exact hrun

/-- A key that the block functions can use: an even number of rounds, at least two, and their words in the array. -/
structure AesKey.Usable (key : AesKey) : Prop where
  even : key.rounds % 2 = 0
  pos : 0 < key.rounds
  words : 4 * key.rounds + 3 < aesKeyWords

theorem AesKey.Usable.of_rounds {key key' : AesKey} (h : key.Usable) (hrounds : key'.rounds = key.rounds) :
    key'.Usable where
  even := hrounds ▸ h.even
  pos := hrounds ▸ h.pos
  words := hrounds ▸ h.words

theorem AesKey.SetFrom.usable {start key : AesKey} {mem : ℕ → BitVec 8} {userKey nk : ℕ}
    (h : start.SetFrom mem userKey nk key) (hnk : nk ∈ aesKeySizes) : key.Usable := by
  have hrounds := h.rounds_eq
  simp only [aesKeySizes, List.mem_cons, List.not_mem_nil, or_false] at hnk
  refine ⟨by omega, by omega, ?_⟩
  unfold aesKeyWords
  omega

theorem aesKeySizes_pos {nk : ℕ} (hnk : nk ∈ aesKeySizes) : 0 < nk := by
  simp only [aesKeySizes, List.mem_cons, List.not_mem_nil, or_false] at hnk
  omega

/-- **The table lookups compute the cipher.** `AES_encrypt` and `AES_decrypt` write the block that the cipher, or
the inverse cipher, makes of the block they read, wherever the two blocks overlap, and nothing else. -/
theorem aesEncrypt_decrypt_compute (key : AesKey) (hkey : key.Usable) (mem : ℕ → BitVec 8) (inp out : ℕ) :
    (Returns (aesEncrypt mem inp out key) fun mem' => blockAt mem' out = key.encryptBlock (blockAt mem inp) ∧
      ∀ a, a < out ∨ out + 16 ≤ a → mem' a = mem a) ∧
    Returns (aesDecrypt mem inp out key) fun mem' => blockAt mem' out = key.decryptBlock (blockAt mem inp) ∧
      ∀ a, a < out ∨ out + 16 ≤ a → mem' a = mem a := by
  have heven := hkey.even
  have hpos := hkey.pos
  have hwords := hkey.words
  have htwice : 2 * (key.rounds / 2) = key.rounds := by omega
  have henc := teTables_compute.crypt_returns mem inp out key rfl (by omega) (by omega)
  have hdec := tdTables_compute.crypt_returns mem inp out key rfl (by omega) (by omega)
  rw [htwice] at henc hdec
  exact ⟨henc, hdec⟩

theorem aesEncrypt_decrypt_compute_ten : (⟨fun i => BitVec.ofNat 32 i, 10⟩ : AesKey).Usable ∧
    Returns (aesEncrypt (fun _ => 7) 0 5 ⟨fun i => BitVec.ofNat 32 i, 10⟩) fun mem' => blockAt mem' 5 =
      AesKey.encryptBlock ⟨fun i => BitVec.ofNat 32 i, 10⟩ (blockAt (fun _ => 7) 0) := by
  have husable : (⟨fun i => BitVec.ofNat 32 i, 10⟩ : AesKey).Usable := ⟨rfl, by decide, by decide⟩
  exact ⟨husable, (aesEncrypt_decrypt_compute _ husable (fun _ => 7) 0 5).1.mono fun _ h => h.1⟩

/-- **Decryption undoes encryption, and encryption decryption,** with the keys that the two key schedules make of
one user key of any size. -/
theorem aes_round_trip (keyMem : ℕ → BitVec 8) (userKey nk : ℕ) (hnk : nk ∈ aesKeySizes) (start start' : AesKey) :
    ∃ enc dec, aesSetEncryptKey keyMem (some userKey) (32 * nk) (some start) = .ok (0, some enc) ∧
      aesSetDecryptKey keyMem (some userKey) (32 * nk) (some start') = .ok (0, some dec) ∧
      ∀ mem inp out back,
        (Returns (aesEncrypt mem inp out enc >>= fun mem => aesDecrypt mem out back dec)
          fun mem' => blockAt mem' back = blockAt mem inp) ∧
        Returns (aesDecrypt mem inp out dec >>= fun mem => aesEncrypt mem out back enc)
          fun mem' => blockAt mem' back = blockAt mem inp := by
  obtain ⟨_, henc, enc, rfl, hset⟩ := aesSetEncryptKey_of_size keyMem userKey start hnk
  obtain ⟨_, hdec, dec, enc', rfl, hset', hinverse⟩ := aesSetDecryptKey_of_size keyMem userKey start' hnk
  refine ⟨enc, dec, henc, hdec, ?_⟩
  have hinverse := hinverse.of_same (hset'.sameKeys (aesKeySizes_pos hnk) hset)
  have husable := hset.usable hnk
  have husable' := husable.of_rounds hinverse.rounds_eq
  intro mem inp out back
  constructor
  · apply (aesEncrypt_decrypt_compute enc husable mem inp out).1.bind
    intro mem' hmem'
    apply (aesEncrypt_decrypt_compute dec husable' mem' out back).2.mono
    intro mem'' hmem''
    rw [hmem''.1, hmem'.1, hinverse.decrypt_encrypt]
  · apply (aesEncrypt_decrypt_compute dec husable' mem inp out).2.bind
    intro mem' hmem'
    apply (aesEncrypt_decrypt_compute enc husable mem' out back).1.mono
    intro mem'' hmem''
    rw [hmem''.1, hmem'.1, hinverse.encrypt_decrypt]

theorem aes_round_trip_zero : 4 ∈ aesKeySizes ∧ ∃ enc dec,
    aesSetEncryptKey (fun _ => 0) (some 0) (32 * (4 : ℕ)) (some ⟨fun _ => 0, 0⟩) = .ok (0, some enc) ∧
    aesSetDecryptKey (fun _ => 0) (some 0) (32 * (4 : ℕ)) (some ⟨fun _ => 0, 0⟩) = .ok (0, some dec) ∧
    Returns (aesEncrypt (fun _ => 7) 0 5 enc >>= fun mem => aesDecrypt mem 5 9 dec)
      fun mem => blockAt mem 9 = blockAt (fun _ => 7) 0 := by
  refine ⟨by decide, ?_⟩
  obtain ⟨enc, dec, henc, hdec, htrip⟩ :=
    aes_round_trip (fun _ => 0) 0 4 (by decide) ⟨fun _ => 0, 0⟩ ⟨fun _ => 0, 0⟩
  exact ⟨enc, dec, henc, hdec, (htrip (fun _ => 7) 0 5 9).1⟩

end ChannelBench
