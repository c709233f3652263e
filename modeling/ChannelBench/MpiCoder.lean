import ChannelBench.CString
import ChannelBench.MpiSigns
import Mathlib.Data.List.Induction

/-! Numbers as texts, `mpi_fromstr` and `mpi_tostr` of `mpicoder.c`. The reader takes two digits for a byte and puts a
zero in front of an odd number of them. The writer leaves the sign out. -/

namespace ChannelBench

open CSem

/-! ### The reader -/

/-- The value of a digit, as the comparisons of `mpi_fromstr` find it. -/
def hexDigit (c : Char) : Option ℕ :=
  if '0'.toNat ≤ c.toNat ∧ c.toNat ≤ '9'.toNat then some (c.toNat - '0'.toNat)
  else if 'a'.toNat ≤ c.toNat ∧ c.toNat ≤ 'f'.toNat then some (c.toNat - 'a'.toNat + 10)
  else if 'A'.toNat ≤ c.toNat ∧ c.toNat ≤ 'F'.toNat then some (c.toNat - 'A'.toNat + 10)
  else none

/-- `strlen`. -/
def strlen (buffer : List Char) (str : ℕ) : Run ℕ := scanString buffer (fun _ _ len => return .inl (len + 1)) id str 0

/-- The next two digits, with `prepend_zero` and `str` behind them. There is no byte when one of them is no digit. -/
def fromstrByte (buffer : List Char) (st : Bool × ℕ) : Run (Option ℕ × Bool × ℕ) := do
  let first ← (
    if st.1 then
      pure ('0', st.2)
    else do
      let c1 ← readAt buffer st.2
      return (c1, st.2 + 1))
  require (first.1 ≠ nul) .assertion
  let c2 ← readAt buffer first.2
  require (c2 ≠ nul) .assertion
  return (do
    let high ← hexDigit first.1
    let low ← hexDigit c2
    return high <<< 4 ||| low, false, first.2 + 1)

/-- The loop over the bytes of a limb, when there are `n` of them left. -/
def fromstrLimb (buffer : List Char) : ℕ → Limb → Bool × ℕ → Run (Option Limb × Bool × ℕ)
  | 0, a, st => return (some a, st)
  | n + 1, a, st => do
      let r ← fromstrByte buffer st
      match r.1 with
      | none => return (none, r.2)
      | some c => fromstrLimb buffer n (a <<< 8 ||| BitVec.ofNat 32 c) r.2

/-- The loop over the limbs from the highest one on, which starts with byte `i`: the limbs, and whether all characters
were digits. -/
def fromstrLimbs (buffer : List Char) (d : ℕ) : ℕ → ℕ → Limbs → Bool × ℕ → Run (Limbs × Bool)
  | 0, _, mem, _ => return (mem, true)
  | j + 1, i, mem, st => do
      let r ← fromstrLimb buffer (4 - i) 0 st
      match r.1 with
      | none => return (mem, false)
      | some a => fromstrLimbs buffer d j 0 (Function.update mem (d + j) a) r.2

/-- `mpi_clear`. -/
def mpiClear (a : Mpi) : Mpi := { a with nlimbs := 0 }

/-- The part of `mpi_fromstr` behind the sign and `0x`. -/
def fromstrDigits (h : LimbSpace) (val : Mpi) (sign : Bool) (buffer : List Char) (str : ℕ) :
    Run (LimbSpace × Mpi × ℕ) := do
  let len ← strlen buffer str
  let nbits := len * 4 % 2 ^ 32
  let nbytes := (nbits + 7) % 2 ^ 32 / 8
  let nlimbs := (nbytes + 3) / 4
  let room ← (if val.alloced < nlimbs then mpiResize h val nlimbs else pure (h, val))
  let val : Mpi := { room.2 with nlimbs := nlimbs, sign := sign }
  let r ← fromstrLimbs buffer val.d nlimbs ((4 - nbytes % 4) % 4) room.1.mem (nbits % 8 ≠ 0, str)
  let h : LimbSpace := { room.1 with mem := r.1 }
  if r.2 then
    return (h, val, 0)
  else
    return (h, mpiClear val, 1)

/-- The part of `mpi_fromstr` behind the sign. -/
def fromstrUnsigned (h : LimbSpace) (val : Mpi) (sign : Bool) (buffer : List Char) (str : ℕ) :
    Run (LimbSpace × Mpi × ℕ) := do
  let c0 ← readAt buffer str
  if c0 = '0' then
    let c1 ← readAt buffer (str + 1)
    if c1 = 'x' then
      fromstrDigits h val sign buffer (str + 2)
    else
      return (h, val, 1)
  else
    return (h, val, 1)

/-- `mpi_fromstr`: the limbs after it, the number, and what it returns. -/
def mpiFromstr (h : LimbSpace) (val : Mpi) (buffer : List Char) (str : ℕ) : Run (LimbSpace × Mpi × ℕ) := do
  let c ← readAt buffer str
  if c = '-' then
    fromstrUnsigned h val true buffer (str + 1)
  else
    fromstrUnsigned h val false buffer str

/-! ### The writer -/

/-- `nibbles`. -/
def nibbles : List Char := "0123456789abcdef".toList

/-- `*p++ = nibbles[(alimb >> shift) & 0x0f]`. -/
def tostrNibble (alimb : Limb) (rv : List Char × ℕ) (shift : ℕ) : Run (List Char × ℕ) := do
  let c ← readAt nibbles (alimb >>> shift &&& 0x0f#32).toNat
  let text ← writeAt rv.1 rv.2 c
  return (text, rv.2 + 1)

/-- `mpi_tostr`. `leftovers` are the contents that `xmalloc` leaves in the block. -/
def mpiTostr (mem : Limbs) (a : Mpi) (leftovers : Fin (a.nlimbs * 4 * 2 + 4) → Char) : Run (List Char) := do
  let rv ← writeAt (List.ofFn leftovers) 0 '0'
  let rv ← writeAt rv 1 'x'
  let rv ← forDownto (fun i rv => [28, 24, 20, 16, 12, 8, 4, 0].foldlM (tostrNibble (mem (a.d + i))) rv) a.nlimbs
    (rv, 2)
  writeAt rv.1 rv.2 nul

/-! ### Hexadecimal texts -/

/-- The characters of a number. -/
def IsHex (digits : List Char) : Prop := ∀ c ∈ digits, (hexDigit c).isSome

instance (digits : List Char) : Decidable (IsHex digits) :=
  List.decidableBAll (fun c => (hexDigit c).isSome = true) digits

/-- The value of a text of digits. -/
def hexValue (digits : List Char) : ℕ := digits.foldl (fun v c => 16 * v + (hexDigit c).getD 0) 0

/-- The text of a number: a sign, `0x`, and digits. -/
def numberText (sign : Bool) (digits : List Char) : List Char := (if sign then ['-'] else []) ++ '0' :: 'x' :: digits

section Hex

variable {c c1 c2 : Char} {digits rest : List Char} {x y : ℕ}

theorem isHex_cons : IsHex (c :: digits) ↔ (hexDigit c).isSome ∧ IsHex digits := List.forall_mem_cons

theorem isHex_append : IsHex (digits ++ rest) ↔ IsHex digits ∧ IsHex rest := List.forall_mem_append

theorem nul_not_mem_numberText (sign : Bool) (hhex : IsHex digits) : nul ∉ numberText sign digits := by
  intro hmem
  rcases List.mem_append.mp hmem with hmem | hmem
  · cases sign with
    | true => exact absurd (List.mem_singleton.mp hmem) (by decide)
    | false => exact absurd hmem List.not_mem_nil
  · rcases List.mem_cons.mp hmem with h0 | hmem
    · exact absurd h0 (by decide)
    · rcases List.mem_cons.mp hmem with hx | hmem
      · exact absurd hx (by decide)
      · exact absurd (hhex nul hmem) (by decide)

theorem hexValue_concat (digits : List Char) (c : Char) :
    hexValue (digits ++ [c]) = 16 * hexValue digits + (hexDigit c).getD 0 := by
  rw [hexValue, List.foldl_append]
  rfl

theorem hexValue_append (digits rest : List Char) :
    hexValue (digits ++ rest) = hexValue digits * 16 ^ rest.length + hexValue rest := by
  induction rest using List.reverseRecOn with
  | nil =>
      rw [List.append_nil, List.length_nil, pow_zero, Nat.mul_one]
      rfl
  | append_singleton rest c ih =>
      rw [← List.append_assoc, hexValue_concat, hexValue_concat, ih, List.length_append,
        List.length_singleton, pow_succ]
      ring

theorem hexDigit_lt (h : hexDigit c = some x) : x < 16 := by
  unfold hexDigit at h
  split_ifs at h with h0 ha hA
  · have hle : c.toNat ≤ '9'.toNat := h0.2
    have h9 : '9'.toNat = 57 := rfl
    have hz : '0'.toNat = 48 := rfl
    have hx := Option.some.inj h
    omega
  · have hle : c.toNat ≤ 'f'.toNat := ha.2
    have hf : 'f'.toNat = 102 := rfl
    have hz : 'a'.toNat = 97 := rfl
    have hx := Option.some.inj h
    omega
  · have hle : c.toNat ≤ 'F'.toNat := hA.2
    have hf : 'F'.toNat = 70 := rfl
    have hz : 'A'.toNat = 65 := rfl
    have hx := Option.some.inj h
    omega

theorem hexValue_pair (h1 : hexDigit c1 = some x) (h2 : hexDigit c2 = some y) : hexValue [c1, c2] = x <<< 4 ||| y := by
  have hor : x <<< 4 ||| y = x <<< 4 + y := (Nat.shiftLeft_add_eq_or_of_lt (hexDigit_lt h2) x).symm
  rw [hor, hexValue, List.foldl_cons, List.foldl_cons, List.foldl_nil, h1, h2, Option.getD_some, Option.getD_some,
    Nat.shiftLeft_eq]
  omega

theorem hexValue_lt (digits : List Char) : hexValue digits < 16 ^ digits.length := by
  induction digits using List.reverseRecOn with
  | nil => exact Nat.one_pos
  | append_singleton digits c ih =>
      have hc : (hexDigit c).getD 0 < 16 := by
        cases h : hexDigit c with
        | none => exact Nat.succ_pos 15
        | some x => exact hexDigit_lt h
      rw [hexValue_concat, List.length_append, List.length_singleton, pow_succ]
      omega

end Hex

/-! ### What is read -/

section Read

variable {buffer text digits rest : List Char} {st : Bool × ℕ}

/-- The characters left to read, with the zero that is put in front of them. -/
def Remains (buffer : List Char) (st : Bool × ℕ) (text : List Char) : Prop :=
  ∃ rest, CString buffer st.2 rest ∧ text = if st.1 then '0' :: rest else rest

theorem strlen_returns {str : ℕ} (h : CString buffer str text) :
    Returns (strlen buffer str) fun len => len = text.length := by
  apply scanString_returns h (fun pre len => len = pre.length) _ rfl
  · rintro pre c rest len - rfl
    rw [returns_pure, Sum.elim_inl, List.length_append, List.length_singleton]
  · exact fun len hlen => hlen

theorem fromstrByte_returns {c1 c2 : Char} (h : Remains buffer st (c1 :: c2 :: rest)) :
    Returns (fromstrByte buffer st) fun r =>
      (IsHex [c1, c2] ∧ r.1 = some (hexValue [c1, c2]) ∨ ¬IsHex [c1, c2] ∧ r.1 = none) ∧ Remains buffer r.2 rest := by
  obtain ⟨prependZero, str⟩ := st
  obtain ⟨text, hstring, htext⟩ := h
  have hfirst : Returns (if prependZero then pure ('0', str) else do
      let c1 ← readAt buffer str
      return (c1, str + 1)) fun first => first.1 = c1 ∧ c1 ≠ nul ∧ CString buffer first.2 (c2 :: rest) := by
    cases prependZero with
    | true =>
        obtain ⟨rfl, rfl⟩ := List.cons.inj htext
        exact returns_pure.mpr ⟨rfl, by decide, hstring⟩
    | false =>
        have htext' : c1 :: c2 :: rest = text := htext
        rw [← htext'] at hstring
        rw [if_neg Bool.false_ne_true, hstring.readAt_head, ok_bind, returns_pure]
        exact ⟨rfl, fun heq => hstring.nul_free (heq ▸ List.mem_cons_self), hstring.tail [c1]⟩
  unfold fromstrByte
  apply hfirst.bind
  rintro ⟨first, str'⟩ ⟨rfl, hne, hstring'⟩
  have hne2 : c2 ≠ nul := fun heq => hstring'.nul_free (heq ▸ List.mem_cons_self)
  rw [returns_require_bind]
  refine ⟨hne, ?_⟩
  have hread : readAt buffer str' = .ok c2 := hstring'.readAt_head
  rw [hread, ok_bind, returns_require_bind]
  refine ⟨hne2, returns_pure.mpr ⟨?_, rest, hstring'.tail [c2], rfl⟩⟩
  have hiff : IsHex [first, c2] ↔ (hexDigit first).isSome ∧ (hexDigit c2).isSome := by
    rw [isHex_cons, isHex_cons]
    exact and_congr_right' (and_iff_left nofun)
  rw [hiff]
  cases h1 : hexDigit first with
  | none => exact .inr ⟨fun h => absurd h.1 (by decide), rfl⟩
  | some x =>
      cases h2 : hexDigit c2 with
      | none => exact .inr ⟨fun h => absurd h.2 (by decide), rfl⟩
      | some y => exact .inl ⟨⟨rfl, rfl⟩, by rw [hexValue_pair h1 h2]; rfl⟩

theorem toNat_next_byte {a : Limb} {c : ℕ} (ha : (a.toNat + 1) * 256 ≤ radix 32) (hc : c < 256) :
    (a <<< 8 ||| BitVec.ofNat 32 c).toNat = a.toNat * 256 + c := by
  have hradix : radix 32 = 4294967296 := rfl
  rw [BitVec.toNat_or, BitVec.toNat_shiftLeft, BitVec.toNat_ofNat, Nat.mod_eq_of_lt (a := c) (by omega),
    Nat.mod_eq_of_lt (by rw [Nat.shiftLeft_eq]; omega), ← Nat.shiftLeft_add_eq_or_of_lt (show c < 2 ^ 8 from hc),
    Nat.shiftLeft_eq]

theorem fromstrLimb_returns {n : ℕ} {a : Limb} (hlen : digits.length = 2 * n) (h : Remains buffer st (digits ++ rest))
    (ha : (a.toNat + 1) * 256 ^ n ≤ radix 32) :
    Returns (fromstrLimb buffer n a st) fun r =>
      IsHex digits ∧ (∃ x, r.1 = some x ∧ x.toNat = a.toNat * 256 ^ n + hexValue digits) ∧ Remains buffer r.2 rest ∨
        ¬IsHex digits ∧ r.1 = none := by
  induction n generalizing a st digits with
  | zero =>
      obtain rfl := List.length_eq_zero_iff.mp hlen
      refine returns_pure.mpr (.inl ⟨nofun, ⟨a, rfl, ?_⟩, h⟩)
      rw [pow_zero, Nat.mul_one]
      rfl
  | succ n ih =>
      obtain ⟨c1, c2, digits, rfl⟩ : ∃ c1 c2 digits', digits = c1 :: c2 :: digits' := by
        match digits, hlen with
        | c1 :: c2 :: digits, _ => exact ⟨c1, c2, digits, rfl⟩
        | [_], hlen => exact absurd hlen (by rw [List.length_singleton]; omega)
      have hlen' : digits.length = 2 * n := by
        rw [List.length_cons, List.length_cons] at hlen
        omega
      have hsplit : IsHex (c1 :: c2 :: digits) ↔ IsHex [c1, c2] ∧ IsHex digits :=
        (isHex_append : IsHex ([c1, c2] ++ digits) ↔ _)
      unfold fromstrLimb
      apply (fromstrByte_returns h).bind
      rintro ⟨byte, st'⟩ ⟨⟨hhex, rfl⟩ | ⟨hhex, rfl⟩, hrest⟩
      · have hbyte : hexValue [c1, c2] < 256 := hexValue_lt [c1, c2]
        have hbound : (a.toNat + 1) * 256 ≤ radix 32 := by
          refine Nat.le_trans (Nat.mul_le_mul_left _ ?_) ha
          exact Nat.le_self_pow (Nat.succ_ne_zero n) 256
        have hnext := toNat_next_byte hbound hbyte
        have hvalue : hexValue (c1 :: c2 :: digits) = hexValue [c1, c2] * 256 ^ n + hexValue digits := by
          rw [show c1 :: c2 :: digits = [c1, c2] ++ digits from rfl, hexValue_append, hlen', pow_mul]
          rfl
        apply (ih hlen' hrest (a := a <<< 8 ||| BitVec.ofNat 32 (hexValue [c1, c2])) ?_).mono
        · rintro r (⟨hdigits, ⟨x, hx, hxv⟩, hr⟩ | ⟨hdigits, hr⟩)
          · refine .inl ⟨hsplit.mpr ⟨hhex, hdigits⟩, ⟨x, hx, ?_⟩, hr⟩
            rw [hxv, hnext, hvalue]
            ring
          · exact .inr ⟨fun hall => hdigits (hsplit.mp hall).2, hr⟩
        · rw [hnext]
          calc (a.toNat * 256 + hexValue [c1, c2] + 1) * 256 ^ n ≤ (a.toNat + 1) * 256 * 256 ^ n :=
                Nat.mul_le_mul_right _ (by omega)
            _ = (a.toNat + 1) * 256 ^ (n + 1) := by ring
            _ ≤ radix 32 := ha
      · exact returns_pure.mpr (.inr ⟨fun hall => hhex (hsplit.mp hall).1, rfl⟩)

theorem fromstrLimbs_returns {d j i : ℕ} {mem : Limbs} (hi : i < 4) (hlen : text.length + 2 * i = 8 * j)
    (h : Remains buffer st text) :
    Returns (fromstrLimbs buffer d j i mem st) fun r =>
      (r.2 = true ↔ IsHex text) ∧ (IsHex text → num r.1 d j = hexValue text) ∧ Writes d j mem r.1 := by
  induction j generalizing text i mem st with
  | zero =>
      obtain rfl : text = [] := List.length_eq_zero_iff.mp (by omega)
      exact returns_pure.mpr ⟨iff_of_true rfl nofun, fun _ => rfl, Writes.refl _ _ _⟩
  | succ j ih =>
      obtain ⟨digits, rest, rfl, hdigits⟩ : ∃ digits rest, text = digits ++ rest ∧ digits.length = 2 * (4 - i) :=
        ⟨text.take (2 * (4 - i)), text.drop (2 * (4 - i)), (List.take_append_drop _ _).symm, by
          rw [List.length_take]
          omega⟩
      have hrestlen : rest.length = 8 * j := by
        rw [List.length_append] at hlen
        omega
      have hstart : ((0 : Limb).toNat + 1) * 256 ^ (4 - i) ≤ radix 32 := by
        show 1 * 256 ^ (4 - i) ≤ 256 ^ 4
        rw [Nat.one_mul]
        exact Nat.pow_le_pow_right (by decide) (Nat.sub_le 4 i)
      unfold fromstrLimbs
      apply (fromstrLimb_returns hdigits h hstart).bind
      rintro ⟨limb, st'⟩ (⟨hhex, ⟨x, rfl, hx⟩, hrest⟩ | ⟨hhex, rfl⟩)
      · apply (ih (Nat.succ_pos 3) (by omega) hrest).mono
        rintro r ⟨hok, hvalue, hwrites⟩
        rw [isHex_append]
        refine ⟨hok.trans (and_iff_right hhex).symm, fun hall => ?_, ?_⟩
        · have htop : r.1 (d + j) = x := (hwrites _ (.inr (Nat.le_refl _))).trans (Function.update_self _ _ _)
          have hzero : (0 : Limb).toNat = 0 := rfl
          rw [num_succ, hvalue hall.2, htop, hx, hexValue_append, hrestlen, pow_mul, hzero, Nat.zero_mul, Nat.zero_add,
            Nat.add_comm]
          rfl
        · exact (writes_update mem x (Nat.le_add_right d j) (by omega)).trans (hwrites.mono (Nat.le_refl _) (by omega))
      · refine returns_pure.mpr ⟨?_, ?_, Writes.refl _ _ _⟩
        · exact iff_of_false Bool.false_ne_true fun hall => hhex (isHex_append.mp hall).1
        · exact fun hall => absurd (isHex_append.mp hall).1 hhex

end Read

/-! ### What is accepted -/

/-- What `mpi_fromstr` does with a text that is read as the sign and the digits of which `Text` holds, if there are
any. -/
structure Fromstr (h : LimbSpace) (val : Mpi) (Text : Bool → List Char → Prop) (r : LimbSpace × Mpi × ℕ) : Prop where
  accepted : r.2.2 = 0 ↔ ∃ sign digits, Text sign digits ∧ IsHex digits
  number : ∀ sign digits, Text sign digits → IsHex digits →
    r.2.1.sign = sign ∧ r.2.1.nlimbs = (digits.length + 7) / 8 ∧ r.2.1.abs r.1.mem = hexValue digits
  refused : r.2.2 ≠ 0 → r.2.2 = 1 ∧ (r.2.1.nlimbs = 0 ∨ r.1 = h ∧ r.2.1 = val)
  fits : r.2.1.nlimbs ≤ r.2.1.alloced ∧ r.2.1.d + r.2.1.alloced ≤ r.1.free
  place : r.2.1.d = val.d ∧ r.2.1.alloced = val.alloced ∨ h.free ≤ r.2.1.d
  frame : h.free ≤ r.1.free ∧ ∀ a, a < h.free → Apart a 1 val.d val.alloced → r.1.mem a = h.mem a

section Accept

variable {h : LimbSpace} {val : Mpi} {Text Text' : Bool → List Char → Prop} {r : LimbSpace × Mpi × ℕ}
  {buffer text : List Char} {str : ℕ}

theorem Fromstr.congr (hr : Fromstr h val Text r) (hiff : ∀ sign digits, Text sign digits ↔ Text' sign digits) :
    Fromstr h val Text' r := by
  have heq : Text = Text' := by
    funext sign digits
    exact propext (hiff sign digits)
  exact heq ▸ hr

theorem fromstr_refused (hfits : val.nlimbs ≤ val.alloced) (hval : val.d + val.alloced ≤ h.free)
    (hnone : ∀ sign digits, ¬Text sign digits) : Fromstr h val Text (h, val, 1) where
  accepted := iff_of_false Nat.one_ne_zero fun ⟨sign, digits, htext, _⟩ => hnone sign digits htext
  number := fun sign digits htext => absurd htext (hnone sign digits)
  refused := fun _ => ⟨rfl, .inr ⟨rfl, rfl⟩⟩
  fits := ⟨hfits, hval⟩
  place := .inl ⟨rfl, rfl⟩
  frame := ⟨Nat.le_refl _, fun _ _ _ => rfl⟩

theorem fromstrRoom_returns {nlimbs : ℕ} (hval : val.d + val.alloced ≤ h.free) :
    Returns (if val.alloced < nlimbs then mpiResize h val nlimbs else pure (h, val)) fun r =>
      KeepsBelow h r.1 ∧ nlimbs ≤ r.2.alloced ∧ r.2.d + r.2.alloced ≤ r.1.free ∧
        (r.2.d = val.d ∧ r.2.alloced = val.alloced ∨ h.free ≤ r.2.d) := by
  by_cases hmore : val.alloced < nlimbs
  · rw [if_pos hmore]
    apply (mpiResize_returns hval hmore).mono
    rintro ⟨h', val'⟩ ⟨hkeeps, rfl, hfree⟩
    exact ⟨hkeeps, Nat.le_refl _, Nat.le_of_eq hfree.symm, .inr (Nat.le_refl _)⟩
  · rw [if_neg hmore]
    exact returns_pure.mpr ⟨KeepsBelow.refl h, Nat.le_of_not_lt hmore, hval, .inl ⟨rfl, rfl⟩⟩

/-- Reading starts with the zero in front of an odd number of digits, and at the byte that makes the limbs full. -/
theorem fromstrDigits_returns (hstring : CString buffer str text) (hlen : 4 * text.length + 7 < 2 ^ 32)
    (hval : val.d + val.alloced ≤ h.free) (sign : Bool) :
    Returns (fromstrDigits h val sign buffer str) (Fromstr h val fun s digits => s = sign ∧ digits = text) := by
  unfold fromstrDigits
  apply (strlen_returns hstring).bind
  rintro len rfl
  have hbits : text.length * 4 % 2 ^ 32 = 4 * text.length := by
    rw [Nat.mul_comm, Nat.mod_eq_of_lt (by omega)]
  have hbytes : (4 * text.length + 7) % 2 ^ 32 / 8 = (text.length + 1) / 2 := by
    rw [Nat.mod_eq_of_lt hlen]
    omega
  have hlimbs : ((text.length + 1) / 2 + 3) / 4 = (text.length + 7) / 8 := by omega
  dsimp only
  rw [hbits, hbytes, hlimbs]
  obtain ⟨padded, hpadded, hplen, hphex, hpvalue⟩ : ∃ padded : List Char,
      padded = (if decide (4 * text.length % 8 ≠ 0) then '0' :: text else text) ∧
      padded.length = 2 * ((text.length + 1) / 2) ∧ (IsHex padded ↔ IsHex text) ∧ hexValue padded = hexValue text := by
    by_cases hodd : 4 * text.length % 8 ≠ 0
    · refine ⟨'0' :: text, by rw [decide_eq_true hodd, if_pos rfl], ?_, ?_, ?_⟩
      · rw [List.length_cons]
        omega
      · exact isHex_cons.trans (and_iff_right rfl)
      · rw [show '0' :: text = ['0'] ++ text from rfl, hexValue_append]
        exact (congrArg (· + hexValue text) (Nat.zero_mul _)).trans (Nat.zero_add _)
    · refine ⟨text, by rw [decide_eq_false hodd, if_neg Bool.false_ne_true], ?_, Iff.rfl, rfl⟩
      omega
  apply (fromstrRoom_returns hval).bind
  rintro ⟨h1, val1⟩ ⟨hkeeps, halloced, hbelow, hplace⟩
  dsimp only at hkeeps halloced hbelow hplace ⊢
  apply (fromstrLimbs_returns (Nat.mod_lt _ (Nat.succ_pos 3)) (by omega) ⟨text, hstring, hpadded⟩).bind
  rintro ⟨mem, ok⟩ ⟨hok, hvalue, hwrites⟩
  rw [hphex] at hok hvalue
  rw [hpvalue] at hvalue
  have hframe : ∀ a, a < h.free → Apart a 1 val.d val.alloced → mem a = h.mem a := by
    intro a ha hapart
    rw [← hkeeps.2 a ha]
    apply hwrites
    omega
  dsimp only at hok ⊢
  by_cases hhex : IsHex text
  · rw [if_pos (hok.mpr hhex), returns_pure]
    constructor
    · exact iff_of_true rfl ⟨sign, text, ⟨rfl, rfl⟩, hhex⟩
    · rintro s digits ⟨rfl, rfl⟩ -
      exact ⟨rfl, rfl, hvalue hhex⟩
    · exact fun hne => absurd rfl hne
    · exact ⟨halloced, hbelow⟩
    · exact hplace
    · exact ⟨hkeeps.1, hframe⟩
  · rw [if_neg (fun h => hhex (hok.mp h)), returns_pure]
    constructor
    · refine iff_of_false Nat.one_ne_zero ?_
      rintro ⟨s, digits, ⟨-, rfl⟩, hall⟩
      exact hhex hall
    · rintro s digits ⟨-, rfl⟩ hall
      exact absurd hall hhex
    · exact fun _ => ⟨rfl, .inl rfl⟩
    · exact ⟨Nat.zero_le _, hbelow⟩
    · exact hplace
    · exact ⟨hkeeps.1, hframe⟩

theorem fromstrUnsigned_returns (hstring : CString buffer str text) (hlen : 4 * text.length + 7 < 2 ^ 32)
    (hfits : val.nlimbs ≤ val.alloced) (hval : val.d + val.alloced ≤ h.free) (sign : Bool) :
    Returns (fromstrUnsigned h val sign buffer str)
      (Fromstr h val fun s digits => s = sign ∧ text = '0' :: 'x' :: digits) := by
  unfold fromstrUnsigned
  rw [hstring.readAt_head, ok_bind]
  by_cases hzero : text.headD nul = '0'
  · rw [if_pos hzero]
    cases text with
    | nil => exact absurd hzero (by decide)
    | cons c text =>
        obtain rfl : c = '0' := hzero
        have hstring1 := hstring.tail ['0']
        have hread : readAt buffer (str + 1) = .ok (text.headD nul) := hstring1.readAt_head
        rw [hread, ok_bind]
        by_cases hx : text.headD nul = 'x'
        · rw [if_pos hx]
          cases text with
          | nil => exact absurd hx (by decide)
          | cons c text =>
              obtain rfl : c = 'x' := hx
              rw [List.length_cons, List.length_cons] at hlen
              apply (fromstrDigits_returns (hstring.tail ['0', 'x']) (by omega) hval sign).mono
              intro r hr
              apply hr.congr
              intro s digits
              rw [List.cons.injEq, List.cons.injEq, and_iff_right rfl, and_iff_right rfl, eq_comm (a := digits)]
        · rw [if_neg hx, returns_pure]
          apply fromstr_refused hfits hval
          rintro s digits ⟨-, htext⟩
          obtain ⟨-, rfl⟩ := List.cons.inj htext
          exact hx rfl
  · rw [if_neg hzero, returns_pure]
    apply fromstr_refused hfits hval
    rintro s digits ⟨-, rfl⟩
    exact hzero rfl

/-- `mpi_fromstr` accepts a sign, `0x` and digits, and nothing else. -/
theorem mpiFromstr_returns (hstring : CString buffer str text) (hlen : 4 * text.length + 7 < 2 ^ 32)
    (hfits : val.nlimbs ≤ val.alloced) (hval : val.d + val.alloced ≤ h.free) :
    Returns (mpiFromstr h val buffer str) (Fromstr h val fun sign digits => text = numberText sign digits) := by
  unfold mpiFromstr
  rw [hstring.readAt_head, ok_bind]
  by_cases hminus : text.headD nul = '-'
  · rw [if_pos hminus]
    cases text with
    | nil => exact absurd hminus (by decide)
    | cons c text =>
        obtain rfl : c = '-' := hminus
        rw [List.length_cons] at hlen
        apply (fromstrUnsigned_returns (hstring.tail ['-']) (by omega) hfits hval true).mono
        intro r hr
        apply hr.congr
        intro sign digits
        cases sign with
        | true => exact ⟨fun htext => congrArg (List.cons '-') htext.2, fun htext => ⟨rfl, (List.cons.inj htext).2⟩⟩
        | false =>
            exact ⟨fun htext => absurd htext.1 (by decide), fun htext => absurd (List.cons.inj htext).1 (by decide)⟩
  · rw [if_neg hminus]
    apply (fromstrUnsigned_returns hstring hlen hfits hval false).mono
    intro r hr
    apply hr.congr
    intro sign digits
    cases sign with
    | true =>
        refine ⟨fun htext => absurd htext.1 (by decide), ?_⟩
        rintro rfl
        exact absurd rfl hminus
    | false => exact ⟨fun htext => htext.2, fun htext => ⟨rfl, htext⟩⟩

/-- A number is normalized when it is at least the radix to the power of its size less one. -/
theorem Mpi.in_iff {a : Mpi} (hfits : a.nlimbs ≤ a.alloced ∧ a.d + a.alloced ≤ h.free) :
    a.In h ↔ a.nlimbs = 0 ∨ radix 32 ^ (a.nlimbs - 1) ≤ a.abs h.mem := by
  constructor
  · rintro ⟨-, -, hzero | htop⟩
    · exact .inl hzero
    · rcases Nat.eq_zero_or_pos a.nlimbs with hzero | hpos
      · exact .inl hzero
      · exact .inr (pow_le_num h.mem hpos htop)
  · refine fun hlarge => ⟨hfits.1, hfits.2, hlarge.imp_right fun hle htop => ?_⟩
    rw [Mpi.abs] at hle
    cases hn : a.nlimbs with
    | zero =>
        rw [hn, num_zero, Nat.zero_sub, pow_zero] at hle
        exact absurd hle (by decide)
    | succ n =>
        rw [hn, Nat.add_sub_cancel] at htop hle
        rw [num_succ, htop] at hle
        have hlt := num_lt h.mem a.d n
        have hzero : (0 : Limb).toNat = 0 := rfl
        rw [hzero, Nat.zero_mul, Nat.add_zero] at hle
        omega

/-- `mpi_fromstr` accepts a sign, `0x` and digits, and nothing else. The number it reads is the one that is written,
and it is normalized but for leading zeros. -/
theorem mpiFromstr_accepts_iff (hstring : CString buffer str text) (hlen : 4 * text.length + 7 < 2 ^ 32)
    (hfits : val.nlimbs ≤ val.alloced) (hval : val.d + val.alloced ≤ h.free) :
    Returns (mpiFromstr h val buffer str) fun r =>
      (r.2.2 = 0 ↔ ∃ sign digits, text = numberText sign digits ∧ IsHex digits) ∧
      (∀ sign digits, text = numberText sign digits → IsHex digits →
        r.2.1.value r.1.mem = signed sign (hexValue digits) ∧ r.2.1.nlimbs = (digits.length + 7) / 8 ∧
          (r.2.1.In r.1 ↔ digits = [] ∨ radix 32 ^ ((digits.length - 1) / 8) ≤ hexValue digits)) ∧
      (r.2.2 ≠ 0 → r.2.2 = 1 ∧ (r.2.1.nlimbs = 0 ∨ r.1 = h ∧ r.2.1 = val)) ∧
      ∀ a, a < h.free → Apart a 1 val.d val.alloced → r.1.mem a = h.mem a := by
  apply (mpiFromstr_returns hstring hlen hfits hval).mono
  intro r hr
  refine ⟨hr.accepted, fun sign digits htext hhex => ?_, hr.refused, hr.frame.2⟩
  obtain ⟨hsign, hnlimbs, habs⟩ := hr.number sign digits htext hhex
  refine ⟨by rw [Mpi.value, hsign, habs], hnlimbs, ?_⟩
  rw [Mpi.in_iff hr.fits, habs, hnlimbs]
  cases digits with
  | nil => exact iff_of_true (.inl rfl) (.inl rfl)
  | cons c digits =>
      have hsize : ((c :: digits).length + 7) / 8 = digits.length / 8 + 1 := by
        rw [List.length_cons]
        omega
      rw [hsize, Nat.add_sub_cancel, List.length_cons, Nat.add_sub_cancel]
      exact or_congr_left (iff_of_false (Nat.succ_ne_zero _) (List.cons_ne_nil _ _))

/-- A zero in front makes a second limb, which is zero. -/
theorem mpiFromstr_leading_zero :
    Returns (mpiFromstr smallLimbs smallResult "-0x0000000aF\x00".toList 0) fun r =>
      r.2.2 = 0 ∧ r.2.1.value r.1.mem = -175 ∧ r.2.1.nlimbs = 2 ∧ ¬r.2.1.In r.1 := by
  have hhex : IsHex "0000000aF".toList := by decide
  have hstring : CString "-0x0000000aF\x00".toList 0 (numberText true "0000000aF".toList) := ⟨⟨[], rfl⟩, by decide⟩
  apply (mpiFromstr_accepts_iff hstring (by decide) (show smallResult.nlimbs ≤ smallResult.alloced by decide)
    (show smallResult.d + smallResult.alloced ≤ smallLimbs.free by decide)).mono
  rintro r ⟨haccepted, hnumber, -, -⟩
  obtain ⟨hvalue, hnlimbs, hin⟩ := hnumber _ _ rfl hhex
  exact ⟨haccepted.mpr ⟨_, _, rfl, hhex⟩, hvalue.trans (by decide), hnlimbs, fun h => absurd (hin.mp h) (by decide)⟩

end Accept

/-! ### What is written -/

/-- A digit that `mpi_tostr` writes. -/
def nibbleChar (k : ℕ) : Char := nibbles.getD k '0'

/-- The digits of a limb, from the highest one on. -/
def limbText (x : Limb) : List Char :=
  [28, 24, 20, 16, 12, 8, 4, 0].map fun shift => nibbleChar (x.toNat / 2 ^ shift % 16)

/-- The digits of the `n` limbs from `p` on. -/
def limbsText (mem : Limbs) (p : ℕ) : ℕ → List Char
  | 0 => []
  | n + 1 => limbText (mem (p + n)) ++ limbsText mem p n

/-- The text is at the start of a block, and `p` stands behind it. -/
structure Written (size : ℕ) (text : List Char) (rv : List Char × ℕ) : Prop where
  length : rv.1.length = size
  place : rv.2 = text.length
  text : rv.1.take rv.2 = text

section Write

variable {size : ℕ} {text : List Char} {rv : List Char × ℕ} {mem : Limbs} {p n : ℕ}

theorem hexDigit_nibbleChar {k : ℕ} (hk : k < 16) : hexDigit (nibbleChar k) = some k := by
  have hall : ∀ k : Fin 16, hexDigit (nibbleChar k) = some k.val := by decide
  exact hall ⟨k, hk⟩

theorem length_limbsText (mem : Limbs) (p n : ℕ) : (limbsText mem p n).length = 8 * n := by
  induction n with
  | zero => rfl
  | succ n ih =>
      rw [limbsText, List.length_append, ih, limbText, List.length_map, Nat.mul_succ, Nat.add_comm]
      rfl

theorem isHex_limbsText (mem : Limbs) (p n : ℕ) : IsHex (limbsText mem p n) := by
  induction n with
  | zero => exact nofun
  | succ n ih =>
      refine isHex_append.mpr ⟨fun c hc => ?_, ih⟩
      obtain ⟨shift, -, rfl⟩ := List.mem_map.mp hc
      rw [hexDigit_nibbleChar (Nat.mod_lt _ (by decide))]
      rfl

theorem hexValue_limbText (x : Limb) : hexValue (limbText x) = x.toNat := by
  have hdigit : ∀ shift, (hexDigit (nibbleChar (x.toNat / 2 ^ shift % 16))).getD 0 = x.toNat / 2 ^ shift % 16 := by
    intro shift
    rw [hexDigit_nibbleChar (Nat.mod_lt _ (by decide)), Option.getD_some]
  have hx := x.isLt
  simp only [limbText, List.map_cons, List.map_nil, hexValue, List.foldl_cons, List.foldl_nil, hdigit]
  omega

/-- The digits are those of the number. -/
theorem hexValue_limbsText (mem : Limbs) (p n : ℕ) : hexValue (limbsText mem p n) = num mem p n := by
  induction n with
  | zero => rfl
  | succ n ih =>
      rw [limbsText, hexValue_append, ih, hexValue_limbText, length_limbsText, num_succ, pow_mul, Nat.add_comm]
      rfl

theorem Written.next (h : Written size text rv) (c : Char) (hroom : text.length < size) :
    Written size (text ++ [c]) (rv.1.set rv.2 c, rv.2 + 1) where
  length := by rw [List.length_set, h.length]
  place := by rw [h.place, List.length_append, List.length_singleton]
  text := by
    have hlt : rv.2 < (rv.1.set rv.2 c).length := by
      rw [List.length_set, h.length, h.place]
      exact hroom
    rw [List.take_succ_eq_append_getElem hlt, List.getElem_set_self, List.take_set_of_le (Nat.le_refl _), h.text]

theorem tostrNibble_returns (h : Written size text rv) (x : Limb) (shift : ℕ) (hroom : text.length < size) :
    Returns (tostrNibble x rv shift) (Written size (text ++ [nibbleChar (x.toNat / 2 ^ shift % 16)])) := by
  have hindex : (x >>> shift &&& 0x0f#32).toNat = x.toNat / 2 ^ shift % 16 := by
    rw [BitVec.toNat_and, BitVec.toNat_ushiftRight, Nat.shiftRight_eq_div_pow]
    exact Nat.and_two_pow_sub_one_eq_mod _ 4
  have hlt : x.toNat / 2 ^ shift % 16 < nibbles.length := Nat.mod_lt _ (by decide)
  have hread : readAt nibbles (x.toNat / 2 ^ shift % 16) = .ok (nibbleChar (x.toNat / 2 ^ shift % 16)) := by
    rw [readAt_eq hlt, nibbleChar, List.getD_eq_getElem?_getD, List.getElem?_eq_getElem hlt, Option.getD_some]
  unfold tostrNibble
  rw [hindex, hread, ok_bind, writeAt_eq _ (by rw [h.length, h.place]; exact hroom), ok_bind, returns_pure]
  exact h.next _ hroom

theorem tostrNibbles_returns (h : Written size text rv) (x : Limb) {shifts : List ℕ}
    (hroom : text.length + shifts.length ≤ size) :
    Returns (shifts.foldlM (tostrNibble x) rv)
      (Written size (text ++ shifts.map fun shift => nibbleChar (x.toNat / 2 ^ shift % 16))) := by
  induction shifts generalizing text rv with
  | nil =>
      rw [List.map_nil, List.append_nil]
      exact returns_pure.mpr h
  | cons shift shifts ih =>
      rw [List.length_cons] at hroom
      rw [List.foldlM_cons]
      apply (tostrNibble_returns h x shift (by omega)).bind
      intro rv' hrv'
      have hrest := ih hrv' (by rw [List.length_append, List.length_singleton]; omega)
      rw [List.append_assoc] at hrest
      exact hrest

/-- `mpi_tostr` writes `0x` and the digits of the limbs, whatever the sign is. -/
theorem mpiTostr_returns (mem : Limbs) (a : Mpi) (leftovers : Fin (a.nlimbs * 4 * 2 + 4) → Char) :
    Returns (mpiTostr mem a leftovers) fun rv => CString rv 0 (numberText false (limbsText mem a.d a.nlimbs)) := by
  have hempty : Written (a.nlimbs * 4 * 2 + 4) [] (List.ofFn leftovers, 0) :=
    ⟨List.length_ofFn, rfl, List.take_zero⟩
  have hzero := hempty.next '0' (by rw [List.length_nil]; omega)
  have hx := hzero.next 'x' (by rw [List.nil_append, List.length_singleton]; omega)
  unfold mpiTostr
  rw [writeAt_eq _ (by rw [List.length_ofFn]; omega), ok_bind, writeAt_eq _ (by rw [hzero.length]; omega), ok_bind]
  have hloop : Returns (forDownto
      (fun i rv => [28, 24, 20, 16, 12, 8, 4, 0].foldlM (tostrNibble (mem (a.d + i))) rv) a.nlimbs
        (((List.ofFn leftovers).set 0 '0').set 1 'x', 2))
      fun rv => ∃ text, Written (a.nlimbs * 4 * 2 + 4) text rv ∧
        text ++ limbsText mem a.d 0 = numberText false (limbsText mem a.d a.nlimbs) := by
    -- the text so far, and the limbs that are left
    apply forDownto_returns (fun i rv => ∃ text, Written (a.nlimbs * 4 * 2 + 4) text rv ∧
      text ++ limbsText mem a.d i = numberText false (limbsText mem a.d a.nlimbs))
    · rintro i rv ⟨text, hrv, htext⟩
      have hlength := congrArg List.length htext
      rw [List.length_append, length_limbsText, numberText, List.length_append, List.length_cons, List.length_cons,
        length_limbsText] at hlength
      have hnosign : (if false = true then ['-'] else []).length = 0 := rfl
      apply (tostrNibbles_returns hrv (mem (a.d + i)) (by
        show text.length + 8 ≤ _
        omega)).mono
      intro rv' hrv'
      refine ⟨_, hrv', ?_⟩
      rw [List.append_assoc]
      exact htext
    · exact ⟨_, hx, rfl⟩
  apply hloop.bind
  rintro rv ⟨text, hrv, htext⟩
  rw [limbsText, List.append_nil] at htext
  have hroom : text.length < a.nlimbs * 4 * 2 + 4 := by
    have hlength := congrArg List.length htext
    rw [numberText, List.length_append, List.length_cons, List.length_cons, length_limbsText] at hlength
    have hnosign : (if false = true then ['-'] else []).length = 0 := rfl
    omega
  rw [writeAt_eq _ (by rw [hrv.length, hrv.place]; exact hroom), returns_ok, ← htext]
  have hend := hrv.next nul hroom
  constructor
  · refine ⟨(rv.1.set rv.2 nul).drop (rv.2 + 1), ?_⟩
    rw [List.drop_zero, ← List.singleton_append, ← List.append_assoc, ← hend.text, List.take_append_drop]
  · rw [htext]
    exact nul_not_mem_numberText false (isHex_limbsText mem a.d a.nlimbs)

end Write

/-! ### There and back -/

/-- Reading what was written gives the same limbs, without the sign. -/
theorem mpiFromstr_mpiTostr {h : LimbSpace} {a val : Mpi} (ha : 32 * a.nlimbs + 15 < 2 ^ 32)
    (hfits : val.nlimbs ≤ val.alloced) (hval : val.d + val.alloced ≤ h.free)
    (leftovers : Fin (a.nlimbs * 4 * 2 + 4) → Char) :
    Returns (mpiTostr h.mem a leftovers) fun rv =>
      Returns (mpiFromstr h val rv 0) fun r =>
        r.2.2 = 0 ∧ r.2.1.nlimbs = a.nlimbs ∧ (∀ i, i < a.nlimbs → r.1.mem (r.2.1.d + i) = h.mem (a.d + i)) ∧
          (r.2.1.value r.1.mem = a.value h.mem ↔ a.sign = false ∨ a.abs h.mem = 0) := by
  apply (mpiTostr_returns h.mem a leftovers).mono
  intro rv hstring
  have hlength : (numberText false (limbsText h.mem a.d a.nlimbs)).length = 8 * a.nlimbs + 2 := by
    rw [numberText, if_neg Bool.false_ne_true, List.nil_append, List.length_cons, List.length_cons, length_limbsText]
  apply (mpiFromstr_returns hstring (by omega) hfits hval).mono
  intro r hr
  obtain ⟨hsign, hnlimbs, habs⟩ := hr.number _ _ rfl (isHex_limbsText h.mem a.d a.nlimbs)
  rw [length_limbsText, show (8 * a.nlimbs + 7) / 8 = a.nlimbs by omega] at hnlimbs
  rw [hexValue_limbsText] at habs
  refine ⟨hr.accepted.mpr ⟨_, _, rfl, isHex_limbsText h.mem a.d a.nlimbs⟩, hnlimbs, ?_, ?_⟩
  · rw [Mpi.abs, hnlimbs] at habs
    exact num_inj habs
  · have hsame : r.2.1.abs r.1.mem = a.abs h.mem := habs
    rw [Mpi.value, Mpi.value, hsign, hsame]
    cases a.sign with
    | false => exact iff_of_true rfl (.inl rfl)
    | true =>
        rw [or_iff_right (show ¬true = false by decide)]
        show (a.abs h.mem : ℤ) = -(a.abs h.mem : ℤ) ↔ _
        omega

/-- A negative number comes back positive. -/
theorem mpiFromstr_mpiTostr_negative :
    Returns (mpiTostr smallLimbs.mem (smallMpi 12 true) fun _ => 'a') fun rv =>
      Returns (mpiFromstr smallLimbs smallResult rv 0) fun r =>
        r.2.2 = 0 ∧ r.2.1.nlimbs = 1 ∧ r.1.mem r.2.1.d = 12#32 ∧
          r.2.1.value r.1.mem ≠ (smallMpi 12 true).value smallLimbs.mem := by
  apply (mpiFromstr_mpiTostr (a := smallMpi 12 true) (by decide)
    (show smallResult.nlimbs ≤ smallResult.alloced by decide)
    (show smallResult.d + smallResult.alloced ≤ smallLimbs.free by decide) fun _ => 'a').mono
  intro rv hrv
  apply hrv.mono
  rintro r ⟨hstatus, hnlimbs, hlimbs, hvalue⟩
  rw [smallMpi_abs _ (by decide)] at hvalue
  exact ⟨hstatus, hnlimbs, hlimbs 0 Nat.one_pos, fun heq => absurd (hvalue.mp heq) (by decide)⟩

end ChannelBench
