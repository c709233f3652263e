import ChannelBench.CMemory
import ChannelBench.CRun

/-! Code that consists of direct jumps and returns. A call of such code runs through a chain of addresses,
given by what is decoded at each of them, and executes nothing else. -/

namespace CSem

/-- `jmp rel32` with its target, and `ret`. -/
inductive Instr where
  | jmp (target : ℕ)
  | ret
  deriving DecidableEq, Repr

/-- The instruction at an address: `E9` jumps to the next instruction plus its displacement, `C3` returns.
Other bytes are not interpreted. -/
def decode (sizeofPtr : ℕ) (mem : Mem) (pc : ℕ) : Option Instr :=
  if mem pc = 0xe9#8 then
    let rel := (BitVec.ofNat 32 (load mem 4 (pc + 1))).toInt
    some (.jmp ((pc + 5 + rel) % 256 ^ sizeofPtr).toNat)
  else if mem pc = 0xc3#8 then
    some .ret
  else
    none

/-- One instruction. The state is the program counter and the addresses of the instructions so far. -/
def execute (sizeofPtr : ℕ) (mem : Mem) (st : ℕ × List ℕ) : Run ((ℕ × List ℕ) ⊕ List ℕ) :=
  match decode sizeofPtr mem st.1 with
  | some (.jmp target) => return .inl (target, st.2 ++ [st.1])
  | some .ret => return .inr (st.2 ++ [st.1])
  | none => throw .bounds

/-- A call of the code at an address: the addresses of the instructions it executes until it returns. -/
def call (sizeofPtr : ℕ) (mem : Mem) (fuel address : ℕ) : Run (List ℕ) :=
  loop (execute sizeofPtr mem) fuel (address, [])

section Decode

variable {sizeofPtr : ℕ} {mem : Mem} {pc : ℕ}

/-- A jump forward. -/
theorem decode_jmp {rel : ℕ} (hop : mem pc = 0xe9#8) (hrel : load mem 4 (pc + 1) = rel) (hforward : rel < 2 ^ 31)
    (hfit : pc + 5 + rel < 256 ^ sizeofPtr) : decode sizeofPtr mem pc = some (.jmp (pc + 5 + rel)) := by
  have hint : (BitVec.ofNat 32 rel).toInt = rel := by
    have hsmall : (BitVec.ofNat 32 rel).toNat = rel := by
      rw [BitVec.toNat_ofNat]
      exact Nat.mod_eq_of_lt (by omega)
    rw [BitVec.toInt_eq_toNat_of_lt (by rw [hsmall]; omega), hsmall]
  have htarget : (((pc + 5 + rel : ℕ) : ℤ) % 256 ^ sizeofPtr).toNat = pc + 5 + rel := by
    rw [Int.emod_eq_of_lt (Int.natCast_nonneg _) (by exact_mod_cast hfit), Int.toNat_natCast]
  rw [decode, if_pos hop, hrel, hint]
  push_cast at htarget
  exact congrArg (fun target => some (Instr.jmp target)) htarget

theorem decode_ret (hop : mem pc = 0xc3#8) : decode sizeofPtr mem pc = some .ret := by
  have hne : mem pc ≠ 0xe9#8 := by
    rw [hop]
    decide
  rw [decode, if_neg hne, if_pos hop]

end Decode

/-- Code that jumps through `n` places in order and returns from the last. -/
structure Chain (sizeofPtr : ℕ) (mem : Mem) (n : ℕ) (place : ℕ → ℕ) : Prop where
  jumps : ∀ k, k + 1 < n → decode sizeofPtr mem (place k) = some (.jmp (place (k + 1)))
  returns : ∀ k, k + 1 = n → decode sizeofPtr mem (place k) = some .ret

/-- A call of a chain executes its places once each, in order, and returns. -/
theorem Chain.call_returns {sizeofPtr n fuel : ℕ} {mem : Mem} {place : ℕ → ℕ}
    (h : Chain sizeofPtr mem n place) (hn : 0 < n) (hfuel : n ≤ fuel) :
    Returns (call sizeofPtr mem fuel (place 0)) fun executed => executed = (List.range n).map place := by
  apply loop_returns (fun st => ∃ k, k < n ∧ st = (place k, (List.range k).map place))
    (fun executed => executed = (List.range n).map place) (fun st => n - 1 - st.2.length)
  · rintro _ ⟨k, hk, rfl⟩
    have hmore : (List.range k).map place ++ [place k] = (List.range (k + 1)).map place := by
      rw [List.range_succ, List.map_append]
      rfl
    by_cases hlast : k + 1 = n
    · rw [execute, h.returns k hlast]
      apply returns_pure.mpr
      show _ = _
      rw [hmore, hlast]
    · rw [execute, h.jumps k (by omega)]
      apply returns_pure.mpr
      refine ⟨⟨k + 1, by omega, by rw [hmore]⟩, ?_⟩
      simp only [List.length_append, List.length_map, List.length_range, List.length_singleton]
      omega
  · exact ⟨0, hn, rfl⟩
  · show n - 1 - 0 < fuel
    omega

end CSem
