import ChannelBench.CShuffle
import ChannelBench.L1Walks
import ChannelBench.L1iState

/-! Probes of the instruction cache. The code that `l1i_prepare` writes is a chain through every line, and
neither the monitored sets nor a rewrite touch it; so a probe executes the lines of the monitored sets and
nothing else, whatever sets were monitored before. -/

namespace ChannelBench

open CSem

/-! ### The code -/

/-- A line of the probe buffer holds its instruction. -/
def L1iLayout.Coded (l1 : L1iLayout) (mem : Mem) (page set : ℕ) : Prop :=
  if page + 1 < l1.l1iAssociativity then
    mem (l1.set page set) = 0xe9#8 ∧ load mem 4 (l1.set page set + 1) = l1.jmpOffset
  else
    mem (l1.set page set) = 0xc3#8

/-- The lines that come before a page of a set in the order of the loops hold their instructions. -/
def CodedTo (l1 : L1iLayout) (n m : ℕ) (mem : Mem) : Prop :=
  ∀ page set, page < l1.l1iAssociativity → set < l1.l1iSets → set < n ∨ set = n ∧ page < m →
    l1.Coded mem page set

/-- Every line holds its instruction. -/
def CodeWritten (l1 : L1iLayout) (mem : Mem) : Prop :=
  ∀ page set, page < l1.l1iAssociativity → set < l1.l1iSets → l1.Coded mem page set

section Code

variable {l1 : L1iLayout} {mem mem' : Mem} {page set page' set' n m : ℕ}

/-- The lines of a page end before the next page. -/
theorem L1iLayout.line_le (hset : set < l1.l1iSets) :
    l1.l1iCacheline * set + l1.l1iCacheline ≤ l1.pageSize := by
  rw [← Nat.mul_add_one]
  exact (Nat.mul_le_mul_left _ hset).trans l1.page_room

/-- The instructions of different lines do not overlap. -/
theorem L1iLayout.set_disjoint (hset : set < l1.l1iSets) (hset' : set' < l1.l1iSets)
    (hne : ¬(page = page' ∧ set = set')) :
    l1.set page set + 5 ≤ l1.set page' set' ∨ l1.set page' set' + 5 ≤ l1.set page set := by
  have hroom := l1.line_room
  have hline := L1iLayout.line_le hset
  have hline' := L1iLayout.line_le hset'
  unfold L1iLayout.set
  rcases Nat.lt_trichotomy page page' with hpage | hpage | hpage
  · have hpages := Nat.mul_le_mul_left l1.pageSize (Nat.succ_le_of_lt hpage)
    rw [Nat.mul_succ] at hpages
    omega
  · subst hpage
    rcases Nat.lt_trichotomy set set' with hlt | heq | hlt
    · have hlines := Nat.mul_le_mul_left l1.l1iCacheline (Nat.succ_le_of_lt hlt)
      rw [Nat.mul_succ] at hlines
      omega
    · exact absurd ⟨rfl, heq⟩ hne
    · have hlines := Nat.mul_le_mul_left l1.l1iCacheline (Nat.succ_le_of_lt hlt)
      rw [Nat.mul_succ] at hlines
      omega
  · have hpages := Nat.mul_le_mul_left l1.pageSize (Nat.succ_le_of_lt hpage)
    rw [Nat.mul_succ] at hpages
    omega

/-- A line keeps its instruction while its first five bytes stay. -/
theorem L1iLayout.Coded.congr (h : l1.Coded mem page set)
    (hsame : ∀ a, l1.set page set ≤ a → a < l1.set page set + 5 → mem' a = mem a) :
    l1.Coded mem' page set := by
  have hop := hsame (l1.set page set) (le_refl _) (by omega)
  have hrel : load mem' 4 (l1.set page set + 1) = load mem 4 (l1.set page set + 1) :=
    load_congr fun a hlow hhigh => hsame a (by omega) (by omega)
  unfold L1iLayout.Coded at h ⊢
  rwa [hop, hrel]

/-- One more line. -/
theorem CodedTo.step (h : CodedTo l1 n m mem) (hn : n < l1.l1iSets) (hnew : l1.Coded mem' m n)
    (hframe : ∀ a, a < l1.set m n ∨ l1.set m n + 5 ≤ a → mem' a = mem a) : CodedTo l1 n (m + 1) mem' := by
  intro page set hpage hset hdone
  by_cases hhere : page = m ∧ set = n
  · obtain ⟨rfl, rfl⟩ := hhere
    exact hnew
  · have hold := h page set hpage hset (by omega)
    have hdisjoint := L1iLayout.set_disjoint hset hn hhere
    exact hold.congr fun a hlow hhigh => hframe a (by omega)

theorem store_one (mem : Mem) (p : ℕ) (value : ℕ) :
    store mem 1 p value = Function.update mem p (BitVec.ofNat 8 value) := rfl

theorem writeJump_eq (jmpOffset : ℕ) (mem : Mem) (p : ℕ) :
    writeJump jmpOffset mem p = store (Function.update mem p 0xe9#8) 4 (p + 1) jmpOffset := by
  rw [← store_word_bytes]
  rfl

theorem jmpOffset_lt (l1 : L1iLayout) : l1.jmpOffset < 2 ^ 31 :=
  (Nat.sub_le _ _).trans_lt l1.page_jump

/-- The jump of one line. -/
theorem CodedTo.writeJump (h : CodedTo l1 n m mem) (hn : n < l1.l1iSets) (hm : m + 1 < l1.l1iAssociativity) :
    CodedTo l1 n (m + 1) (writeJump l1.jmpOffset mem (l1.set m n)) := by
  have hoffset := jmpOffset_lt l1
  rw [writeJump_eq]
  apply h.step hn
  · rw [L1iLayout.Coded, if_pos hm]
    constructor
    · rw [store_apply_of_outside _ _ _ _ (by omega), Function.update_self]
    · exact load_store_same _ _ _ _ (by omega)
  · intro a ha
    rw [store_apply_of_outside _ _ _ _ (by omega), Function.update_of_ne (by omega)]

/-- The return of one line. -/
theorem CodedTo.writeReturn (h : CodedTo l1 n m mem) (hn : n < l1.l1iSets) (hm : m + 1 = l1.l1iAssociativity) :
    CodedTo l1 n (m + 1) (store mem 1 (l1.set m n) 0xc3) := by
  apply h.step hn
  · rw [L1iLayout.Coded, if_neg (by omega), store_one, Function.update_self]
  · intro a ha
    rw [store_one, Function.update_of_ne (by omega)]

theorem CodedTo.next (h : CodedTo l1 n l1.l1iAssociativity mem) : CodedTo l1 (n + 1) 0 mem := by
  intro page set hpage hset hdone
  exact h page set hpage hset (by omega)

theorem l1iWriteCode_returns (l1 : L1iLayout) (mem : Mem) : Returns (l1iWriteCode l1 mem) (CodeWritten l1) := by
  have hpos := l1.assoc_bounds.1
  have hstart : CodedTo l1 0 0 mem := by
    intro page set _ _ hdone
    omega
  apply (forUpto_returns (fun n => CodedTo l1 n 0) hstart _).mono
  · intro mem' h page set hpage hset
    exact h page set hpage hset (.inl hset)
  · intro n hn mem' h
    apply (forUpto_returns (fun m => CodedTo l1 n m) h _).bind
    · intro mem'' h
      have hlast := h.writeReturn hn (by omega)
      rw [Nat.sub_add_cancel hpos] at hlast
      exact returns_pure.mpr hlast.next
    · intro m hm mem'' h
      exact returns_pure.mpr (h.writeJump hn (by omega))

/-- A jump leads to the same line of the next page. -/
theorem L1iLayout.set_succ (l1 : L1iLayout) (page set : ℕ) :
    l1.set page set + 5 + l1.jmpOffset = l1.set (page + 1) set := by
  have haligns := l1.page_aligns
  unfold L1iLayout.set L1iConfig.jmpOffset
  rw [Nat.mul_add_one]
  omega

theorem L1iLayout.set_lt (hpage : page < l1.l1iAssociativity) (hset : set < l1.l1iSets) :
    l1.set page set < 256 ^ l1.sizeofPtr := by
  have hfits := l1.memory_fits
  have hroom := l1.line_room
  have hline := L1iLayout.line_le hset
  have hpages := Nat.mul_le_mul_left l1.pageSize (Nat.succ_le_of_lt hpage)
  rw [Nat.mul_succ] at hpages
  unfold L1iLayout.set
  omega

/-- The lines of a set are a chain. -/
theorem CodeWritten.chain (h : CodeWritten l1 mem) (hset : set < l1.l1iSets) :
    Chain l1.sizeofPtr mem l1.l1iAssociativity fun page => l1.set page set := by
  constructor
  · intro page hpage
    have hcode := h page set (by omega) hset
    rw [L1iLayout.Coded, if_pos hpage] at hcode
    have hfit := L1iLayout.set_lt hpage hset
    rw [← l1.set_succ] at hfit ⊢
    exact decode_jmp hcode.1 hcode.2 (jmpOffset_lt l1) hfit
  · intro page hpage
    have hcode := h page set (by omega) hset
    rw [L1iLayout.Coded, if_neg (by omega)] at hcode
    exact decode_ret hcode

end Code

/-! ### The monitored sets -/

/-- The monitored sets in the order of the probes. -/
def L1iinfo.live (s : L1iinfo) : List ℕ := (s.monitored.take s.nsets).map BitVec.toNat

/-- What the calls keep: the code stands, and the monitored sets are those of the mask. -/
structure L1iInv (l1 : L1iLayout) (masks : List (BitVec 64)) (s : L1iinfo) : Prop where
  layout_eq : s.layout = l1
  masks_length : s.monitoredSets.length = l1.iMonitorMask
  monitored_length : s.monitored.length = l1.l1iSets
  nsets_le : s.nsets ≤ l1.l1iSets
  live_perm : s.live.Perm (members masks l1.l1iSets)
  code : CodeWritten l1 s.mem

/-- A call whose mask, if it has one, has a word for every 64 sets. -/
def L1iCall.Admissible (C : L1iConfig) : L1iCall → Prop
  | .setMonitoredSet none => False
  | .setMonitoredSet (some masks) => C.iMonitorMask ≤ masks.length
  | .rewrite => True

/-- The mask in force after some calls, latest call first. -/
def latestMask (first : List (BitVec 64)) : List L1iCall → List (BitVec 64)
  | .setMonitoredSet (some masks) :: _ => masks
  | _ :: before => latestMask first before
  | [] => first

section Monitored

variable {σ : Type} (random : σ → ℕ × σ) {l1 : L1iLayout} {masks : List (BitVec 64)} {s : L1iinfo}

theorem l1iRandomise_permutes (hle : s.nsets ≤ s.monitored.length) (world : σ) :
    Returns (l1iRandomise random s world) fun r =>
      Permuted (drawsOf random s.nsets world).perm s.monitored r.1.monitored ∧
        r.1 = { s with monitored := r.1.monitored } := by
  apply (shuffle_returns random hle world).bind
  intro r hr
  exact returns_pure.mpr ⟨hr.1, rfl⟩

/-- `l1i_randomise` puts the monitored sets in some order. -/
theorem l1iRandomise_returns (hle : s.nsets ≤ s.monitored.length) (world : σ) :
    Returns (l1iRandomise random s world) fun r =>
      r.1.live.Perm s.live ∧ r.1.monitored.length = s.monitored.length ∧
        r.1 = { s with monitored := r.1.monitored } := by
  apply (l1iRandomise_permutes random hle world).mono
  rintro r ⟨hpermuted, hr⟩
  refine ⟨?_, hpermuted.length_eq, hr⟩
  have hperm := (hpermuted.take_perm hle).map BitVec.toNat
  rw [hr]
  exact hperm

/-- The entries of the members of a mask are these members. -/
theorem map_toNat_members {m : ℕ} (hm : m ≤ 2 ^ 8) :
    ((members masks m).map (BitVec.ofNat 8)).map BitVec.toNat = members masks m := by
  rw [List.map_map]
  exact map_members fun n hn => Nat.mod_eq_of_lt (hn.trans_le hm)

/-- `l1i_set_monitored_set` monitors the sets of its mask, whatever was monitored before. -/
theorem l1iSetMonitoredSet_returns (hlayout : s.layout = l1) (hsets : s.monitoredSets.length = l1.iMonitorMask)
    (hlength : s.monitored.length = l1.l1iSets) (hcode : CodeWritten l1 s.mem)
    (hmasks : l1.iMonitorMask ≤ masks.length) (world : σ) :
    Returns (l1iSetMonitoredSet random s (some masks) world) fun r => L1iInv l1 masks r.1 := by
  subst hlayout
  have hwords : s.layout.iMonitorMask * 64 = s.layout.l1iSets := Nat.div_mul_cancel s.layout.mask_words
  apply Returns.bind (forUpto_returns (fun i (st : List (BitVec 64) × ℕ × List (BitVec 8)) =>
    st.1.length = s.layout.iMonitorMask ∧
      Gathered (BitVec.ofNat 8) masks s.layout.l1iSets (i * 64) st.2) ⟨hsets, ?_⟩ ?_)
  · rintro ⟨sets, nsets, monitored⟩ ⟨hsets', hgathered⟩
    rw [hwords] at hgathered
    have hcount := hgathered.count_le
    have hlength' := hgathered.length_eq
    have hentries : (monitored.take nsets).map BitVec.toNat = members masks s.layout.l1iSets := by
      rw [hgathered.entries_eq, map_toNat_members s.layout.sets_fit]
    apply (l1iRandomise_returns random (hcount.trans_eq hlength'.symm) world).mono
    rintro ⟨s', world'⟩ ⟨hlive, hmonitored, hs'⟩
    dsimp only at hlive hmonitored hs' ⊢
    have hperm : s'.live.Perm (members masks s.layout.l1iSets) := by
      rw [← hentries]
      exact hlive
    rw [hs'] at hperm ⊢
    exact ⟨rfl, hsets', hmonitored.trans hlength', hcount, hperm, hcode⟩
  · rw [Nat.zero_mul]
    exact gathered_start hlength
  · intro i hi st hst
    obtain ⟨hsets', hgathered⟩ := hst
    have hroom := Nat.mul_le_mul_right 64 (Nat.succ_le_of_lt hi)
    rw [hwords] at hroom
    rw [readAt_eq (show i < masks.length by omega), ok_bind, writeAt_eq _ (by omega), ok_bind]
    apply (gatherWord_returns (by omega) hroom hgathered).bind
    intro st' hst'
    rw [returns_pure]
    exact ⟨List.length_set.trans hsets', hst'⟩

theorem l1iRewrite_eq (s : L1iinfo) : l1iRewrite s = .ok s := by
  have hpos : s.layout.memory ≠ 0 := Nat.pos_iff_ne_zero.mp s.layout.memory_pos
  have hloop : Returns (forUpto (fun i mem =>
      let linePtr := s.layout.memory + i * s.layout.l1iCacheline
      (return store mem s.layout.sizeofPtr linePtr (load mem s.layout.sizeofPtr linePtr) : Run Mem))
      s.layout.l1iLines s.mem) fun mem => mem = s.mem := by
    apply forUpto_returns (fun _ mem => mem = s.mem) rfl
    rintro i - _ rfl
    exact returns_pure.mpr (store_load_same _ _ _)
  obtain ⟨mem, hrun, rfl⟩ := hloop
  rw [l1iRewrite, require_pos hpos, pure_bind, hrun]
  rfl

/-- A call leaves the sets of the latest mask monitored. -/
theorem l1iCall_returns {first : List (BitVec 64)} {before : List L1iCall} {call : L1iCall} {world : σ}
    (h : L1iInv l1 (latestMask first before) s) (hcall : call.Admissible l1.toL1iConfig) :
    Returns (l1iCall random call (s, world)) fun r => L1iInv l1 (latestMask first (call :: before)) r.2.1 := by
  match call with
  | .setMonitoredSet none => exact hcall.elim
  | .setMonitoredSet (some masks) =>
      apply (l1iSetMonitoredSet_returns random h.layout_eq h.masks_length h.monitored_length h.code hcall
        world).bind
      intro r hr
      exact returns_pure.mpr hr
  | .rewrite =>
      rw [l1iCall, l1iRewrite_eq]
      exact returns_pure.mpr h

end Monitored

/-! ### The probes -/

/-- The lines of a set, a line of each page. -/
def L1iLayout.lines (l1 : L1iLayout) (set : ℕ) : List ℕ :=
  (List.range l1.l1iAssociativity).map fun page => l1.set page set

section Probing

variable {σ : Type} {l1 : L1iLayout} {masks : List (BitVec 64)} {s : L1iinfo} {fuel : ℕ}

theorem L1iInv.live_lt (h : L1iInv l1 masks s) : ∀ set ∈ s.live, set < l1.l1iSets :=
  fun _ hset => (mem_members.mp (h.live_perm.subset hset)).1

theorem L1iInv.length_live (h : L1iInv l1 masks s) : s.live.length = s.nsets := by
  rw [L1iinfo.live, List.length_map, List.length_take, h.monitored_length, Nat.min_eq_left h.nsets_le]

/-- The call for one monitored set. -/
theorem L1iInv.call_returns (h : L1iInv l1 masks s) (hfuel : l1.l1iAssociativity ≤ fuel) {i : ℕ}
    (hi : i < s.live.length) :
    ∃ set, readAt s.monitored i = .ok set ∧
      Returns (call s.layout.sizeofPtr s.mem fuel (s.layout.set 0 set.toNat)) fun executed =>
        executed = l1.lines s.live[i] := by
  obtain ⟨rfl, -, hlength, hle, -, hcode⟩ := id h
  have hin : i < s.monitored.length := by
    rw [h.length_live] at hi
    omega
  have hset : s.live[i] = s.monitored[i].toNat := by
    simp only [L1iinfo.live, List.getElem_map, List.getElem_take]
  refine ⟨s.monitored[i], readAt_eq hin, ?_⟩
  rw [hset]
  have hlt := h.live_lt _ (List.getElem_mem hi)
  rw [hset] at hlt
  exact (hcode.chain hlt).call_returns s.layout.assoc_bounds.1 hfuel

/-- One more set. -/
theorem map_lines_succ {i : ℕ} (hi : i < s.live.length) :
    (s.live.take i).map l1.lines ++ [l1.lines s.live[i]] = (s.live.take (i + 1)).map l1.lines := by
  rw [List.take_succ_eq_append_getElem hi, List.map_append]
  rfl

/-- `l1i_prime` executes the lines of the monitored sets. -/
theorem l1iPrime_returns (h : L1iInv l1 masks s) (hfuel : l1.l1iAssociativity ≤ fuel) :
    Returns (l1iPrime fuel s) fun executed => executed = s.live.map l1.lines := by
  have hlength := h.length_live
  have hloop : Returns (l1iPrime fuel s) fun executed => executed = (s.live.take s.nsets).map l1.lines := by
    apply forUpto_returns (fun i executed => executed = (s.live.take i).map l1.lines) rfl
    rintro i hi _ rfl
    obtain ⟨set, hread, hcall⟩ := h.call_returns hfuel (show i < s.live.length by omega)
    rw [hread, ok_bind]
    apply hcall.bind
    rintro _ rfl
    exact returns_pure.mpr (map_lines_succ _)
  rwa [List.take_of_length_le hlength.le] at hloop

/-- `l1i_probe` executes the lines of the monitored sets, and writes one result for each of them. -/
theorem l1iProbe_returns (clock : σ → BitVec 32 × σ) (h : L1iInv l1 masks s)
    (hfuel : l1.l1iAssociativity ≤ fuel) {results : List (BitVec 16)} (hroom : s.nsets ≤ results.length)
    (world : σ) :
    Returns (l1iProbe clock fuel s results world) fun r =>
      r.1 = s.live.map l1.lines ∧ r.2.1 = segmentTimes clock world s.nsets ++ results.drop s.nsets := by
  have hlength := h.length_live
  have hloop : Returns (l1iProbe clock fuel s results world) fun r =>
      r = ((s.live.take s.nsets).map l1.lines, segmentTimes clock world s.nsets ++ results.drop s.nsets,
        worldAt clock world (2 * s.nsets)) := by
    apply forUpto_returns (fun i (st : List (List ℕ) × List (BitVec 16) × σ) =>
      st = ((s.live.take i).map l1.lines, segmentTimes clock world i ++ results.drop i,
        worldAt clock world (2 * i))) rfl
    rintro i hi _ rfl
    obtain ⟨set, hread, hcall⟩ := h.call_returns hfuel (show i < s.live.length by omega)
    have hfill : i < (segmentTimes clock world i ++ results.drop i).length := by
      rw [segmentTimes, length_filled] <;> omega
    have hwrite := writeAt_eq (clampTime (reading clock world (2 * i + 1) - reading clock world (2 * i))) hfill
    rw [segmentTimes, set_filled _ (by omega)] at hwrite
    dsimp only
    rw [hread, ok_bind]
    apply hcall.bind
    rintro _ rfl
    rw [source_worldAt clock, source_worldAt clock]
    apply Returns.bind ⟨_, hwrite, rfl⟩
    rintro _ rfl
    rw [returns_pure, map_lines_succ]
    rfl
  apply hloop.mono
  rintro _ rfl
  rw [List.take_of_length_le hlength.le]
  exact ⟨rfl, rfl⟩

end Probing

section Calls

variable {σ : Type} (random : σ → ℕ × σ) (clock : σ → BitVec 32 × σ) (C : L1iConfig)
  (block : Malloc C.sizeofPtr (C.pageSize * (C.l1Associativity + 1)))
  (leftovers : (Fin C.iMonitorMask → BitVec 64) × (Fin C.l1iSets → BitVec 8)) (mem : Mem)

theorem l1iPrepare_returns {first : List (BitVec 64)} (hfirst : C.iMonitorMask ≤ first.length) (world : σ) :
    Returns (l1iPrepare C block leftovers mem random (some first) world) fun r =>
      L1iInv (C.layout block) first r.1 := by
  have haligned : (C.layout block).memory % 0x1000 = 0 := Nat.mul_mod_left _ _
  rw [l1iPrepare, require_pos haligned, pure_bind]
  apply (l1iWriteCode_returns (C.layout block) mem).bind
  intro mem' hcode
  exact l1iSetMonitoredSet_returns random rfl List.length_ofFn List.length_ofFn hcode hfirst world

/-- After any calls the sets of the latest mask are monitored. -/
theorem l1i_calls_returns {first : List (BitVec 64)} (hfirst : C.iMonitorMask ≤ first.length)
    {calls : List L1iCall} (hcalls : ∀ call ∈ calls, call.Admissible C) (world : σ) :
    Returns (do
        let st ← l1iPrepare C block leftovers mem random (some first) world
        runAll (l1iCall random) calls st) fun r =>
      L1iInv (C.layout block) (latestMask first calls.reverse) r.2.1 := by
  apply (l1iPrepare_returns random C block leftovers mem hfirst world).bind
  intro st hst
  rw [← List.append_nil calls.reverse]
  refine runAll_inv (fun before (st : L1iinfo × σ) => L1iInv (C.layout block) (latestMask first before) st.1)
    ?_ calls [] st (legal_of_forall calls [] hcalls) hst
  intro before call st h hcall
  exact l1iCall_returns random h hcall

/-- **A probe of the instruction cache executes the monitored sets and nothing else.** -/
theorem l1i_probes_monitored {first : List (BitVec 64)} (hfirst : C.iMonitorMask ≤ first.length)
    {calls : List L1iCall} (hcalls : ∀ call ∈ calls, call.Admissible C) (world : σ) :
    Returns (do
        let st ← l1iPrepare C block leftovers mem random (some first) world
        runAll (l1iCall random) calls st) fun r =>
      r.2.1.live.Perm (members (latestMask first calls.reverse) C.l1iSets) ∧ r.2.1.live.Nodup ∧
      r.2.1.live.length = r.2.1.nsets ∧
      ∀ fuel, C.l1iAssociativity ≤ fuel →
        (Returns (l1iPrime fuel r.2.1) fun executed =>
          executed = r.2.1.live.map (C.layout block).lines) ∧
        ∀ results world', r.2.1.nsets ≤ results.length →
          Returns (l1iProbe clock fuel r.2.1 results world') fun probed =>
            probed.1 = r.2.1.live.map (C.layout block).lines ∧
            probed.2.1 = segmentTimes clock world' r.2.1.nsets ++ results.drop r.2.1.nsets := by
  apply (l1i_calls_returns random C block leftovers mem hfirst hcalls world).mono
  intro r h
  refine ⟨h.live_perm, h.live_perm.nodup_iff.mpr (nodup_members _ _), h.length_live, ?_⟩
  intro fuel hfuel
  refine ⟨l1iPrime_returns h hfuel, ?_⟩
  intro results world' hroom
  exact l1iProbe_returns clock h hfuel hroom world'

end Calls

/-- Sets 0 and 2, after all sets and after none. -/
theorem l1i_probes_two_sets :
    Returns (do
        let st ← l1iPrepare (x86L1i true) ⟨0x1234, by decide, by decide⟩ (fun _ => 0, fun _ => 0) (fun _ => 0)
          (fun draw => (draw, draw + 1)) (some [~~~0#64]) 0
        runAll (l1iCall fun draw => (draw, draw + 1))
          [.setMonitoredSet (some [0#64]), .rewrite, .setMonitoredSet (some [5#64])] st) fun r =>
      r.2.1.live.Perm [0, 2] ∧
        Returns (l1iProbe (fun now => (BitVec.ofNat 32 now, now + 40)) 8 r.2.1 (List.replicate 64 7) 0) fun probed =>
          probed.2.1 = [40, 40] ++ List.replicate 62 7 := by
  apply (l1i_probes_monitored (fun draw => (draw, draw + 1)) (fun now => (BitVec.ofNat 32 now, now + 40))
    (x86L1i true) ⟨0x1234, by decide, by decide⟩ (fun _ => 0, fun _ => 0) (fun _ => 0) (by decide)
    (by
      intro call hcall
      simp only [List.mem_cons, List.not_mem_nil, or_false] at hcall
      rcases hcall with rfl | rfl | rfl
      · exact le_refl 1
      · exact trivial
      · exact le_refl 1) 0).mono
  rintro r ⟨hlive, -, hlength, hprobes⟩
  have hsets : members [5#64] 64 = [0, 2] := by decide
  have hperm : r.2.1.live.Perm [0, 2] := by
    rw [← hsets]
    exact hlive
  have hnsets : r.2.1.nsets = 2 := hlength.symm.trans hperm.length_eq
  refine ⟨hperm, ?_⟩
  apply ((hprobes 8 (by decide)).2 (List.replicate 64 7) 0 (by rw [hnsets]; decide)).mono
  rintro probed ⟨-, hresults⟩
  rw [hresults, hnsets]
  rfl

end ChannelBench
