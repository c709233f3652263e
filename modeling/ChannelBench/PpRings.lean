import ChannelBench.CMachine
import ChannelBench.PpState
import ChannelBench.ProberRuns
import Mathlib.Data.List.Perm.Subperm

/-! The rings of prime and probe over whole runs. A call of `pp_prepare` writes the words of its ring and
nothing else, and the words of different rings do not overlap: pages are aligned and offsets are those of
cache lines. So a ring stays as its last call made it, whatever other rings are made. -/

namespace ChannelBench

open CSem

namespace PrepareCall

variable {arch : X86} {cm : PageLists arch} {call call' : PrepareCall cm} {mem mem' : Mem}

theorem sizeofPtr_pos (arch : X86) : 0 < arch.sizeofPtr := by
  cases arch <;> decide

theorem sizeofPtr_le (arch : X86) : arch.sizeofPtr ≤ 64 := by
  cases arch <;> decide

theorem list_ne_nil (call : PrepareCall cm) : call.list.toList ≠ [] := cm.pages.nonempty _ call.list_mem

theorem mem_words {word : ℕ} (hword : word ∈ call.words) :
    ∃ page ∈ call.list.toList, word = page + call.offset := by
  obtain ⟨page, hpage, rfl⟩ := List.mem_map.mp hword
  exact ⟨page, List.mem_of_mem_take hpage, rfl⟩

theorem length_words (call : PrepareCall cm) : call.words.length = ppCount call.list call.count := by
  have hpos := List.length_pos_of_ne_nil call.list_ne_nil
  rw [words, List.length_map, List.length_take, ppCount, vlLen_eq]
  split_ifs <;> omega

theorem words_pos (call : PrepareCall cm) : 0 < call.words.length := by
  have hpos := List.length_pos_of_ne_nil call.list_ne_nil
  rw [length_words, ppCount, vlLen_eq]
  split_ifs <;> omega

theorem length_words_le (call : PrepareCall cm) : call.words.length ≤ call.list.toList.length := by
  rw [words, List.length_map, List.length_take]
  exact Nat.min_le_right _ _

theorem getElem_words {i : ℕ} (hi : i < call.words.length) :
    call.words[i] = (getElem call.list.toList i (Nat.lt_of_lt_of_le hi call.length_words_le)) + call.offset := by
  simp only [words, List.getElem_map, List.getElem_take]

/-- Words in different pages or at different lines do not overlap. -/
theorem word_apart {page page' offset offset' width : ℕ} (hwidth : width ≤ 64) (hpage : 4096 ∣ page)
    (hpage' : 4096 ∣ page') (hline : 64 ∣ offset) (hline' : 64 ∣ offset') (hoffset : offset < 4096)
    (hoffset' : offset' < 4096) (hne : page ≠ page' ∨ offset ≠ offset') :
    page + offset + width ≤ page' + offset' ∨ page' + offset' + width ≤ page + offset := by
  obtain ⟨m, rfl⟩ := hpage
  obtain ⟨m', rfl⟩ := hpage'
  obtain ⟨k, rfl⟩ := hline
  obtain ⟨k', rfl⟩ := hline'
  omega

/-- The words of a call are cells of a ring. -/
theorem cells (call : PrepareCall cm) : Cells arch.sizeofPtr call.words where
  apart := by
    have hnodup := (List.nodup_flatMap.mp cm.pages.nodup).1 _ call.list_mem
    have haligned := cm.pages.aligned _ call.list_mem
    rw [words, List.pairwise_map]
    apply List.Pairwise.sublist (List.take_sublist _ _)
    rw [List.pairwise_iff_getElem]
    intro i j hi hj hlt
    have hne : call.list.toList[i] ≠ call.list.toList[j] := by
      rw [Ne, hnodup.getElem_inj_iff]
      omega
    exact word_apart (sizeofPtr_le arch) (haligned _ (List.getElem_mem hi)) (haligned _ (List.getElem_mem hj))
      call.line call.line call.in_page call.in_page (.inl hne)
  bounded := by
    intro word hword
    obtain ⟨page, hpage, rfl⟩ := mem_words hword
    have hfits := cm.pages.fits _ call.list_mem _ hpage
    have hoffset := call.in_page
    omega

theorem words_ne_zero {word : ℕ} (hword : word ∈ call.words) : word ≠ 0 := by
  obtain ⟨page, hpage, rfl⟩ := mem_words hword
  have hpos := cm.pages.pos _ call.list_mem _ hpage
  omega

/-- The words of different rings do not overlap. -/
theorem words_apart (hne : ¬call.SameRing call') {word word' : ℕ} (hword : word ∈ call.words)
    (hword' : word' ∈ call'.words) :
    word + arch.sizeofPtr ≤ word' ∨ word' + arch.sizeofPtr ≤ word := by
  obtain ⟨page, hpage, rfl⟩ := mem_words hword
  obtain ⟨page', hpage', rfl⟩ := mem_words hword'
  apply word_apart (sizeofPtr_le arch) (cm.pages.aligned _ call.list_mem _ hpage)
    (cm.pages.aligned _ call'.list_mem _ hpage') call.line call'.line call.in_page call'.in_page
  by_contra hsame
  obtain ⟨rfl, hoffset⟩ : page = page' ∧ call.offset = call'.offset := by
    simpa only [not_or, ne_eq, not_not] using hsame
  refine hne ⟨?_, hoffset⟩
  by_contra hlists
  -- a page is in one list only
  obtain ⟨i, hi, hlist⟩ := List.getElem_of_mem call.list_mem
  obtain ⟨j, hj, hlist'⟩ := List.getElem_of_mem call'.list_mem
  have hpair := List.pairwise_iff_getElem.mp (List.nodup_flatMap.mp cm.pages.nodup).2
  have hij : i ≠ j := by
    rintro rfl
    exact hlists (hlist.symm.trans hlist')
  rcases Nat.lt_or_gt_of_ne hij with hlt | hlt
  · exact hpair i j hi hj hlt (hlist ▸ hpage) (hlist' ▸ hpage')
  · exact hpair j i hj hi hlt (hlist' ▸ hpage') (hlist ▸ hpage)

/-- The head that a call returns. -/
def head (call : PrepareCall cm) : ℕ := getElem call.words 0 (words_pos call)

/-- Only bytes in the words of a call differ. -/
def WritesWords (call : PrepareCall cm) (mem mem' : Mem) : Prop :=
  ∀ a, (∀ word ∈ call.words, a < word ∨ word + arch.sizeofPtr ≤ a) → mem' a = mem a

/-- The page of a word, as `pp_prepare` reads it from the list. -/
theorem vlGet_words {i : ℕ} (hi : i < call.words.length) :
    ∃ page, vlGet call.list i = .ok page ∧ page + call.offset = call.words[i] :=
  ⟨_, vlGet_eq (Nat.lt_of_lt_of_le hi call.length_words_le), (getElem_words hi).symm⟩

theorem aligned (call : PrepareCall cm) : call.offset &&& 0x3f = 0 := by
  rw [show 0x3f = 2 ^ 6 - 1 from rfl, Nat.and_two_pow_sub_one_eq_mod]
  exact Nat.mod_eq_zero_of_dvd call.line

/-- A call makes its ring and writes nothing else. -/
theorem run_returns (call : PrepareCall cm) (mem : Mem) :
    Returns (call.run mem) fun r =>
      r.1 = call.head ∧ Ring arch.sizeofPtr r.2 call.words ∧ call.WritesWords mem r.2 := by
  have hpos := call.words_pos
  obtain ⟨first, hfirst, hhead⟩ := vlGet_words hpos
  rw [run, ppPrepare, require_pos call.aligned, pure_bind]
  simp only [← length_words]
  apply Returns.bind (forUpto_returns (fun i mem' =>
    LinkedUpto arch.sizeofPtr mem' call.words i ∧ call.WritesWords mem mem')
    ⟨fun j _ hj => absurd hj (Nat.not_lt_zero j), fun _ _ => rfl⟩ _)
  · intro mem' h
    obtain ⟨hlinked, hframe⟩ := h
    rw [hfirst, ok_bind, returns_pure]
    exact ⟨hhead, hlinked.ring, hframe⟩
  · intro i hi mem' h
    obtain ⟨hlinked, hframe⟩ := h
    obtain ⟨here, hhere, hword⟩ := vlGet_words hi
    have hi' : (i + 1) % call.words.length < call.words.length := Nat.mod_lt (i + 1) hpos
    obtain ⟨next, hnext, hword'⟩ := vlGet_words hi'
    rw [hhere, ok_bind, hnext, ok_bind, hword, hword', returns_pure]
    refine ⟨hlinked.store_next call.cells hi, ?_⟩
    intro a ha
    rw [store_apply_of_outside _ _ _ _ (ha _ (List.getElem_mem hi)), hframe a ha]

/-- A ring survives the calls for other rings. -/
theorem run_keeps (hne : ¬call.SameRing call') (hring : Ring arch.sizeofPtr mem call.words) :
    Returns (call'.run mem) fun r => Ring arch.sizeofPtr r.2 call.words := by
  apply (call'.run_returns mem).mono
  intro r hr
  apply hring.frame
  intro word hword a hlow hhigh
  apply hr.2.2
  intro word' hword'
  have hapart := words_apart hne hword hword'
  omega

end PrepareCall

/-! ### Probing a ring -/

section Probing

variable {arch : X86} {cm : PageLists arch} {call : PrepareCall cm} {mem : Mem} {σ : Type}

theorem PrepareCall.length_words_lt (call : PrepareCall cm) :
    call.words.length < 256 ^ arch.sizeofPtr + 1 := by
  have hnodup := call.cells.nodup (PrepareCall.sizeofPtr_pos arch)
  have hsub : call.words ⊆ List.range (256 ^ arch.sizeofPtr) := fun word hword =>
    List.mem_range.mpr (call.cells.bounded word hword)
  have hle := (hnodup.subperm hsub).length_le
  rw [List.length_range] at hle
  exact Nat.lt_succ_of_le hle

/-- A walk round the ring of a call visits as many words as the ring has. -/
theorem goRound_words {τ : Type} (hring : Ring arch.sizeofPtr mem call.words) (visit : τ → τ) (acc : τ) :
    Returns (goRound (fun p acc => (load mem arch.sizeofPtr p, visit acc)) (256 ^ arch.sizeofPtr + 1)
      call.head acc) (· = visit^[call.words.length] acc) := by
  apply goRound_returns call.words_pos (call.cells.nodup (PrepareCall.sizeofPtr_pos arch))
    (fun _ => PrepareCall.words_ne_zero) call.length_words_lt (fun k acc' => acc' = visit^[k] acc) rfl
  intro k hk acc' hacc'
  rw [hacc', ← Function.iterate_succ_apply' visit]
  exact ⟨hring k hk, rfl⟩

theorem PrepareCall.head_ne_zero (call : PrepareCall cm) : call.head ≠ 0 :=
  PrepareCall.words_ne_zero (List.getElem_mem call.words_pos)

theorem ppProbe_returns (hring : Ring arch.sizeofPtr mem call.words) (clock : σ → BitVec 32 × σ)
    (threshold : BitVec 32) (world : σ) :
    Returns (ppProbe arch clock threshold call.head mem world) fun r =>
      0 ≤ r.1 ∧ r.1 ≤ call.words.length := by
  rw [ppProbe, if_neg call.head_ne_zero]
  apply (goRound_words hring (probecountRound clock threshold) (0, world)).mono
  intro r hr
  rw [hr]
  exact Probeable.probecountRound_iterate clock threshold _ world

/-- `walk` goes round as often as its counter says and comes to an end. -/
theorem walk_returns (hring : Ring arch.sizeofPtr mem call.words) (count : BitVec 32) :
    Returns (walk arch call.head count mem) fun _ => True := by
  rw [walk, if_neg call.head_ne_zero]
  -- the measure is the number of times round that are left after this one
  apply loop_returns (fun _ => True) _ (fun count : BitVec 32 => (count - 1#32).toNat)
  · intro count _
    apply (goRound_words hring id ()).bind
    intro _ _
    by_cases hlast : count - 1#32 ≠ 0#32
    · rw [if_pos hlast, returns_pure]
      refine ⟨trivial, ?_⟩
      bv_omega
    · rw [if_neg hlast, returns_pure]
      trivial
  · trivial
  · have hlt := (count - 1#32).isLt
    omega

end Probing

/-- **Rings of prime and probe.** After any calls of `pp_prepare` for the lists of a cache map, the head
that the last call for a ring returned leads round exactly the words of that call, each once, whatever
other rings were made before and after. So `pp_probe` and `walk` come to an end from it, and `pp_probe`
returns at most the number of words. -/
theorem pp_rings {σ : Type} (arch : X86) (cm : PageLists arch) (clock : σ → BitVec 32 × σ)
    (threshold : BitVec 32) (mem : Mem) (before : List (PrepareCall cm)) (call : PrepareCall cm)
    (after : List (PrepareCall cm)) (hafter : ∀ call' ∈ after, ¬call.SameRing call') :
    Returns (runAll PrepareCall.run (before ++ call :: after) mem) fun r =>
      ∃ head, r.1[before.length]? = some head ∧ Cycle arch.sizeofPtr r.2 head call.words ∧
        call.words.length = (if call.count = 0 then call.list.toList.length
          else min call.count call.list.toList.length) ∧
          (∀ world, Returns (ppProbe arch clock threshold head r.2 world) fun r' =>
            0 ≤ r'.1 ∧ r'.1 ≤ call.words.length) ∧
            ∀ reps, Returns (ppPrime arch head reps r.2) fun _ => True := by
  have hlegal : Legal (fun _ _ => True) [] before := legal_of_forall before [] fun _ _ => trivial
  have hbefore : Returns (runAll PrepareCall.run before mem) fun _ => True :=
    runAll_inv (fun _ _ => True) (fun _ call' mem' _ _ => (call'.run_returns mem').mono fun _ _ => trivial)
      before [] mem hlegal trivial
  apply (runAll_call (P := fun _ => True)
    (Q := fun head mem' => head = call.head ∧ Ring arch.sizeofPtr mem' call.words) hbefore _ _).mono
  · intro r hr
    obtain ⟨head, hout, rfl, hring⟩ := hr
    refine ⟨_, hout, hring.cycle call.words_pos (call.cells.nodup (PrepareCall.sizeofPtr_pos arch)), ?_,
      fun world => ppProbe_returns hring clock threshold world, fun reps => walk_returns hring reps⟩
    rw [PrepareCall.words, List.length_map, List.length_take]
    split_ifs with h
    · exact Nat.min_self _
    · rfl
  · intro mem' _
    apply (call.run_returns mem').mono
    intro r hr
    exact ⟨hr.1, hr.2.1⟩
  · intro call' hcall' head mem' h
    apply (PrepareCall.run_keeps (hafter call' hcall') h.2).mono
    intro r hr
    exact ⟨h.1, hr⟩

theorem pageGroups_sets : PageGroups X86.ia32.sizeofPtr [VList.ofList [4096, 8192], VList.ofList [12288]] := by
  constructor <;> simp [X86.sizeofPtr]

/-- A cache map of two sets. -/
def twoSets : PageLists .ia32 := ⟨[VList.ofList [4096, 8192], VList.ofList [12288]], pageGroups_sets⟩

theorem pp_rings_two_sets :
    Returns (runAll PrepareCall.run
        ([twoSets.lineCall ⟨0, by decide⟩ 0 3] ++ twoSets.lineCall ⟨0, by decide⟩ 16 2 ::
          [twoSets.lineCall ⟨1, by decide⟩ 16 2, twoSets.lineCall ⟨0, by decide⟩ 16 3]) fun _ => 0#8) fun r =>
      ∃ head, r.1[1]? = some head ∧ Cycle 4 r.2 head [4096 + 128, 8192 + 128] := by
  apply (pp_rings .ia32 twoSets quiet.clock quiet.threshold (fun _ => 0#8) _ _ _ _).mono
  · intro r hr
    obtain ⟨head, hout, hcycle, -⟩ := hr
    exact ⟨head, hout, hcycle⟩
  · intro call' hcall' hsame
    simp only [List.mem_cons, List.not_mem_nil, or_false] at hcall'
    rcases hcall' with rfl | rfl
    · have hlength := congrArg VList.len hsame.1
      revert hlength
      decide
    · have hoffset := hsame.2
      revert hoffset
      decide

end ChannelBench
