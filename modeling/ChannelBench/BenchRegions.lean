import ChannelBench.BenchFrames
import ChannelBench.CMachine
import Mathlib.Logic.Function.Basic

/-! The regions the manager gives to the benchmark processes, and what each process declares of them. The
routines of `manager.h` allocate regions in the vspaces of the processes and record them in the page of
arguments; the process reads them back when it starts. The vspaces themselves belong to `sel4utils` and
are left open: an allocation returns any address, `NULL` for a failure. -/

namespace ChannelBench

open CSem

variable {σ ι : Type} [DecidableEq ι]

/-- What the manager uses of `sel4utils`. The vspaces are those of the processes, and `none` for its own. -/
structure Vspaces (σ ι : Type) where
  newPages : Option ι → BitVec 64 → σ → BitVec 64 × σ
  shareMem : Option ι → Option ι → BitVec 64 → BitVec 64 → σ → BitVec 64 × σ
  configureProcess : ι → σ → Option (BitVec 64) × σ
  stackSize : BitVec 64
  ipcBuffer : ι → BitVec 64
  ipcPages : BitVec 64
  ipcBuffer_ne : ∀ t, ipcBuffer t ≠ 0

/-- The page of arguments of a thread, with its address in the vspace of the manager. -/
structure ArgsPage where
  vaddr : BitVec 64
  args : BenchArgs

/-- `bench_args` of the threads, `none` before `create_thread`. -/
structure Manager (σ ι : Type) where
  benchArgs : ι → Option ArgsPage
  world : σ

/-- `t->bench_args`. -/
def Manager.page (m : Manager σ ι) (t : ι) : Run ArgsPage :=
  match m.benchArgs t with
  | some page => pure page
  | none => throw .bounds

/-- An assignment to a field of `t->bench_args`. -/
def Manager.update (m : Manager σ ι) (t : ι) (f : BenchArgs → BenchArgs) : Run (Manager σ ι) := do
  let page ← m.page t
  return { m with benchArgs := Function.update m.benchArgs t (some { page with args := f page.args }) }

/-- `create_thread`. -/
def createThread (X : Vspaces σ ι) (untypeNone : ι → Bool) (t : ι) (m : Manager σ ι) : Run (Manager σ ι) := do
  let benchArgs := X.newPages none 1 m.world
  require (benchArgs.1 ≠ 0) .assertion
  let process := X.configureProcess t benchArgs.2
  match process.1 with
  | none => throw .assertion
  | some stackTop =>
      let args : BenchArgs := {
        untypeNone := untypeNone t
        stackPages := X.stackSize / pageBytes
        stackVaddr := stackTop - X.stackSize }
      return { benchArgs := Function.update m.benchArgs t (some ⟨benchArgs.1, args⟩), world := process.2 }

/-- `map_morecore_buf`. -/
def mapMorecoreBuf (X : Vspaces σ ι) (size : BitVec 64) (t : ι) (m : Manager σ ι) : Run (Manager σ ι) := do
  if size = 0 then
    return m
  let m ← m.update t fun args => { args with morecoreSize := size }
  let pages := X.newPages (some t) ((size + pageBytes) / pageBytes) m.world
  let m ← ({ m with world := pages.2 }).update t fun args => { args with morecoreVaddr := pages.1 }
  require (pages.1 ≠ 0) .assertion
  return m

/-- `map_r_buf`. -/
def mapRBuf (X : Vspaces σ ι) (nP : BitVec 32) (t : ι) (m : Manager σ ι) : Run (Manager σ ι) := do
  if nP = 0 then
    return m
  let m ← m.update t fun args => { args with recordPages := nP.setWidth 64 }
  let pages := X.newPages (some t) (nP.setWidth 64) m.world
  let m ← ({ m with world := pages.2 }).update t fun args => { args with recordVaddr := pages.1 }
  require (pages.1 ≠ 0) .assertion
  let shared := X.shareMem (some t) none pages.1 (nP.setWidth 64) m.world
  require (shared.1 ≠ 0) .assertion
  return { m with world := shared.2 }

/-- `map_shared_buf`, without the physical address it looks up. -/
def mapSharedBuf (X : Vspaces σ ι) (owner share : ι) (nP : BitVec 32) (m : Manager σ ι) : Run (Manager σ ι) := do
  let m ← m.update share fun args => { args with sharedPages := nP.setWidth 64 }
  let m ← m.update owner fun args => { args with sharedPages := nP.setWidth 64 }
  let pages := X.newPages (some owner) (nP.setWidth 64) m.world
  let m ← ({ m with world := pages.2 }).update owner fun args => { args with sharedVaddr := pages.1 }
  require (pages.1 ≠ 0) .assertion
  let shared := X.shareMem (some owner) (some share) pages.1 (nP.setWidth 64) m.world
  let m ← ({ m with world := shared.2 }).update share fun args => { args with sharedVaddr := shared.1 }
  require (shared.1 ≠ 0) .assertion
  return m

/-- The calls that set up the threads. -/
inductive SetupOp (ι : Type) where
  | createThread (t : ι)
  | mapSharedBuf (owner share : ι) (nP : BitVec 32)
  | mapRBuf (nP : BitVec 32) (t : ι)
  | mapMorecoreBuf (size : BitVec 64) (t : ι)

/-- A call and its effect. -/
def SetupOp.run (X : Vspaces σ ι) (untypeNone : ι → Bool) (op : SetupOp ι) (m : Manager σ ι) :
    Run (Unit × Manager σ ι) := do
  let m ← match op with
    | .createThread t => ChannelBench.createThread X untypeNone t m
    | .mapSharedBuf owner share nP => ChannelBench.mapSharedBuf X owner share nP m
    | .mapRBuf nP t => ChannelBench.mapRBuf X nP t m
    | .mapMorecoreBuf size t => ChannelBench.mapMorecoreBuf X size t m
  return ((), m)

/-- `launch_thread`: the process starts with the page of arguments in its vspace. -/
def launchThread (X : Vspaces σ ι) (t : ι) (m : Manager σ ι) : Run BenchProcess := do
  let page ← m.page t
  let remoteArgs := X.shareMem none (some t) page.vaddr 1 m.world
  if h : remoteArgs.1 ≠ 0 then
    return { args := page.args, argsVaddr := remoteArgs.1, ipcBuffer := X.ipcBuffer t, ipcPages := X.ipcPages,
             argsVaddr_ne := h, ipcBuffer_ne := X.ipcBuffer_ne t }
  else throw .assertion

/-- `bench_init_env`: the existing frames it declares, none if it creates no vspace. -/
def benchInitEnv (p : BenchProcess) : Run (Option (List (BitVec 64))) := do
  if p.args.untypeNone then
    return none
  let frames ← initVspace p
  return some frames

/-- The calls of the manager for some threads, and the launch of one. -/
def launchAfter (X : Vspaces σ ι) (untypeNone : ι → Bool) (ops : List (SetupOp ι)) (t : ι) (world : σ) :
    Run BenchProcess := do
  let s ← runAll (SetupOp.run X untypeNone) ops { benchArgs := fun _ => none, world }
  launchThread X t s.2

/-! ### What the calls keep -/

/-- Every page of arguments satisfies `P`. -/
def ArgsInv (P : ι → BenchArgs → Prop) (m : Manager σ ι) : Prop :=
  ∀ t page, m.benchArgs t = some page → P t page.args

theorem ArgsInv.set {P : ι → BenchArgs → Prop} {m : Manager σ ι} (h : ArgsInv P m) {t : ι} {page : ArgsPage}
    (hpage : P t page.args) (world : σ) :
    ArgsInv P { benchArgs := Function.update m.benchArgs t (some page), world } := by
  intro u page' hpage'
  dsimp only at hpage'
  by_cases hu : u = t
  · subst hu
    rw [Function.update_self] at hpage'
    cases hpage'
    exact hpage
  · rw [Function.update_of_ne hu] at hpage'
    exact h u page' hpage'

omit [DecidableEq ι] in
theorem ArgsInv.world {P : ι → BenchArgs → Prop} {m : Manager σ ι} (h : ArgsInv P m) (world : σ) :
    ArgsInv P { m with world } := h

omit [DecidableEq ι] in
theorem Manager.page_ensures (m : Manager σ ι) (t : ι) :
    Ensures (m.page t) fun page => m.benchArgs t = some page := by
  rw [Manager.page]
  cases m.benchArgs t with
  | none => exact ensures_error
  | some page => exact ensures_pure rfl

theorem Manager.update_ensures {P : ι → BenchArgs → Prop} {m : Manager σ ι} (h : ArgsInv P m) {t : ι}
    {f : BenchArgs → BenchArgs} (hf : ∀ args, P t args → P t (f args)) :
    Ensures (m.update t f) (ArgsInv P) := by
  apply (m.page_ensures t).bind
  intro page hpage
  exact ensures_pure (h.set (hf _ (h t page hpage)) m.world)

/-- What the arguments of the threads keep as long as `t` gets no morecore area. -/
structure Declarable (untypeNone : ι → Bool) (t u : ι) (args : BenchArgs) : Prop where
  hugepage : args.hugepageVaddr = 0
  untype : args.untypeNone = untypeNone u
  morecore : u = t → args.morecoreVaddr = 0

/-- The call gives the thread a morecore area. -/
def SetupOp.givesMorecore (t : ι) : SetupOp ι → Prop
  | .mapMorecoreBuf size u => u = t ∧ size ≠ 0
  | _ => False

section Steps

variable {X : Vspaces σ ι} {untypeNone : ι → Bool} {t : ι} {m : Manager σ ι}
  (h : ArgsInv (Declarable untypeNone t) m)

include h

/-- A run that starts with an assignment to a field that is not about the declared regions. -/
theorem update_kept {u : ι} {f : BenchArgs → BenchArgs} {next : Manager σ ι → Run (Manager σ ι)}
    (hf : ∀ args, (f args).hugepageVaddr = args.hugepageVaddr ∧ (f args).untypeNone = args.untypeNone ∧
      (f args).morecoreVaddr = args.morecoreVaddr)
    (hnext : ∀ m, ArgsInv (Declarable untypeNone t) m → Ensures (next m) (ArgsInv (Declarable untypeNone t))) :
    Ensures (m.update u f >>= next) (ArgsInv (Declarable untypeNone t)) := by
  refine (Manager.update_ensures h ?_).bind hnext
  intro args hargs
  obtain ⟨hhugepage, huntype, hmorecore⟩ := hf args
  constructor
  · rw [hhugepage, hargs.hugepage]
  · rw [huntype, hargs.untype]
  · intro hu
    rw [hmorecore, hargs.morecore hu]

theorem createThread_ensures (u : ι) :
    Ensures (createThread X untypeNone u m) (ArgsInv (Declarable untypeNone t)) := by
  rw [createThread]
  apply (ensures_true _).bind
  intro _ _
  cases hprocess : (X.configureProcess u (X.newPages none 1 m.world).2).1 with
  | none =>
      simp only [hprocess]
      exact ensures_error
  | some stackTop =>
      simp only [hprocess]
      apply ensures_pure
      apply h.set
      exact ⟨rfl, rfl, fun _ => rfl⟩

theorem mapMorecoreBuf_ensures {u : ι} {size : BitVec 64} (hnone : ¬(u = t ∧ size ≠ 0)) :
    Ensures (mapMorecoreBuf X size u m) (ArgsInv (Declarable untypeNone t)) := by
  rw [mapMorecoreBuf]
  by_cases hsize : size = 0
  · rw [if_pos hsize]
    exact ensures_pure h
  · have hother : u ≠ t := fun hu => hnone ⟨hu, hsize⟩
    rw [if_neg hsize]
    refine update_kept h (fun _ => ⟨rfl, rfl, rfl⟩) ?_
    intro m₁ h₁
    dsimp only
    refine (Manager.update_ensures (h₁.world _) fun args hargs => ?_).bind fun m₂ h₂ => ?_
    · exact ⟨hargs.hugepage, hargs.untype, fun hu => absurd hu hother⟩
    exact (ensures_true _).bind fun _ _ => ensures_pure h₂

theorem mapRBuf_ensures (u : ι) (nP : BitVec 32) :
    Ensures (mapRBuf X nP u m) (ArgsInv (Declarable untypeNone t)) := by
  rw [mapRBuf]
  by_cases hnP : nP = 0
  · rw [if_pos hnP]
    exact ensures_pure h
  · rw [if_neg hnP]
    refine update_kept h (fun _ => ⟨rfl, rfl, rfl⟩) ?_
    intro m₁ h₁
    dsimp only
    refine update_kept (h₁.world _) (fun _ => ⟨rfl, rfl, rfl⟩) ?_
    intro m₂ h₂
    exact (ensures_true _).bind fun _ _ => (ensures_true _).bind fun _ _ => ensures_pure h₂

theorem mapSharedBuf_ensures (owner share : ι) (nP : BitVec 32) :
    Ensures (mapSharedBuf X owner share nP m) (ArgsInv (Declarable untypeNone t)) := by
  rw [mapSharedBuf]
  refine update_kept h (fun _ => ⟨rfl, rfl, rfl⟩) ?_
  intro m₁ h₁
  refine update_kept h₁ (fun _ => ⟨rfl, rfl, rfl⟩) ?_
  intro m₂ h₂
  dsimp only
  refine update_kept (h₂.world _) (fun _ => ⟨rfl, rfl, rfl⟩) ?_
  intro m₃ h₃
  apply (ensures_true _).bind
  intro _ _
  refine update_kept (h₃.world _) (fun _ => ⟨rfl, rfl, rfl⟩) ?_
  intro m₄ h₄
  exact (ensures_true _).bind fun _ _ => ensures_pure h₄

theorem SetupOp.run_ensures {op : SetupOp ι} (hop : ¬op.givesMorecore t) :
    Ensures (op.run X untypeNone m) fun r => ArgsInv (Declarable untypeNone t) r.2 := by
  cases op with
  | createThread u => exact (createThread_ensures h u).bind fun _ hm => ensures_pure hm
  | mapSharedBuf owner share nP =>
      exact (mapSharedBuf_ensures h owner share nP).bind fun _ hm => ensures_pure hm
  | mapRBuf nP u => exact (mapRBuf_ensures h u nP).bind fun _ hm => ensures_pure hm
  | mapMorecoreBuf size u => exact (mapMorecoreBuf_ensures h hop).bind fun _ hm => ensures_pure hm

end Steps

/-! ### What the process declares -/

/-- The morecore area recorded in the arguments, by its size in bytes. -/
def BenchArgs.morecoreRegion (args : BenchArgs) : Region :=
  ⟨args.morecoreVaddr, BitVec.ofNat 64 ((args.morecoreSize.toNat + 4095) / 4096)⟩

/-- The pages of all regions recorded in the arguments, and the page of the arguments. -/
def BenchProcess.recordedPages (p : BenchProcess) : List (BitVec 64) :=
  Region.frames ⟨p.args.stackVaddr, p.args.stackPages⟩ ++ Region.frames ⟨p.args.sharedVaddr, p.args.sharedPages⟩ ++
    Region.frames ⟨p.args.recordVaddr, p.args.recordPages⟩ ++ p.args.morecoreRegion.frames ++ [p.argsVaddr]

/-- Without a morecore area the recorded pages are among the declared ones. -/
theorem BenchProcess.recordedPages_subset {p : BenchProcess} (hmorecore : p.args.morecoreVaddr = 0) :
    p.recordedPages ⊆ p.existingFrames := by
  have hnone : p.args.morecoreRegion.frames = [] := by
    have hcount : p.args.morecoreRegion.count = 0 := if_pos hmorecore
    rw [Region.frames, hcount]
    rfl
  intro page hpage
  rw [recordedPages, hnone] at hpage
  rw [existingFrames, regions]
  simp only [List.mem_append, List.flatMap_cons, List.not_mem_nil, or_false] at hpage ⊢
  tauto

omit [DecidableEq ι] in
theorem launchThread_ensures (X : Vspaces σ ι) {untypeNone : ι → Bool} {t : ι} {m : Manager σ ι}
    (h : ArgsInv (Declarable untypeNone t) m) :
    Ensures (launchThread X t m) fun p => Declarable untypeNone t t p.args := by
  apply (m.page_ensures t).bind
  intro page hpage
  dsimp only
  split_ifs
  · exact ensures_pure (h t page hpage)
  · exact ensures_error

/-- **The regions of a launched process are declared.** After any calls none of which gives the thread a
morecore area, a process that creates a vspace declares every page recorded in its arguments, as long as
there are no more pages than the position in the list can count. -/
theorem regions_declared (X : Vspaces σ ι) (untypeNone : ι → Bool) (ops : List (SetupOp ι)) (t : ι) (world : σ)
    (hops : ∀ op ∈ ops, ¬op.givesMorecore t) (huntype : untypeNone t = false) :
    Ensures (launchAfter X untypeNone ops t world) fun p =>
      p.countedPages ≤ 2 ^ 31 → Returns (benchInitEnv p) fun out =>
        ∃ frames, out = some frames ∧ ∀ page ∈ p.recordedPages, page ∈ frames := by
  have hstart : ArgsInv (Declarable untypeNone t) (Manager.mk (fun _ => none) world) := by
    intro u page hpage
    cases hpage
  have hrun := runAll_ensures (ArgsInv (Declarable untypeNone t))
    (fun op m (hop : ¬op.givesMorecore t) hm => SetupOp.run_ensures (X := X) hm hop) ops _ hops hstart
  apply hrun.bind
  intro s hs
  apply (launchThread_ensures X hs).mono
  intro p hp hcounted
  have hroom : p.room = p.countedPages := by
    rw [p.room_eq, Nat.mod_eq_of_lt (by omega)]
  have hle := p.frameCount_le
  have hskip : ¬p.args.untypeNone = true := by
    rw [hp.untype, huntype]
    exact Bool.false_ne_true
  rw [benchInitEnv, if_neg hskip]
  apply (initVspace_returns p hp.hugepage (by omega) (by omega)).bind
  intro frames hframes
  refine returns_pure.mpr ⟨frames, rfl, ?_⟩
  intro page hpage
  rw [hframes]
  exact List.mem_append_left _ (BenchProcess.recordedPages_subset (hp.morecore rfl) hpage)

/-- Vspaces that hand out their pages one after another, with a stack of two pages. -/
def bumpVspaces : Vspaces (BitVec 64) Bool where
  newPages := fun _ n next => (next, next + n * pageBytes)
  shareMem := fun _ _ _ n next => (next, next + n * pageBytes)
  configureProcess := fun _ next => (some (next + 2 * pageBytes), next + 2 * pageBytes)
  stackSize := 2 * pageBytes
  ipcBuffer := fun _ => 0x8000000
  ipcPages := 1
  ipcBuffer_ne := fun _ => by decide

/-- A thread with a record buffer, and its stack and arguments. -/
theorem regions_declared_record :
    Ensures (launchAfter bumpVspaces (fun _ => false) [.createThread true, .mapRBuf 3 true] true 0x10000000) fun p =>
      p.countedPages ≤ 2 ^ 31 → Returns (benchInitEnv p) fun out =>
        ∃ frames, out = some frames ∧ ∀ page ∈ p.recordedPages, page ∈ frames :=
  regions_declared bumpVspaces (fun _ => false) [.createThread true, .mapRBuf 3 true] true 0x10000000
    (by simp [SetupOp.givesMorecore]) rfl

/-- A thread that is given a morecore area of two pages declares neither of them. -/
theorem morecore_undeclared :
    ∃ p frames, launchAfter bumpVspaces (fun _ => false) [.createThread true, .mapMorecoreBuf 8192 true] true
        0x10000000 = .ok p ∧
      benchInitEnv p = .ok (some frames) ∧
        0x10003000 ∈ p.recordedPages ∧ 0x10003000 ∉ frames ∧ 0x10004000 ∈ p.recordedPages ∧ 0x10004000 ∉ frames :=
  ⟨_, [0x10001000, 0x10002000, 0x8000000, 0x10006000], rfl, by decide, by decide, by decide, by decide, by decide⟩

/-! ### Huge pages -/

/-- The number of pages `create_huge_pages` asks for, from the bytes and the logarithm of the page size. -/
def hugePages (size hugePageSize : BitVec 32) : BitVec 32 :=
  let size := if size % (1#32 <<< hugePageSize) ≠ 0 then size + (1#32 <<< hugePageSize) else size
  size / (1#32 <<< hugePageSize)

/-- `create_huge_pages`, without what it prints: the pages it maps, and the arguments. -/
def createHugePages (newPages : BitVec 32 → BitVec 32 → BitVec 64) (size hugePageSize : BitVec 32)
    (args : BenchArgs) : BitVec 32 × BenchArgs :=
  let size := hugePages size hugePageSize
  (size, { args with
    hugepageSize := (size * hugePageSize).setWidth 64
    hugepageVaddr := newPages size hugePageSize })

/-- The huge pages cover the bytes asked for, and the arguments have the number of bytes mapped. -/
structure HugeDescribed (size hugePageSize : BitVec 32) (pages : BitVec 32) (args : BenchArgs) : Prop where
  pages_eq : pages.toNat = (size.toNat + (2 ^ hugePageSize.toNat - 1)) / 2 ^ hugePageSize.toNat
  covers : size.toNat ≤ pages.toNat * 2 ^ hugePageSize.toNat
  bytes_eq : args.hugepageSize.toNat = pages.toNat * 2 ^ hugePageSize.toNat

theorem toNat_pageSize {hugePageSize : BitVec 32} (h : hugePageSize.toNat < 32) :
    (1#32 <<< hugePageSize).toNat = 2 ^ hugePageSize.toNat := by
  have hlt : 2 ^ hugePageSize.toNat < 2 ^ 32 := Nat.pow_lt_pow_right (by decide) h
  rw [BitVec.shiftLeft_eq', BitVec.toNat_shiftLeft, Nat.shiftLeft_eq]
  show 1 * 2 ^ hugePageSize.toNat % 2 ^ 32 = _
  rw [Nat.one_mul, Nat.mod_eq_of_lt hlt]

/-- Rounding up by adding a page. -/
theorem add_div_of_mod_pos {size page : ℕ} (hpage : 0 < page) (hmod : size % page ≠ 0) :
    (size + page) / page = (size + (page - 1)) / page := by
  have hsplit := Nat.div_add_mod size page
  have hlt := Nat.mod_lt size hpage
  rw [Nat.add_div_right _ hpage, ← hsplit, Nat.add_assoc, Nat.mul_add_div hpage, Nat.mul_add_div hpage,
    Nat.div_eq_of_lt hlt, Nat.div_eq_of_lt_le (m := size % page + (page - 1)) (k := 1) (by omega) (by omega)]

/-- The number of pages is right unless the added page leaves the range of `uint32_t`. -/
theorem hugePages_eq_iff {size hugePageSize : BitVec 32} (h : hugePageSize.toNat < 32) :
    (hugePages size hugePageSize).toNat = (size.toNat + (2 ^ hugePageSize.toNat - 1)) / 2 ^ hugePageSize.toNat ↔
      size.toNat % 2 ^ hugePageSize.toNat = 0 ∨ size.toNat + 2 ^ hugePageSize.toNat < 2 ^ 32 := by
  have hpage := toNat_pageSize h
  have hpos : 0 < 2 ^ hugePageSize.toNat := Nat.two_pow_pos _
  have hmod : size % (1#32 <<< hugePageSize) = 0 ↔ size.toNat % 2 ^ hugePageSize.toNat = 0 := by
    rw [← BitVec.toNat_inj, BitVec.toNat_umod, hpage]
    rfl
  rw [hugePages, BitVec.toNat_udiv, hpage]
  generalize 2 ^ hugePageSize.toNat = page at *
  by_cases hexact : size.toNat % page = 0
  · rw [if_neg (not_not.mpr (hmod.mpr hexact))]
    obtain ⟨n, hn⟩ := Nat.dvd_of_mod_eq_zero hexact
    rw [hn, Nat.mul_add_div hpos, Nat.mul_div_cancel_left _ hpos, Nat.div_eq_of_lt (by omega)]
    simp
  · rw [if_pos (mt hmod.mp hexact), BitVec.toNat_add, hpage, ← add_div_of_mod_pos hpos hexact]
    have hsize := size.isLt
    constructor
    · intro heq
      by_contra hwrap
      have hsmall : (size.toNat + page) % 2 ^ 32 < page := by omega
      rw [Nat.div_eq_of_lt hsmall, Nat.add_div_right _ hpos] at heq
      exact absurd heq (Nat.succ_ne_zero _).symm
    · rintro (h | hfits)
      · exact absurd h hexact
      · rw [Nat.mod_eq_of_lt hfits]

/-- **The huge pages.** The arguments describe them only if there are none, since the number of pages is
multiplied with the logarithm of their size. -/
theorem createHugePages_described_iff (newPages : BitVec 32 → BitVec 32 → BitVec 64) (size hugePageSize : BitVec 32)
    (args : BenchArgs) :
    HugeDescribed size hugePageSize (createHugePages newPages size hugePageSize args).1
      (createHugePages newPages size hugePageSize args).2 ↔ size = 0 := by
  unfold createHugePages
  have hpos : 0 < 2 ^ hugePageSize.toNat := Nat.two_pow_pos _
  constructor
  · intro h
    have hbytes := h.bytes_eq
    have hcovers := h.covers
    dsimp only at hbytes hcovers
    have hlt := Nat.lt_two_pow_self (n := hugePageSize.toNat)
    rw [BitVec.toNat_setWidth, BitVec.toNat_mul] at hbytes
    have hle : (hugePages size hugePageSize).toNat * hugePageSize.toNat % 2 ^ 32 % 2 ^ 64 ≤
        (hugePages size hugePageSize).toNat * hugePageSize.toNat :=
      (Nat.mod_le _ _).trans (Nat.mod_le _ _)
    rw [hbytes] at hle
    have hnone : (hugePages size hugePageSize).toNat = 0 := by
      by_contra hne
      exact absurd (Nat.le_of_mul_le_mul_left hle (Nat.pos_of_ne_zero hne)) (by omega)
    rw [hnone, Nat.zero_mul] at hcovers
    exact BitVec.eq_of_toNat_eq (Nat.le_zero.mp hcovers)
  · rintro rfl
    have hnone : hugePages 0 hugePageSize = 0 := by
      simp [hugePages]
    dsimp only
    rw [hnone]
    refine ⟨?_, by simp, by simp⟩
    have hceil : (2 ^ hugePageSize.toNat - 1) / 2 ^ hugePageSize.toNat = 0 := Nat.div_eq_of_lt (by omega)
    simp [hceil]

/-- For 3 MiB in pages of 2 MiB two pages are mapped, and 42 bytes are recorded. -/
theorem createHugePages_logarithm :
    (createHugePages (fun _ _ => 0x40000000) 3145728 21 {}).1 = 2 ∧
      (createHugePages (fun _ _ => 0x40000000) 3145728 21 {}).2.hugepageSize = 42 ∧
        ¬HugeDescribed 3145728 21 (createHugePages (fun _ _ => 0x40000000) 3145728 21 {}).1
          (createHugePages (fun _ _ => 0x40000000) 3145728 21 {}).2 := by
  refine ⟨by decide, by decide, ?_⟩
  intro h
  exact absurd h.bytes_eq (by decide)

end ChannelBench
