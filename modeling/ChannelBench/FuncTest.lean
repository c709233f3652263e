import ChannelBench.CEndpoint
import ChannelBench.CSequence

/-! The functional test of `func_test.c` on one core, where its loops are bounded. `funcs_sender` makes
`ipc_runs` calls and one plain send, `funcs_receiver` one receive and `ipc_runs` reply-receives, so that the
plain send meets the last of them. Then both tell the manager on their reply endpoints, and wait there for an
answer that never comes. -/

namespace ChannelBench

open CSem

/-- The threads of the test. -/
inductive FuncParty where
  | sender
  | receiver
  | manager
  deriving DecidableEq

instance : Fintype FuncParty where
  elems := {.sender, .receiver, .manager}
  complete := by
    intro t
    cases t <;> decide

/-- `syn_ep`, and the reply endpoints of the receiver and of the sender. -/
inductive FuncEp where
  | synEp
  | rEp
  | sEp
  deriving DecidableEq

/-- `funcs_sender`. -/
def funcsSender {E : Type} (ipcRuns : ℕ) (ep rEp : E) : List (IpcOp E ℕ) :=
  List.replicate ipcRuns (.call ep) ++ [.send ep, .send rEp, .recv rEp]

/-- The loop of `funcs_receiver`; the action `tick` is the assignment of `tick` to `*record_vaddr`. -/
def funcsReceiverLoop {E : Type} (ep : E) : (ipcRuns tick : ℕ) → List (IpcOp E ℕ)
  | 0, _ => []
  | ipcRuns + 1, tick => .act tick :: .replyRecv ep :: funcsReceiverLoop ep ipcRuns (tick + 1)

/-- `funcs_receiver`. -/
def funcsReceiver {E : Type} (ipcRuns : ℕ) (ep rEp : E) : List (IpcOp E ℕ) :=
  .recv ep :: (funcsReceiverLoop ep ipcRuns 0 ++ [.send rEp, .recv rEp])

/-- What `launch_bench_func_test` does once the threads run. -/
def launchBenchFuncTest {E : Type} (rEp sEp : E) : List (IpcOp E ℕ) := [.recv rEp, .recv sEp]

abbrev FuncThread := IpcThread FuncParty FuncEp ℕ

abbrev FuncEvent := IpcEvent FuncParty FuncEp ℕ

abbrev funcThreads : Interactions FuncParty FuncThread := ipcThreads FuncParty FuncEp ℕ

/-- The states of the three threads. -/
def funcParties (s r m : FuncThread) : FuncParty → FuncThread
  | .sender => s
  | .receiver => r
  | .manager => m

/-- The threads at the start of the test. -/
def funcStart (ipcRuns : ℕ) : FuncParty → FuncThread :=
  funcParties (.start (funcsSender ipcRuns .synEp .sEp)) (.start (funcsReceiver ipcRuns .synEp .rEp))
    (.start (launchBenchFuncTest .rEp .sEp))

/-! ### A complete run -/

section Steps

variable {s r m l : FuncThread}

@[simp] theorem update_sender : Function.update (funcParties s r m) .sender l = funcParties l r m := by
  funext t
  cases t <;> rfl

@[simp] theorem update_receiver : Function.update (funcParties s r m) .receiver l = funcParties s l m := by
  funext t
  cases t <;> rfl

@[simp] theorem update_waiter : Function.update (funcParties s r m) .manager l = funcParties s r l := by
  funext t
  cases t <;> rfl

variable {os ps : List (IpcOp FuncEp ℕ)} {ls lr lm : List FuncEvent} {caller : Option FuncParty}

/-- A call of the sender. -/
theorem funcs_call : funcThreads.Step
    (funcParties ⟨.call .synEp :: os, none, none, ls⟩ ⟨.recv .synEp :: ps, none, none, lr⟩ m)
    (funcParties ⟨os, some .receiver, none, ls ++ [.called .synEp]⟩
      ⟨ps, none, some .sender, lr ++ [.received .synEp .sender]⟩ m) := by
  have hstep := Interactions.Step.pair (I := funcThreads) (t := .sender) (r := .receiver) (by decide)
    (s := funcParties ⟨.call .synEp :: os, none, none, ls⟩ ⟨.recv .synEp :: ps, none, none, lr⟩ m)
    (.call rfl rfl rfl rfl)
  rw [update_sender, update_receiver] at hstep
  exact hstep

/-- The receiver writes the record word. -/
theorem funcs_record {tick : ℕ} : funcThreads.Step (funcParties s ⟨.act tick :: ps, none, caller, lr⟩ m)
    (funcParties s ⟨ps, none, caller, lr ++ [.acted tick]⟩ m) := by
  have hstep := Interactions.Step.solo (I := funcThreads) (t := .receiver)
    (s := funcParties s ⟨.act tick :: ps, none, caller, lr⟩ m) (.act rfl rfl)
  rw [update_receiver] at hstep
  exact hstep

/-- The receiver replies. -/
theorem funcs_reply : funcThreads.Step
    (funcParties ⟨os, some .receiver, none, ls⟩ ⟨.replyRecv .synEp :: ps, none, some .sender, lr⟩ m)
    (funcParties ⟨os, none, none, ls ++ [.answered .receiver]⟩
      ⟨.recv .synEp :: ps, none, none, lr ++ [.replied .sender]⟩ m) := by
  have hstep := Interactions.Step.pair (I := funcThreads) (t := .receiver) (r := .sender) (by decide)
    (s := funcParties ⟨os, some .receiver, none, ls⟩ ⟨.replyRecv .synEp :: ps, none, some .sender, lr⟩ m)
    (.reply rfl rfl rfl rfl)
  rw [update_receiver, update_sender] at hstep
  exact hstep

/-- The plain send of the sender. -/
theorem funcs_send : funcThreads.Step
    (funcParties ⟨.send .synEp :: os, none, none, ls⟩ ⟨.recv .synEp :: ps, none, none, lr⟩ m)
    (funcParties ⟨os, none, none, ls ++ [.sent .synEp]⟩
      ⟨ps, none, none, lr ++ [.received .synEp .sender]⟩ m) := by
  have hstep := Interactions.Step.pair (I := funcThreads) (t := .sender) (r := .receiver) (by decide)
    (s := funcParties ⟨.send .synEp :: os, none, none, ls⟩ ⟨.recv .synEp :: ps, none, none, lr⟩ m)
    (.send rfl rfl rfl rfl)
  rw [update_sender, update_receiver] at hstep
  exact hstep

/-- The receiver tells the manager. -/
theorem funcs_receiver_done : funcThreads.Step
    (funcParties s ⟨.send .rEp :: ps, none, none, lr⟩ ⟨.recv .rEp :: os, none, none, lm⟩)
    (funcParties s ⟨ps, none, none, lr ++ [.sent .rEp]⟩
      ⟨os, none, none, lm ++ [.received .rEp .receiver]⟩) := by
  have hstep := Interactions.Step.pair (I := funcThreads) (t := .receiver) (r := .manager) (by decide)
    (s := funcParties s ⟨.send .rEp :: ps, none, none, lr⟩ ⟨.recv .rEp :: os, none, none, lm⟩)
    (.send rfl rfl rfl rfl)
  rw [update_receiver, update_waiter] at hstep
  exact hstep

/-- The sender tells the manager. -/
theorem funcs_sender_done : funcThreads.Step
    (funcParties ⟨.send .sEp :: os, none, none, ls⟩ r ⟨.recv .sEp :: ps, none, none, lm⟩)
    (funcParties ⟨os, none, none, ls ++ [.sent .sEp]⟩ r
      ⟨ps, none, none, lm ++ [.received .sEp .sender]⟩) := by
  have hstep := Interactions.Step.pair (I := funcThreads) (t := .sender) (r := .manager) (by decide)
    (s := funcParties ⟨.send .sEp :: os, none, none, ls⟩ r ⟨.recv .sEp :: ps, none, none, lm⟩)
    (.send rfl rfl rfl rfl)
  rw [update_sender, update_waiter] at hstep
  exact hstep

/-- The log of the sender for some calls. -/
def pingLog : ℕ → List FuncEvent
  | 0 => []
  | ipcRuns + 1 => .called .synEp :: .answered .receiver :: pingLog ipcRuns

/-- The log of the receiver for the same calls, from a tick on. -/
def pongLog : (ipcRuns tick : ℕ) → List FuncEvent
  | 0, _ => []
  | ipcRuns + 1, tick =>
      .received .synEp .sender :: .acted tick :: .replied .sender :: pongLog ipcRuns (tick + 1)

/-- All calls: before each of them the receiver is at a receive. -/
theorem runs_pingPong (ipcRuns tick : ℕ) : funcThreads.Runs
    (funcParties ⟨List.replicate ipcRuns (.call .synEp) ++ os, none, none, ls⟩
      ⟨.recv .synEp :: (funcsReceiverLoop .synEp ipcRuns tick ++ ps), none, none, lr⟩ m)
    (funcParties ⟨os, none, none, ls ++ pingLog ipcRuns⟩
      ⟨.recv .synEp :: ps, none, none, lr ++ pongLog ipcRuns tick⟩ m) := by
  induction ipcRuns generalizing tick ls lr with
  | zero =>
      simp only [List.replicate_zero, funcsReceiverLoop, pingLog, pongLog, List.append_nil, List.nil_append]
      exact .refl
  | succ ipcRuns ih =>
      have hping : ls ++ pingLog (ipcRuns + 1) =
          ls ++ [.called .synEp] ++ [.answered .receiver] ++ pingLog ipcRuns := by
        simp [pingLog]
      have hpong : lr ++ pongLog (ipcRuns + 1) tick = lr ++ [.received .synEp .sender] ++ [.acted tick] ++
          [.replied .sender] ++ pongLog ipcRuns (tick + 1) := by
        simp [pongLog]
      rw [hping, hpong, List.replicate_succ]
      exact .head funcs_call (.head funcs_record (.head funcs_reply (ih (tick + 1))))

end Steps

/-- The log of the receiver when the last of its reply-receives has taken the plain send. -/
def servedLog (ipcRuns : ℕ) : List FuncEvent := pongLog ipcRuns 0 ++ [.received .synEp .sender]

/-- The log of the sender up to the plain send. -/
def senderLog (ipcRuns : ℕ) : List FuncEvent := pingLog ipcRuns ++ [.sent .synEp]

/-- The threads at the end of the test. -/
def funcEnd (ipcRuns : ℕ) : FuncParty → FuncThread :=
  funcParties ⟨[.recv .sEp], none, none, senderLog ipcRuns ++ [.sent .sEp]⟩
    ⟨[.recv .rEp], none, none, servedLog ipcRuns ++ [.sent .rEp]⟩
    ⟨[], none, none, [.received .rEp .receiver, .received .sEp .sender]⟩

theorem func_complete (ipcRuns : ℕ) : funcThreads.Runs (funcStart ipcRuns) (funcEnd ipcRuns) :=
  (runs_pingPong ipcRuns 0).trans (.head funcs_send (.head funcs_receiver_done (.single funcs_sender_done)))

theorem funcEnd_resting (ipcRuns : ℕ) (t : FuncParty) : (funcEnd ipcRuns t).Resting := by
  refine ⟨?_, ?_⟩
  · cases t <;> rfl
  · intro op hop
    cases t with
    | sender => exact ⟨.sEp, (Option.some.inj hop).symm⟩
    | receiver => exact ⟨.rEp, (Option.some.inj hop).symm⟩
    | manager => cases hop

/-! ### All runs -/

/-- The thread that sends on an endpoint. -/
def funcSnd : FuncEp → FuncParty
  | .synEp | .sEp => .sender
  | .rEp => .receiver

/-- The thread that takes the messages of an endpoint. -/
def funcRcv : FuncEp → FuncParty
  | .synEp => .receiver
  | .rEp | .sEp => .manager

theorem funcsReceiverLoop_allowed {op : IpcOp FuncEp ℕ} :
    ∀ {ipcRuns tick : ℕ}, op ∈ funcsReceiverLoop .synEp ipcRuns tick → op.Allowed funcSnd funcRcv .receiver
  | ipcRuns + 1, tick, h => by
      rw [funcsReceiverLoop] at h
      rcases List.mem_cons.mp h with rfl | h
      · exact trivial
      rcases List.mem_cons.mp h with rfl | h
      · exact .inl rfl
      · exact funcsReceiverLoop_allowed h

/-- Sender and receiver wait at last on endpoints on which they alone send. -/
theorem funcStart_confined (ipcRuns : ℕ) : Confined funcSnd funcRcv (funcStart ipcRuns) := by
  intro t op hop
  cases t with
  | sender =>
      rcases List.mem_append.mp hop with hop | hop
      · obtain rfl := List.eq_of_mem_replicate hop
        exact rfl
      · simp only [List.mem_cons, List.not_mem_nil, or_false] at hop
        rcases hop with rfl | rfl | rfl
        · exact rfl
        · exact rfl
        · exact .inr rfl
  | receiver =>
      rcases List.mem_cons.mp hop with rfl | hop
      · exact .inl rfl
      rcases List.mem_append.mp hop with hop | hop
      · exact funcsReceiverLoop_allowed hop
      · rcases List.mem_pair.mp hop with rfl | rfl
        · exact rfl
        · exact .inr rfl
  | manager =>
      rcases List.mem_pair.mp hop with rfl | rfl
      · exact .inl rfl
      · exact .inl rfl

/-- The values written to the record word. -/
def recorded (log : List FuncEvent) : List ℕ :=
  log.filterMap fun
    | .acted tick => some tick
    | _ => none

section Logs

theorem mem_pingLog {e : FuncEvent} : ∀ {ipcRuns : ℕ}, e ∈ pingLog ipcRuns →
    e = .called .synEp ∨ e = .answered .receiver
  | ipcRuns + 1, h => by
      rcases List.mem_cons.mp h with rfl | h
      · exact .inl rfl
      rcases List.mem_cons.mp h with rfl | h
      · exact .inr rfl
      · exact mem_pingLog h

theorem mem_pongLog {e : FuncEvent} : ∀ {ipcRuns tick : ℕ}, e ∈ pongLog ipcRuns tick →
    e = .received .synEp .sender ∨ (∃ tick, e = .acted tick) ∨ e = .replied .sender
  | ipcRuns + 1, tick, h => by
      rcases List.mem_cons.mp h with rfl | h
      · exact .inl rfl
      rcases List.mem_cons.mp h with rfl | h
      · exact .inr (.inl ⟨tick, rfl⟩)
      rcases List.mem_cons.mp h with rfl | h
      · exact .inr (.inr rfl)
      · exact mem_pongLog h

theorem not_sent_pingLog (ipcRuns : ℕ) (ep : FuncEp) : .sent ep ∉ pingLog ipcRuns := by
  intro h
  rcases mem_pingLog h with h | h
  · cases h
  · cases h

theorem not_sent_pongLog (ipcRuns tick : ℕ) (ep : FuncEp) : .sent ep ∉ pongLog ipcRuns tick := by
  intro h
  rcases mem_pongLog h with h | ⟨_, h⟩ | h
  · cases h
  · cases h
  · cases h

theorem count_pingLog (ipcRuns : ℕ) : (pingLog ipcRuns).count (.called .synEp) = ipcRuns ∧
    (pingLog ipcRuns).count (.answered .receiver) = ipcRuns := by
  induction ipcRuns with
  | zero => exact ⟨rfl, rfl⟩
  | succ ipcRuns ih =>
      constructor
      · rw [pingLog, List.count_cons_self, List.count_cons_of_ne (by simp), ih.1]
      · rw [pingLog, List.count_cons_of_ne (by simp), List.count_cons_self, ih.2]

theorem count_pongLog (ipcRuns tick : ℕ) :
    (pongLog ipcRuns tick).count (.received .synEp .sender) = ipcRuns := by
  induction ipcRuns generalizing tick with
  | zero => rfl
  | succ ipcRuns ih =>
      rw [pongLog, List.count_cons_self, List.count_cons_of_ne (by simp), List.count_cons_of_ne (by simp), ih]

theorem recorded_pongLog (ipcRuns tick : ℕ) : recorded (pongLog ipcRuns tick) = List.range' tick ipcRuns := by
  induction ipcRuns generalizing tick with
  | zero => rfl
  | succ ipcRuns ih =>
      rw [List.range'_succ, ← ih (tick + 1)]
      rfl

theorem recorded_served (ipcRuns : ℕ) : recorded (servedLog ipcRuns ++ [.sent .rEp]) = List.range ipcRuns := by
  rw [List.range_eq_range', ← recorded_pongLog, servedLog, recorded, List.filterMap_append, List.filterMap_append]
  exact (List.append_nil _).trans (List.append_nil _)

variable {ipcRuns : ℕ} {log : List FuncEvent}

/-- The sender's log before and after the plain send. -/
theorem count_sender (h : log <+: senderLog ipcRuns ++ [.sent .sEp]) :
    (.sent .synEp ∈ log → log.count (.called .synEp) = ipcRuns ∧ log.count (.sent .synEp) = 1) ∧
      (.sent .synEp ∉ log → log.count (.called .synEp) ≤ ipcRuns ∧ log.count (.sent .synEp) = 0) := by
  obtain ⟨hcalled, -⟩ := count_pingLog ipcRuns
  have hsent := not_sent_pingLog ipcRuns .synEp
  have hnone := List.count_eq_zero.mpr hsent
  refine ⟨?_, fun hnot => ⟨?_, List.count_eq_zero.mpr hnot⟩⟩
  · intro hmem
    rcases List.prefix_concat_iff.mp h with rfl | h
    · simp [senderLog, hcalled, hnone]
    rcases List.prefix_concat_iff.mp h with rfl | h
    · simp [hcalled, hnone]
    · exact absurd (h.subset hmem) hsent
  · have hle := h.sublist.count_le (.called .synEp)
    simpa [senderLog, hcalled] using hle

/-- The receiver has taken the plain send when it has taken more messages than there are calls. -/
theorem served_iff (h : log <+: servedLog ipcRuns ++ [.sent .rEp]) :
    servedLog ipcRuns <+: log ↔ ipcRuns < log.count (.received .synEp .sender) := by
  have hreceived := count_pongLog ipcRuns 0
  constructor
  · intro hserved
    have hle := hserved.sublist.count_le (.received .synEp .sender)
    rw [servedLog, List.count_append, hreceived] at hle
    exact hle
  · intro hlt
    rcases List.prefix_concat_iff.mp h with rfl | h
    · exact List.prefix_append _ _
    rcases List.prefix_concat_iff.mp h with rfl | h
    · exact List.prefix_refl _
    · have hle := h.sublist.count_le (.received .synEp .sender)
      rw [hreceived] at hle
      omega

end Logs

/-- The manager has both completion messages. -/
structure ManagerTold (log : List FuncEvent) : Prop where
  receiver : .received .rEp .receiver ∈ log
  sender : .received .sEp .sender ∈ log

theorem funcEnd_told (ipcRuns : ℕ) : ManagerTold (funcEnd ipcRuns .manager).log :=
  ⟨List.mem_cons_self, List.mem_cons_of_mem _ List.mem_cons_self⟩

section Runs

variable {ipcRuns : ℕ} {s : FuncParty → FuncThread}

theorem messagesMatch_func (hs : funcThreads.Runs (funcStart ipcRuns) s) (ep : FuncEp) :
    MessagesMatch funcSnd funcRcv ep s := by
  apply messagesMatch_run (funcStart_confined ipcRuns) hs
  cases ep <;> rfl

/-- A message that the manager has was sent. -/
theorem sent_of_received (hs : funcThreads.Runs (funcStart ipcRuns) s) (ep : FuncEp)
    (hmem : .received ep (funcSnd ep) ∈ (s (funcRcv ep)).log) (hcalled : .called ep ∉ (s (funcSnd ep)).log) :
    .sent ep ∈ (s (funcSnd ep)).log := by
  have hmatch := messagesMatch_func hs ep
  have hpos := List.count_pos_iff.mpr hmem
  rw [MessagesMatch, List.count_eq_zero.mpr hcalled] at hmatch
  apply List.count_pos_iff.mp
  omega

theorem func_prefix (hs : funcThreads.Runs (funcStart ipcRuns) s) :
    (s .sender).log <+: senderLog ipcRuns ++ [.sent .sEp] ∧
      (s .receiver).log <+: servedLog ipcRuns ++ [.sent .rEp] := by
  obtain ⟨-, -, hlogs⟩ := settled_run (funcStart_confined ipcRuns) (func_complete ipcRuns)
    (funcEnd_resting ipcRuns) hs
  exact ⟨hlogs .sender, hlogs .receiver⟩

/-- When the manager has both messages, sender and receiver have nothing left to do. -/
theorem logs_of_told (hs : funcThreads.Runs (funcStart ipcRuns) s) (h : ManagerTold (s .manager).log) :
    (s .sender).log = senderLog ipcRuns ++ [.sent .sEp] ∧
      (s .receiver).log = servedLog ipcRuns ++ [.sent .rEp] := by
  obtain ⟨hsender, hreceiver⟩ := func_prefix hs
  constructor
  · apply eq_of_prefix_concat hsender
    · apply sent_of_received hs .sEp h.sender
      intro hcalled
      have hmem := hsender.subset hcalled
      simp only [senderLog, List.mem_append, List.mem_singleton, reduceCtorEq, or_false] at hmem
      rcases mem_pingLog hmem with hmem | hmem
      · cases hmem
      · cases hmem
    · simp [senderLog, not_sent_pingLog]
  · apply eq_of_prefix_concat hreceiver
    · apply sent_of_received hs .rEp h.receiver
      intro hcalled
      have hmem := hreceiver.subset hcalled
      simp only [servedLog, List.mem_append, List.mem_singleton, reduceCtorEq, or_false] at hmem
      rcases mem_pongLog hmem with hmem | ⟨_, hmem⟩ | hmem
      · cases hmem
      · cases hmem
      · cases hmem
    · simp [servedLog, not_sent_pongLog]

/-- The plain send has happened exactly when the last reply-receive has taken it. -/
theorem sent_iff_served (hs : funcThreads.Runs (funcStart ipcRuns) s) :
    .sent .synEp ∈ (s .sender).log ↔ servedLog ipcRuns <+: (s .receiver).log := by
  obtain ⟨hsender, hreceiver⟩ := func_prefix hs
  obtain ⟨hafter, hbefore⟩ := count_sender hsender
  have hmatch : (s .sender).log.count (.called .synEp) + (s .sender).log.count (.sent .synEp) =
      (s .receiver).log.count (.received .synEp .sender) := messagesMatch_func hs .synEp
  rw [served_iff hreceiver, ← hmatch]
  by_cases hsent : .sent .synEp ∈ (s .sender).log
  · obtain ⟨hcalled, hone⟩ := hafter hsent
    exact ⟨fun _ => by omega, fun _ => hsent⟩
  · obtain ⟨hcalled, hzero⟩ := hbefore hsent
    exact ⟨fun h => absurd h hsent, fun hlt => absurd hlt (by omega)⟩

end Runs

/-- **The functional test completes.** In every state that the three threads can reach, some thread can go on
unless the manager has both completion messages, and no run goes on for ever; every call but the one in
progress has been answered, once, by a reply of the receiver; the plain send has happened exactly when the
last reply-receive has taken it; and the record word has got the ticks in order. When the manager has both
messages, all calls have been answered and all ticks recorded. -/
theorem funcTest_completes (ipcRuns : ℕ) (s : FuncParty → FuncThread)
    (hs : funcThreads.Runs (funcStart ipcRuns) s) :
    (¬ManagerTold (s .manager).log → ∃ s', funcThreads.Step s s') ∧
      (∀ run : ℕ → FuncParty → FuncThread, run 0 = s → ∃ k, ¬funcThreads.Step (run k) (run (k + 1))) ∧
      (s .sender).log.countP IpcEvent.isCall = (s .sender).log.countP IpcEvent.isAnswer +
        (if (s .sender).waitingFor.isSome then 1 else 0) ∧
      (s .receiver).log.count (.replied .sender) = (s .sender).log.count (.answered .receiver) ∧
      .stray ∉ (s .receiver).log ∧
      (.sent .synEp ∈ (s .sender).log ↔ servedLog ipcRuns <+: (s .receiver).log) ∧
      recorded (s .receiver).log <+: List.range ipcRuns ∧
      (ManagerTold (s .manager).log →
        (s .sender).log.count (.called .synEp) = ipcRuns ∧
        (s .sender).log.count (.answered .receiver) = ipcRuns ∧
        recorded (s .receiver).log = List.range ipcRuns) := by
  obtain ⟨-, hstep, -⟩ := settled_run (funcStart_confined ipcRuns) (func_complete ipcRuns)
    (funcEnd_resting ipcRuns) hs
  obtain ⟨hsender, hreceiver⟩ := func_prefix hs
  refine ⟨?_, ?_, callsAnswered_run hs .sender rfl, ?_, ?_, sent_iff_served hs, ?_, ?_⟩
  · intro hnot
    apply hstep
    rintro rfl
    exact hnot (funcEnd_told ipcRuns)
  · rintro run rfl
    exact settled_run_finite (funcStart_confined ipcRuns) (func_complete ipcRuns) (funcEnd_resting ipcRuns) run hs
  · exact repliesMatch_run hs (fun t r => by cases t <;> cases r <;> rfl) .receiver .sender
  · intro hstray
    have hmem := hreceiver.subset hstray
    simp only [servedLog, List.mem_append, List.mem_singleton, reduceCtorEq, or_false] at hmem
    rcases mem_pongLog hmem with hmem | ⟨_, hmem⟩ | hmem
    · cases hmem
    · cases hmem
    · cases hmem
  · rw [← recorded_served]
    exact hreceiver.filterMap _
  · intro h
    obtain ⟨hlog, hlog'⟩ := logs_of_told hs h
    obtain ⟨hcalled, hanswered⟩ := count_pingLog ipcRuns
    rw [hlog, hlog', recorded_served]
    refine ⟨?_, ?_, rfl⟩
    · simp [senderLog, hcalled]
    · simp [senderLog, hanswered]

/-- The whole test with two calls. -/
theorem funcTest_completes_two :
    recorded (funcEnd 2 .receiver).log = [0, 1] ∧ (funcEnd 2 .sender).log.count (.answered .receiver) = 2 := by
  obtain ⟨-, -, -, -, -, -, -, hdone⟩ := funcTest_completes 2 (funcEnd 2) (func_complete 2)
  obtain ⟨-, hanswered, hrecorded⟩ := hdone (funcEnd_told 2)
  exact ⟨hrecorded, hanswered⟩

end ChannelBench
