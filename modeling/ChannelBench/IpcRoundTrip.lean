import ChannelBench.CEndpoint
import ChannelBench.CSequence
import Mathlib.Algebra.BigOperators.Group.List.Basic

/-! The round-trip benchmark of `ipc_test.c`. The client makes `IPC_WARMUPS` calls and one plain send in
every run, the server one receive and `IPC_WARMUPS` reply-receives, so message `k` of the client meets
receive `k` of the server, and a reply part follows exactly the receives that took a call. -/

namespace ChannelBench

open CSem

/-- The threads of the benchmark. -/
inductive IpcParty where
  | client
  | server
  | manager
  deriving DecidableEq

/-- The endpoints: `syn_ep`, between client and server, and `reply_ep`, on which the manager waits. -/
inductive IpcEp where
  | ep
  | resultEp
  deriving DecidableEq

/-- `ipc_rt_call_func`; the action `i` is the assignment to `rt_v->call_rt_time[i]`. -/
def ipcRtCallFunc {E : Type} (runs warmups : ℕ) (ep resultEp : E) : List (IpcOp E ℕ) :=
  (List.range runs).flatMap (fun i => List.replicate warmups (.call ep) ++ [.send ep, .act i]) ++
    [.send resultEp]

/-- `ipc_rt_reply_wait_func`. -/
def ipcRtReplyWaitFunc {E : Type} (runs warmups : ℕ) (ep : E) : List (IpcOp E ℕ) :=
  (List.range runs).flatMap fun _ => .recv ep :: List.replicate warmups (.replyRecv ep)

/-- What `launch_bench_flush` does once the threads run. -/
def launchBenchFlush {E : Type} (replyEp : E) : List (IpcOp E ℕ) := [.recv replyEp]

abbrev RtThread := IpcThread IpcParty IpcEp ℕ

abbrev rtThreads : Interactions IpcParty RtThread := ipcThreads IpcParty IpcEp ℕ

/-- The states of the three threads. -/
def parties (c s m : RtThread) : IpcParty → RtThread
  | .client => c
  | .server => s
  | .manager => m

/-- The threads at the start of the benchmark. -/
def rtStart (runs warmups : ℕ) : IpcParty → RtThread :=
  parties (.start (ipcRtCallFunc runs warmups .ep .resultEp))
    (.start (ipcRtReplyWaitFunc runs warmups .ep)) (.start (launchBenchFlush .resultEp))

/-! ### A complete run -/

section Steps

variable {c s m l : RtThread}

@[simp] theorem update_client : Function.update (parties c s m) .client l = parties l s m := by
  funext t
  cases t <;> rfl

@[simp] theorem update_server : Function.update (parties c s m) .server l = parties c l m := by
  funext t
  cases t <;> rfl

@[simp] theorem update_manager : Function.update (parties c s m) .manager l = parties c s l := by
  funext t
  cases t <;> rfl

variable {cs os : List (IpcOp IpcEp ℕ)} {lc ls : List (IpcEvent IpcParty IpcEp ℕ)}

/-- A call meets a receive. -/
theorem step_call : rtThreads.Step
    (parties ⟨.call .ep :: cs, none, none, lc⟩ ⟨.recv .ep :: os, none, none, ls⟩ m)
    (parties ⟨cs, some .server, none, lc ++ [.called .ep]⟩
      ⟨os, none, some .client, ls ++ [.received .ep .client]⟩ m) := by
  have hstep := Interactions.Step.pair (I := rtThreads) (t := .client) (r := .server) (by decide)
    (s := parties ⟨.call .ep :: cs, none, none, lc⟩ ⟨.recv .ep :: os, none, none, ls⟩ m)
    (.call rfl rfl rfl rfl)
  rw [update_client, update_server] at hstep
  exact hstep

/-- The server replies. -/
theorem step_reply : rtThreads.Step
    (parties ⟨cs, some .server, none, lc⟩ ⟨.replyRecv .ep :: os, none, some .client, ls⟩ m)
    (parties ⟨cs, none, none, lc ++ [.answered .server]⟩
      ⟨.recv .ep :: os, none, none, ls ++ [.replied .client]⟩ m) := by
  have hstep := Interactions.Step.pair (I := rtThreads) (t := .server) (r := .client) (by decide)
    (s := parties ⟨cs, some .server, none, lc⟩ ⟨.replyRecv .ep :: os, none, some .client, ls⟩ m)
    (.reply rfl rfl rfl rfl)
  rw [update_server, update_client] at hstep
  exact hstep

/-- A plain send meets a receive. -/
theorem step_send : rtThreads.Step
    (parties ⟨.send .ep :: cs, none, none, lc⟩ ⟨.recv .ep :: os, none, none, ls⟩ m)
    (parties ⟨cs, none, none, lc ++ [.sent .ep]⟩
      ⟨os, none, none, ls ++ [.received .ep .client]⟩ m) := by
  have hstep := Interactions.Step.pair (I := rtThreads) (t := .client) (r := .server) (by decide)
    (s := parties ⟨.send .ep :: cs, none, none, lc⟩ ⟨.recv .ep :: os, none, none, ls⟩ m)
    (.send rfl rfl rfl rfl)
  rw [update_client, update_server] at hstep
  exact hstep

/-- The client records the time of a run. -/
theorem step_act {i : ℕ} : rtThreads.Step (parties ⟨.act i :: cs, none, none, lc⟩ s m)
    (parties ⟨cs, none, none, lc ++ [.acted i]⟩ s m) := by
  have hstep := Interactions.Step.solo (I := rtThreads) (t := .client)
    (s := parties ⟨.act i :: cs, none, none, lc⟩ s m) (.act rfl rfl)
  rw [update_client] at hstep
  exact hstep

/-- The client tells the manager. -/
theorem step_result {lm : List (IpcEvent IpcParty IpcEp ℕ)} : rtThreads.Step
    (parties ⟨.send .resultEp :: cs, none, none, lc⟩ s ⟨.recv .resultEp :: os, none, none, lm⟩)
    (parties ⟨cs, none, none, lc ++ [.sent .resultEp]⟩ s
      ⟨os, none, none, lm ++ [.received .resultEp .client]⟩) := by
  have hstep := Interactions.Step.pair (I := rtThreads) (t := .client) (r := .manager) (by decide)
    (s := parties ⟨.send .resultEp :: cs, none, none, lc⟩ s ⟨.recv .resultEp :: os, none, none, lm⟩)
    (.send rfl rfl rfl rfl)
  rw [update_client, update_manager] at hstep
  exact hstep

/-- The log of the client for some calls. -/
def callsLog (warmups : ℕ) : List (IpcEvent IpcParty IpcEp ℕ) :=
  (List.replicate warmups [.called .ep, .answered .server]).flatten

/-- The log of the server for some calls. -/
def repliesLog (warmups : ℕ) : List (IpcEvent IpcParty IpcEp ℕ) :=
  (List.replicate warmups [.received .ep .client, .replied .client]).flatten

/-- The calls of a run: before each of them the server is at a receive. -/
theorem runs_calls (warmups : ℕ) : rtThreads.Runs
    (parties ⟨List.replicate warmups (.call .ep) ++ cs, none, none, lc⟩
      ⟨.recv .ep :: (List.replicate warmups (.replyRecv .ep) ++ os), none, none, ls⟩ m)
    (parties ⟨cs, none, none, lc ++ callsLog warmups⟩
      ⟨.recv .ep :: os, none, none, ls ++ repliesLog warmups⟩ m) := by
  induction warmups generalizing lc ls with
  | zero =>
      simp only [callsLog, repliesLog, List.replicate_zero, List.flatten_nil, List.append_nil,
        List.nil_append]
      exact .refl
  | succ warmups ih =>
      have hcalls : lc ++ callsLog (warmups + 1) =
          lc ++ [.called .ep] ++ [.answered .server] ++ callsLog warmups := by
        simp [callsLog, List.replicate_succ]
      have hreplies : ls ++ repliesLog (warmups + 1) =
          ls ++ [.received .ep .client] ++ [.replied .client] ++ repliesLog warmups := by
        simp [repliesLog, List.replicate_succ]
      rw [hcalls, hreplies, List.replicate_succ, List.replicate_succ]
      exact .head step_call (.head step_reply ih)

/-- The log of the client for run `i`. -/
def clientRunLog (warmups i : ℕ) : List (IpcEvent IpcParty IpcEp ℕ) :=
  callsLog warmups ++ [.sent .ep, .acted i]

/-- The log of the server for a run. -/
def serverRunLog (warmups : ℕ) : List (IpcEvent IpcParty IpcEp ℕ) :=
  repliesLog warmups ++ [.received .ep .client]

/-- The runs with the given indices. -/
theorem runs_runs (warmups : ℕ) (indices : List ℕ) : rtThreads.Runs
    (parties ⟨indices.flatMap (fun i => List.replicate warmups (.call .ep) ++ [.send .ep, .act i]) ++ cs,
        none, none, lc⟩
      ⟨indices.flatMap (fun _ => .recv .ep :: List.replicate warmups (.replyRecv .ep)), none, none, ls⟩ m)
    (parties ⟨cs, none, none, lc ++ indices.flatMap (clientRunLog warmups)⟩
      ⟨[], none, none, ls ++ indices.flatMap fun _ => serverRunLog warmups⟩ m) := by
  induction indices generalizing lc ls with
  | nil =>
      simp only [List.flatMap_nil, List.append_nil, List.nil_append]
      exact .refl
  | cons i indices ih =>
      have hclient : lc ++ (i :: indices).flatMap (clientRunLog warmups) =
          lc ++ callsLog warmups ++ [.sent .ep] ++ [.acted i] ++ indices.flatMap (clientRunLog warmups) := by
        simp [clientRunLog]
      have hserver : ls ++ (i :: indices).flatMap (fun _ => serverRunLog warmups) =
          ls ++ repliesLog warmups ++ [.received .ep .client] ++
            indices.flatMap fun _ => serverRunLog warmups := by
        simp [serverRunLog]
      rw [hclient, hserver, List.flatMap_cons, List.flatMap_cons, List.append_assoc, List.append_assoc]
      exact (runs_calls warmups).trans (.head step_send (.head step_act ih))

end Steps

/-- The threads at the end of the benchmark. -/
def rtEnd (runs warmups : ℕ) : IpcParty → RtThread :=
  parties ⟨[], none, none, (List.range runs).flatMap (clientRunLog warmups) ++ [.sent .resultEp]⟩
    ⟨[], none, none, (List.range runs).flatMap fun _ => serverRunLog warmups⟩
    ⟨[], none, none, [.received .resultEp .client]⟩

theorem rtEnd_finished (runs warmups : ℕ) (t : IpcParty) : (rtEnd runs warmups t).Finished := by
  cases t with
  | client => exact ⟨rfl, rfl⟩
  | server => exact ⟨rfl, rfl⟩
  | manager => exact ⟨rfl, rfl⟩

theorem rt_complete (runs warmups : ℕ) : rtThreads.Runs (rtStart runs warmups) (rtEnd runs warmups) :=
  (runs_runs warmups (List.range runs)).trans (.single step_result)

/-! ### All runs -/

/-- The thread that sends on an endpoint. -/
def rtSender : IpcEp → IpcParty
  | .ep | .resultEp => .client

/-- The thread that receives on an endpoint. -/
def rtReceiver : IpcEp → IpcParty
  | .ep => .server
  | .resultEp => .manager

theorem rtStart_pointToPoint (runs warmups : ℕ) :
    PointToPoint rtSender rtReceiver (rtStart runs warmups) := by
  intro t op hop u hu
  cases t with
  | client =>
      rcases List.mem_append.mp hop with hop | hop
      · obtain ⟨i, -, hop⟩ := List.mem_flatMap.mp hop
        rcases List.mem_append.mp hop with hop | hop
        · obtain rfl := List.eq_of_mem_replicate hop
          exact (Option.some.inj hu).symm
        · rcases List.mem_pair.mp hop with rfl | rfl
          · exact (Option.some.inj hu).symm
          · cases hu
      · obtain rfl := List.mem_singleton.mp hop
        exact (Option.some.inj hu).symm
  | server =>
      obtain ⟨i, -, hop⟩ := List.mem_flatMap.mp hop
      rcases List.mem_cons.mp hop with rfl | hop
      · exact (Option.some.inj hu).symm
      · obtain rfl := List.eq_of_mem_replicate hop
        exact (Option.some.inj hu).symm
  | manager =>
      obtain rfl := List.mem_singleton.mp hop
      exact (Option.some.inj hu).symm

/-- A call is made in every warm-up of every run. -/
theorem count_called (runs warmups : ℕ) :
    (rtEnd runs warmups .client).log.count (.called .ep) = runs * warmups := by
  have hrun : ∀ i ∈ List.range runs, (clientRunLog warmups i).count (.called .ep) = warmups := by
    intro i _
    simp [clientRunLog, callsLog, List.count_flatten, List.map_replicate, List.sum_replicate]
  calc (rtEnd runs warmups .client).log.count (.called .ep)
      = ((List.range runs).flatMap (clientRunLog warmups)).count (.called .ep) + 0 := List.count_append
    _ = runs * warmups := by rw [Nat.add_zero, count_pieces _ hrun, List.length_range]

/-- A plain send ends every run. -/
theorem count_sent (runs warmups : ℕ) : (rtEnd runs warmups .client).log.count (.sent .ep) = runs := by
  have hrun : ∀ i ∈ List.range runs, (clientRunLog warmups i).count (.sent .ep) = 1 := by
    intro i _
    simp [clientRunLog, callsLog, List.count_flatten, List.map_replicate, List.sum_replicate]
  calc (rtEnd runs warmups .client).log.count (.sent .ep)
      = ((List.range runs).flatMap (clientRunLog warmups)).count (.sent .ep) + 0 := List.count_append
    _ = runs := by rw [Nat.add_zero, count_pieces _ hrun, List.length_range, Nat.mul_one]

/-- The server receives every message of every run. -/
theorem count_received (runs warmups : ℕ) :
    (rtEnd runs warmups .server).log.count (.received .ep .client) = runs * (warmups + 1) := by
  have hrun : ∀ i ∈ List.range runs,
      (serverRunLog warmups).count (.received .ep .client) = warmups + 1 := by
    intro i _
    simp [serverRunLog, repliesLog, List.count_flatten, List.map_replicate, List.sum_replicate]
  calc (rtEnd runs warmups .server).log.count (.received .ep .client)
      = ((List.range runs).flatMap fun _ => serverRunLog warmups).count (.received .ep .client) := rfl
    _ = runs * (warmups + 1) := by rw [count_pieces _ hrun, List.length_range]

/-- The events of the server. -/
theorem mem_serverLog {runs warmups : ℕ} {e : IpcEvent IpcParty IpcEp ℕ}
    (h : e ∈ (rtEnd runs warmups .server).log) :
    e = .received .ep .client ∨ e = .replied .client := by
  obtain ⟨i, -, he⟩ := List.mem_flatMap.mp h
  simp only [serverRunLog, repliesLog, List.mem_append, List.mem_flatten, List.mem_replicate,
    List.mem_singleton] at he
  rcases he with hreply | hlast
  · obtain ⟨l, ⟨-, rfl⟩, he⟩ := hreply
    exact List.mem_pair.mp he
  · exact .inl hlast

/-- The answers of the client come from the server. -/
theorem mem_clientLog_answer {runs warmups : ℕ} {e : IpcEvent IpcParty IpcEp ℕ}
    (h : e ∈ (rtEnd runs warmups .client).log) (hanswer : e.isAnswer = true) :
    e = .answered .server := by
  rcases List.mem_append.mp h with he | he
  · obtain ⟨i, -, he⟩ := List.mem_flatMap.mp he
    simp only [clientRunLog, callsLog, List.mem_append, List.mem_flatten, List.mem_replicate] at he
    rcases he with hcall | hlast
    · obtain ⟨l, ⟨-, rfl⟩, he⟩ := hcall
      rcases List.mem_pair.mp he with rfl | rfl
      · cases hanswer
      · rfl
    · rcases List.mem_pair.mp hlast with rfl | rfl
      · cases hanswer
      · cases hanswer
  · obtain rfl := List.mem_singleton.mp he
    cases hanswer

/-- **Client and server stay in lock step.** In every state that the three threads can reach, some
thread can go on unless client and server have finished; the calls of the client have been answered once
each, by the replies of the server, but for a call in progress; the reply part of `ReplyRecv` was never
executed without a caller; and when both have finished, all messages have been passed. -/
theorem ipcRoundTrip_lockstep (runs warmups : ℕ) (s : IpcParty → RtThread)
    (hs : rtThreads.Runs (rtStart runs warmups) s) :
    (¬(s .client).Finished ∨ ¬(s .server).Finished → ∃ s', rtThreads.Step s s') ∧
      (s .client).log.countP IpcEvent.isCall = (s .client).log.countP IpcEvent.isAnswer +
        (if (s .client).waitingFor.isSome then 1 else 0) ∧
      (s .client).log.countP IpcEvent.isAnswer = (s .server).log.count (.replied .client) ∧
      .stray ∉ (s .server).log ∧
      ((s .client).Finished → (s .server).Finished →
        (s .client).log.count (.called .ep) = runs * warmups ∧
        (s .client).log.count (.sent .ep) = runs ∧
        (s .server).log.count (.received .ep .client) = runs * (warmups + 1)) := by
  obtain ⟨hstep, hlogs, hend⟩ := complete_run (rtStart_pointToPoint runs warmups)
    (rt_complete runs warmups) (rtEnd_finished runs warmups) hs
  refine ⟨?_, ?_, ?_, ?_, ?_⟩
  · intro hunfinished
    rcases hunfinished with hclient | hserver
    · exact hstep .client hclient
    · exact hstep .server hserver
  · exact callsAnswered_run hs .client rfl
  · rw [repliesMatch_run hs (fun t r => by cases t <;> cases r <;> rfl) .server .client, List.count]
    apply List.countP_congr
    intro e he
    constructor
    · intro hanswer
      exact beq_iff_eq.mpr (mem_clientLog_answer ((hlogs .client).subset he) hanswer)
    · intro hanswer
      rw [beq_iff_eq.mp hanswer]
      rfl
  · intro hstray
    rcases mem_serverLog ((hlogs .server).subset hstray) with h | h
    · cases h
    · cases h
  · intro hclient hserver
    rw [hend .client hclient, hend .server hserver]
    exact ⟨count_called runs warmups, count_sent runs warmups, count_received runs warmups⟩

/-- The whole benchmark with two runs of three calls. -/
theorem ipcRoundTrip_lockstep_two :
    (rtEnd 2 3 .client).log.count (.called .ep) = 2 * 3 ∧
      (rtEnd 2 3 .server).log.count (.received .ep .client) = 2 * (3 + 1) := by
  obtain ⟨-, -, -, -, hcounts⟩ := ipcRoundTrip_lockstep 2 3 (rtEnd 2 3) (rt_complete 2 3)
  obtain ⟨hcalls, -, hreceived⟩ := hcounts (rtEnd_finished 2 3 .client) (rtEnd_finished 2 3 .server)
  exact ⟨hcalls, hreceived⟩

end ChannelBench
