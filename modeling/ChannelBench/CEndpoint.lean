import ChannelBench.CParties
import Mathlib.Algebra.Order.BigOperators.Group.Finset
import Mathlib.Data.List.Basic

/-! Threads that talk over the endpoints of seL4. `Send` and `Call` meet a thread that receives; a `Call`
then waits for the reply, and `ReplyRecv` replies to the caller of the last received message before it
receives. A thread runs a list of operations and keeps a log of what happened to it.

Where every endpoint has one thread that sends and one that receives, no thread ever has a choice, so a
single complete run of the threads settles what all their runs do. -/

namespace CSem

/-- The operations of a thread: system calls on endpoints, and actions of its own. -/
inductive IpcOp (E A : Type) where
  | send (ep : E)
  | call (ep : E)
  | recv (ep : E)
  | replyRecv (ep : E)
  | act (a : A)
  deriving DecidableEq

/-- What happened to a thread. `stray` is the reply part of a `ReplyRecv` without a caller. -/
inductive IpcEvent (T E A : Type) where
  | sent (ep : E)
  | called (ep : E)
  | received (ep : E) (sender : T)
  | replied (caller : T)
  | answered (server : T)
  | stray
  | acted (a : A)
  deriving DecidableEq

/-- The state of a thread: the operations it has left, the thread whose reply it waits for, and the
thread that waits for its reply. -/
structure IpcThread (T E A : Type) where
  todo : List (IpcOp E A)
  waitingFor : Option T
  caller : Option T
  log : List (IpcEvent T E A)

namespace IpcThread

variable {T E A : Type}

/-- A thread before its first operation. -/
def start (program : List (IpcOp E A)) : IpcThread T E A := ⟨program, none, none, []⟩

structure Finished (l : IpcThread T E A) : Prop where
  todo_eq : l.todo = []
  waitingFor_eq : l.waitingFor = none

theorem Finished.no_op {l : IpcThread T E A} (h : l.Finished) {op : IpcOp E A} {ops : List (IpcOp E A)} :
    l.todo ≠ op :: ops := by
  rw [h.todo_eq]
  exact (List.cons_ne_nil _ _).symm

/-- Steps of one thread. -/
inductive Alone (l : IpcThread T E A) : IpcThread T E A → Prop
  | act {a : A} {ops : List (IpcOp E A)} (hready : l.waitingFor = none) (htodo : l.todo = .act a :: ops) :
      Alone l { l with todo := ops, log := l.log ++ [.acted a] }
  | stray {ep : E} {ops : List (IpcOp E A)} (hready : l.waitingFor = none)
      (htodo : l.todo = .replyRecv ep :: ops) (hcaller : l.caller = none) :
      Alone l { l with todo := .recv ep :: ops, log := l.log ++ [.stray] }

/-- Steps of two threads: thread `t` passes a message or a reply to thread `r`. -/
inductive Meet (t r : T) (l m : IpcThread T E A) : IpcThread T E A → IpcThread T E A → Prop
  | send {ep : E} {ops ops' : List (IpcOp E A)} (hready : l.waitingFor = none)
      (htodo : l.todo = .send ep :: ops) (hready' : m.waitingFor = none)
      (htodo' : m.todo = .recv ep :: ops') :
      Meet t r l m { l with todo := ops, log := l.log ++ [.sent ep] }
        { m with todo := ops', caller := none, log := m.log ++ [.received ep t] }
  | call {ep : E} {ops ops' : List (IpcOp E A)} (hready : l.waitingFor = none)
      (htodo : l.todo = .call ep :: ops) (hready' : m.waitingFor = none)
      (htodo' : m.todo = .recv ep :: ops') :
      Meet t r l m { l with todo := ops, waitingFor := some r, log := l.log ++ [.called ep] }
        { m with todo := ops', caller := some t, log := m.log ++ [.received ep t] }
  | reply {ep : E} {ops : List (IpcOp E A)} (hready : l.waitingFor = none)
      (htodo : l.todo = .replyRecv ep :: ops) (hcaller : l.caller = some r)
      (hwaiting : m.waitingFor = some t) :
      Meet t r l m { l with todo := .recv ep :: ops, caller := none, log := l.log ++ [.replied r] }
        { m with waitingFor := none, log := m.log ++ [.answered t] }

end IpcThread

/-- The threads of a system. A thread that finds no partner is blocked at its operation until one comes. -/
def ipcThreads (T E A : Type) : Interactions T (IpcThread T E A) where
  solo := fun _ => IpcThread.Alone
  pair := IpcThread.Meet

/-! ### Endpoints with one sender and one receiver -/

section PointToPoint

variable {T E A : Type} {snd rcv : E → T} {t r : T} {l l' m m' : IpcThread T E A}

/-- The thread that may execute an operation. -/
def IpcOp.user (snd rcv : E → T) : IpcOp E A → Option T
  | .send ep | .call ep => some (snd ep)
  | .recv ep | .replyRecv ep => some (rcv ep)
  | .act _ => none

/-- A thread sends on its own endpoints and receives on its own endpoints. -/
def IpcThread.Keeps (snd rcv : E → T) (t : T) (l : IpcThread T E A) : Prop :=
  ∀ op ∈ l.todo, ∀ u ∈ op.user snd rcv, u = t

/-- The operations of a thread that is alone in sending on its endpoints. It may receive on an endpoint of
its own, or wait on one on which nobody else sends. -/
def IpcOp.Allowed (snd rcv : E → T) (t : T) : IpcOp E A → Prop
  | .send ep | .call ep => snd ep = t
  | .recv ep | .replyRecv ep => rcv ep = t ∨ snd ep = t
  | .act _ => True

/-- All operations that a thread has left are allowed. -/
def IpcThread.Confined (snd rcv : E → T) (t : T) (l : IpcThread T E A) : Prop :=
  ∀ op ∈ l.todo, op.Allowed snd rcv t

theorem IpcThread.Keeps.confined (h : l.Keeps snd rcv t) : l.Confined snd rcv t := by
  intro op hop
  have huser := h op hop
  cases op with
  | send ep => exact huser _ rfl
  | call ep => exact huser _ rfl
  | recv ep => exact .inl (huser _ rfl)
  | replyRecv ep => exact .inl (huser _ rfl)
  | act a => exact trivial

theorem IpcThread.Alone.confined (h : Alone l l') (hl : l.Confined snd rcv t) : l'.Confined snd rcv t := by
  cases h with
  | act _ htodo =>
      intro op hop
      exact hl op (htodo ▸ List.mem_cons_of_mem _ hop)
  | @stray ep _ _ htodo =>
      intro op hop
      rcases List.mem_cons.mp hop with rfl | hop
      · exact hl (.replyRecv ep) (htodo ▸ List.mem_cons_self)
      · exact hl op (htodo ▸ List.mem_cons_of_mem _ hop)

theorem IpcThread.Meet.confined (h : Meet t r l m l' m') :
    (l.Confined snd rcv t → l'.Confined snd rcv t) ∧ (m.Confined snd rcv r → m'.Confined snd rcv r) := by
  cases h with
  | send _ htodo _ htodo' =>
      exact ⟨fun hl op hop => hl op (htodo ▸ List.mem_cons_of_mem _ hop),
        fun hm op hop => hm op (htodo' ▸ List.mem_cons_of_mem _ hop)⟩
  | call _ htodo _ htodo' =>
      exact ⟨fun hl op hop => hl op (htodo ▸ List.mem_cons_of_mem _ hop),
        fun hm op hop => hm op (htodo' ▸ List.mem_cons_of_mem _ hop)⟩
  | @reply ep _ _ htodo =>
      refine ⟨?_, fun hm => hm⟩
      intro hl op hop
      rcases List.mem_cons.mp hop with rfl | hop
      · exact hl (.replyRecv ep) (htodo ▸ List.mem_cons_self)
      · exact hl op (htodo ▸ List.mem_cons_of_mem _ hop)

/-- A message goes from the sender of its endpoint to the receiver. -/
theorem IpcThread.Confined.ends {ep : E} {op : IpcOp E A} {ops ops' : List (IpcOp E A)} (hne : t ≠ r)
    (hop : op = .send ep ∨ op = .call ep) (hl : l.Confined snd rcv t) (htodo : l.todo = op :: ops)
    (hm : m.Confined snd rcv r) (htodo' : m.todo = .recv ep :: ops') : snd ep = t ∧ rcv ep = r := by
  have hsnd : snd ep = t := by
    have hallowed := hl op (htodo ▸ List.mem_cons_self)
    rcases hop with rfl | rfl
    · exact hallowed
    · exact hallowed
  refine ⟨hsnd, ?_⟩
  rcases hm (.recv ep) (htodo' ▸ List.mem_cons_self) with hrcv | hself
  · exact hrcv
  · exact absurd (hsnd.symm.trans hself) hne

/-- The only thread with which a thread can take its next step, if there is one. -/
def IpcThread.partner (snd rcv : E → T) (l : IpcThread T E A) : Option T :=
  match l.waitingFor, l.todo with
  | some server, _ => some server
  | none, .send ep :: _ | none, .call ep :: _ => some (rcv ep)
  | none, .recv ep :: _ => some (snd ep)
  | none, .replyRecv _ :: _ => l.caller
  | none, _ => none

/-- The thread passes something on in its next step with another thread. -/
def IpcThread.passes (l : IpcThread T E A) : Bool :=
  match l.waitingFor, l.todo with
  | none, .send _ :: _ | none, .call _ :: _ | none, .replyRecv _ :: _ => true
  | _, _ => false

theorem IpcThread.Alone.partner_eq (h : Alone l l') : l.partner snd rcv = none := by
  cases h with
  | act hready htodo => rw [partner, hready, htodo]
  | stray hready htodo hcaller =>
      rw [partner, hready, htodo]
      exact hcaller

theorem IpcThread.Meet.partner_eq (h : Meet t r l m l' m') (hne : t ≠ r) (hl : l.Confined snd rcv t)
    (hm : m.Confined snd rcv r) : l.partner snd rcv = some r ∧ m.partner snd rcv = some t := by
  cases h with
  | @send ep _ _ hready htodo hready' htodo' =>
      obtain ⟨ht, hr⟩ := hl.ends hne (.inl rfl) htodo hm htodo'
      rw [partner, partner, hready, htodo, hready', htodo']
      exact ⟨congrArg some hr, congrArg some ht⟩
  | @call ep _ _ hready htodo hready' htodo' =>
      obtain ⟨ht, hr⟩ := hl.ends hne (.inr rfl) htodo hm htodo'
      rw [partner, partner, hready, htodo, hready', htodo']
      exact ⟨congrArg some hr, congrArg some ht⟩
  | reply hready htodo hcaller hwaiting =>
      rw [partner, partner, hready, htodo, hwaiting]
      exact ⟨hcaller, rfl⟩

theorem IpcThread.Meet.passes_eq (h : Meet t r l m l' m') : l.passes = true ∧ m.passes = false := by
  cases h with
  | send hready htodo hready' htodo' =>
      rw [passes, passes, hready, htodo, hready', htodo']
      exact ⟨rfl, rfl⟩
  | call hready htodo hready' htodo' =>
      rw [passes, passes, hready, htodo, hready', htodo']
      exact ⟨rfl, rfl⟩
  | reply hready htodo _ hwaiting =>
      rw [passes, passes, hready, htodo, hwaiting]
      exact ⟨rfl, rfl⟩

theorem IpcThread.Alone.not_finished (h : Alone l l') : ¬l.Finished := by
  intro hfinished
  cases h with
  | act _ htodo => exact hfinished.no_op htodo
  | stray _ htodo => exact hfinished.no_op htodo

theorem IpcThread.Meet.not_finished (h : Meet t r l m l' m') : ¬l.Finished ∧ ¬m.Finished := by
  constructor
  · intro hfinished
    cases h with
    | send _ htodo => exact hfinished.no_op htodo
    | call _ htodo => exact hfinished.no_op htodo
    | reply _ htodo => exact hfinished.no_op htodo
  · intro hfinished
    cases h with
    | send _ _ _ htodo => exact hfinished.no_op htodo
    | call _ _ _ htodo => exact hfinished.no_op htodo
    | reply _ _ _ hwaiting => cases hwaiting.symm.trans hfinished.waitingFor_eq

/-- A thread has one step of its own at most. -/
theorem IpcThread.Alone.det {l'' : IpcThread T E A} (h : Alone l l') (h' : Alone l l'') : l' = l'' := by
  cases h with
  | act _ htodo =>
      cases h' with
      | act _ htodo' =>
          rw [htodo] at htodo'
          cases htodo'
          rfl
      | stray _ htodo' =>
          rw [htodo] at htodo'
          cases htodo'
  | stray _ htodo =>
      cases h' with
      | act _ htodo' =>
          rw [htodo] at htodo'
          cases htodo'
      | stray _ htodo' =>
          rw [htodo] at htodo'
          cases htodo'
          rfl

/-- Two threads have one step together at most. -/
theorem IpcThread.Meet.det {l'' m'' : IpcThread T E A} (h : Meet t r l m l' m')
    (h' : Meet t r l m l'' m'') : l' = l'' ∧ m' = m'' := by
  cases h with
  | send _ htodo _ hpeer =>
      cases h' with
      | send _ htodo' _ hpeer' =>
          rw [htodo] at htodo'
          rw [hpeer] at hpeer'
          cases htodo'
          cases hpeer'
          exact ⟨rfl, rfl⟩
      | call _ htodo' => cases htodo.symm.trans htodo'
      | reply _ htodo' => cases htodo.symm.trans htodo'
  | call _ htodo _ hpeer =>
      cases h' with
      | send _ htodo' => cases htodo.symm.trans htodo'
      | call _ htodo' _ hpeer' =>
          rw [htodo] at htodo'
          rw [hpeer] at hpeer'
          cases htodo'
          cases hpeer'
          exact ⟨rfl, rfl⟩
      | reply _ htodo' => cases htodo.symm.trans htodo'
  | reply _ htodo =>
      cases h' with
      | send _ htodo' => cases htodo.symm.trans htodo'
      | call _ htodo' => cases htodo.symm.trans htodo'
      | reply _ htodo' =>
          rw [htodo] at htodo'
          cases htodo'
          exact ⟨rfl, rfl⟩

/-- A thread that has finished or is at a receive. -/
def IpcThread.Resting (l : IpcThread T E A) : Prop := l.waitingFor = none ∧ ∀ op ∈ l.todo.head?, ∃ ep, op = .recv ep

theorem IpcThread.Finished.resting (h : l.Finished) : l.Resting := by
  refine ⟨h.waitingFor_eq, ?_⟩
  rw [h.todo_eq]
  intro op hop
  cases hop

variable {s : T → IpcThread T E A}

/-- Every endpoint has one thread that sends and one that receives. -/
def PointToPoint (snd rcv : E → T) (s : T → IpcThread T E A) : Prop := ∀ t, (s t).Keeps snd rcv t

/-- Every thread is alone in sending on its endpoints. -/
def Confined (snd rcv : E → T) (s : T → IpcThread T E A) : Prop := ∀ t, (s t).Confined snd rcv t

theorem PointToPoint.confined (h : PointToPoint snd rcv s) : Confined snd rcv s := fun t => (h t).confined

/-- A thread passes nothing to itself. -/
theorem IpcThread.Meet.ne (h : Meet t r (s t) (s r) l m) : t ≠ r := by
  intro heq
  obtain ⟨hpasses, hquiet⟩ := h.passes_eq
  rw [heq, hquiet] at hpasses
  cases hpasses

end PointToPoint

/-! ### Runs -/

section Runs

variable {T E A : Type} [DecidableEq T] {snd rcv : E → T} {s a f : T → IpcThread T E A}

theorem Confined.step (h : Confined snd rcv s) (hstep : (ipcThreads T E A).Step s a) : Confined snd rcv a := by
  intro t
  exact hstep.rel (fun t l l' => l.Confined snd rcv t → l'.Confined snd rcv t) (fun _ _ h => h)
    (fun _ _ _ h => h.confined) (fun _ _ _ _ _ _ h => h.confined) t (h t)

/-- No thread has a choice. -/
theorem Confined.exclusive (h : Confined snd rcv s) : (ipcThreads T E A).Exclusive s where
  solo_solo := fun _ _ _ hl hl' => IpcThread.Alone.det hl hl'
  solo_pair := by
    intro t r l m n hlm
    obtain ⟨ht, hr⟩ := IpcThread.Meet.partner_eq hlm (IpcThread.Meet.ne hlm) (h t) (h r)
    constructor
    · intro hn
      rw [IpcThread.Alone.partner_eq hn] at ht
      cases ht
    · intro hn
      rw [IpcThread.Alone.partner_eq hn] at hr
      cases hr
  pair_pair := by
    intro t r t' r' l m l' m' hlm hlm'
    obtain ⟨ht, hr⟩ := IpcThread.Meet.partner_eq hlm (IpcThread.Meet.ne hlm) (h t) (h r)
    obtain ⟨ht', hr'⟩ := IpcThread.Meet.partner_eq hlm' (IpcThread.Meet.ne hlm') (h t') (h r')
    obtain ⟨hpasses, hquiet⟩ := IpcThread.Meet.passes_eq hlm
    obtain ⟨hpasses', hquiet'⟩ := IpcThread.Meet.passes_eq hlm'
    by_cases heq : t = t'
    · subst heq
      obtain rfl : r = r' := Option.some.inj (ht.symm.trans ht')
      obtain ⟨hl, hm⟩ := IpcThread.Meet.det hlm hlm'
      exact .inl ⟨rfl, rfl, hl, hm⟩
    · refine .inr ⟨heq, ?_, ?_, ?_⟩
      · intro htr'
        rw [htr', hquiet'] at hpasses
        cases hpasses
      · intro hrt'
        rw [hrt', hpasses'] at hquiet
        cases hquiet
      · intro hrr'
        rw [hrr'] at hr
        exact heq (Option.some.inj (hr.symm.trans hr'))

/-- A finished thread takes no more steps. -/
theorem finished_step (hstep : (ipcThreads T E A).Step s a) {t : T} (h : (s t).Finished) :
    a t = s t :=
  hstep.rel (fun _ l l' => l.Finished → l' = l) (fun _ _ _ => rfl)
    (fun _ _ _ hl hfinished => absurd hfinished (IpcThread.Alone.not_finished hl))
    (fun _ _ _ _ _ _ hlm => ⟨fun hfinished => absurd hfinished (IpcThread.Meet.not_finished hlm).1,
      fun hfinished => absurd hfinished (IpcThread.Meet.not_finished hlm).2⟩) t h

theorem finished_run (hrun : (ipcThreads T E A).Runs s a) {t : T} (h : (s t).Finished) :
    a t = s t := by
  induction hrun with
  | refl => rfl
  | tail _ hstep ih => exact (finished_step hstep (ih ▸ h)).trans ih

/-- When all threads rest, nothing happens any more. -/
theorem not_step_of_resting (h : ∀ t, (s t).Resting) : ¬(ipcThreads T E A).Step s a := by
  have hhead : ∀ t op ops, (s t).todo = op :: ops → ∃ ep, op = .recv ep := fun t op ops htodo =>
    (h t).2 op (by rw [htodo]; rfl)
  intro hstep
  cases hstep with
  | solo hl =>
      cases hl with
      | act _ htodo => cases (hhead _ _ _ htodo).choose_spec
      | stray _ htodo => cases (hhead _ _ _ htodo).choose_spec
  | pair _ hlm =>
      cases hlm with
      | send _ htodo => cases (hhead _ _ _ htodo).choose_spec
      | call _ htodo => cases (hhead _ _ _ htodo).choose_spec
      | reply _ htodo => cases (hhead _ _ _ htodo).choose_spec

/-- Logs only grow. -/
theorem log_prefix (hrun : (ipcThreads T E A).Runs s a) (t : T) : (s t).log <+: (a t).log := by
  apply hrun.rel (fun _ l l' => l.log <+: l'.log) (fun _ _ => List.prefix_refl _)
    (fun _ _ _ _ h h' => h.trans h')
  · intro t l l' hl
    cases hl with
    | act => exact List.prefix_append _ _
    | stray => exact List.prefix_append _ _
  · intro t r l m l' m' hlm
    cases hlm with
    | send => exact ⟨List.prefix_append _ _, List.prefix_append _ _⟩
    | call => exact ⟨List.prefix_append _ _, List.prefix_append _ _⟩
    | reply => exact ⟨List.prefix_append _ _, List.prefix_append _ _⟩

/-- **One run that has come to rest settles all runs.** Whatever the order of the steps, every run can be
continued to the same end, it is not stuck before, and every log is on the way to the same final log. -/
theorem settled_run (hconfined : Confined snd rcv s) (hcomplete : (ipcThreads T E A).Runs s f)
    (hrest : ∀ t, (f t).Resting) (hrun : (ipcThreads T E A).Runs s a) :
    (ipcThreads T E A).Runs a f ∧ (a ≠ f → ∃ b, (ipcThreads T E A).Step a b) ∧ ∀ t, (a t).log <+: (f t).log := by
  have hend : (ipcThreads T E A).Runs a f :=
    Interactions.run_to_end (fun _ _ h hstep => h.step hstep) (fun _ h => h.exclusive)
      (fun _ => not_step_of_resting hrest) hcomplete hconfined hrun
  refine ⟨hend, ?_, log_prefix hend⟩
  intro hne
  rcases Relation.ReflTransGen.cases_head hend with heq | hhead
  · exact absurd heq hne
  · obtain ⟨b, hstep, -⟩ := hhead
    exact ⟨b, hstep⟩

/-- Every step is entered in a log. -/
theorem log_grows (hstep : (ipcThreads T E A).Step s a) : ∃ t, (s t).log.length < (a t).log.length := by
  cases hstep with
  | @solo t l hl =>
      refine ⟨t, ?_⟩
      rw [Function.update_self]
      cases hl with
      | act => simp
      | stray => simp
  | @pair t r l m _ hlm =>
      refine ⟨r, ?_⟩
      rw [Function.update_self]
      cases hlm with
      | send => simp
      | call => simp
      | reply => simp

/-- If one run comes to rest, then no run goes on for ever. -/
theorem settled_run_finite [Fintype T] (hconfined : Confined snd rcv s)
    (hcomplete : (ipcThreads T E A).Runs s f) (hrest : ∀ t, (f t).Resting) (run : ℕ → T → IpcThread T E A)
    (hstart : (ipcThreads T E A).Runs s (run 0)) : ∃ k, ¬(ipcThreads T E A).Step (run k) (run (k + 1)) := by
  by_contra hall
  push Not at hall
  have hruns : ∀ k, (ipcThreads T E A).Runs s (run k) := by
    intro k
    induction k with
    | zero => exact hstart
    | succ k ih => exact ih.tail (hall k)
  have hlong : ∀ k, k ≤ ∑ t, (run k t).log.length := by
    intro k
    induction k with
    | zero => exact Nat.zero_le _
    | succ k ih =>
        obtain ⟨t, ht⟩ := log_grows (hall k)
        refine Nat.succ_le_of_lt (ih.trans_lt (Finset.sum_lt_sum ?_ ⟨t, Finset.mem_univ t, ht⟩))
        intro t _
        have hprefix := log_prefix (.single (hall k)) t
        exact hprefix.length_le
  let bound := ∑ t, (f t).log.length
  have hshort : ∑ t, (run (bound + 1) t).log.length ≤ bound := by
    obtain ⟨-, -, hlogs⟩ := settled_run hconfined hcomplete hrest (hruns (bound + 1))
    exact Finset.sum_le_sum fun t _ => (hlogs t).length_le
  have hle := hlong (bound + 1)
  omega

/-- If the threads can all finish, then no run gets stuck before, and a thread that has finished has the
same log in every run. -/
theorem complete_run (hpoint : PointToPoint snd rcv s) (hcomplete : (ipcThreads T E A).Runs s f)
    (hfinished : ∀ t, (f t).Finished) (hrun : (ipcThreads T E A).Runs s a) :
    (∀ t, ¬(a t).Finished → ∃ b, (ipcThreads T E A).Step a b) ∧
      (∀ t, (a t).log <+: (f t).log) ∧ ∀ t, (a t).Finished → a t = f t := by
  obtain ⟨hend, hstep, hlogs⟩ := settled_run hpoint.confined hcomplete (fun t => (hfinished t).resting) hrun
  refine ⟨?_, hlogs, fun t h => (finished_run hend h).symm⟩
  intro t hnot
  apply hstep
  rintro rfl
  exact hnot (hfinished t)

end Runs

/-! ### Calls and replies -/

section Calls

variable {T E A : Type} [DecidableEq T] {s a : T → IpcThread T E A}

def IpcEvent.isCall : IpcEvent T E A → Bool
  | .called _ => true
  | _ => false

def IpcEvent.isAnswer : IpcEvent T E A → Bool
  | .answered _ => true
  | _ => false

/-- The calls of a thread have been answered once each, but for the one it waits in. -/
def IpcThread.CallsAnswered (l : IpcThread T E A) : Prop :=
  l.log.countP IpcEvent.isCall = l.log.countP IpcEvent.isAnswer + if l.waitingFor.isSome then 1 else 0

theorem callsAnswered_run (hrun : (ipcThreads T E A).Runs s a) (t : T) (h : (s t).CallsAnswered) :
    (a t).CallsAnswered := by
  apply hrun.rel (fun _ l l' => l.CallsAnswered → l'.CallsAnswered) (fun _ _ h => h)
    (fun _ _ _ _ h h' hl => h' (h hl)) _ _ t h
  · intro t l l' hl
    cases hl with
    | act => simp [IpcThread.CallsAnswered, IpcEvent.isCall, IpcEvent.isAnswer]
    | stray => simp [IpcThread.CallsAnswered, IpcEvent.isCall, IpcEvent.isAnswer]
  · intro t r l m l' m' hlm
    cases hlm with
    | send => simp [IpcThread.CallsAnswered, IpcEvent.isCall, IpcEvent.isAnswer]
    | call hready =>
        simp [IpcThread.CallsAnswered, IpcEvent.isCall, IpcEvent.isAnswer, hready]
    | reply _ _ _ hwaiting =>
        simp [IpcThread.CallsAnswered, IpcEvent.isCall, IpcEvent.isAnswer, hwaiting]

variable [DecidableEq E] [DecidableEq A]

/-- Every answer that a thread got is a reply that another one gave. -/
def RepliesMatch (s : T → IpcThread T E A) : Prop :=
  ∀ t r, (s t).log.count (.replied r) = (s r).log.count (.answered t)

/-- A thread on its own neither replies nor gets an answer. -/
theorem IpcThread.Alone.count_log {l l' : IpcThread T E A} (h : Alone l l') (u : T) :
    l'.log.count (.replied u) = l.log.count (.replied u) ∧
      l'.log.count (.answered u) = l.log.count (.answered u) := by
  cases h with
  | act => simp
  | stray => simp

/-- Two threads exchange `k` replies, at most one. -/
theorem IpcThread.Meet.count_log {t r : T} {l m l' m' : IpcThread T E A} (h : Meet t r l m l' m') :
    ∃ k, ∀ u, l'.log.count (.replied u) = l.log.count (.replied u) + (if u = r then k else 0) ∧
      l'.log.count (.answered u) = l.log.count (.answered u) ∧
      m'.log.count (.replied u) = m.log.count (.replied u) ∧
      m'.log.count (.answered u) = m.log.count (.answered u) + if u = t then k else 0 := by
  cases h with
  | send => exact ⟨0, fun u => by simp⟩
  | call => exact ⟨0, fun u => by simp⟩
  | reply =>
      refine ⟨1, fun u => ⟨?_, by simp, by simp, ?_⟩⟩
      · by_cases hu : u = r
        · simp [hu]
        · simp [hu, Ne.symm hu]
      · by_cases hu : u = t
        · simp [hu]
        · simp [hu, Ne.symm hu]

theorem RepliesMatch.step (h : RepliesMatch s) (hstep : (ipcThreads T E A).Step s a) :
    RepliesMatch a := by
  intro x y
  apply hstep.balance x y (fun l => l.log.count (.replied y)) (fun l => l.log.count (.answered x)) _ _ (h x y)
  · intro t l hl
    exact ⟨(IpcThread.Alone.count_log hl y).1, (IpcThread.Alone.count_log hl x).2⟩
  · intro t r l m _ hlm
    obtain ⟨k, hk⟩ := IpcThread.Meet.count_log hlm
    refine ⟨k, fun _ => ?_, fun _ => (hk y).2.2.1, fun _ => (hk x).2.1, fun _ => ?_⟩
    · rw [(hk y).1]
      simp only [eq_comm]
    · rw [(hk x).2.2.2]
      simp only [eq_comm]

/-- The messages that have been sent on an endpoint have been received there. -/
def MessagesMatch (snd rcv : E → T) (ep : E) (s : T → IpcThread T E A) : Prop :=
  (s (snd ep)).log.count (.called ep) + (s (snd ep)).log.count (.sent ep) =
    (s (rcv ep)).log.count (.received ep (snd ep))

theorem MessagesMatch.step {snd rcv : E → T} {ep : E} (h : MessagesMatch snd rcv ep s)
    (hconfined : Confined snd rcv s) (hstep : (ipcThreads T E A).Step s a) : MessagesMatch snd rcv ep a := by
  let given (l : IpcThread T E A) : ℕ := l.log.count (.called ep) + l.log.count (.sent ep)
  let taken (l : IpcThread T E A) : ℕ := l.log.count (.received ep (snd ep))
  apply hstep.balance (snd ep) (rcv ep) given taken _ _ h
  · intro t l hl
    cases hl with
    | act => simp [given, taken]
    | stray => simp [given, taken]
  · intro t r l m hne hlm
    cases hlm with
    | @send ep' _ _ _ htodo _ htodo' =>
        obtain ⟨rfl, rfl⟩ := (hconfined t).ends hne (.inl rfl) htodo (hconfined r) htodo'
        by_cases hep : ep' = ep
        · subst hep
          exact ⟨1, by simp [given, taken, Nat.add_assoc]⟩
        · exact ⟨0, by simp [given, taken, hep]⟩
    | @call ep' _ _ _ htodo _ htodo' =>
        obtain ⟨rfl, rfl⟩ := (hconfined t).ends hne (.inr rfl) htodo (hconfined r) htodo'
        by_cases hep : ep' = ep
        · subst hep
          exact ⟨1, by simp [given, taken, Nat.add_right_comm]⟩
        · exact ⟨0, by simp [given, taken, hep]⟩
    | reply => exact ⟨0, by simp [given, taken]⟩

theorem messagesMatch_run {snd rcv : E → T} (hconfined : Confined snd rcv s)
    (hrun : (ipcThreads T E A).Runs s a) {ep : E} (h : MessagesMatch snd rcv ep s) : MessagesMatch snd rcv ep a := by
  suffices hboth : Confined snd rcv a ∧ MessagesMatch snd rcv ep a from hboth.2
  induction hrun with
  | refl => exact ⟨hconfined, h⟩
  | tail _ hstep ih => exact ⟨ih.1.step hstep, ih.2.step ih.1 hstep⟩

theorem repliesMatch_run (hrun : (ipcThreads T E A).Runs s a) (h : RepliesMatch s) : RepliesMatch a :=
  hrun.inv h fun _ _ h hstep => h.step hstep

end Calls

end CSem
