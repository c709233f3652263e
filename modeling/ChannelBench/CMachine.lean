import ChannelBench.CRun
import Mathlib.Logic.Function.Iterate

/-! Runs of a component: its operations are called one after another, each on the state the last one
left and with an output. What one operation preserves is preserved by every run, and a component
whose operations answer as those of an abstract one does so along every run. A source, a clock or
`random()`, is a component with a single operation. -/

namespace CSem

variable {Op σ τ ω : Type}

/-- The outputs of a run of operations and the state it ends in. -/
def runAll (step : Op → σ → Run (ω × σ)) : List Op → σ → Run (List ω × σ)
  | [], s => pure ([], s)
  | op :: ops, s => do
      let (out, s) ← step op s
      let (outs, s) ← runAll step ops s
      return (out :: outs, s)

/-- The run of an abstract component, which does not fail. -/
def specAll (spec : Op → τ → ω × τ) : List Op → τ → List ω × τ
  | [], t => ([], t)
  | op :: ops, t =>
      let rest := specAll spec ops (spec op t).2
      ((spec op t).1 :: rest.1, rest.2)

variable {step : Op → σ → Run (ω × σ)} {spec : Op → τ → ω × τ}

/-- Calls each of which is admissible in the state in which the abstract component gets it. -/
def LegalAlong (spec : Op → τ → ω × τ) (Ok : Op → τ → Prop) : List Op → τ → Prop
  | [], _ => True
  | op :: ops, t => Ok op t ∧ LegalAlong spec Ok ops (spec op t).2

instance {Ok : Op → τ → Prop} [∀ op t, Decidable (Ok op t)] :
    ∀ ops t, Decidable (LegalAlong spec Ok ops t)
  | [], _ => isTrue trivial
  | op :: ops, t =>
      have : Decidable (LegalAlong spec Ok ops (spec op t).2) := instDecidableLegalAlong ops (spec op t).2
      inferInstanceAs (Decidable (Ok op t ∧ LegalAlong spec Ok ops (spec op t).2))

/-- The simulation rule for calls that must be admissible: those that are answer as the abstract ones and keep
the relation along every run of such calls. -/
theorem runAll_simulates_legal {Ok : Op → τ → Prop} (R : σ → τ → Prop)
    (hstep : ∀ op s t, R s t → Ok op t →
      Returns (step op s) fun r => r.1 = (spec op t).1 ∧ R r.2 (spec op t).2) :
    ∀ (ops : List Op) (s : σ) (t : τ), R s t → LegalAlong spec Ok ops t →
      Returns (runAll step ops s) fun r =>
        r.1 = (specAll spec ops t).1 ∧ R r.2 (specAll spec ops t).2
  | [], s, t, h, _ => returns_pure.mpr ⟨rfl, h⟩
  | op :: ops, s, t, h, hlegal => by
      apply (hstep op s t h hlegal.1).bind
      intro r hr
      obtain ⟨hout, hR⟩ := hr
      apply (runAll_simulates_legal R hstep ops r.2 _ hR hlegal.2).bind
      intro r' hr'
      obtain ⟨houts, hR'⟩ := hr'
      rw [returns_pure]
      exact ⟨by rw [hout, houts]; rfl, hR'⟩

/-- The simulation rule for calls that are always admissible. -/
theorem runAll_simulates (R : σ → τ → Prop)
    (hstep : ∀ op s t, R s t →
      Returns (step op s) fun r => r.1 = (spec op t).1 ∧ R r.2 (spec op t).2)
    (ops : List Op) (s : σ) (t : τ) (h : R s t) :
    Returns (runAll step ops s) fun r =>
      r.1 = (specAll spec ops t).1 ∧ R r.2 (specAll spec ops t).2 := by
  have hlegal : ∀ (ops : List Op) (t : τ), LegalAlong spec (fun _ _ => True) ops t := by
    intro ops
    induction ops with
    | nil => exact fun _ => trivial
    | cons op ops ih => exact fun t => ⟨trivial, ih _⟩
  exact runAll_simulates_legal R (fun op s t hR _ => hstep op s t hR) ops s t h (hlegal ops t)

/-- Calls each of which is admissible after the calls before it, latest call first. -/
def Legal (Ok : List Op → Op → Prop) : List Op → List Op → Prop
  | _, [] => True
  | before, op :: ops => Ok before op ∧ Legal Ok (op :: before) ops

theorem legal_of_forall {ok : Op → Prop} :
    ∀ (ops before : List Op), (∀ op ∈ ops, ok op) → Legal (fun _ op => ok op) before ops
  | [], _, _ => trivial
  | op :: ops, before, h => ⟨h op List.mem_cons_self,
      legal_of_forall ops (op :: before) fun op' hop' => h op' (List.mem_cons_of_mem _ hop')⟩

/-- The invariant rule: what every admissible call keeps holds along every run of such calls. The
invariant may depend on the calls made so far. -/
theorem runAll_inv {Ok : List Op → Op → Prop} (Inv : List Op → σ → Prop)
    (hstep : ∀ before op s, Inv before s → Ok before op →
      Returns (step op s) fun r => Inv (op :: before) r.2) :
    ∀ (ops before : List Op) (s : σ), Legal Ok before ops → Inv before s →
      Returns (runAll step ops s) fun r => Inv (ops.reverse ++ before) r.2
  | [], before, s, _, h => returns_pure.mpr h
  | op :: ops, before, s, hops, h => by
      apply (hstep before op s h hops.1).bind
      intro r hr
      apply (runAll_inv Inv hstep ops (op :: before) r.2 hops.2 hr).bind
      intro r' hr'
      rw [returns_pure, List.reverse_cons, List.append_assoc]
      exact hr'

/-- The invariant rule for calls that may fault. -/
theorem runAll_ensures {Ok : Op → Prop} (Inv : σ → Prop)
    (hstep : ∀ op s, Ok op → Inv s → Ensures (step op s) fun r => Inv r.2) :
    ∀ (ops : List Op) (s : σ), (∀ op ∈ ops, Ok op) → Inv s → Ensures (runAll step ops s) fun r => Inv r.2
  | [], _, _, h => ensures_pure h
  | op :: ops, s, hops, h => by
      apply (hstep op s (hops op List.mem_cons_self) h).bind
      intro r hr
      apply (runAll_ensures Inv hstep ops r.2 (fun op' hop' => hops op' (List.mem_cons_of_mem _ hop')) hr).bind
      intro r' hr'
      exact ensures_pure hr'

/-- The invariant rule for calls that may end with one particular fault, with what every output satisfies. -/
theorem runAll_returnsOr {fault : Fault} (Inv : σ → Prop) (P : ω → Prop)
    (hstep : ∀ op s, Inv s → ReturnsOr fault (step op s) fun r => P r.1 ∧ Inv r.2) :
    ∀ (ops : List Op) (s : σ), Inv s →
      ReturnsOr fault (runAll step ops s) fun r => (∀ out ∈ r.1, P out) ∧ Inv r.2
  | [], _, h => (returns_pure.mpr ⟨fun _ hout => absurd hout List.not_mem_nil, h⟩).orFault
  | op :: ops, s, h => by
      apply (hstep op s h).bind
      intro r hr
      apply (runAll_returnsOr Inv P hstep ops r.2 hr.2).bind
      intro r' hr'
      apply (returns_pure.mpr _).orFault
      refine ⟨?_, hr'.2⟩
      intro out hout
      rcases List.mem_cons.mp hout with rfl | hout
      · exact hr.1
      · exact hr'.1 out hout

theorem runAll_append (ops ops' : List Op) (s : σ) :
    runAll step (ops ++ ops') s = (do
      let r ← runAll step ops s
      let r' ← runAll step ops' r.2
      return (r.1 ++ r'.1, r'.2)) := by
  induction ops generalizing s with
  | nil =>
      rw [List.nil_append, runAll, pure_bind]
      exact (bind_pure _).symm
  | cons op ops ih =>
      simp only [List.cons_append, runAll, ih, bind_assoc, pure_bind]

theorem length_runAll {ops : List Op} {s : σ} {r : List ω × σ} (h : runAll step ops s = .ok r) :
    r.1.length = ops.length := by
  induction ops generalizing s r with
  | nil =>
      cases h
      rfl
  | cons op ops ih =>
      obtain ⟨r₁, -, h⟩ := bind_eq_ok.mp h
      obtain ⟨r₂, hr₂, h⟩ := bind_eq_ok.mp h
      cases h
      rw [List.length_cons, List.length_cons, ih hr₂]

/-- What a call establishes and the calls after it keep holds of its output at the end of the run. -/
theorem runAll_call {before : List Op} {op : Op} {after : List Op} {s : σ} {P : σ → Prop}
    {Q : ω → σ → Prop} (hbefore : Returns (runAll step before s) fun r => P r.2)
    (hop : ∀ s, P s → Returns (step op s) fun r => Q r.1 r.2)
    (hafter : ∀ op' ∈ after, ∀ out s, Q out s → Returns (step op' s) fun r => Q out r.2) :
    Returns (runAll step (before ++ op :: after) s) fun r =>
      ∃ out, r.1[before.length]? = some out ∧ Q out r.2 := by
  rw [runAll_append]
  obtain ⟨r, hr, hP⟩ := hbefore
  rw [hr, ok_bind]
  show Returns ((step op r.2 >>= _) >>= _) _
  rw [bind_assoc]
  apply (hop r.2 hP).bind
  intro r₁ hQ
  rw [bind_assoc]
  have hlegal : Legal (fun _ op' => op' ∈ after) [] after := legal_of_forall after [] fun _ h => h
  have hrest : Returns (runAll step after r₁.2) fun r => Q r₁.1 r.2 := by
    refine runAll_inv (fun _ s => Q r₁.1 s) ?_ after [] r₁.2 hlegal hQ
    intro _ op' s hs hop'
    exact hafter op' hop' r₁.1 s hs
  apply hrest.bind
  intro r₂ hQ'
  rw [pure_bind, returns_pure]
  refine ⟨r₁.1, ?_, hQ'⟩
  rw [← length_runAll hr, List.getElem?_append_right (le_refl _), Nat.sub_self]
  rfl

section Sources

variable {α : Type} (source : σ → α × σ)

/-- The state of a source before answer `k`. -/
def worldAt (world : σ) (k : ℕ) : σ := (fun w => (source w).2)^[k] world

/-- Answer `k` of a source. -/
def reading (world : σ) (k : ℕ) : α := (source (worldAt source world k)).1

@[simp] theorem worldAt_zero (world : σ) : worldAt source world 0 = world := rfl

theorem worldAt_succ (world : σ) (k : ℕ) : worldAt source world (k + 1) = (source (worldAt source world k)).2 :=
  Function.iterate_succ_apply' _ _ _

/-- A source that has been asked `k` times is asked once more. -/
theorem source_worldAt (world : σ) (k : ℕ) :
    source (worldAt source world k) = (reading source world k, worldAt source world (k + 1)) :=
  Prod.ext rfl (worldAt_succ source world k).symm

end Sources

end CSem
