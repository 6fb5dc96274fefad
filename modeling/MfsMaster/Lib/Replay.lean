/-
  MfsMaster.Lib.Replay
  **RUNS, INVARIANTS OF RUNS, AND LOG REPLAY** (general, no file system here).

  A LEADER is a step function that turns a state and an event into a new state
  and the records it logs.  A REPLICA is a partial function that consumes one
  record; `none` stands for every answer other than "OK", after which a replica
  stops.  Three rules carry the developments built on this file:

      run_invariant        — an invariant kept by every step that meets a
                             condition holds at the end of every such run
      replay_run           — a relation kept by "leader step / replay of its
                             records" survives a whole run
      replay_prefixes_iff  — the same with the converse: when every step that
                             misses the condition is OBSERVED on the replica,
                             the condition is exact
-/
import Mathlib.Data.List.Basic
import Mathlib.Data.List.Induction

namespace MfsMaster.Lib

/-! ## §1. Runs of a step function. -/

section Run

variable {σ ε : Type*} (step : σ → ε → σ)

/-- The state after the events `es`, oldest first. -/
def run (s : σ) (es : List ε) : σ :=
  es.foldl step s

@[simp] theorem run_nil (s : σ) : run step s [] = s := rfl

@[simp] theorem run_cons (s : σ) (e : ε) (es : List ε) :
    run step s (e :: es) = run step (step s e) es := rfl

theorem run_append (s : σ) (es es' : List ε) :
    run step s (es ++ es') = run step (run step s es) es' := List.foldl_append

/-- Every step of the run meets `cond` in the state it is taken from. -/
def StepsMeet (cond : σ → ε → Prop) : σ → List ε → Prop
  | _, [] => True
  | s, e :: es => cond s e ∧ StepsMeet cond (step s e) es

instance StepsMeet.decidable (cond : σ → ε → Prop) [∀ s e, Decidable (cond s e)] :
    (s : σ) → (es : List ε) → Decidable (StepsMeet step cond s es)
  | _, [] => isTrue trivial
  | s, e :: es =>
    haveI := StepsMeet.decidable cond (step s e) es
    inferInstanceAs (Decidable (cond s e ∧ StepsMeet step cond (step s e) es))

variable {step}

theorem stepsMeet_append {cond : σ → ε → Prop} {s : σ} {es es' : List ε}
    (h : StepsMeet step cond s es) (h' : StepsMeet step cond (run step s es) es') :
    StepsMeet step cond s (es ++ es') := by
  induction es generalizing s with
  | nil => exact h'
  | cons e es ih => exact ⟨h.1, ih h.2 h'⟩

/-- **Invariant rule.**  What one step keeps, a run keeps. -/
theorem run_invariant {cond : σ → ε → Prop} {Inv : σ → Prop}
    (hstep : ∀ s e, Inv s → cond s e → Inv (step s e)) :
    ∀ (es : List ε) (s : σ), Inv s → StepsMeet step cond s es → Inv (run step s es) := by
  intro es
  induction es with
  | nil =>
    intro s hs _
    exact hs
  | cons e es ih =>
    rintro s hs ⟨hc, hrest⟩
    exact ih (step s e) (hstep s e hs hc) hrest

/-- What every step keeps, every run keeps. -/
theorem run_kept {Inv : σ → Prop} (hstep : ∀ s e, Inv s → Inv (step s e)) {es : List ε} {s : σ}
    (hs : Inv s) : Inv (run step s es) :=
  List.foldlRecOn (motive := Inv) es step hs fun s hs e _ => hstep s e hs

end Run

/-! ## §2. Leaders that log, replicas that replay. -/

section Replay

variable {σ τ ε ρ : Type*} (step : σ → ε → σ × List ρ) (apply : τ → ρ → Option τ)

variable {Obs R : σ → τ → Prop} {s : σ} {es : List ε} {cond : σ → ε → Prop}

/-- The leader's state after the events, and everything it logged on the way. -/
def logRun : σ → List ε → σ × List ρ
  | s, [] => (s, [])
  | s, e :: es =>
    let next := logRun (step s e).1 es
    (next.1, (step s e).2 ++ next.2)

@[simp] theorem logRun_nil (s : σ) : logRun step s [] = (s, []) := rfl

theorem logRun_cons {e : ε} :
    logRun step s (e :: es)
      = ((logRun step (step s e).1 es).1, (step s e).2 ++ (logRun step (step s e).1 es).2) :=
  rfl

/-- The replica consumes the records in order and stops at the first one it refuses. -/
def replay (t : τ) (rs : List ρ) : Option τ :=
  rs.foldlM apply t

@[simp] theorem replay_nil (t : τ) : replay apply t [] = some t := rfl

@[simp] theorem replay_singleton (t : τ) (r : ρ) : replay apply t [r] = apply t r := by
  simp [replay]

theorem replay_cons (t : τ) (r : ρ) (rs : List ρ) :
    replay apply t (r :: rs) = (apply t r).bind (replay apply · rs) := rfl

theorem replay_append (t : τ) (rs rs' : List ρ) :
    replay apply t (rs ++ rs') = (replay apply t rs).bind (replay apply · rs') := by
  simp only [replay, List.foldlM_append]
  rfl

/-- What one record keeps, a replay keeps. -/
theorem replay_invariant {apply : τ → ρ → Option τ} {Inv : τ → Prop}
    (hstep : ∀ t r t', Inv t → apply t r = some t' → Inv t') :
    ∀ (rs : List ρ) (t t' : τ), Inv t → replay apply t rs = some t' → Inv t' := by
  intro rs
  induction rs with
  | nil =>
    intro t t' ht hrep
    cases hrep
    exact ht
  | cons r rs ih =>
    intro t t' ht hrep
    rw [replay_cons] at hrep
    obtain ⟨t1, hfirst, hrest⟩ := Option.bind_eq_some_iff.mp hrep
    exact ih t1 t' (hstep t r t1 ht hfirst) hrest

/-- The replay of the whole log succeeds and ends in a state related by `Obs` to the leader's. -/
def Replays (Obs : σ → τ → Prop) (s : σ) (t : τ) (es : List ε) : Prop :=
  ∃ t', replay apply t (logRun step s es).2 = some t' ∧ Obs (logRun step s es).1 t'

variable {step apply}

/-- A log with one part for each element of a list; `P` says what holds after some of them. -/
theorem replay_flatMap {ι : Type*} {l : List ι} {part : ι → List ρ} {P : List ι → τ → Prop} {t : τ}
    (hpart : ∀ done x rest t, l = done ++ x :: rest → P done t →
      ∃ t', replay apply t (part x) = some t' ∧ P (done ++ [x]) t') (ht : P [] t) :
    ∃ t', replay apply t (l.flatMap part) = some t' ∧ P l t' := by
  induction l using List.reverseRecOn with
  | nil => exact ⟨t, rfl, ht⟩
  | append_singleton l x ih =>
    obtain ⟨t1, hrun, h1⟩ := ih fun done y rest t heq =>
      hpart done y (rest ++ [x]) t (by rw [heq, List.append_assoc, List.cons_append])
    obtain ⟨t', hlast, h'⟩ := hpart l x [] t1 rfl h1
    refine ⟨t', ?_, h'⟩
    rw [List.flatMap_append, replay_append, hrun, Option.bind_some, List.flatMap_singleton, hlast]

theorem replays_cons {t t' : τ} {e : ε} (h : replay apply t (step s e).2 = some t') :
    Replays step apply Obs s t (e :: es) ↔ Replays step apply Obs (step s e).1 t' es := by
  simp only [Replays, logRun_cons, replay_append, h, Option.bind_some]

/-- **Lockstep rule.**  A relation kept by every step that meets `cond` is kept by a run. -/
theorem replay_run
    (hstep : ∀ s t e, R s t → cond s e →
      ∃ t', replay apply t (step s e).2 = some t' ∧ R (step s e).1 t') :
    ∀ (es : List ε) (s : σ) (t : τ), R s t →
      StepsMeet (fun s e => (step s e).1) cond s es → Replays step apply R s t es := by
  intro es
  induction es with
  | nil =>
    intro s t hR _
    exact ⟨t, rfl, hR⟩
  | cons e es ih =>
    rintro s t hR ⟨hc, hrest⟩
    obtain ⟨t', hrep, hR'⟩ := hstep s t e hR hc
    exact (replays_cons hrep).mpr (ih (step s e).1 t' hR' hrest)

theorem Replays.mono {Obs' : σ → τ → Prop} (hsub : ∀ s t, Obs s t → Obs' s t) {t : τ}
    (h : Replays step apply Obs s t es) : Replays step apply Obs' s t es := by
  obtain ⟨t', hrep, hobs⟩ := h
  exact ⟨t', hrep, hsub _ _ hobs⟩

theorem StepsMeet.take {step : σ → ε → σ} :
    ∀ (n : Nat) (es : List ε) (s : σ), StepsMeet step cond s es →
      StepsMeet step cond s (es.take n)
  | 0, _, _, _ => trivial
  | _ + 1, [], _, _ => trivial
  | n + 1, _ :: es, _, h => ⟨h.1, StepsMeet.take n es _ h.2⟩

/-- **Exactness rule.**  Steps that meet `cond` keep `R`, steps that miss it leave the
replica in a state where `Obs` fails: then every prefix of the run replays with `Obs`
exactly when every step meets `cond`. -/
theorem replay_prefixes_iff (hobs : ∀ s t, R s t → Obs s t)
    (hstep : ∀ s t e, R s t → cond s e →
      ∃ t', replay apply t (step s e).2 = some t' ∧ R (step s e).1 t')
    (hmiss : ∀ s t e, R s t → ¬ cond s e →
      ∀ t', replay apply t (step s e).2 = some t' → ¬ Obs (step s e).1 t')
    (es : List ε) (s : σ) (t : τ) (hR : R s t) :
    (∀ n, Replays step apply Obs s t (es.take n))
      ↔ StepsMeet (fun s e => (step s e).1) cond s es := by
  constructor
  · induction es generalizing s t with
    | nil =>
      intro _
      trivial
    | cons e es ih =>
      intro hpre
      have hc : cond s e := by
        by_contra hno
        obtain ⟨t', hrep, hO⟩ := hpre 1
        rw [List.take_succ_cons, List.take_zero, logRun_cons] at hrep hO
        simp only [logRun_nil, List.append_nil] at hrep hO
        exact hmiss s t e hR hno t' hrep hO
      obtain ⟨t', hrep, hR'⟩ := hstep s t e hR hc
      refine ⟨hc, ih (step s e).1 t' hR' (fun n => ?_)⟩
      have hn := hpre (n + 1)
      rw [List.take_succ_cons] at hn
      exact (replays_cons hrep).mp hn
  · intro hmeet n
    exact (replay_run hstep (es.take n) s t hR (hmeet.take n es s)).mono hobs

end Replay

/-! ## §3. Records about one key of a table. -/

section Table

variable {κ α ρ : Type*} [DecidableEq κ] {apply : (κ → α) → ρ → Option (κ → α)} {t : κ → α}
  {k : κ} {rs rs' : List ρ} {P Q : α → Prop}

/-- The records are accepted, change the value of `k` only, and leave one with `P` there. -/
def ReplaysAt (apply : (κ → α) → ρ → Option (κ → α)) (t : κ → α) (k : κ) (rs : List ρ)
    (P : α → Prop) : Prop :=
  ∃ o, replay apply t rs = some (Function.update t k o) ∧ P o

theorem ReplaysAt.nil (h : P (t k)) : ReplaysAt apply t k [] P :=
  ⟨t k, by rw [Function.update_eq_self]; rfl, h⟩

theorem ReplaysAt.one {r : ρ} {o : α} (h : apply t r = some (Function.update t k o)) (ho : P o) :
    ReplaysAt apply t k [r] P :=
  ⟨o, (replay_singleton _ _ _).trans h, ho⟩

theorem ReplaysAt.append (h : ReplaysAt apply t k rs P)
    (hrest : ∀ t', P (t' k) → ReplaysAt apply t' k rs' Q) :
    ReplaysAt apply t k (rs ++ rs') Q := by
  obtain ⟨o, hrep, ho⟩ := h
  have hk : P (Function.update t k o k) := by rwa [Function.update_self]
  obtain ⟨o', hrep', ho'⟩ := hrest _ hk
  refine ⟨o', ?_, ho'⟩
  rw [replay_append, hrep, Option.bind_some, hrep', Function.update_idem]

end Table

end MfsMaster.Lib
