import Mathlib.Logic.Basic
import Mathlib.Data.Nat.Init
import Mathlib.Data.Option.Basic

/-!
Runs of a step function, each of whose steps meets a condition.
-/

namespace LeoNdn.Runs

variable {σ ε : Type} (step : σ → ε → Option σ) (Ok : σ → ε → Prop)

inductive Run (s : σ) : σ → Prop
  | refl : Run s s
  | step {s' s'' : σ} {event : ε} (hrun : Run s s') (hok : Ok s' event) (hstep : step s' event = some s'') : Run s s''

variable {step Ok} {P : σ → Prop} {s s' s'' : σ}

theorem Run.invariant (hstep : ∀ s event s', P s → Ok s event → step s event = some s' → P s') (h : P s)
    (hrun : Run step Ok s s') : P s' := by
  induction hrun with
  | refl => exact h
  | step _ hok hnext ih => exact hstep _ _ _ ih hok hnext

theorem Run.trans (hrun : Run step Ok s s') (hrest : Run step Ok s' s'') : Run step Ok s s'' :=
  hrest.invariant (fun _ _ _ hrun hok hstep => hrun.step hok hstep) hrun

variable (step Ok) [∀ s event, Decidable (Ok s event)]

/-- The state that a list of events leads to, if each meets the condition. -/
def runOf (s : σ) : List ε → Option σ
  | [] => some s
  | event :: events => if Ok s event then (step s event).bind (fun s => runOf s events) else none

variable {step Ok}

theorem Run.of_runOf {events : List ε} (h : runOf step Ok s events = some s') : Run step Ok s s' := by
  induction events generalizing s with
  | nil =>
    cases h
    exact Run.refl
  | cons event events ih =>
    rw [runOf] at h
    split at h
    · rename_i hok
      obtain ⟨next, hnext, hrest⟩ := Option.bind_eq_some_iff.mp h
      exact (Run.refl.step hok hnext).trans (ih hrest)
    · cases h

section Lists

variable (next : σ → ε → σ)

/-- Each step of a list of events meets the condition in the state that it starts from. -/
def EachStep (P : σ → ε → Prop) : σ → List ε → Prop
  | _, [] => True
  | s, event :: events => P s event ∧ EachStep P (next s event) events

variable {next} {Inv : σ → Prop} {P Q : σ → ε → Prop}

theorem EachStep.imp {events : List ε} (hinv : ∀ s, ∀ event ∈ events, Inv s → Inv (next s event))
    (himp : ∀ s, ∀ event ∈ events, Inv s → P s event → Q s event) (hs : Inv s) (h : EachStep next P s events) :
    EachStep next Q s events := by
  induction events generalizing s with
  | nil => trivial
  | cons event events ih =>
    exact ⟨himp s event List.mem_cons_self hs h.1,
      ih (fun s other hother => hinv s other (List.mem_cons_of_mem _ hother))
        (fun s other hother => himp s other (List.mem_cons_of_mem _ hother)) (hinv s event List.mem_cons_self hs) h.2⟩

theorem eachStep_congr (hiff : ∀ s event, P s event ↔ Q s event) (s : σ) (events : List ε) :
    EachStep next P s events ↔ EachStep next Q s events := by
  induction events generalizing s with
  | nil => exact Iff.rfl
  | cons event events ih => exact and_congr (hiff s event) (ih (next s event))

/-- Two conditions that agree where an invariant and a third one hold, which keep it. -/
theorem eachStep_iff {D : σ → ε → Prop} (hinv : ∀ s event, Inv s → D s event → P s event → Inv (next s event))
    (hiff : ∀ s event, Inv s → D s event → (P s event ↔ Q s event)) {s : σ} {events : List ε} (hs : Inv s)
    (h : EachStep next D s events) : EachStep next P s events ↔ EachStep next Q s events := by
  induction events generalizing s with
  | nil => exact Iff.rfl
  | cons event events ih =>
    have hhead := hiff s event hs h.1
    constructor
    · intro hall
      exact ⟨hhead.mp hall.1, (ih (hinv s event hs h.1 hall.1) h.2).mp hall.2⟩
    · intro hall
      have hfirst := hhead.mpr hall.1
      exact ⟨hfirst, (ih (hinv s event hs h.1 hfirst) h.2).mpr hall.2⟩

theorem eachStep_true (s : σ) (events : List ε) : EachStep next (fun _ _ => True) s events := by
  induction events generalizing s with
  | nil => trivial
  | cons event events ih => exact ⟨trivial, ih (next s event)⟩

theorem eachStep_of_event {R : ε → Prop} {s : σ} {events : List ε} :
    EachStep next (fun _ event => R event) s events ↔ ∀ event ∈ events, R event := by
  induction events generalizing s with
  | nil => simp [EachStep]
  | cons event events ih => rw [EachStep, ih, List.forall_mem_cons]

theorem eachStep_iff_take {Good : σ → Prop} {s : σ} (hs : Good s) (events : List ε) :
    EachStep next (fun s event => Good (next s event)) s events ↔ ∀ n, Good ((events.take n).foldl next s) := by
  induction events generalizing s with
  | nil => simpa [EachStep] using hs
  | cons event events ih =>
    constructor
    · rintro ⟨hhead, htail⟩ n
      cases n with
      | zero => exact hs
      | succ n => exact (ih hhead).mp htail n
    · intro hall
      have hhead : Good (next s event) := hall 1
      exact ⟨hhead, (ih hhead).mpr fun n => hall (n + 1)⟩

end Lists

section Sequences

variable {states : ℕ → Except ε σ} {Next : σ → σ → Prop} {Inv : ℕ → σ → Prop} {Good : σ → Prop} {Cond : ℕ → Prop}

/-- An invariant that lasts as long as the states are good, and tells from the number of a state whether it is. -/
theorem always_iff (hnext : ∀ k s', states (k + 1) = .ok s' → ∃ s, states k = .ok s ∧ Next s s')
    (hinit : ∀ s, states 0 = .ok s → Inv 0 s) (hstep : ∀ k s s', Inv k s → Good s → Next s s' → Inv (k + 1) s')
    (hgood : ∀ k s, Inv k s → (Good s ↔ Cond k)) (hmono : ∀ k, Cond (k + 1) → Cond k) {n : ℕ} {s : σ}
    (hs : states n = .ok s) : (∀ k ≤ n, ∀ s, states k = .ok s → Good s) ↔ Cond n := by
  have hinv (n : ℕ) (s : σ) (hs : states n = .ok s) (hbefore : ∀ k < n, ∀ s, states k = .ok s → Good s) : Inv n s := by
    induction n generalizing s with
    | zero => exact hinit s hs
    | succ n ih =>
      obtain ⟨s₁, hs₁, hnext₁⟩ := hnext n s hs
      exact hstep n s₁ s (ih s₁ hs₁ (fun k hk => hbefore k (Nat.lt_succ_of_lt hk)))
        (hbefore n (Nat.lt_succ_self n) s₁ hs₁) hnext₁
  constructor
  · intro hall
    exact (hgood n s (hinv n s hs (fun k hk => hall k (Nat.le_of_lt hk)))).mp (hall n (Nat.le_refl n) s hs)
  · intro hcond
    have hdown (k : ℕ) (hk : k ≤ n) : Cond k := Nat.decreasingInduction (fun k _ => hmono k) hcond hk
    intro k
    induction k using Nat.strong_induction_on with
    | _ k ih =>
      intro hk s' hs'
      exact (hgood k s' (hinv k s' hs' (fun j hj => ih j hj (Nat.le_trans (Nat.le_of_lt hj) hk)))).mpr (hdown k hk)

end Sequences

end LeoNdn.Runs
