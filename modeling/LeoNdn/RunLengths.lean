import Mathlib.Data.List.Induction
import Mathlib.Data.List.Pairwise
import Mathlib.Data.Int.Notation

/-!
The runs of equal values in a list with gaps, as half-open intervals of positions,
collected by a scan that knows the value of the current run and its start.
-/

namespace LeoNdn.RunLengths

structure Interval where
  start : ℤ
  stop : ℤ
  deriving DecidableEq, Repr

def Interval.Contains (interval : Interval) (t : ℕ) : Prop := interval.start ≤ t ∧ (t : ℤ) < interval.stop

structure InOrder (intervals : List Interval) : Prop where
  forward : ∀ interval ∈ intervals, interval.start ≤ interval.stop
  increasing : intervals.Pairwise (fun interval later => interval.stop ≤ later.start)

structure Scan (α : Type) where
  current : Option (α × ℕ)
  closed : List (α × Interval)

variable {α : Type}

def Scan.start : Scan α := ⟨none, []⟩

def Scan.close (scan : Scan α) (stop : ℤ) : List (α × Interval) :=
  match scan.current with
  | none => scan.closed
  | some (a, start) => scan.closed ++ [(a, ⟨start, stop⟩)]

structure Covers (value : ℕ → Option α) (stop : ℤ) (runs : List (α × Interval)) : Prop where
  forward : ∀ run ∈ runs, run.2.start ≤ run.2.stop ∧ run.2.stop ≤ stop
  increasing : runs.Pairwise (fun run later => run.2.stop ≤ later.2.start)
  contains : ∀ t : ℕ, (t : ℤ) < stop → ∀ a, (∃ interval, (a, interval) ∈ runs ∧ interval.Contains t) ↔ value t = some a

structure Scanned (value : ℕ → Option α) (n : ℕ) (scan : Scan α) : Prop where
  forward : ∀ run ∈ scan.closed, run.2.start ≤ run.2.stop ∧ run.2.stop < n
  increasing : scan.closed.Pairwise (fun run later => run.2.stop ≤ later.2.start)
  current : ∀ a start, scan.current = some (a, start) → start < n ∧ ∀ run ∈ scan.closed, run.2.stop ≤ start
  contains : ∀ t < n, ∀ a, ((∃ interval, (a, interval) ∈ scan.closed ∧ interval.Contains t) ∨
    ∃ start, scan.current = some (a, start) ∧ start ≤ t) ↔ value t = some a

section Closing

variable {value : ℕ → Option α} {n : ℕ} {scan : Scan α}

theorem mem_close {run : α × Interval} {stop : ℤ} : run ∈ scan.close stop ↔
    run ∈ scan.closed ∨ ∃ a start, scan.current = some (a, start) ∧ run = (a, ⟨start, stop⟩) := by
  rw [Scan.close]
  cases scan.current with
  | none => simp
  | some current =>
    obtain ⟨b, start⟩ := current
    simp

theorem close_none (h : scan.current = none) (stop : ℤ) : scan.close stop = scan.closed := by
  rw [Scan.close, h]

theorem Scanned.start : Scanned value 0 (Scan.start : Scan α) where
  forward := fun _ hmem => nomatch hmem
  increasing := List.Pairwise.nil
  current := fun _ _ h => nomatch h
  contains := fun t ht => absurd ht (Nat.not_lt_zero t)

theorem Scanned.close_increasing (h : Scanned value n scan) (stop : ℤ) :
    (scan.close stop).Pairwise (fun run later => run.2.stop ≤ later.2.start) := by
  rw [Scan.close]
  cases hcurrent : scan.current with
  | none => exact h.increasing
  | some current =>
    obtain ⟨a, start⟩ := current
    refine List.pairwise_append.mpr ⟨h.increasing, List.pairwise_singleton _ _, fun run hmem later hlater => ?_⟩
    obtain rfl := List.mem_singleton.mp hlater
    exact (h.current a start hcurrent).2 run hmem

theorem Scanned.close_forward (h : Scanned value n scan) {stop : ℤ} (hstop : (n : ℤ) - 1 ≤ stop) :
    ∀ run ∈ scan.close stop, run.2.start ≤ run.2.stop ∧ run.2.stop ≤ stop := by
  intro run hmem
  rcases mem_close.mp hmem with hold | ⟨a, start, hcurrent, rfl⟩
  · have hrun := h.forward run hold
    exact ⟨hrun.1, by omega⟩
  · have hstart := (h.current a start hcurrent).1
    refine ⟨?_, Int.le_refl stop⟩
    show (start : ℤ) ≤ stop
    omega

theorem Scanned.close_contains (h : Scanned value n scan) {stop : ℤ} {t : ℕ} (hn : t < n) (ht : (t : ℤ) < stop)
    (a : α) :
    (∃ interval, (a, interval) ∈ scan.close stop ∧ interval.Contains t) ↔ value t = some a := by
  rw [← h.contains t hn a]
  constructor
  · rintro ⟨interval, hmem, hin⟩
    rcases mem_close.mp hmem with hold | ⟨b, start, hcurrent, heq⟩
    · exact Or.inl ⟨interval, hold, hin⟩
    · obtain ⟨rfl, rfl⟩ := Prod.mk.inj heq
      exact Or.inr ⟨start, hcurrent, Int.ofNat_le.mp hin.1⟩
  · rintro (⟨interval, hold, hin⟩ | ⟨start, hcurrent, hle⟩)
    · exact ⟨interval, mem_close.mpr (Or.inl hold), hin⟩
    · exact ⟨⟨start, stop⟩, mem_close.mpr (Or.inr ⟨a, start, hcurrent, rfl⟩), Int.ofNat_le.mpr hle, ht⟩

theorem Scanned.covers (h : Scanned value n scan) {stop : ℤ} (hstop : (n : ℤ) - 1 ≤ stop) (hle : stop ≤ n) :
    Covers value stop (scan.close stop) :=
  ⟨h.close_forward hstop, h.close_increasing stop, fun t ht => h.close_contains (by omega) ht⟩

end Closing

section Scans

variable [DecidableEq α]

def Scan.next (scan : Scan α) (t : ℕ) (x : Option α) : Scan α :=
  if x = scan.current.map Prod.fst then scan else ⟨x.map (fun a => (a, t)), scan.close t⟩

def Scan.along (scan : Scan α) (t : ℕ) : List (Option α) → Scan α
  | [] => scan
  | x :: values => (scan.next t x).along (t + 1) values

variable {value : ℕ → Option α} {n : ℕ} {scan : Scan α}

omit [DecidableEq α] in
theorem Scanned.goOn (h : Scanned value n scan) (hsame : value n = scan.current.map Prod.fst) :
    Scanned value (n + 1) scan := by
  refine ⟨fun run hmem => ?_, h.increasing, fun a start hcurrent => ?_, fun t ht a => ?_⟩
  · have hrun := h.forward run hmem
    omega
  · obtain ⟨hstart, hruns⟩ := h.current a start hcurrent
    exact ⟨by omega, hruns⟩
  · obtain hlt | rfl := Nat.lt_succ_iff_lt_or_eq.mp ht
    · exact h.contains t hlt a
    · rw [hsame]
      constructor
      · rintro (⟨interval, hmem, hin⟩ | ⟨start, hcurrent, -⟩)
        · have hrun := h.forward _ hmem
          have hlate := hin.2
          dsimp only at hrun
          omega
        · rw [hcurrent]
          rfl
      · intro hvalue
        obtain ⟨⟨b, start⟩, hcurrent, rfl⟩ := Option.map_eq_some_iff.mp hvalue
        exact Or.inr ⟨start, hcurrent, Nat.le_of_lt (h.current b start hcurrent).1⟩

omit [DecidableEq α] in
theorem Scanned.begin (h : Scanned value n scan) :
    Scanned value (n + 1) ⟨(value n).map (fun a => (a, n)), scan.close n⟩ := by
  have hnew : ∀ a start, (value n).map (fun a => (a, n)) = some (a, start) → value n = some a ∧ start = n := by
    intro a start hcurrent
    obtain ⟨b, hvalue, heq⟩ := Option.map_eq_some_iff.mp hcurrent
    obtain ⟨rfl, rfl⟩ := Prod.mk.inj heq
    exact ⟨hvalue, rfl⟩
  have hstop : ∀ run ∈ scan.close n, run.2.start ≤ run.2.stop ∧ run.2.stop ≤ n := h.close_forward (by omega)
  refine ⟨fun run hmem => ?_, h.close_increasing n, fun a start hcurrent => ?_, fun t ht a => ?_⟩
  · have hrun := hstop run hmem
    omega
  · obtain ⟨-, rfl⟩ := hnew a start hcurrent
    exact ⟨Nat.lt_succ_self _, fun run hmem => (hstop run hmem).2⟩
  · obtain hlt | rfl := Nat.lt_succ_iff_lt_or_eq.mp ht
    · rw [← h.close_contains hlt (Int.ofNat_lt.mpr hlt) a]
      refine or_iff_left ?_
      rintro ⟨start, hcurrent, hle⟩
      obtain ⟨-, rfl⟩ := hnew a start hcurrent
      omega
    · constructor
      · rintro (⟨interval, hmem, hin⟩ | ⟨start, hcurrent, -⟩)
        · have hrun := (hstop _ hmem).2
          have hlate := hin.2
          dsimp only at hrun
          omega
        · exact (hnew a start hcurrent).1
      · intro hvalue
        exact Or.inr ⟨t, by rw [hvalue]; rfl, Nat.le_refl _⟩

theorem Scanned.next (h : Scanned value n scan) : Scanned value (n + 1) (scan.next n (value n)) := by
  rw [Scan.next]
  split
  · rename_i hsame
    exact h.goOn hsame
  · exact h.begin

theorem Scanned.along (h : Scanned value n scan) {values : List (Option α)}
    (hvalues : ∀ i x, values[i]? = some x → value (n + i) = x) :
    Scanned value (n + values.length) (scan.along n values) := by
  induction values generalizing n scan with
  | nil => exact h
  | cons x values ih =>
    have hx : value n = x := hvalues 0 x rfl
    have hnext := h.next
    rw [hx] at hnext
    have hrest := ih hnext fun i y hy => by
      rw [show n + 1 + i = n + (i + 1) by omega]
      exact hvalues (i + 1) y hy
    rwa [List.length_cons, show n + (values.length + 1) = n + 1 + values.length by omega]

theorem scanned (values : List (Option α)) :
    Scanned (fun t => values[t]?.join) values.length (Scan.start.along 0 values) := by
  have h := @Scanned.along _ _ (fun t => values[t]?.join) 0 _ Scanned.start values (by
    intro i x hx
    rw [Nat.zero_add, hx]
    rfl)
  rwa [Nat.zero_add] at h

def intervalsOf (a : α) (runs : List (α × Interval)) : List Interval :=
  runs.filterMap fun run => if run.1 = a then some run.2 else none

theorem mem_intervalsOf {a : α} {runs : List (α × Interval)} {interval : Interval} :
    interval ∈ intervalsOf a runs ↔ (a, interval) ∈ runs := by
  rw [intervalsOf, List.mem_filterMap]
  constructor
  · rintro ⟨run, hmem, hrun⟩
    split at hrun
    · rename_i ha
      obtain rfl := Option.some.inj hrun
      subst ha
      exact hmem
    · cases hrun
  · intro hmem
    exact ⟨_, hmem, if_pos rfl⟩

theorem Covers.intervalsOf {stop : ℤ} {runs : List (α × Interval)} (h : Covers value stop runs) (a : α) :
    InOrder (intervalsOf a runs) ∧ (∀ interval ∈ intervalsOf a runs, interval.stop ≤ stop) ∧ ∀ t : ℕ, (t : ℤ) < stop →
      ((∃ interval ∈ RunLengths.intervalsOf a runs, interval.Contains t) ↔ value t = some a) := by
  have hforward := fun interval hmem => h.forward (a, interval) (mem_intervalsOf.mp hmem)
  refine ⟨⟨fun interval hmem => (hforward interval hmem).1, ?_⟩, fun interval hmem => (hforward interval hmem).2,
    fun t ht => ?_⟩
  · refine List.pairwise_filterMap.mpr (h.increasing.imp fun {run later} hle interval hrun interval' hlater => ?_)
    split at hrun
    · split at hlater
      · obtain rfl := Option.some.inj hrun
        obtain rfl := Option.some.inj hlater
        exact hle
      · cases hlater
    · cases hrun
  · rw [← h.contains t ht a]
    exact exists_congr fun interval => and_congr_left fun _ => mem_intervalsOf

end Scans

theorem InOrder.disjoint {intervals : List Interval} (h : InOrder intervals) :
    intervals.Pairwise (fun interval interval' => ∀ t, ¬ (interval.Contains t ∧ interval'.Contains t)) := by
  refine h.increasing.imp fun {interval interval'} hle t hboth => ?_
  obtain ⟨⟨-, hbefore⟩, ⟨hafter, -⟩⟩ := hboth
  omega

end LeoNdn.RunLengths
