import LeoNdn.Histories
import LeoNdn.InterSatelliteLinks
import Mathlib.Data.List.MinMax

/-!
The access satellites of the ground stations, epoch by epoch, as the lazy
strategies determine them. A satellite is known by its place in `satArray`.
-/

namespace LeoNdn.AccessSatellites

open LeoNdn.InterSatelliteLinks LeoNdn.Histories

structure Satellite where
  orbitNum : ℕ
  satNum : ℕ
  deriving DecidableEq, Repr

def Satellite.id (sat : Satellite) : String := getSatId sat.orbitNum sat.satNum

/-- What the strategies read of a constellation. -/
structure Constellation (δ : Type) where
  NUM_ORBITS : ℕ
  NUM_SATS_PER_ORBIT : ℕ
  SIM_PERIOD : ℕ
  MAX_DISTANCE : δ

section Strategies

variable {γ δ : Type} [LinearOrder δ] (c : Constellation δ)

/-- The satellites in the order in which they are created. -/
def Constellation.satDict : List Satellite :=
  (List.range c.NUM_ORBITS).flatMap fun orbitNum => (List.range c.NUM_SATS_PER_ORBIT).map (Satellite.mk orbitNum)

variable (dists : Satellite → ℕ → δ)

def Visible (t : ℕ) (sat : Satellite) : Prop := dists sat t < c.MAX_DISTANCE

instance (t : ℕ) (sat : Satellite) : Decidable (Visible c dists t sat) :=
  inferInstanceAs (Decidable (dists sat t < c.MAX_DISTANCE))

/-- The body of the loop of `getClosest`. -/
def closerInDict (t : ℕ) (best : Option (Satellite × δ)) (sat : Satellite) : Option (Satellite × δ) :=
  match best with
  | none => some (sat, dists sat t)
  | some (tSat, minDist) =>
    if dists sat t < c.MAX_DISTANCE ∧ dists sat t < minDist then some (sat, dists sat t) else some (tSat, minDist)

def getClosest (t : ℕ) : Option Satellite := (c.satDict.foldl (closerInDict c dists t) none).map Prod.fst

def orderedSatNums (satNum : ℕ) : List ℕ :=
  if satNum = 0 then (c.NUM_SATS_PER_ORBIT - 1) :: List.range' 1 (c.NUM_SATS_PER_ORBIT - 1 - 1)
  else if satNum = c.NUM_SATS_PER_ORBIT - 1 then (satNum - 1) :: List.range (satNum - 2)
  else (satNum - 1) :: (List.range' (satNum + 1) (c.NUM_SATS_PER_ORBIT - 1 - (satNum + 1)) ++ List.range (satNum - 1))

/-- The body of the loop of `getOrbitClosest`. -/
def closerInOrbit (t : ℕ) (best : Option (Satellite × δ)) (sat : Satellite) : Option (Satellite × δ) :=
  if dists sat t < c.MAX_DISTANCE then
    match best with
    | none => some (sat, dists sat t)
    | some (tSat, minDist) => if dists sat t < minDist then some (sat, dists sat t) else some (tSat, minDist)
  else best

def getOrbitClosest (lastSat : Satellite) (t : ℕ) : Option Satellite :=
  (((orderedSatNums c lastSat.satNum).map (Satellite.mk lastSat.orbitNum)).foldl (closerInOrbit c dists t) none).map
    Prod.fst

def lastAttachment (gtAttachments : List (Option Satellite)) : Option Satellite := gtAttachments.getLast?.join

def nextLazy (gtAttachments : List (Option Satellite)) (t : ℕ) : Option Satellite :=
  match lastAttachment gtAttachments with
  | some lastSat => if dists lastSat t < c.MAX_DISTANCE then some lastSat else getClosest c dists t
  | none => none

def nextOrbitLazy (gtAttachments : List (Option Satellite)) (t : ℕ) : Option Satellite :=
  let tSat :=
    match lastAttachment gtAttachments with
    | some lastSat => if dists lastSat t < c.MAX_DISTANCE then some lastSat else getOrbitClosest c dists lastSat t
    | none => none
  match tSat with
  | some sat => some sat
  | none => getClosest c dists t

variable (gtDict : List γ) (distsOf : γ → Satellite → ℕ → δ)

def closestLazy : List (γ × List (Option Satellite)) :=
  gtDict.map fun gtId => (gtId, history (nextLazy c (distsOf gtId)) c.SIM_PERIOD)

def orbitClosestLazy : List (γ × List (Option Satellite)) :=
  gtDict.map fun gtId => (gtId, history (nextOrbitLazy c (distsOf gtId)) c.SIM_PERIOD)

end Strategies

section Searches

variable {δ : Type} [LinearOrder δ] {c : Constellation δ} {dists : Satellite → ℕ → δ} {t : ℕ} {sat : Satellite}

omit [LinearOrder δ] in
theorem mem_satDict : sat ∈ c.satDict ↔ sat.orbitNum < c.NUM_ORBITS ∧ sat.satNum < c.NUM_SATS_PER_ORBIT := by
  obtain ⟨orbitNum, satNum⟩ := sat
  simp [Constellation.satDict]

def visibleOf (c : Constellation δ) (dists : Satellite → ℕ → δ) (t : ℕ) (sats : List Satellite) : List Satellite :=
  sats.filter (fun sat => Visible c dists t sat)

theorem mem_visibleOf {sats : List Satellite} :
    sat ∈ visibleOf c dists t sats ↔ sat ∈ sats ∧ Visible c dists t sat := by
  rw [visibleOf, List.mem_filter, decide_eq_true_iff]

theorem visibleOf_concat (sats : List Satellite) (sat : Satellite) :
    visibleOf c dists t (sats ++ [sat]) =
      visibleOf c dists t sats ++ if Visible c dists t sat then [sat] else [] := by
  rw [visibleOf, List.filter_append, List.filter_singleton]
  congr 1
  by_cases h : Visible c dists t sat <;> simp [h]

theorem foldl_closerInOrbit (sats : List Satellite) : sats.foldl (closerInOrbit c dists t) none =
    ((visibleOf c dists t sats).argmin (fun sat => dists sat t)).map (fun sat => (sat, dists sat t)) := by
  induction sats using List.reverseRecOn with
  | nil => rfl
  | append_singleton sats sat ih =>
    rw [List.foldl_append, List.foldl_cons, List.foldl_nil, ih, visibleOf_concat]
    unfold closerInOrbit
    by_cases hvisible : Visible c dists t sat
    · have hdist : dists sat t < c.MAX_DISTANCE := hvisible
      rw [if_pos hdist, if_pos hvisible, List.argmin_concat]
      cases (visibleOf c dists t sats).argmin (fun sat => dists sat t) with
      | none => rfl
      | some best =>
        simp only [Option.map_some]
        split <;> rfl
    · have hdist : ¬ dists sat t < c.MAX_DISTANCE := hvisible
      rw [if_neg hdist, if_neg hvisible, List.append_nil]

theorem getOrbitClosest_eq (lastSat : Satellite) (t : ℕ) : getOrbitClosest c dists lastSat t =
    (visibleOf c dists t ((orderedSatNums c lastSat.satNum).map (Satellite.mk lastSat.orbitNum))).argmin
      (fun sat => dists sat t) := by
  rw [getOrbitClosest, foldl_closerInOrbit, Option.map_map]
  exact Option.map_id'

theorem foldl_closerInDict (sats : List Satellite) : sats.foldl (closerInDict c dists t) none =
    (((visibleOf c dists t sats).argmin (fun sat => dists sat t)).or sats.head?).map (fun sat => (sat, dists sat t)) := by
  induction sats using List.reverseRecOn with
  | nil => rfl
  | append_singleton sats sat ih =>
    rw [List.foldl_append, List.foldl_cons, List.foldl_nil, ih, visibleOf_concat]
    unfold closerInDict
    cases hbest : (visibleOf c dists t sats).argmin (fun sat => dists sat t) with
    | some best =>
      have hmem := (mem_visibleOf.mp (List.argmin_mem hbest)).2
      by_cases hvisible : Visible c dists t sat
      · rw [if_pos hvisible, List.argmin_concat, hbest]
        simp only [Option.some_or, Option.map_some]
        by_cases hlt : dists sat t < dists best t
        · rw [if_pos ⟨hvisible, hlt⟩, if_pos hlt]
          rfl
        · rw [if_neg (fun h => hlt h.2), if_neg hlt]
          rfl
      · rw [if_neg hvisible, List.append_nil, hbest]
        simp only [Option.some_or, Option.map_some]
        rw [if_neg (fun h => hvisible h.1)]
    | none =>
      rw [List.argmin_eq_none] at hbest
      rw [hbest, List.nil_append]
      cases sats with
      | nil =>
        by_cases hvisible : Visible c dists t sat
        · rw [if_pos hvisible]
          rfl
        · rw [if_neg hvisible]
          rfl
      | cons first sats =>
        have hfirst : ¬ Visible c dists t first := by
          intro h
          have hmem : first ∈ visibleOf c dists t (first :: sats) := mem_visibleOf.mpr ⟨List.mem_cons_self, h⟩
          rw [hbest] at hmem
          cases hmem
        simp only [List.head?_cons, Option.none_or, Option.map_some, List.cons_append]
        by_cases hvisible : Visible c dists t sat
        · rw [if_pos ⟨hvisible, lt_of_lt_of_le hvisible (not_lt.mp hfirst)⟩, if_pos hvisible]
          rfl
        · rw [if_neg (fun h => hvisible h.1), if_neg hvisible]
          rfl

theorem getClosest_eq (t : ℕ) : getClosest c dists t =
    ((visibleOf c dists t c.satDict).argmin (fun sat => dists sat t)).or c.satDict.head? := by
  rw [getClosest, foldl_closerInDict, Option.map_map]
  exact Option.map_id'

theorem getClosest_visible (h : ∃ sat ∈ c.satDict, Visible c dists t sat) :
    ∃ sat ∈ c.satDict, getClosest c dists t = some sat ∧ Visible c dists t sat ∧
      (visibleOf c dists t c.satDict).argmin (fun sat => dists sat t) = some sat := by
  obtain ⟨other, hmem, hvisible⟩ := h
  cases hbest : (visibleOf c dists t c.satDict).argmin (fun sat => dists sat t) with
  | none =>
    have hother : other ∈ visibleOf c dists t c.satDict := mem_visibleOf.mpr ⟨hmem, hvisible⟩
    rw [List.argmin_eq_none.mp hbest] at hother
    cases hother
  | some sat =>
    obtain ⟨hsat, hsatVisible⟩ := mem_visibleOf.mp (List.argmin_mem hbest)
    exact ⟨sat, hsat, by rw [getClosest_eq, hbest, Option.some_or], hsatVisible, rfl⟩

theorem getClosest_invisible (h : ∀ sat ∈ c.satDict, ¬ Visible c dists t sat) :
    getClosest c dists t = c.satDict.head? := by
  have hnone : visibleOf c dists t c.satDict = [] := by
    rw [List.eq_nil_iff_forall_not_mem]
    intro sat hsat
    obtain ⟨hmem, hvisible⟩ := mem_visibleOf.mp hsat
    exact h sat hmem hvisible
  rw [getClosest_eq, hnone, List.argmin_nil, Option.none_or]

theorem getClosest_mem (h : getClosest c dists t = some sat) : sat ∈ c.satDict := by
  by_cases hvisible : ∃ sat ∈ c.satDict, Visible c dists t sat
  · obtain ⟨other, hmem, hother, -, -⟩ := getClosest_visible hvisible
    rw [hother, Option.some_inj] at h
    rwa [← h]
  · rw [getClosest_invisible (by simpa using hvisible)] at h
    exact List.mem_of_mem_head? h

variable {lastSat : Satellite} {satNum n : ℕ}

omit [LinearOrder δ] in
theorem orderedSatNums_spec (hsat : satNum < c.NUM_SATS_PER_ORBIT) (h : n ∈ orderedSatNums c satNum) :
    n < c.NUM_SATS_PER_ORBIT ∧ (n = satNum → c.NUM_SATS_PER_ORBIT = 1) := by
  unfold orderedSatNums at h
  split at h
  · rw [List.mem_cons, List.mem_range'_1] at h
    omega
  · split at h
    · rw [List.mem_cons, List.mem_range] at h
      omega
    · rw [List.mem_cons, List.mem_append, List.mem_range'_1, List.mem_range] at h
      omega

/-- The satellite that the search in the orbit leaves out. -/
def skipped (c : Constellation δ) (satNum : ℕ) : Option ℕ :=
  if satNum = 0 then none
  else if satNum = c.NUM_SATS_PER_ORBIT - 1 then if 2 < c.NUM_SATS_PER_ORBIT then some (satNum - 2) else none
  else some (c.NUM_SATS_PER_ORBIT - 1)

omit [LinearOrder δ] in
theorem skipped_lt (hsat : satNum < c.NUM_SATS_PER_ORBIT) (h : skipped c satNum = some n) :
    n < c.NUM_SATS_PER_ORBIT := by
  unfold skipped at h
  split at h
  · cases h
  · split at h
    · split at h
      · rw [Option.some_inj] at h
        omega
      · cases h
    · rw [Option.some_inj] at h
      omega

omit [LinearOrder δ] in
theorem mem_orderedSatNums (hn : n < c.NUM_SATS_PER_ORBIT) (hne : n ≠ satNum) (hskipped : skipped c satNum ≠ some n) :
    n ∈ orderedSatNums c satNum := by
  unfold orderedSatNums
  unfold skipped at hskipped
  split
  · rw [List.mem_cons, List.mem_range'_1]
    omega
  · rename_i hzero
    rw [if_neg hzero] at hskipped
    split
    · rename_i hlast
      rw [if_pos hlast] at hskipped
      rw [List.mem_cons, List.mem_range]
      split at hskipped
      · rw [Ne, Option.some_inj] at hskipped
        omega
      · omega
    · rename_i hlast
      rw [if_neg hlast, Ne, Option.some_inj] at hskipped
      rw [List.mem_cons, List.mem_append, List.mem_range'_1, List.mem_range]
      omega

theorem getOrbitClosest_some (h : getOrbitClosest c dists lastSat t = some sat) :
    (∃ n ∈ orderedSatNums c lastSat.satNum, sat = ⟨lastSat.orbitNum, n⟩) ∧ Visible c dists t sat ∧
      ∀ n ∈ orderedSatNums c lastSat.satNum, Visible c dists t ⟨lastSat.orbitNum, n⟩ →
        dists sat t ≤ dists ⟨lastSat.orbitNum, n⟩ t := by
  rw [getOrbitClosest_eq] at h
  obtain ⟨hmem, hvisible⟩ := mem_visibleOf.mp (List.argmin_mem h)
  obtain ⟨n, hn, rfl⟩ := List.mem_map.mp hmem
  refine ⟨⟨n, hn, rfl⟩, hvisible, fun other hother hotherVisible => ?_⟩
  apply List.le_of_mem_argmin (mem_visibleOf.mpr ⟨List.mem_map_of_mem hother, hotherVisible⟩) h

theorem getOrbitClosest_none : getOrbitClosest c dists lastSat t = none ↔
    ∀ n ∈ orderedSatNums c lastSat.satNum, ¬ Visible c dists t ⟨lastSat.orbitNum, n⟩ := by
  rw [getOrbitClosest_eq, List.argmin_eq_none, List.eq_nil_iff_forall_not_mem]
  constructor
  · intro h n hn hvisible
    exact h _ (mem_visibleOf.mpr ⟨List.mem_map_of_mem hn, hvisible⟩)
  · intro h sat hsat
    obtain ⟨hmem, hvisible⟩ := mem_visibleOf.mp hsat
    obtain ⟨n, hn, rfl⟩ := List.mem_map.mp hmem
    exact h n hn hvisible

end Searches

section Epochs

variable {γ δ : Type} [LinearOrder δ] (c : Constellation δ) (dists : Satellite → ℕ → δ) (t : ℕ)

def attachmentAt (gtAttachments : List (Option Satellite)) (t : ℕ) : Option Satellite := gtAttachments[t]?.join

def attachmentBefore (gtAttachments : List (Option Satellite)) : ℕ → Option Satellite
  | 0 => none
  | t + 1 => attachmentAt gtAttachments t

/-- What is asked of an epoch of "closest lazy". -/
structure ClosestLazyAt (previous current : Option Satellite) : Prop where
  attached : (∃ sat ∈ c.satDict, Visible c dists t sat) →
    ∃ sat ∈ c.satDict, current = some sat ∧ Visible c dists t sat
  kept : ∀ sat, previous = some sat → Visible c dists t sat → current = some sat
  closest : (∀ sat, previous = some sat → ¬ Visible c dists t sat) → ∀ sat, current = some sat →
    ∀ other ∈ c.satDict, Visible c dists t other → dists sat t ≤ dists other t
  detached : current = none ↔ ∀ sat ∈ c.satDict, ¬ Visible c dists t sat

/-- What is asked of an epoch of "orbit closest lazy". -/
structure OrbitClosestLazyAt (previous current : Option Satellite) : Prop where
  lazy : ∀ lastSat, previous = some lastSat → current ≠ some lastSat → ¬ Visible c dists t lastSat
  orbit : ∀ lastSat, previous = some lastSat → current ≠ some lastSat → ∀ other ∈ c.satDict,
    other.orbitNum = lastSat.orbitNum → Visible c dists t other →
      ∃ sat, current = some sat ∧ Visible c dists t sat ∧ sat.orbitNum = lastSat.orbitNum ∧ dists sat t ≤ dists other t
  attached : (∃ sat ∈ c.satDict, Visible c dists t sat) →
    ∃ sat ∈ c.satDict, current = some sat ∧ Visible c dists t sat
  detached : (∀ sat ∈ c.satDict, ¬ Visible c dists t sat) → current = none

/-- The satellite that the search in the orbit leaves out would not be chosen,
or it is also found as the closest of all. -/
def SearchSuffices (lastSat : Satellite) : Prop :=
  ∀ n, skipped c lastSat.satNum = some n → Visible c dists t ⟨lastSat.orbitNum, n⟩ →
    (∃ other ∈ orderedSatNums c lastSat.satNum, Visible c dists t ⟨lastSat.orbitNum, other⟩ ∧
      dists ⟨lastSat.orbitNum, other⟩ t ≤ dists ⟨lastSat.orbitNum, n⟩ t) ∨
    ((∀ other ∈ orderedSatNums c lastSat.satNum, ¬ Visible c dists t ⟨lastSat.orbitNum, other⟩) ∧
      (visibleOf c dists t c.satDict).argmin (fun sat => dists sat t) = some ⟨lastSat.orbitNum, n⟩)

/-- The epochs whose attachment is determined as asked: the last satellite is
still within reach; or another one is, and the searches find the right one. -/
def Determined (previous : Option Satellite) : Prop :=
  (∃ lastSat, previous = some lastSat ∧ Visible c dists t lastSat) ∨
    ((∃ sat ∈ c.satDict, Visible c dists t sat) ∨ c.satDict = []) ∧
      ∀ lastSat, previous = some lastSat → SearchSuffices c dists t lastSat

end Epochs

section ClosestLazy

variable {γ δ : Type} [LinearOrder δ] {c : Constellation δ} {dists : Satellite → ℕ → δ} {t epochs : ℕ}

theorem attachmentAt_replicate : attachmentAt (List.replicate epochs none) t = none := by
  rw [attachmentAt, List.getElem?_replicate]
  split <;> rfl

theorem history_nextLazy : history (nextLazy c dists) epochs = List.replicate epochs none := by
  induction epochs with
  | zero => rfl
  | succ epochs ih =>
    have hlast : lastAttachment (List.replicate epochs none) = none := by
      rw [lastAttachment, List.getLast?_replicate]
      split <;> rfl
    rw [history, ih, nextLazy, hlast, List.replicate_succ']

theorem attachmentBefore_replicate : attachmentBefore (List.replicate epochs none) t = none := by
  cases t with
  | zero => rfl
  | succ t => exact attachmentAt_replicate

/-- "Closest lazy" attaches no station, which is right where none sees a satellite. -/
theorem closestLazy_right_iff (c : Constellation δ) (gtDict : List γ) (distsOf : γ → Satellite → ℕ → δ) :
    (∀ item ∈ closestLazy c gtDict distsOf, ∀ t < c.SIM_PERIOD,
      ClosestLazyAt c (distsOf item.1) t (attachmentBefore item.2 t) (attachmentAt item.2 t)) ↔
    ∀ gtId ∈ gtDict, ∀ t < c.SIM_PERIOD, ∀ sat ∈ c.satDict, ¬ Visible c (distsOf gtId) t sat := by
  rw [closestLazy, List.forall_mem_map]
  constructor
  · intro h gtId hgtId t ht
    have hright := h gtId hgtId t ht
    rw [history_nextLazy, attachmentAt_replicate] at hright
    exact hright.detached.mp rfl
  · intro h gtId hgtId t ht
    have hinvisible := h gtId hgtId t ht
    rw [history_nextLazy, attachmentAt_replicate, attachmentBefore_replicate]
    refine ⟨?_, ?_, ?_, ?_⟩
    · rintro ⟨sat, hmem, hvisible⟩
      exact absurd hvisible (hinvisible sat hmem)
    · intro sat hsat
      cases hsat
    · intro _ sat hsat
      cases hsat
    · exact iff_of_true rfl hinvisible

def overhead : Constellation ℕ := ⟨1, 1, 1, 1⟩

theorem closestLazy_misses_overhead : ¬ ∀ item ∈ closestLazy overhead [()] (fun _ _ _ => 0), ∀ t < overhead.SIM_PERIOD,
    ClosestLazyAt overhead (fun _ _ => 0) t (attachmentBefore item.2 t) (attachmentAt item.2 t) := by
  intro h
  have hright := h ((), [none]) (by decide) 0 (by decide)
  obtain ⟨sat, -, hcurrent, -⟩ := hright.attached ⟨⟨0, 0⟩, by decide, by decide⟩
  cases hcurrent

end ClosestLazy

section OrbitClosestLazy

variable {γ δ : Type} [LinearOrder δ] {c : Constellation δ} {dists : Satellite → ℕ → δ} {t epochs : ℕ}
variable {gtAttachments : List (Option Satellite)} {lastSat sat : Satellite}

theorem nextOrbitLazy_none (h : lastAttachment gtAttachments = none) :
    nextOrbitLazy c dists gtAttachments t = getClosest c dists t := by
  rw [nextOrbitLazy, h]

theorem nextOrbitLazy_kept (h : lastAttachment gtAttachments = some lastSat) (hvisible : Visible c dists t lastSat) :
    nextOrbitLazy c dists gtAttachments t = some lastSat := by
  have hdist : dists lastSat t < c.MAX_DISTANCE := hvisible
  rw [nextOrbitLazy, h]
  dsimp only
  rw [if_pos hdist]

theorem nextOrbitLazy_lost (h : lastAttachment gtAttachments = some lastSat) (hvisible : ¬ Visible c dists t lastSat) :
    nextOrbitLazy c dists gtAttachments t = (getOrbitClosest c dists lastSat t).or (getClosest c dists t) := by
  have hdist : ¬ dists lastSat t < c.MAX_DISTANCE := hvisible
  rw [nextOrbitLazy, h]
  dsimp only
  rw [if_neg hdist]
  cases getOrbitClosest c dists lastSat t <;> rfl

theorem getOrbitClosest_mem (hlast : lastSat ∈ c.satDict) (h : getOrbitClosest c dists lastSat t = some sat) :
    sat ∈ c.satDict := by
  obtain ⟨⟨n, hn, rfl⟩, -, -⟩ := getOrbitClosest_some h
  rw [mem_satDict] at hlast ⊢
  exact ⟨hlast.1, (orderedSatNums_spec hlast.2 hn).1⟩

theorem nextOrbitLazy_mem (hlast : ∀ lastSat, lastAttachment gtAttachments = some lastSat → lastSat ∈ c.satDict)
    (h : nextOrbitLazy c dists gtAttachments t = some sat) : sat ∈ c.satDict := by
  cases hprevious : lastAttachment gtAttachments with
  | none =>
    rw [nextOrbitLazy_none hprevious] at h
    exact getClosest_mem h
  | some lastSat =>
    by_cases hvisible : Visible c dists t lastSat
    · rw [nextOrbitLazy_kept hprevious hvisible, Option.some_inj] at h
      rw [← h]
      exact hlast lastSat hprevious
    · rw [nextOrbitLazy_lost hprevious hvisible] at h
      rcases Option.or_eq_some_iff.mp h with horbit | ⟨-, hclosest⟩
      · exact getOrbitClosest_mem (hlast lastSat hprevious) horbit
      · exact getClosest_mem hclosest

theorem orbitClosestLazyAt_none (hprevious : lastAttachment gtAttachments = none) :
    OrbitClosestLazyAt c dists t none (nextOrbitLazy c dists gtAttachments t) ↔ Determined c dists t none := by
  rw [nextOrbitLazy_none hprevious]
  constructor
  · intro h
    refine Or.inr ⟨?_, fun lastSat hlast => by cases hlast⟩
    by_cases hvisible : ∃ sat ∈ c.satDict, Visible c dists t sat
    · exact Or.inl hvisible
    · have hinvisible : ∀ sat ∈ c.satDict, ¬ Visible c dists t sat := by simpa using hvisible
      have hnone := h.detached hinvisible
      rw [getClosest_invisible hinvisible] at hnone
      exact Or.inr (List.head?_eq_none_iff.mp hnone)
  · intro h
    have hsome : (∃ sat ∈ c.satDict, Visible c dists t sat) ∨ c.satDict = [] := by
      rcases h with ⟨lastSat, hlast, -⟩ | h
      · cases hlast
      · exact h.1
    refine ⟨fun lastSat hlast => (by cases hlast), fun lastSat hlast => (by cases hlast), ?_, ?_⟩
    · intro hvisible
      obtain ⟨sat, hmem, hsat, hsatVisible, -⟩ := getClosest_visible hvisible
      exact ⟨sat, hmem, hsat, hsatVisible⟩
    · intro hinvisible
      rcases hsome with ⟨sat, hmem, hvisible⟩ | hempty
      · exact absurd hvisible (hinvisible sat hmem)
      · rw [getClosest_invisible hinvisible, hempty]
        rfl

theorem tried_or_skipped (hinvisible : ¬ Visible c dists t lastSat) (hmem : sat ∈ c.satDict)
    (horbit : sat.orbitNum = lastSat.orbitNum) (hvisible : Visible c dists t sat) :
    sat = ⟨lastSat.orbitNum, sat.satNum⟩ ∧
      (sat.satNum ∈ orderedSatNums c lastSat.satNum ∨ skipped c lastSat.satNum = some sat.satNum) := by
  have hsat : sat = ⟨lastSat.orbitNum, sat.satNum⟩ := by rw [← horbit]
  refine ⟨hsat, ?_⟩
  by_cases hskipped : skipped c lastSat.satNum = some sat.satNum
  · exact Or.inr hskipped
  · refine Or.inl (mem_orderedSatNums (mem_satDict.mp hmem).2 ?_ hskipped)
    intro heq
    rw [heq] at hsat
    have hsame : sat = lastSat := hsat
    rw [hsame] at hvisible
    exact hinvisible hvisible

theorem nextOrbitLazy_attached (hlast : lastSat ∈ c.satDict) (hprevious : lastAttachment gtAttachments = some lastSat)
    (hinvisible : ¬ Visible c dists t lastSat) (hsome : ∃ sat ∈ c.satDict, Visible c dists t sat) :
    ∃ sat ∈ c.satDict, nextOrbitLazy c dists gtAttachments t = some sat ∧ Visible c dists t sat := by
  rw [nextOrbitLazy_lost hprevious hinvisible]
  cases horbit : getOrbitClosest c dists lastSat t with
  | some found =>
    obtain ⟨-, hfound, -⟩ := getOrbitClosest_some horbit
    exact ⟨found, getOrbitClosest_mem hlast horbit, Option.some_or, hfound⟩
  | none =>
    obtain ⟨closest, hmem, hclosest, hvisible, -⟩ := getClosest_visible hsome
    exact ⟨closest, hmem, by rw [Option.none_or, hclosest], hvisible⟩

theorem nextOrbitLazy_orbit (hprevious : lastAttachment gtAttachments = some lastSat)
    (hinvisible : ¬ Visible c dists t lastSat) (hsome : ∃ sat ∈ c.satDict, Visible c dists t sat)
    (hsuffices : SearchSuffices c dists t lastSat) (hmem : sat ∈ c.satDict) (hsame : sat.orbitNum = lastSat.orbitNum)
    (hvisible : Visible c dists t sat) :
    ∃ found, nextOrbitLazy c dists gtAttachments t = some found ∧ Visible c dists t found ∧
      found.orbitNum = lastSat.orbitNum ∧ dists found t ≤ dists sat t := by
  obtain ⟨heq, htried⟩ := tried_or_skipped hinvisible hmem hsame hvisible
  rw [nextOrbitLazy_lost hprevious hinvisible]
  rw [heq] at hvisible ⊢
  cases horbit : getOrbitClosest c dists lastSat t with
  | some found =>
    obtain ⟨⟨m, hm, rfl⟩, hfound, hle⟩ := getOrbitClosest_some horbit
    refine ⟨⟨lastSat.orbitNum, m⟩, Option.some_or, hfound, rfl, ?_⟩
    rcases htried with htried | hleft
    · exact hle _ htried hvisible
    · rcases hsuffices _ hleft hvisible with ⟨n, hn, hnVisible, hcloser⟩ | ⟨hnone, -⟩
      · exact (hle n hn hnVisible).trans hcloser
      · exact absurd hfound (hnone m hm)
  | none =>
    have hnone := getOrbitClosest_none.mp horbit
    rcases htried with htried | hleft
    · exact absurd hvisible (hnone _ htried)
    · rcases hsuffices _ hleft hvisible with ⟨n, hn, hnVisible, -⟩ | ⟨-, hfirst⟩
      · exact absurd hnVisible (hnone n hn)
      · obtain ⟨closest, -, hclosest, hclosestVisible, hargmin⟩ := getClosest_visible hsome
        rw [hargmin, Option.some_inj] at hfirst
        exact ⟨closest, by rw [Option.none_or, hclosest], hclosestVisible, by rw [hfirst], by rw [hfirst]⟩

theorem searchSuffices_of_lost (hlast : lastSat ∈ c.satDict) (hprevious : lastAttachment gtAttachments = some lastSat)
    (hinvisible : ¬ Visible c dists t lastSat) (hsome : ∃ sat ∈ c.satDict, Visible c dists t sat)
    (h : OrbitClosestLazyAt c dists t (some lastSat) (nextOrbitLazy c dists gtAttachments t)) :
    SearchSuffices c dists t lastSat := by
  intro n hskipped hvisible
  obtain ⟨closest, hclosestMem, hclosest, hclosestVisible, hargmin⟩ := getClosest_visible hsome
  have hvalue := nextOrbitLazy_lost (c := c) (t := t) hprevious hinvisible
  obtain ⟨sat, -, hcurrent, hsatVisible⟩ := h.attached hsome
  have hne : nextOrbitLazy c dists gtAttachments t ≠ some lastSat := by
    rw [hcurrent, Ne, Option.some_inj]
    rintro rfl
    exact hinvisible hsatVisible
  have hn : (⟨lastSat.orbitNum, n⟩ : Satellite) ∈ c.satDict :=
    mem_satDict.mpr ⟨(mem_satDict.mp hlast).1, skipped_lt (mem_satDict.mp hlast).2 hskipped⟩
  obtain ⟨other, hother, -, hsame, hle⟩ := h.orbit lastSat rfl hne _ hn rfl hvisible
  cases horbit : getOrbitClosest c dists lastSat t with
  | some found =>
    obtain ⟨⟨m, hm, rfl⟩, hfound, -⟩ := getOrbitClosest_some horbit
    rw [hvalue, horbit, Option.some_or, Option.some_inj] at hother
    rw [← hother] at hle
    exact Or.inl ⟨m, hm, hfound, hle⟩
  | none =>
    have hnone := getOrbitClosest_none.mp horbit
    rw [hvalue, horbit, Option.none_or, hclosest, Option.some_inj] at hother
    subst hother
    obtain ⟨heq, htried | hleft⟩ := tried_or_skipped hinvisible hclosestMem hsame hclosestVisible
    · rw [heq] at hclosestVisible
      exact absurd hclosestVisible (hnone _ htried)
    · rw [hskipped, Option.some_inj] at hleft
      rw [← hleft] at heq
      exact Or.inr ⟨hnone, by rw [hargmin, heq]⟩

theorem orbitClosestLazyAt_lost (hlast : lastSat ∈ c.satDict) (hprevious : lastAttachment gtAttachments = some lastSat)
    (hinvisible : ¬ Visible c dists t lastSat) (hsome : ∃ sat ∈ c.satDict, Visible c dists t sat) :
    OrbitClosestLazyAt c dists t (some lastSat) (nextOrbitLazy c dists gtAttachments t) ↔
      SearchSuffices c dists t lastSat := by
  refine ⟨searchSuffices_of_lost hlast hprevious hinvisible hsome, fun h => ⟨?_, ?_, fun _ => ?_, fun hnone => ?_⟩⟩
  · rintro _ ⟨⟩ -
    exact hinvisible
  · rintro _ ⟨⟩ - other hmem hsame hvisible
    exact nextOrbitLazy_orbit hprevious hinvisible hsome h hmem hsame hvisible
  · exact nextOrbitLazy_attached hlast hprevious hinvisible hsome
  · obtain ⟨sat, hmem, hvisible⟩ := hsome
    exact absurd hvisible (hnone sat hmem)

theorem orbitClosestLazyAt_iff (hlast : ∀ lastSat, lastAttachment gtAttachments = some lastSat → lastSat ∈ c.satDict) :
    OrbitClosestLazyAt c dists t (lastAttachment gtAttachments) (nextOrbitLazy c dists gtAttachments t) ↔
      Determined c dists t (lastAttachment gtAttachments) := by
  cases hprevious : lastAttachment gtAttachments with
  | none => exact orbitClosestLazyAt_none hprevious
  | some lastSat =>
    have hmem := hlast lastSat hprevious
    by_cases hvisible : Visible c dists t lastSat
    · refine iff_of_true ?_ (Or.inl ⟨lastSat, rfl, hvisible⟩)
      rw [nextOrbitLazy_kept hprevious hvisible]
      refine ⟨?_, ?_, ?_, ?_⟩
      · rintro _ ⟨⟩ hne
        exact absurd rfl hne
      · rintro _ ⟨⟩ hne
        exact absurd rfl hne
      · exact fun _ => ⟨lastSat, hmem, rfl, hvisible⟩
      · exact fun hnone => absurd hvisible (hnone lastSat hmem)
    · by_cases hsome : ∃ sat ∈ c.satDict, Visible c dists t sat
      · rw [orbitClosestLazyAt_lost hmem hprevious hvisible hsome]
        constructor
        · intro h
          refine Or.inr ⟨Or.inl hsome, ?_⟩
          rintro _ ⟨⟩
          exact h
        · rintro (⟨_, ⟨⟩, hkept⟩ | h)
          · exact absurd hkept hvisible
          · exact h.2 lastSat rfl
      · have hinvisible : ∀ sat ∈ c.satDict, ¬ Visible c dists t sat := by simpa using hsome
        refine iff_of_false ?_ ?_
        · intro h
          have hnone := h.detached hinvisible
          rw [nextOrbitLazy_lost hprevious hvisible, Option.or_eq_none_iff, getClosest_invisible hinvisible,
            List.head?_eq_none_iff] at hnone
          rw [hnone.2] at hmem
          cases hmem
        · rintro (⟨_, ⟨⟩, hkept⟩ | ⟨hreach | hempty, -⟩)
          · exact hvisible hkept
          · exact hsome hreach
          · rw [hempty] at hmem
            cases hmem

theorem lastAttachment_history (ht : t < epochs) {next : List (Option Satellite) → ℕ → Option Satellite} :
    lastAttachment (history next t) = attachmentBefore (history next epochs) t := by
  cases t with
  | zero => rfl
  | succ t =>
    rw [lastAttachment, getLast?_history ht]
    rfl

theorem attachmentAt_history (ht : t < epochs) {next : List (Option Satellite) → ℕ → Option Satellite} :
    attachmentAt (history next epochs) t = next (history next t) t := by
  rw [attachmentAt, getElem?_history ht]
  rfl

theorem history_nextOrbitLazy_mem (ht : t < epochs)
    (h : attachmentAt (history (nextOrbitLazy c dists) epochs) t = some sat) : sat ∈ c.satDict := by
  have hall := forall_history (nextOrbitLazy c dists) epochs
    (P := fun _ value => ∀ sat, value = some sat → sat ∈ c.satDict) ?_
  · rw [attachmentAt_history ht] at h
    exact hall t ht _ (getElem?_history ht) sat h
  · intro t hbefore sat hsat
    apply nextOrbitLazy_mem ?_ hsat
    intro lastSat hlast
    cases t with
    | zero => cases hlast
    | succ t =>
      rw [lastAttachment, history, List.getLast?_append, List.getLast?_singleton] at hlast
      exact hbefore t (Nat.lt_succ_self t) _ (getElem?_history (Nat.lt_succ_self t)) lastSat hlast

/-- The epochs of "orbit closest lazy" are as asked if and only if each finds a
satellite within reach, and the search in the orbit does not miss the closest. -/
theorem orbitClosestLazy_right_iff {γ : Type} (c : Constellation δ) (gtDict : List γ)
    (distsOf : γ → Satellite → ℕ → δ) :
    (∀ item ∈ orbitClosestLazy c gtDict distsOf, ∀ t < c.SIM_PERIOD,
      OrbitClosestLazyAt c (distsOf item.1) t (attachmentBefore item.2 t) (attachmentAt item.2 t)) ↔
    ∀ item ∈ orbitClosestLazy c gtDict distsOf, ∀ t < c.SIM_PERIOD,
      Determined c (distsOf item.1) t (attachmentBefore item.2 t) := by
  rw [orbitClosestLazy, List.forall_mem_map, List.forall_mem_map]
  refine forall_congr' fun gtId => forall_congr' fun _ => forall_congr' fun t => forall_congr' fun ht => ?_
  dsimp only
  rw [← lastAttachment_history ht, attachmentAt_history ht]
  apply orbitClosestLazyAt_iff
  intro lastSat hlast
  rw [lastAttachment_history ht] at hlast
  cases t with
  | zero => cases hlast
  | succ t => exact history_nextOrbitLazy_mem (Nat.lt_of_succ_lt ht) hlast

/-- Four satellites in one orbit; the station loses the first of them. -/
def oneOrbit : Constellation ℕ := ⟨1, 4, 2, 10⟩

/-- The first satellite is the closest of all at first, then the second and the
last come within reach, and the last is closer. -/
def losingDists (sat : Satellite) (t : ℕ) : ℕ :=
  if t = 0 then (if sat.satNum = 1 then 5 else 20) else if sat.satNum = 0 then 8 else if sat.satNum = 3 then 2 else 20

/-- A station that sees no satellite is attached to the first one, and the last
satellite of an orbit is not tried. -/
theorem orbitClosestLazy_misses :
    (¬ ∀ item ∈ orbitClosestLazy overhead [()] (fun _ _ _ => 5), ∀ t < overhead.SIM_PERIOD,
      OrbitClosestLazyAt overhead (fun _ _ => 5) t (attachmentBefore item.2 t) (attachmentAt item.2 t)) ∧
    ¬ ∀ item ∈ orbitClosestLazy oneOrbit [()] (fun _ => losingDists), ∀ t < oneOrbit.SIM_PERIOD,
      OrbitClosestLazyAt oneOrbit losingDists t (attachmentBefore item.2 t) (attachmentAt item.2 t) := by
  constructor
  · intro h
    have hright := h ((), [some ⟨0, 0⟩]) (by decide) 0 (by decide)
    have hnone := hright.detached (by decide)
    cases hnone
  · intro h
    have hright := h ((), [some ⟨0, 1⟩, some ⟨0, 0⟩]) (by decide) 1 (by decide)
    obtain ⟨sat, hsat, -, -, hle⟩ := hright.orbit ⟨0, 1⟩ rfl (by decide) ⟨0, 3⟩ (by decide) rfl (by decide)
    cases hsat
    exact absurd hle (by decide)

end OrbitClosestLazy

end LeoNdn.AccessSatellites
