import LeoNdn.AccessSatellites

/-!
The searches for the closest satellite: among all of them, in any order, and in
the orbit of the last one; and the strategy "closest active".
-/

namespace LeoNdn.ClosestSatellites

open LeoNdn.AccessSatellites

section Definitions

variable {γ δ : Type} [LinearOrder δ] (c : Constellation δ) (dists : Satellite → ℕ → δ)

/-- `getClosest`, with the satellites in any order. -/
def getClosestOf (satDict : List Satellite) (t : ℕ) : Option Satellite :=
  (satDict.foldl (closerInDict c dists t) none).map Prod.fst

def closestActive (satDict : List Satellite) (gtDict : List γ) (distsOf : γ → Satellite → ℕ → δ) :
    List (γ × List (Option Satellite)) :=
  gtDict.map fun gtId => (gtId, (List.range c.SIM_PERIOD).map (getClosestOf c (distsOf gtId) satDict))

/-- A satellite of least distance among those of `sats` within reach, or none where none is. -/
structure IsClosest (sats : Set Satellite) (t : ℕ) (result : Option Satellite) : Prop where
  attached : ∀ sat, result = some sat → sat ∈ sats ∧ Visible c dists t sat ∧
    ∀ other ∈ sats, Visible c dists t other → dists sat t ≤ dists other t
  detached : result = none ↔ ∀ sat ∈ sats, ¬ Visible c dists t sat

def orbitOthers (lastSat : Satellite) : Set Satellite :=
  {sat | sat ∈ c.satDict ∧ sat.orbitNum = lastSat.orbitNum ∧ sat ≠ lastSat}

/-- The satellite that the search leaves out is out of reach, or another one is not farther. -/
def SkipsNone (lastSat : Satellite) (t : ℕ) : Prop :=
  ∀ n, skipped c lastSat.satNum = some n → Visible c dists t ⟨lastSat.orbitNum, n⟩ →
    ∃ sat ∈ orbitOthers c lastSat, sat.satNum ≠ n ∧ Visible c dists t sat ∧ dists sat t ≤ dists ⟨lastSat.orbitNum, n⟩ t

end Definitions

section Orbit

variable {δ : Type} [LinearOrder δ] {c : Constellation δ} {dists : Satellite → ℕ → δ} {t : ℕ} {lastSat sat : Satellite}

omit [LinearOrder δ] in
theorem skipped_spec {satNum n : ℕ} (hlarge : 3 ≤ c.NUM_SATS_PER_ORBIT) (hsat : satNum < c.NUM_SATS_PER_ORBIT)
    (h : skipped c satNum = some n) : n < c.NUM_SATS_PER_ORBIT ∧ n ≠ satNum ∧ n ∉ orderedSatNums c satNum := by
  unfold skipped at h
  unfold orderedSatNums
  split at h
  · cases h
  · rename_i hzero
    rw [if_neg hzero]
    split at h
    · rename_i hend
      rw [if_pos (by omega), Option.some_inj] at h
      rw [if_pos hend, List.mem_cons, List.mem_range]
      omega
    · rename_i hend
      rw [Option.some_inj] at h
      rw [if_neg hend, List.mem_cons, List.mem_append, List.mem_range'_1, List.mem_range]
      omega

omit [LinearOrder δ] in
theorem mem_orderedSatNums_iff {satNum n : ℕ} (hlarge : 3 ≤ c.NUM_SATS_PER_ORBIT)
    (hsat : satNum < c.NUM_SATS_PER_ORBIT) :
    n ∈ orderedSatNums c satNum ↔ n < c.NUM_SATS_PER_ORBIT ∧ n ≠ satNum ∧ skipped c satNum ≠ some n := by
  constructor
  · intro h
    obtain ⟨hlt, hself⟩ := orderedSatNums_spec hsat h
    refine ⟨hlt, fun heq => ?_, fun hskipped => (skipped_spec hlarge hsat hskipped).2.2 h⟩
    have hone := hself heq
    omega
  · rintro ⟨hlt, hne, hskipped⟩
    exact mem_orderedSatNums hlt hne hskipped

omit [LinearOrder δ] in
theorem mem_orbitOthers_iff (hlast : lastSat ∈ c.satDict) :
    sat ∈ orbitOthers c lastSat ↔
      sat = ⟨lastSat.orbitNum, sat.satNum⟩ ∧ sat.satNum < c.NUM_SATS_PER_ORBIT ∧ sat.satNum ≠ lastSat.satNum := by
  obtain ⟨lastOrbitNum, lastSatNum⟩ := lastSat
  obtain ⟨orbitNum, satNum⟩ := sat
  constructor
  · rintro ⟨hmem, horbit, hne⟩
    obtain rfl : orbitNum = lastOrbitNum := horbit
    exact ⟨rfl, (mem_satDict.mp hmem).2, fun heq => hne (congrArg (Satellite.mk orbitNum) heq)⟩
  · rintro ⟨heq, hlt, hne⟩
    obtain rfl : orbitNum = lastOrbitNum := congrArg Satellite.orbitNum heq
    exact ⟨mem_satDict.mpr ⟨(mem_satDict.mp hlast).1, hlt⟩, rfl, fun hsame => hne (congrArg Satellite.satNum hsame)⟩

omit [LinearOrder δ] in
theorem tried_iff (hlarge : 3 ≤ c.NUM_SATS_PER_ORBIT) (hlast : lastSat ∈ c.satDict) :
    (∃ n ∈ orderedSatNums c lastSat.satNum, sat = ⟨lastSat.orbitNum, n⟩) ↔
      sat ∈ orbitOthers c lastSat ∧ skipped c lastSat.satNum ≠ some sat.satNum := by
  rw [mem_orbitOthers_iff hlast]
  constructor
  · rintro ⟨n, hn, rfl⟩
    obtain ⟨hlt, hne, hskipped⟩ := (mem_orderedSatNums_iff hlarge (mem_satDict.mp hlast).2).mp hn
    exact ⟨⟨rfl, hlt, hne⟩, hskipped⟩
  · rintro ⟨⟨heq, hlt, hne⟩, hskipped⟩
    exact ⟨sat.satNum, mem_orderedSatNums hlt hne hskipped, heq⟩

theorem getOrbitClosest_tried (hlarge : 3 ≤ c.NUM_SATS_PER_ORBIT) (hlast : lastSat ∈ c.satDict) :
    IsClosest c dists {sat | sat ∈ orbitOthers c lastSat ∧ skipped c lastSat.satNum ≠ some sat.satNum} t
      (getOrbitClosest c dists lastSat t) := by
  constructor
  · intro sat hsat
    obtain ⟨htried, hvisible, hleast⟩ := getOrbitClosest_some hsat
    refine ⟨(tried_iff hlarge hlast).mp htried, hvisible, ?_⟩
    intro other hother hotherVisible
    obtain ⟨n, hn, rfl⟩ := (tried_iff hlarge hlast).mpr hother
    exact hleast n hn hotherVisible
  · rw [getOrbitClosest_none]
    constructor
    · intro h sat hsat hvisible
      obtain ⟨n, hn, rfl⟩ := (tried_iff hlarge hlast).mpr hsat
      exact h n hn hvisible
    · intro h n hn
      exact h _ ((tried_iff hlarge hlast).mp ⟨n, hn, rfl⟩)

end Orbit

/-- The closest one in the orbit is found if and only if the satellite that the search leaves out does not matter. -/
theorem getOrbitClosest_right_iff {δ : Type} [LinearOrder δ] (c : Constellation δ) (dists : Satellite → ℕ → δ)
    (lastSat : Satellite) (t : ℕ) (hlarge : 3 ≤ c.NUM_SATS_PER_ORBIT) (hlast : lastSat ∈ c.satDict) :
    IsClosest c dists (orbitOthers c lastSat) t (getOrbitClosest c dists lastSat t) ↔ SkipsNone c dists lastSat t := by
  have htried := @getOrbitClosest_tried _ _ c dists t lastSat hlarge hlast
  constructor
  · intro h n hskipped hvisible
    have hn := skipped_spec hlarge (mem_satDict.mp hlast).2 hskipped
    have hother : (⟨lastSat.orbitNum, n⟩ : Satellite) ∈ orbitOthers c lastSat :=
      (mem_orbitOthers_iff hlast).mpr ⟨rfl, hn.1, hn.2.1⟩
    cases hresult : getOrbitClosest c dists lastSat t with
    | none => exact absurd hvisible (h.detached.mp hresult _ hother)
    | some sat =>
      obtain ⟨hsat, hsatVisible, -⟩ := htried.attached sat hresult
      refine ⟨sat, hsat.1, ?_, hsatVisible, (h.attached sat hresult).2.2 _ hother hvisible⟩
      rintro rfl
      exact hsat.2 hskipped
  · intro h
    -- another one that is not farther than the one left out is tried
    have hcovers : ∀ other ∈ orbitOthers c lastSat, Visible c dists t other →
        ∃ sat ∈ {sat | sat ∈ orbitOthers c lastSat ∧ skipped c lastSat.satNum ≠ some sat.satNum},
          Visible c dists t sat ∧ dists sat t ≤ dists other t := by
      intro other hother hvisible
      by_cases hskipped : skipped c lastSat.satNum = some other.satNum
      · have heq := ((mem_orbitOthers_iff hlast).mp hother).1
        obtain ⟨sat, hsat, hne, hsatVisible, hle⟩ := h other.satNum hskipped (heq ▸ hvisible)
        refine ⟨sat, ⟨hsat, ?_⟩, hsatVisible, heq ▸ hle⟩
        rw [hskipped]
        exact fun hsame => hne (Option.some.inj hsame).symm
      · exact ⟨other, ⟨hother, hskipped⟩, hvisible, le_rfl⟩
    constructor
    · intro sat hsat
      obtain ⟨hmem, hvisible, hleast⟩ := htried.attached sat hsat
      refine ⟨hmem.1, hvisible, ?_⟩
      intro other hother hotherVisible
      obtain ⟨closer, hcloser, hcloserVisible, hle⟩ := hcovers other hother hotherVisible
      exact (hleast closer hcloser hcloserVisible).trans hle
    · rw [htried.detached]
      constructor
      · intro hnone other hother hotherVisible
        obtain ⟨closer, hcloser, hcloserVisible, -⟩ := hcovers other hother hotherVisible
        exact hnone closer hcloser hcloserVisible
      · exact fun hnone sat hsat => hnone sat hsat.1

/-- After the last satellite the second one is not tried, which is out of range. -/
theorem getOrbitClosest_right_iff_last : skipped oneOrbit 3 = some 1 ∧ getOrbitClosest oneOrbit losingDists ⟨0, 3⟩ 1 = some ⟨0, 0⟩ ∧
    IsClosest oneOrbit losingDists (orbitOthers oneOrbit ⟨0, 3⟩) 1 (getOrbitClosest oneOrbit losingDists ⟨0, 3⟩ 1) := by
  refine ⟨by decide, by decide, (getOrbitClosest_right_iff oneOrbit losingDists ⟨0, 3⟩ 1 (by decide) (by decide)).mpr ?_⟩
  intro n hn hvisible
  obtain rfl : 1 = n := Option.some.inj hn
  exact absurd hvisible (by decide)

/-- After the second satellite the last one is not tried, although it is the closest. -/
theorem getOrbitClosest_misses_last :
    getOrbitClosest oneOrbit losingDists ⟨0, 1⟩ 1 = some ⟨0, 0⟩ ∧
      ¬ IsClosest oneOrbit losingDists (orbitOthers oneOrbit ⟨0, 1⟩) 1
        (getOrbitClosest oneOrbit losingDists ⟨0, 1⟩ 1) := by
  refine ⟨by decide, fun h => ?_⟩
  obtain ⟨-, -, hleast⟩ := h.attached ⟨0, 0⟩ (by decide)
  exact absurd (hleast ⟨0, 3⟩ ⟨by decide, rfl, by decide⟩ (by decide)) (by decide)

section All

variable {γ δ : Type} [LinearOrder δ] {c : Constellation δ} {dists : Satellite → ℕ → δ} {t : ℕ}
  {satDict : List Satellite}

theorem getClosestOf_eq (satDict : List Satellite) (t : ℕ) : getClosestOf c dists satDict t =
    ((visibleOf c dists t satDict).argmin (fun sat => dists sat t)).or satDict.head? := by
  rw [getClosestOf, foldl_closerInDict, Option.map_map]
  exact Option.map_id'

theorem getClosestOf_isClosest_iff : IsClosest c dists {sat | sat ∈ satDict} t (getClosestOf c dists satDict t) ↔
    (∃ sat ∈ satDict, Visible c dists t sat) ∨ satDict = [] := by
  cases hbest : (visibleOf c dists t satDict).argmin (fun sat => dists sat t) with
  | some best =>
    obtain ⟨hmem, hvisible⟩ := mem_visibleOf.mp (List.argmin_mem hbest)
    refine iff_of_true ?_ (Or.inl ⟨best, hmem, hvisible⟩)
    rw [getClosestOf_eq, hbest, Option.some_or]
    constructor
    · rintro sat ⟨⟩
      exact ⟨hmem, hvisible, fun other hother hotherVisible =>
        List.le_of_mem_argmin (mem_visibleOf.mpr ⟨hother, hotherVisible⟩) hbest⟩
    · exact iff_of_false (Option.some_ne_none best) fun hnone => hnone best hmem hvisible
  | none =>
    rw [List.argmin_eq_none] at hbest
    have hinvisible : ∀ sat ∈ satDict, ¬ Visible c dists t sat := by
      intro sat hsat hvisible
      have hin : sat ∈ visibleOf c dists t satDict := mem_visibleOf.mpr ⟨hsat, hvisible⟩
      rw [hbest] at hin
      cases hin
    rw [getClosestOf_eq, hbest, List.argmin_nil, Option.none_or]
    constructor
    · intro h
      exact Or.inr (List.head?_eq_none_iff.mp (h.detached.mpr hinvisible))
    · rintro (⟨sat, hsat, hvisible⟩ | rfl)
      · exact absurd hvisible (hinvisible sat hsat)
      · refine ⟨fun sat hsat => ?_, iff_of_true rfl hinvisible⟩
        cases hsat

end All

/-- In any order of the satellites, the closest one is found if and only if one is within reach (or there are none at
all), and "closest active" attaches the stations to it if and only if that is so at every epoch. -/
theorem closestActive_right_iff {γ δ : Type} [LinearOrder δ] (c : Constellation δ) (satDict : List Satellite)
    (gtDict : List γ) (distsOf : γ → Satellite → ℕ → δ) :
    (∀ gtId t, IsClosest c (distsOf gtId) {sat | sat ∈ satDict} t (getClosestOf c (distsOf gtId) satDict t) ↔
      (∃ sat ∈ satDict, Visible c (distsOf gtId) t sat) ∨ satDict = []) ∧
    ((∀ item ∈ closestActive c satDict gtDict distsOf, ∀ t < c.SIM_PERIOD,
        IsClosest c (distsOf item.1) {sat | sat ∈ satDict} t (attachmentAt item.2 t)) ↔
      ∀ gtId ∈ gtDict, ∀ t < c.SIM_PERIOD, (∃ sat ∈ satDict, Visible c (distsOf gtId) t sat) ∨ satDict = []) := by
  refine ⟨fun gtId t => getClosestOf_isClosest_iff, ?_⟩
  rw [closestActive, List.forall_mem_map]
  refine forall_congr' fun gtId => forall_congr' fun _ => forall_congr' fun t => forall_congr' fun ht => ?_
  have hattached : attachmentAt ((List.range c.SIM_PERIOD).map (getClosestOf c (distsOf gtId) satDict)) t =
      getClosestOf c (distsOf gtId) satDict t := by
    rw [attachmentAt, List.getElem?_map, List.getElem?_range ht]
    rfl
  rw [hattached]
  exact getClosestOf_isClosest_iff

/-- A station that sees no satellite is attached to the first one. -/
theorem closestActive_attaches_invisible :
    closestActive overhead overhead.satDict [()] (fun _ _ _ => 5) = [((), [some ⟨0, 0⟩])] ∧
      ¬ ∀ item ∈ closestActive overhead overhead.satDict [()] (fun _ _ _ => 5), ∀ t < overhead.SIM_PERIOD,
        IsClosest overhead (fun _ _ => 5) {sat | sat ∈ overhead.satDict} t (attachmentAt item.2 t) := by
  refine ⟨by decide, fun h => ?_⟩
  have hright := h ((), [some ⟨0, 0⟩]) (by decide) 0 (by decide)
  obtain ⟨-, hvisible, -⟩ := hright.attached ⟨0, 0⟩ rfl
  exact absurd hvisible (by decide)

end LeoNdn.ClosestSatellites
