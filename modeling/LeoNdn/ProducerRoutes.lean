import LeoNdn.RouteTables
import Mathlib.Data.Set.Basic

/-!
The route changes of a producer, consumed tick by tick, and the links that
`UpdateRoutes` has applied for them against those that all changes add up to.
-/

namespace LeoNdn.ProducerRoutes

open LeoNdn.Loops LeoNdn.SimulatedNetwork LeoNdn.StationUpdate LeoNdn.AttachmentTracking
open LeoNdn.SatelliteFibs LeoNdn.RouteTables

abbrev Link := String × String

section Deltas

/-- The links after the changes of one epoch: the removals come last. -/
def applyDelta (links : Set Link) (delta : RouteDelta) : Set Link :=
  {link | (link ∈ links ∨ link ∈ delta.add) ∧ link ∉ delta.remove}

def applyDeltas (links : Set Link) (deltas : List RouteDelta) : Set Link := deltas.foldl applyDelta links

def due (es : List (ℤ × RouteDelta)) (t : ℤ) : List RouteDelta := (es.filter (fun e => e.1 ≤ t)).map Prod.snd

def linksAt (es : List (ℤ × RouteDelta)) (t : ℤ) : Set Link := applyDeltas ∅ (due es t)

structure IsDeltas (es : List (ℤ × RouteDelta)) : Prop where
  increasing : Timeline.Increasing es
  nonneg : ∀ e ∈ es, 0 ≤ e.1

end Deltas

section Ticks

variable (cfg : Config)

/-- The changes that the body of the third loop of `Update` passes to `UpdateRoutes`. -/
def passedDelta (curTime : ℤ) : List (ℤ × RouteDelta) → Option RouteDelta
  | [] => none
  | e0 :: rest =>
    let (nextIdx, nextTime) := Timeline.seek curTime (fun _ => cfg.pastProducerRoutes.1) rest 0 e0.1
    let update := curTime = nextTime ∨ (curTime < nextTime ∧ 0 < nextIdx)
    let nextIdx := if curTime < nextTime then nextIdx - 1 else nextIdx
    if update then some ((e0 :: rest).getD nextIdx cfg.pastProducerRoutes).2 else none

def restTable (curTime : ℤ) : List (ℤ × RouteDelta) → List (ℤ × RouteDelta)
  | [] => []
  | e0 :: rest =>
    let (nextIdx, nextTime) := Timeline.seek curTime (fun _ => cfg.pastProducerRoutes.1) rest 0 e0.1
    if curTime = nextTime ∨ (curTime < nextTime ∧ 0 < nextIdx) then
      (e0 :: rest).drop (if curTime < nextTime then nextIdx - 1 else nextIdx)
    else if curTime < nextTime then e0 :: rest
    else []

def tableOf (sim : Sim) (r : ℕ) : List (ℤ × RouteDelta) := ((sim.producerRoutes[r]?).map ProducerItem.table).getD []

/-- The changes passed to `UpdateRoutes` for the producer with index `r`, at the
ticks up to the one with number `k`. -/
def passedDeltas (params : UpdateParams) (sim : Sim) (r : ℕ) : ℕ → List RouteDelta
  | 0 => (passedDelta cfg params.curTime (tableOf sim r)).toList
  | k + 1 => passedDeltas params sim r k ++
    match updates cfg params sim k with
    | .ok (params', sim') => (passedDelta cfg params'.curTime (tableOf sim' r)).toList
    | .error _ => []

theorem updateProducerRoutes_eq {curTime : ℤ} {prefixes : List String} (table : List (ℤ × RouteDelta)) (w : World) :
    updateProducerRoutes cfg curTime prefixes table w =
      ((passedDelta cfg curTime table).elim (.ok w) fun delta => UpdateRoutes prefixes delta w) >>=
        fun w => .ok (restTable cfg curTime table, w) := by
  cases table with
  | nil => rfl
  | cons e0 rest =>
    simp only [updateProducerRoutes, passedDelta, restTable]
    split
    · rfl
    · split <;> rfl

end Ticks

section Consumption

variable {cfg : Config} {es : List (ℤ × RouteDelta)} {t t' : ℤ}

def lastEpoch (es : List (ℤ × RouteDelta)) : ℤ := (es.getLast?.map Prod.fst).getD 0

def UsedUp (past : ℤ) (es : List (ℤ × RouteDelta)) (t : ℤ) : Prop := es = [] ∨ (lastEpoch es < t ∧ past ≤ t)

instance (past : ℤ) (es : List (ℤ × RouteDelta)) (t : ℤ) : Decidable (UsedUp past es t) :=
  inferInstanceAs (Decidable (es = [] ∨ (lastEpoch es < t ∧ past ≤ t)))

/-- What is left of the table after the tick at time `t`: the last entry that is
due, and all the later ones. -/
def remainingDeltas (past : ℤ) (es : List (ℤ × RouteDelta)) (t : ℤ) : List (ℤ × RouteDelta) :=
  if UsedUp past es t then [] else es.drop (es.countP (fun e => e.1 ≤ t) - 1)

/-- What the tick at time `t'` passes on, after the one at time `t`. -/
def passedBetween (past : ℤ × RouteDelta) (es : List (ℤ × RouteDelta)) (t t' : ℤ) : Option RouteDelta :=
  if UsedUp past.1 es t then none
  else if UsedUp past.1 es t' then if past.1 = t' then some past.2 else none
  else Timeline.valueAt es t'

theorem lastEpoch_eq (hne : es ≠ []) :
    lastEpoch es = (getElem es (es.length - 1) (Nat.sub_lt (List.length_pos_iff.mpr hne) one_pos)).1 := by
  rw [lastEpoch, List.getLast?_eq_getElem?, List.getElem?_eq_getElem
    (Nat.sub_lt (List.length_pos_iff.mpr hne) one_pos)]
  rfl

theorem lastEpoch_nonneg (h : IsDeltas es) (hne : es ≠ []) : 0 ≤ lastEpoch es := by
  rw [lastEpoch_eq hne]
  exact h.nonneg _ (List.getElem_mem _)

theorem due_zero (h : IsDeltas es) : (due es 0).length ≤ 1 := by
  cases es with
  | nil => exact Nat.zero_le 1
  | cons e rest =>
    have hrest : rest.filter (fun e => e.1 ≤ 0) = [] := by
      rw [List.filter_eq_nil_iff]
      intro e' hmem
      have hlater := (List.pairwise_cons.mp h.increasing).1 e' hmem
      have hnonneg := h.nonneg e List.mem_cons_self
      rw [decide_eq_true_eq]
      omega
    rw [due, List.filter_cons, hrest]
    split <;> simp

theorem valueAt_of_count (h : Timeline.Increasing es) {i : ℕ} (hi : i < es.length)
    (hcount : es.countP (fun e => e.1 ≤ t) = i + 1) : Timeline.valueAt es t = some es[i].2 := by
  rw [Timeline.valueAt, Timeline.getLast?_filter_take, hcount, Nat.add_sub_cancel, List.getElem?_eq_getElem hi]
  · rfl
  · exact h.imp fun hab => by simpa using fun hb => hab.le.trans hb
  · omega

theorem valueAt_none (hcount : es.countP (fun e => e.1 ≤ t) = 0) : Timeline.valueAt es t = none := by
  rw [List.countP_eq_zero] at hcount
  rw [Timeline.valueAt, List.filter_eq_nil_iff.mpr hcount]
  rfl

theorem count_eq (h : Timeline.Increasing es) {i : ℕ} (hle : i ≤ es.length)
    (hbefore : ∀ k, ∀ hk : k < es.length, k < i → es[k].1 ≤ t) (hafter : ∀ hi : i < es.length, t < es[i].1) :
    es.countP (fun e => e.1 ≤ t) = i := by
  apply le_antisymm
  · by_contra hlt
    have hi : i < es.length := lt_of_lt_of_le (not_le.mp hlt) List.countP_le_length
    exact absurd (hafter hi) (not_lt.mpr ((h.lt_countP_le t i hi).mp (not_le.mp hlt)))
  · by_contra hlt
    have hi : es.countP (fun e => e.1 ≤ t) < es.length := by omega
    exact absurd ((h.lt_countP_le t _ hi).mpr (hbefore _ hi (by omega))) (lt_irrefl _)

theorem UsedUp.mono {past : ℤ} (h : UsedUp past es t) (hle : t ≤ t') : UsedUp past es t' :=
  h.imp_right fun hend => ⟨hend.1.trans_le hle, hend.2.trans hle⟩

theorem not_usedUp_of_le {past : ℤ} {i : ℕ} (h : Timeline.Increasing es) (hi : i < es.length) (ht : t ≤ es[i].1) :
    ¬ UsedUp past es t := by
  have hne : es ≠ [] := List.ne_nil_of_length_pos (by omega)
  rintro (hnil | ⟨hlast, -⟩)
  · exact hne hnil
  · rw [lastEpoch_eq hne] at hlast
    have hle := (h.le_iff hi (Nat.sub_lt (List.length_pos_iff.mpr hne) one_pos)).mpr (by omega)
    omega

/-- The search over what the tick before has left stops at the first entry that is
not before the tick, or passes the end of the table. -/
theorem seek_remaining {past : ℤ} {e0 : ℤ × RouteDelta} {rest : List (ℤ × RouteDelta)} (h : Timeline.Increasing es)
    (hlt : t < t') (htable : es.drop (es.countP (fun e => e.1 ≤ t) - 1) = e0 :: rest) :
    (∃ j, ∃ hj : es.countP (fun e => e.1 ≤ t) - 1 + j < es.length,
      Timeline.seek t' (fun _ => past) rest 0 e0.1 = (j, es[es.countP (fun e => e.1 ≤ t) - 1 + j].1) ∧
      t' ≤ es[es.countP (fun e => e.1 ≤ t) - 1 + j].1 ∧
      ∀ k, ∀ hk : k < es.length, k < es.countP (fun e => e.1 ≤ t) - 1 + j → es[k].1 < t') ∨
    (Timeline.seek t' (fun _ => past) rest 0 e0.1 = ((e0 :: rest).length, past) ∧
      ∀ k, ∀ hk : k < es.length, es[k].1 < t') := by
  have hold (k : ℕ) (hk : k < es.length) (hkc : k < es.countP (fun e => e.1 ≤ t)) : es[k].1 < t' :=
    ((h.lt_countP_le t k hk).mp hkc).trans_lt hlt
  generalize es.countP (fun e => decide (e.1 ≤ t)) = c at htable hold ⊢
  have hsize : (e0 :: rest).length = es.length - (c - 1) := by rw [← htable, List.length_drop]
  rw [List.length_cons] at hsize
  have hentry (k : ℕ) (hk : k < (e0 :: rest).length) :
      (e0 :: rest)[k] = getElem es (c - 1 + k) (by rw [List.length_cons] at hk; omega) := by
    simp only [← htable, List.getElem_drop]
  have hpassed (j : ℕ) (hbefore : ∀ k, ∀ hk : k < (e0 :: rest).length, k < j → (e0 :: rest)[k].1 < t') (k : ℕ)
      (hk : k < es.length) (hkj : k < c - 1 + j) : es[k].1 < t' := by
    by_cases hkc : k < c - 1
    · exact hold k hk (by omega)
    · have hkth := hbefore (k - (c - 1)) (by rw [List.length_cons]; omega) (by omega)
      rw [hentry _ (by rw [List.length_cons]; omega)] at hkth
      simpa only [show c - 1 + (k - (c - 1)) = k by omega] using hkth
  rcases Timeline.seek_spec t' (fun _ => past) (e0 :: rest) 0 (by simp) with
    ⟨j, hj, -, hseek, hstop, hbefore⟩ | ⟨hseek, hbefore⟩
  · rw [hentry j hj] at hstop
    refine Or.inl ⟨j, by rw [List.length_cons] at hj; omega, ?_, hstop, ?_⟩
    · rw [← hentry j hj]
      exact hseek
    · exact hpassed j fun k hk hkj => hbefore k hkj (Nat.zero_le _)
  · refine Or.inr ⟨hseek, fun k hk => ?_⟩
    refine hpassed (e0 :: rest).length (fun k hk _ => hbefore k hk (Nat.zero_le _)) k hk ?_
    rw [List.length_cons]
    omega

section Tick

variable {past : ℤ} {e0 : ℤ × RouteDelta} {rest : List (ℤ × RouteDelta)} {position j : ℕ}

theorem tick_stops (h : Timeline.Increasing es) (hlt : t < t')
    (htable : es.drop (es.countP (fun e => e.1 ≤ t) - 1) = e0 :: rest)
    (hposition : es.countP (fun e => e.1 ≤ t) - 1 + j = position) (hj : position < es.length)
    (hseek : Timeline.seek t' (fun _ => cfg.pastProducerRoutes.1) rest 0 e0.1 = (j, es[position].1))
    (hstop : t' ≤ es[position].1) (hbefore : ∀ k, ∀ hk : k < es.length, k < position → es[k].1 < t') :
    passedDelta cfg t' (e0 :: rest) = Timeline.valueAt es t' ∧
      restTable cfg t' (e0 :: rest) = es.drop (es.countP (fun e => e.1 ≤ t') - 1) := by
  have hgetD (k : ℕ) : (e0 :: rest).getD k cfg.pastProducerRoutes =
      es.getD (es.countP (fun e => e.1 ≤ t) - 1 + k) cfg.pastProducerRoutes := by
    rw [← htable, List.getD_eq_getElem?_getD, List.getElem?_drop, ← List.getD_eq_getElem?_getD]
  have hdrop (k : ℕ) : (e0 :: rest).drop k = es.drop (es.countP (fun e => e.1 ≤ t) - 1 + k) := by
    rw [← htable, List.drop_drop]
  simp only [passedDelta, restTable, hseek]
  rcases hstop.lt_or_eq with hgap | hhit
  · have hcount' : es.countP (fun e => e.1 ≤ t') = position :=
      count_eq h hj.le (fun k hk hkj => (hbefore k hk hkj).le) fun _ => hgap
    rcases Nat.eq_zero_or_pos j with rfl | hpos
    · -- no entry is due yet
      have hnone : es.countP (fun e => e.1 ≤ t) = 0 := by
        by_contra hsome
        have hdue := (h.lt_countP_le t position hj).mp (by omega)
        omega
      have hzero : position = 0 := by omega
      rw [if_neg (by omega), if_neg (by omega), if_pos hgap, valueAt_none (hcount'.trans hzero), hcount', ← htable,
        hnone, hzero]
      exact ⟨rfl, rfl⟩
    · rw [if_pos (Or.inr ⟨hgap, hpos⟩), if_pos (Or.inr ⟨hgap, hpos⟩), if_pos hgap, hgetD, hdrop,
        List.getD_eq_getElem _ _ (by omega),
        @valueAt_of_count es t' h (es.countP (fun e => e.1 ≤ t) - 1 + (j - 1)) (by omega) (by omega), hcount']
      exact ⟨rfl, congrArg (es.drop ·) (by omega)⟩
  · have hcount' : es.countP (fun e => e.1 ≤ t') = position + 1 := by
      refine count_eq h hj (fun k hk hkj => ?_) fun hi => ?_
      · rcases Nat.lt_succ_iff_lt_or_eq.mp hkj with hkj | rfl
        · exact (hbefore k hk hkj).le
        · exact hhit.ge
      · exact hhit.trans_lt (h.lt_of_lt (Nat.lt_succ_self _) hi)
    rw [← hhit, if_pos (Or.inl rfl), if_pos (Or.inl rfl), if_neg (lt_irrefl _), hgetD, hdrop, hposition,
      List.getD_eq_getElem _ _ hj, valueAt_of_count h hj hcount', hcount']
    exact ⟨rfl, rfl⟩

theorem tick_passes (h : Timeline.Increasing es) (hne : es ≠ [])
    (htable : es.drop position = e0 :: rest)
    (hseek : Timeline.seek t' (fun _ => cfg.pastProducerRoutes.1) rest 0 e0.1 =
      ((e0 :: rest).length, cfg.pastProducerRoutes.1))
    (hall : ∀ k, ∀ hk : k < es.length, es[k].1 < t') :
    passedDelta cfg t' (e0 :: rest) = (if UsedUp cfg.pastProducerRoutes.1 es t' then
        if cfg.pastProducerRoutes.1 = t' then some cfg.pastProducerRoutes.2 else none
      else Timeline.valueAt es t') ∧
      restTable cfg t' (e0 :: rest) = remainingDeltas cfg.pastProducerRoutes.1 es t' := by
  have hlength := List.length_pos_iff.mpr hne
  have hsize : (e0 :: rest).length = es.length - position := by rw [← htable, List.length_drop]
  have hlast : lastEpoch es < t' := by
    rw [lastEpoch_eq hne]
    exact hall _ _
  simp only [passedDelta, restTable, hseek]
  rcases lt_or_ge t' cfg.pastProducerRoutes.1 with hlate | hle
  · -- the time read past the end is later: the last entry is passed on
    have hnot : ¬ UsedUp cfg.pastProducerRoutes.1 es t' := by
      rintro (hnil | ⟨-, hpassed⟩)
      · exact hne hnil
      · omega
    have hcount' : es.countP (fun e => e.1 ≤ t') = es.length - 1 + 1 :=
      count_eq h (by omega) (fun k hk _ => (hall k hk).le) fun hi => by omega
    have hend : position + ((e0 :: rest).length - 1) = es.length - 1 := by
      rw [hsize]
      rw [List.length_cons] at hsize
      omega
    rw [if_neg hnot, remainingDeltas, if_neg hnot, if_pos (Or.inr ⟨hlate, Nat.succ_pos _⟩),
      if_pos (Or.inr ⟨hlate, Nat.succ_pos _⟩), if_pos hlate, ← htable, List.drop_drop, List.getD_eq_getElem?_getD,
      List.getElem?_drop, htable, hend, List.getElem?_eq_getElem (by omega), valueAt_of_count h (by omega) hcount',
      hcount']
    exact ⟨rfl, rfl⟩
  · have hend : UsedUp cfg.pastProducerRoutes.1 es t' := Or.inr ⟨hlast, hle⟩
    rw [if_pos hend, remainingDeltas, if_pos hend]
    rcases hle.eq_or_lt with heq | hbefore'
    · rw [heq, if_pos (Or.inl rfl), if_pos (Or.inl rfl), if_neg (lt_irrefl _), if_pos rfl,
        List.getD_eq_default _ _ (Nat.le_refl _), List.drop_length]
      exact ⟨rfl, rfl⟩
    · rw [if_neg (by omega), if_neg (by omega), if_neg (by omega), if_neg (by omega)]
      exact ⟨rfl, rfl⟩

/-- What one tick makes of the table that the tick before has left. -/
theorem tick_spec (h : Timeline.Increasing es) (hlt : t < t') :
    passedDelta cfg t' (remainingDeltas cfg.pastProducerRoutes.1 es t) =
        passedBetween cfg.pastProducerRoutes es t t' ∧
      restTable cfg t' (remainingDeltas cfg.pastProducerRoutes.1 es t) =
        remainingDeltas cfg.pastProducerRoutes.1 es t' := by
  by_cases hused : UsedUp cfg.pastProducerRoutes.1 es t
  · rw [remainingDeltas, if_pos hused, remainingDeltas, if_pos (hused.mono hlt.le), passedBetween, if_pos hused]
    exact ⟨rfl, rfl⟩
  have hne : es ≠ [] := fun hnil => hused (Or.inl hnil)
  have hlength := List.length_pos_iff.mpr hne
  have hcount := (List.countP_le_length : es.countP (fun e => decide (e.1 ≤ t)) ≤ es.length)
  obtain ⟨e0, rest, htable⟩ : ∃ e0 rest, es.drop (es.countP (fun e => e.1 ≤ t) - 1) = e0 :: rest :=
    ⟨_, _, List.drop_eq_getElem_cons (by omega : es.countP (fun e => decide (e.1 ≤ t)) - 1 < es.length)⟩
  rw [remainingDeltas, if_neg hused, passedBetween, if_neg hused, htable]
  rcases @seek_remaining es t t' cfg.pastProducerRoutes.1 e0 rest h hlt htable with
    ⟨j, hj, hseek, hstop, hbefore⟩ | ⟨hseek, hall⟩
  · have hnot := @not_usedUp_of_le es t' cfg.pastProducerRoutes.1 _ h hj hstop
    rw [if_neg hnot, remainingDeltas, if_neg hnot]
    exact tick_stops h hlt htable rfl hj hseek hstop hbefore
  · exact tick_passes h hne htable hseek hall

end Tick

end Consumption

section Links

variable {past : ℤ × RouteDelta} {es : List (ℤ × RouteDelta)} {t t' : ℤ}

def applyPassed (links : Set Link) : Option RouteDelta → Set Link
  | none => links
  | some delta => applyDelta links delta

/-- The links are right after the tick at `t'` when they were right after the one
at `t`: all links that have changed are named by the last delta that is due. At
a tick that reads past the end of the table, what is read there decides instead. -/
structure CleanTick (past : ℤ × RouteDelta) (es : List (ℤ × RouteDelta)) (t t' : ℤ) : Prop where
  named : ¬ UsedUp past.1 es t' → ∀ delta, Timeline.valueAt es t' = some delta →
    ∀ link, link ∉ delta.add → link ∉ delta.remove → (link ∈ linksAt es t' ↔ link ∈ linksAt es t)
  beyond : ¬ UsedUp past.1 es t → UsedUp past.1 es t' →
    linksAt es t' = if past.1 = t' then applyDelta (linksAt es t) past.2 else linksAt es t

theorem due_getLast? (es : List (ℤ × RouteDelta)) (t : ℤ) : (due es t).getLast? = Timeline.valueAt es t := by
  rw [due, List.getLast?_map, Timeline.valueAt]

theorem due_usedUp (h : UsedUp past.1 es t) (hincreasing : Timeline.Increasing es) (hle : t ≤ t') :
    due es t' = due es t := by
  rcases h with rfl | ⟨hlast, -⟩
  · rfl
  · rw [due, due]
    refine congrArg (List.map Prod.snd) (List.filter_congr fun e hmem => ?_)
    obtain ⟨i, hi, rfl⟩ := List.getElem_of_mem hmem
    have hne : es ≠ [] := List.ne_nil_of_length_pos (by omega)
    rw [lastEpoch_eq hne] at hlast
    have hbefore := (hincreasing.le_iff hi (Nat.sub_lt (List.length_pos_iff.mpr hne) one_pos)).mpr (by omega)
    simp only [decide_eq_decide]
    omega

theorem linksAt_of_last {delta : RouteDelta} (h : Timeline.valueAt es t = some delta) :
    ∃ before, linksAt es t = applyDelta before delta := by
  rw [← due_getLast?, List.getLast?_eq_some_iff] at h
  obtain ⟨front, hdue⟩ := h
  exact ⟨applyDeltas ∅ front, by rw [linksAt, hdue, applyDeltas, List.foldl_append]; rfl⟩

theorem linksAt_none (h : Timeline.valueAt es t' = none) (hle : t ≤ t') : linksAt es t' = ∅ ∧ linksAt es t = ∅ := by
  rw [← due_getLast?, List.getLast?_eq_none_iff, due, List.map_eq_nil_iff, List.filter_eq_nil_iff] at h
  have hdue : ∀ u ≤ t', linksAt es u = ∅ := by
    intro u hu
    have hnone : es.filter (fun e => e.1 ≤ u) = [] := by
      rw [List.filter_eq_nil_iff]
      intro e hmem
      have hlate := h e hmem
      simp only [decide_eq_true_eq] at hlate ⊢
      omega
    rw [linksAt, due, hnone]
    rfl
  exact ⟨hdue t' le_rfl, hdue t hle⟩

theorem applyPassed_iff (h : Timeline.Increasing es) (hle : t ≤ t') :
    applyPassed (linksAt es t) (passedBetween past es t t') = linksAt es t' ↔ CleanTick past es t t' := by
  rw [passedBetween]
  by_cases hused : UsedUp past.1 es t
  · have hsame : linksAt es t' = linksAt es t := by rw [linksAt, due_usedUp hused h hle, linksAt]
    rw [if_pos hused, hsame]
    exact iff_of_true rfl ⟨fun hnot => absurd (hused.mono hle) hnot, fun hnot => absurd hused hnot⟩
  rw [if_neg hused]
  by_cases hused' : UsedUp past.1 es t'
  · have hiff : CleanTick past es t t' ↔
        linksAt es t' = if past.1 = t' then applyDelta (linksAt es t) past.2 else linksAt es t :=
      ⟨fun hclean => hclean.beyond hused hused', fun heq => ⟨fun hnot => absurd hused' hnot, fun _ _ => heq⟩⟩
    rw [if_pos hused', hiff, eq_comm]
    split <;> rfl
  · have hiff : CleanTick past es t t' ↔ ∀ delta, Timeline.valueAt es t' = some delta → ∀ link, link ∉ delta.add →
        link ∉ delta.remove → (link ∈ linksAt es t' ↔ link ∈ linksAt es t) :=
      ⟨fun hclean => hclean.named hused', fun hnamed => ⟨fun _ => hnamed, fun _ hend => absurd hend hused'⟩⟩
    rw [if_neg hused', hiff]
    cases hvalue : Timeline.valueAt es t' with
    | none =>
      obtain ⟨hnow, hbefore⟩ := linksAt_none hvalue hle
      rw [hnow, hbefore]
      exact iff_of_true rfl fun delta hdelta => nomatch hdelta
    | some delta =>
      obtain ⟨before, hnow⟩ := linksAt_of_last hvalue
      rw [hnow]
      constructor
      · intro heq delta' hdelta link hadd hremove
        obtain rfl := Option.some.inj hdelta
        rw [← heq]
        exact ⟨fun hin => hin.1.resolve_right hadd, fun hin => ⟨Or.inl hin, hremove⟩⟩
      · intro hnamed
        ext link
        by_cases hremove : link ∈ delta.remove
        · exact iff_of_false (fun hin => hin.2 hremove) fun hin => hin.2 hremove
        · by_cases hadd : link ∈ delta.add
          · exact iff_of_true ⟨Or.inr hadd, hremove⟩ ⟨Or.inr hadd, hremove⟩
          · rw [hnamed delta rfl link hadd hremove]
            exact ⟨fun hin => hin.1.resolve_right hadd, fun hin => ⟨Or.inl hin, hremove⟩⟩

end Links

section Runs

variable {cfg : Config} {params params' : UpdateParams} {sim sim' : Sim} {r : ℕ} {item : ProducerItem}

theorem Update_table (hrun : Update cfg params sim = .ok (params', sim')) (hitem : sim.producerRoutes[r]? = some item) :
    params' = { params with curTime := params.curTime + params.interval } ∧
      sim'.producerRoutes[r]? = some { item with table := restTable cfg params.curTime item.table } := by
  obtain ⟨⟨stations, w₁⟩, -, hrun⟩ := ok_of_bind hrun
  obtain ⟨⟨routes, w₂⟩, -, hrun⟩ := ok_of_bind hrun
  obtain ⟨⟨producerRoutes, w₃⟩, hproducers, hrun⟩ := ok_of_bind hrun
  obtain ⟨⟨stations', w₄⟩, -, hrun⟩ := ok_of_bind hrun
  cases hrun
  refine ⟨rfl, ?_⟩
  obtain ⟨item', w, w', -, hpass, -, hitem'⟩ := forEach_split hproducers r item hitem
  obtain ⟨⟨table, w''⟩, hpass, heq⟩ := ok_of_bind hpass
  cases heq
  rw [updateProducerRoutes_eq] at hpass
  obtain ⟨w₅, -, hpass⟩ := ok_of_bind hpass
  cases hpass
  exact hitem'

theorem tableOf_eq (hitem : sim.producerRoutes[r]? = some item) : tableOf sim r = item.table := by
  rw [tableOf, hitem]
  rfl

theorem remainingDeltas_start (h : IsDeltas item.table) (past : ℤ) :
    remainingDeltas past item.table (-1) = item.table := by
  have hcount : item.table.countP (fun e => e.1 ≤ -1) = 0 := by
    rw [List.countP_eq_zero]
    intro e hmem
    have hnonneg := h.nonneg e hmem
    rw [decide_eq_true_eq]
    omega
  rw [remainingDeltas, hcount]
  split
  · rename_i hused
    rcases hused with hnil | ⟨hlast, -⟩
    · exact hnil.symm
    · by_contra hother
      have hnonneg := lastEpoch_nonneg h fun hnil => hother (by rw [hnil])
      omega
  · rfl

theorem updates_table (h : IsDeltas item.table) (hitem : sim.producerRoutes[r]? = some item)
    (hzero : params.curTime = 0) (hinterval : 0 < params.interval) (k : ℕ) (hrun : updates cfg params sim k = .ok (params', sim')) :
    params' = { params with curTime := (k + 1 : ℕ) * params.interval } ∧
      sim'.producerRoutes[r]? = some { item with
        table := remainingDeltas cfg.pastProducerRoutes.1 item.table (k * params.interval) } := by
  induction k generalizing params' sim' with
  | zero =>
    obtain ⟨hparams, hitem'⟩ := Update_table hrun hitem
    have htick := (@tick_spec cfg item.table (-1) 0 h.increasing (by omega)).2
    rw [remainingDeltas_start h] at htick
    rw [hzero, htick] at hitem'
    exact ⟨by rw [hparams, hzero]; simp, by rw [hitem']; simp⟩
  | succ k ih =>
    obtain ⟨⟨params₁, sim₁⟩, hrun₁, hstep⟩ := ok_of_bind hrun
    obtain ⟨hparams₁, hitem₁⟩ := ih hrun₁
    obtain ⟨hparams, hitem'⟩ := Update_table hstep hitem₁
    have hcurTime : params₁.curTime = (k + 1 : ℕ) * params.interval := by rw [hparams₁]
    have hlt : (k : ℤ) * params.interval < params₁.curTime := by
      rw [hcurTime]
      push_cast
      linarith
    rw [(tick_spec h.increasing hlt).2, hcurTime] at hitem'
    refine ⟨?_, hitem'⟩
    rw [hparams, hparams₁]
    simp only [UpdateParams.mk.injEq, true_and, and_true]
    push_cast
    ring

/-- The links that `UpdateRoutes` has applied for the producer after the tick with
number `k` are those that all deltas due by then add up to. -/
def AppliedAt (cfg : Config) (params : UpdateParams) (sim : Sim) (r : ℕ) (es : List (ℤ × RouteDelta)) (k : ℕ) : Prop :=
  applyDeltas ∅ (passedDeltas cfg params sim r k) = linksAt es (k * params.interval)

theorem applyDeltas_toList (deltas : List RouteDelta) (passed : Option RouteDelta) :
    applyDeltas ∅ (deltas ++ passed.toList) = applyPassed (applyDeltas ∅ deltas) passed := by
  rw [applyDeltas, List.foldl_append]
  cases passed <;> rfl

theorem appliedAt_zero (h : IsDeltas item.table) (hitem : sim.producerRoutes[r]? = some item)
    (hzero : params.curTime = 0) :
    AppliedAt cfg params sim r item.table 0 := by
  have htick := (@tick_spec cfg item.table (-1) 0 h.increasing (by omega)).1
  rw [remainingDeltas_start h] at htick
  rw [AppliedAt, passedDeltas, tableOf_eq hitem, hzero, htick, Int.natCast_zero, zero_mul]
  have hbefore : linksAt item.table (-1) = ∅ := by
    rw [linksAt, due, List.filter_eq_nil_iff.mpr]
    · rfl
    · intro e hmem
      have hnonneg := h.nonneg e hmem
      rw [decide_eq_true_eq]
      omega
  have hpassed := applyDeltas_toList [] (passedBetween cfg.pastProducerRoutes item.table (-1) 0)
  rw [List.nil_append, show applyDeltas ∅ [] = linksAt item.table (-1) from hbefore.symm] at hpassed
  rw [hpassed, applyPassed_iff h.increasing (by omega)]
  refine ⟨fun _ delta hdelta link hadd hremove => ?_, fun hnot hused => ?_⟩
  · rw [← due_getLast?, List.getLast?_eq_some_iff] at hdelta
    obtain ⟨front, hdue⟩ := hdelta
    have hone := due_zero h
    rw [hdue, List.length_append, List.length_singleton] at hone
    obtain rfl : front = [] := List.length_eq_zero_iff.mp (by omega)
    rw [hbefore, linksAt, hdue]
    exact iff_of_false (fun hin => hin.1.elim (fun hempty => hempty) hadd) fun hempty => hempty
  · rcases hused with hnil | ⟨hlast, -⟩
    · exact absurd (Or.inl hnil) hnot
    · have hnonneg := lastEpoch_nonneg h fun hnil => hnot (Or.inl hnil)
      omega

theorem deltas_applied_iff (cfg : Config) (params : UpdateParams) (sim : Sim) (r : ℕ) (item : ProducerItem)
    (h : IsDeltas item.table) (hitem : sim.producerRoutes[r]? = some item) (hzero : params.curTime = 0)
    (hinterval : 0 < params.interval) (n : ℕ) (last : UpdateParams × Sim) (hrun : updates cfg params sim n = .ok last) :
    (∀ k ≤ n, AppliedAt cfg params sim r item.table k) ↔ ∀ k < n, CleanTick cfg.pastProducerRoutes item.table
      (k * params.interval) ((k + 1 : ℕ) * params.interval) := by
  have hnext (k : ℕ) (hk : k < n) (happlied : AppliedAt cfg params sim r item.table k) :
      AppliedAt cfg params sim r item.table (k + 1) ↔ CleanTick cfg.pastProducerRoutes item.table
        (k * params.interval) ((k + 1 : ℕ) * params.interval) := by
    obtain ⟨params₁, sim₁, hrun₁⟩ := updates_ok_of_le hrun hk.le
    obtain ⟨hparams, hitem₁⟩ := updates_table h hitem hzero hinterval k hrun₁
    have hlt : (k : ℤ) * params.interval < (k + 1 : ℕ) * params.interval := by
      push_cast
      linarith
    rw [AppliedAt] at happlied
    rw [AppliedAt, passedDeltas, hrun₁]
    simp only [tableOf_eq hitem₁, hparams]
    rw [(tick_spec h.increasing hlt).1, applyDeltas_toList, happlied, applyPassed_iff h.increasing hlt.le]
  constructor
  · intro hall k hk
    exact (hnext k hk (hall k hk.le)).mp (hall (k + 1) hk)
  · intro hclean k
    induction k with
    | zero => exact fun _ => appliedAt_zero h hitem hzero
    | succ k ih => exact fun hk => (hnext k (by omega) (ih (by omega))).mpr (hclean k (by omega))

end Runs

section Fibs

variable {cfg : Config} {params params' : UpdateParams} {sim sim' : Sim} {r : ℕ} {p : String} {w₀ w w' : World}

theorem UpdateRoutes_hasRoute (hw : Installed w₀.net) (hdistinct : DistinctNodes w₀) (h : Later w₀ w)
    {prefixes : List String} {delta : RouteDelta} (hlinks : ∀ link ∈ delta.add ++ delta.remove, IsISL w₀ link)
    (hrun : UpdateRoutes prefixes delta w = .ok w') (hp : p ∈ prefixes) :
    Later w₀ w' ∧ ∀ link, IsISL w₀ link →
      (HasRoute w' p link ↔ (HasRoute w p link ∨ link ∈ delta.add) ∧ link ∉ delta.remove) := by
  obtain ⟨w₁, hadd, hremove⟩ := ok_of_bind hrun
  have hset := changeRoutes_spec addRoute_sets hadd
  have hset' := changeRoutes_spec removeRoute_sets hremove
  have hlater := hset.later h
  refine ⟨hset'.later hlater, fun link hlink => ?_⟩
  rw [hset'.hasRoute_iff hw hdistinct hlater (fun link hmem => hlinks link (List.mem_append_right _ hmem)) hlink,
    hset.hasRoute_iff hw hdistinct h (fun link hmem => hlinks link (List.mem_append_left _ hmem)) hlink]
  by_cases hadd' : link ∈ delta.add <;> by_cases hremove' : link ∈ delta.remove <;> simp [hp, hadd', hremove']

theorem updateProducerRoutes_later {curTime : ℤ} {prefixes : List String} {table table' : List (ℤ × RouteDelta)}
    (h : Later w₀ w) (hrun : updateProducerRoutes cfg curTime prefixes table w = .ok (table', w')) : Later w₀ w' := by
  rcases updateProducerRoutes_cases hrun with rfl | ⟨delta, w₁, hadd, hremove⟩
  · exact h
  · exact (changeRoutes_spec removeRoute_sets hremove).later ((changeRoutes_spec addRoute_sets hadd).later h)

/-- The prefix is one of the producer's with index `r`, and of no other producer
or pair. -/
structure OnlyProducer (sim : Sim) (r : ℕ) (p : String) : Prop where
  producer : ∀ item, sim.producerRoutes[r]? = some item → p ∈ producerPrefixes sim.stations item.producer
  others : ∀ j item, sim.producerRoutes[j]? = some item → j ≠ r → p ∉ producerPrefixes sim.stations item.producer
  pairs : ∀ item ∈ sim.routes, p ∉ producerPrefixes sim.stations item.producer

theorem onlyProducer_of_kept {sim₀ : Sim} (h : Kept sim₀ sim) (honly : OnlyProducer sim₀ r p) :
    OnlyProducer sim r p := by
  have hprefixes := producerPrefixes_congr h.stations
  have hitem (j : ℕ) (item : ProducerItem) (hj : sim.producerRoutes[j]? = some item) :
      ∃ item₀, sim₀.producerRoutes[j]? = some item₀ ∧ item₀.producer = item.producer := by
    have hproducer := congrArg (fun l => l[j]?) h.producers
    simp only [List.getElem?_map, hj, Option.map_some] at hproducer
    exact Option.map_eq_some_iff.mp hproducer.symm
  refine ⟨?_, ?_, ?_⟩
  · intro item hr
    obtain ⟨item₀, hr₀, hproducer⟩ := hitem r item hr
    rw [hprefixes, ← hproducer]
    exact honly.producer item₀ hr₀
  · intro j item hj hne
    obtain ⟨item₀, hj₀, hproducer⟩ := hitem j item hj
    rw [hprefixes, ← hproducer]
    exact honly.others j item₀ hj₀ hne
  · intro item hmem
    have hproducer : item.producer ∈ sim₀.routes.map RouteItem.producer := by
      rw [← h.routes]
      exact List.mem_map_of_mem hmem
    obtain ⟨item₀, hmem₀, hproducer⟩ := List.mem_map.mp hproducer
    rw [hprefixes, ← hproducer]
    exact honly.pairs item₀ hmem₀

/-- What one call of `Update` does for one producer: between the loops over the
pairs, the other producers and the stations, which leave its routes alone. -/
theorem Update_producer {sim₀ : Sim} (hw : Installed sim₀.world.net) (hkept : Kept sim₀ sim)
    (honly : OnlyProducer sim r p) (hrun : Update cfg params sim = .ok (params', sim')) {item : ProducerItem}
    (hitem : sim.producerRoutes[r]? = some item) :
    Kept sim₀ sim' ∧ ∃ w₁ table w₂, Later sim₀.world w₁ ∧
      updateProducerRoutes cfg params.curTime (producerPrefixes sim.stations item.producer) item.table w₁ =
        .ok (table, w₂) ∧
      ∀ link, IsISL sim₀.world link → (HasRoute w₁ p link ↔ HasRoute sim.world p link) ∧
        (HasRoute sim'.world p link ↔ HasRoute w₂ p link) := by
  obtain ⟨-, w₁, w₂, w₅, hphases⟩ := Update_phases hkept hrun
  have hquiet₂ : Quiet p w₁ w₂ := otherPairs_quiet honly.pairs hphases.later hphases.routes
  obtain ⟨item', w₃, w₄', hbefore, hstep, hafter, -⟩ := forEach_split hphases.producerRoutes r item hitem
  obtain ⟨⟨table, w₄⟩, hpass, heq⟩ := ok_of_bind hstep
  obtain rfl : w₄ = w₄' := by
    cases heq
    rfl
  have hquiet₃ : Quiet p w₂ w₃ := by
    refine otherProducers_quiet ?_ hbefore
    intro item₂ hmem
    obtain ⟨j, hj, hget⟩ := List.mem_take_iff_getElem.mp hmem
    exact honly.others j item₂ (by rw [List.getElem?_eq_getElem (by omega), hget]) (by omega)
  have hlater₃ := hquiet₃.later (hquiet₂.later hphases.later)
  have hlater₄ := updateProducerRoutes_later hlater₃ hpass
  have hquiet₅ : Quiet p w₄ w₅ := by
    refine otherProducers_quiet ?_ hafter
    intro item₂ hmem
    obtain ⟨j, hj, hget⟩ := List.mem_drop_iff_getElem.mp hmem
    exact honly.others (r + 1 + j) item₂ (by rw [List.getElem?_eq_getElem (by omega), hget]) (by omega)
  refine ⟨hphases.kept (hquiet₅.later hlater₄), w₃, table, w₄, hlater₃, hpass, fun link hlink => ?_⟩
  rw [(hquiet₂.trans hquiet₃).hasRoute_iff, hphases.change.hasRoute_iff hw hkept.later hphases.later hlink,
    (hquiet₅.trans (hphases.quiet p)).hasRoute_iff]
  exact ⟨Iff.rfl, Iff.rfl⟩

/-- The simulation as it is set up for the producer with index `r` and the prefix
`p`, which no pair has routes for. -/
structure ProducerSetup (cfg : Config) (sim : Sim) (r : ℕ) (p : String) (item : ProducerItem) : Prop where
  installed : Installed sim.world.net
  distinctNodes : DistinctNodes sim.world
  stations : ∀ st ∈ sim.stations, st.p2pDevice = none
  satellites : ∀ name, deviceOf sim.world name = none
  onlyProducer : OnlyProducer sim r p
  routes : sim.producerRoutes[r]? = some item
  table : IsDeltas item.table
  links : ∀ e ∈ cfg.pastProducerRoutes :: item.table, ∀ link ∈ e.2.add ++ e.2.remove, IsISL sim.world link
  clean : ∀ link, IsISL sim.world link → ¬ HasRoute sim.world p link

variable {item : ProducerItem}

theorem ProducerSetup.kept (h : ProducerSetup cfg sim r p item) : Kept sim sim where
  later := ⟨h.installed.keepsISLs, rfl, fun name d hd => by rw [h.satellites name] at hd; cases hd⟩
  devices st hst d hd := by rw [h.stations st hst] at hd; cases hd
  stations := rfl
  routes := rfl
  producers := rfl

theorem ProducerSetup.passed_links (h : ProducerSetup cfg sim r p item) {t t' : ℤ} {delta : RouteDelta}
    (hpassed : passedBetween cfg.pastProducerRoutes item.table t t' = some delta) :
    ∀ link ∈ delta.add ++ delta.remove, IsISL sim.world link := by
  obtain ⟨e, hmem, rfl⟩ : ∃ e ∈ cfg.pastProducerRoutes :: item.table, e.2 = delta := by
    rw [passedBetween] at hpassed
    split at hpassed
    · cases hpassed
    · split at hpassed
      · split at hpassed
        · exact ⟨_, List.mem_cons_self, Option.some.inj hpassed⟩
        · cases hpassed
      · obtain ⟨e, hlast, rfl⟩ := Option.map_eq_some_iff.mp hpassed
        exact ⟨e, List.mem_cons_of_mem _ (List.mem_filter.mp (List.mem_of_getLast? hlast)).1, rfl⟩
  exact h.links e hmem

theorem ProducerSetup.step (h : ProducerSetup cfg sim r p item) {sim₁ sim₂ : Sim} {t : ℤ} (hlt : t < params.curTime)
    (hkept : Kept sim sim₁) {links : Set Link} (hlinks : ∀ link, IsISL sim.world link →
      (HasRoute sim₁.world p link ↔ link ∈ links))
    (hitem : sim₁.producerRoutes[r]? = some { item with
      table := remainingDeltas cfg.pastProducerRoutes.1 item.table t })
    (hrun : Update cfg params sim₁ = .ok (params', sim₂)) : Kept sim sim₂ ∧ ∀ link, IsISL sim.world link →
      (HasRoute sim₂.world p link ↔
        link ∈ applyPassed links (passedBetween cfg.pastProducerRoutes item.table t params.curTime)) := by
  have honly := onlyProducer_of_kept hkept h.onlyProducer
  obtain ⟨hkept₂, w₁, table, w₂, hlater, hpass, hroutes⟩ := Update_producer h.installed hkept honly hrun hitem
  refine ⟨hkept₂, fun link hlink => ?_⟩
  rw [updateProducerRoutes_eq, (tick_spec h.table.increasing hlt).1] at hpass
  obtain ⟨w₃, hpassed, heq⟩ := ok_of_bind hpass
  obtain rfl : w₃ = w₂ := by
    cases heq
    rfl
  rw [(hroutes link hlink).2]
  cases hdelta : passedBetween cfg.pastProducerRoutes item.table t params.curTime with
  | none =>
    rw [hdelta] at hpassed
    obtain rfl : w₁ = w₃ := Except.ok.inj hpassed
    rw [(hroutes link hlink).1, hlinks link hlink, applyPassed]
  | some delta =>
    rw [hdelta] at hpassed
    rw [(UpdateRoutes_hasRoute h.installed h.distinctNodes hlater (h.passed_links hdelta) hpassed
      (honly.producer _ hitem)).2 link hlink, (hroutes link hlink).1, hlinks link hlink]
    rfl

/-- The links that `UpdateRoutes` has applied are those with a next hop for the prefix. -/
theorem ProducerSetup.hasRoute_iff (h : ProducerSetup cfg sim r p item) (hzero : params.curTime = 0)
    (hinterval : 0 < params.interval) (k : ℕ) (hrun : updates cfg params sim k = .ok (params', sim')) :
    Kept sim sim' ∧ ∀ link, IsISL sim.world link →
      (HasRoute sim'.world p link ↔ link ∈ applyDeltas ∅ (passedDeltas cfg params sim r k)) := by
  induction k generalizing params' sim' with
  | zero =>
    have hstart : sim.producerRoutes[r]? = some { item with
        table := remainingDeltas cfg.pastProducerRoutes.1 item.table (-1) } := by
      rw [remainingDeltas_start h.table, h.routes]
    have hnone : ∀ link, IsISL sim.world link → (HasRoute sim.world p link ↔ link ∈ (∅ : Set Link)) :=
      fun link hlink => iff_of_false (h.clean link hlink) fun hin => hin
    obtain ⟨hkept, hroutes⟩ := h.step (by rw [hzero]; omega) h.kept hnone hstart hrun
    refine ⟨hkept, fun link hlink => ?_⟩
    rw [hroutes link hlink, passedDeltas, tableOf_eq hstart,
      (tick_spec h.table.increasing (by rw [hzero]; omega)).1, ← List.nil_append (Option.toList _), applyDeltas_toList]
    rfl
  | succ k ih =>
    obtain ⟨⟨params₁, sim₁⟩, hrun₁, hstep⟩ := ok_of_bind hrun
    obtain ⟨hkept₁, hroutes₁⟩ := ih hrun₁
    obtain ⟨hparams₁, hitem₁⟩ := updates_table h.table h.routes hzero hinterval k hrun₁
    have hlt : (k : ℤ) * params.interval < params₁.curTime := by
      rw [hparams₁]
      push_cast
      linarith
    obtain ⟨hkept, hroutes⟩ := h.step hlt hkept₁ hroutes₁ hitem₁ hstep
    refine ⟨hkept, fun link hlink => ?_⟩
    rw [hroutes link hlink, passedDeltas, hrun₁]
    simp only [tableOf_eq hitem₁]
    rw [(tick_spec h.table.increasing hlt).1, applyDeltas_toList]

end Fibs

section SkippedDeltas

def skippedItem : ProducerItem where
  producer := "city-b"
  table := [(1, ⟨[("sat-0-0", "sat-0-1")], []⟩), (2, ⟨[("sat-0-0", "sat-1-0")], []⟩)]

def skippedSim : Sim := ⟨movingWorld, movingStations, [], [skippedItem]⟩

theorem skippedSim_runs : ∃ last, updates movingConfig ⟨2, 0, 40⟩ skippedSim 1 = .ok last := ⟨_, rfl⟩

theorem deltas_applied_iff_skipped :
    (∀ k ≤ 1, AppliedAt movingConfig ⟨2, 0, 40⟩ skippedSim 0 skippedItem.table k) ↔
      ∀ k : ℕ, k < 1 → CleanTick movingConfig.pastProducerRoutes skippedItem.table (k * 2) ((k + 1 : ℕ) * 2) := by
  obtain ⟨last, hrun⟩ := skippedSim_runs
  exact deltas_applied_iff movingConfig ⟨2, 0, 40⟩ skippedSim 0 skippedItem ⟨by decide, by decide⟩ rfl rfl (by decide)
    1 last hrun

/-- Two deltas fall between the ticks at minutes 0 and 2: the link that the first
one adds has no next hop. -/
theorem first_delta_lost : ∃ params sim, updates movingConfig ⟨2, 0, 40⟩ skippedSim 1 = .ok (params, sim) ∧
    ¬ HasRoute sim.world "/sat/city-b" ("sat-0-0", "sat-0-1") ∧
    ("sat-0-0", "sat-0-1") ∈ linksAt skippedItem.table (1 * 2) ∧
    ¬ AppliedAt movingConfig ⟨2, 0, 40⟩ skippedSim 0 skippedItem.table 1 := by
  have hin : ("sat-0-0", "sat-0-1") ∈ linksAt skippedItem.table (1 * 2) := by
    simp [linksAt, due, skippedItem, applyDeltas, applyDelta]
  refine ⟨_, _, rfl, by decide, hin, fun happlied => ?_⟩
  have hpassed : passedDeltas movingConfig ⟨2, 0, 40⟩ skippedSim 0 1 = [⟨[("sat-0-0", "sat-1-0")], []⟩] := by decide
  rw [AppliedAt, hpassed] at happlied
  have hlost : ("sat-0-0", "sat-0-1") ∈ linksAt skippedItem.table (((1 : ℕ) : ℤ) * 2) := hin
  rw [← happlied] at hlost
  simp [applyDeltas, applyDelta] at hlost

end SkippedDeltas

end LeoNdn.ProducerRoutes
