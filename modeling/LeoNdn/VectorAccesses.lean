import LeoNdn.AttachmentTracking
import LeoNdn.Runs

/-!
The element accesses of `Update`, and until which tick all of them are within
their vectors.
-/

namespace LeoNdn.VectorAccesses

open LeoNdn.Loops LeoNdn.Runs LeoNdn.SimulatedNetwork LeoNdn.StationUpdate LeoNdn.AttachmentTracking

structure Access where
  index : ℕ
  size : ℕ
  deriving DecidableEq, Repr

def Access.InRange (access : Access) : Prop := access.index < access.size

instance (access : Access) : Decidable access.InRange := inferInstanceAs (Decidable (access.index < access.size))

section Loops

variable {α : Type}

/-- The indices that a cursor loop reads after its first. The loop over the attachments compares the size before it
reads, the others after it. -/
def seekReads (curTime : ℤ) (sizeFirst : Bool) : List (ℤ × α) → ℕ → ℤ → List ℕ
  | [], idx, nextTime => if nextTime < curTime ∧ sizeFirst = false then [idx + 1] else []
  | e :: rest, idx, nextTime =>
    if nextTime < curTime then (idx + 1) :: seekReads curTime sizeFirst rest (idx + 1) e.1 else []

def accessesOf (es : List α) (reads : List ℕ) : List Access := reads.map (fun index => ⟨index, es.length⟩)

end Loops

/-- `attachments` in the first loop. -/
def moveReads (st : Station) : List ℕ :=
  if st.isHost = false ∨ st.attachments.length ≤ st.curAttachmentIdx then []
  else if st.handover ∧ st.p2pDevice.isSome then [st.lastAttachmentIdx, st.curAttachmentIdx]
  else [st.curAttachmentIdx]

/-- The route entries of a pair in the second loop. -/
def pairReads (cfg : Config) (curTime : ℤ) : List (ℤ × List String) → List ℕ
  | [] => []
  | [_] => [0]
  | e0 :: e1 :: rest =>
    if e0.1 = 0 ∨ curTime ≤ e0.1 then [0]
    else
      let (curIdx, nextTime) := Timeline.seek curTime (fun _ => cfg.pastRoutes.1) rest 1 e1.1
      let update := (curTime < nextTime ∧ curIdx ≠ 1) ∨ curTime = nextTime
      [0, 1] ++ seekReads curTime false rest 1 e1.1 ++
        if curIdx < (e0 :: e1 :: rest).length ∧ update then
          [0, if curTime < nextTime ∧ curIdx ≠ 1 then curIdx - 1 else curIdx]
        else []

/-- The route changes of a producer in the third loop. -/
def producerReads (cfg : Config) (curTime : ℤ) : List (ℤ × RouteDelta) → List ℕ
  | [] => []
  | e0 :: rest =>
    let (nextIdx, nextTime) := Timeline.seek curTime (fun _ => cfg.pastProducerRoutes.1) rest 0 e0.1
    let update := curTime = nextTime ∨ (curTime < nextTime ∧ 0 < nextIdx)
    [0] ++ seekReads curTime false rest 0 e0.1 ++
      if update then [if curTime < nextTime then nextIdx - 1 else nextIdx] else []

/-- `attachments` in the last loop; the first of them comes before the comparison with the size. -/
def predictReads (cfg : Config) (curTime : ℤ) (st : Station) : List ℕ :=
  if st.isHost = false then []
  else
    let first := (st.attachments.getD st.curAttachmentIdx cfg.pastAttachments).1
    let predicted := predictAttachment cfg curTime st
    [st.curAttachmentIdx] ++
      (if curTime ≤ first ∨ st.attachments.length ≤ st.curAttachmentIdx then []
      else st.curAttachmentIdx ::
        seekReads curTime true (st.attachments.drop (st.curAttachmentIdx + 1)) st.curAttachmentIdx first) ++
      if predicted.handover then [predicted.curAttachmentIdx, predicted.lastAttachmentIdx] else []

/-- The accesses of one call of `Update` that runs to its end; one that ends before makes the first of them. -/
def accesses (cfg : Config) (params : UpdateParams) (sim : Sim) : List Access :=
  sim.stations.flatMap (fun st => accessesOf st.attachments (moveReads st)) ++
    sim.routes.flatMap (fun item => accessesOf item.table (pairReads cfg params.curTime item.table)) ++
    sim.producerRoutes.flatMap (fun item => accessesOf item.table (producerReads cfg params.curTime item.table)) ++
    sim.stations.flatMap
      (fun st => accessesOf st.attachments (predictReads cfg (params.curTime + params.interval) st))

def stateAt (cfg : Config) (params : UpdateParams) (sim : Sim) : ℕ → Except Fault (UpdateParams × Sim)
  | 0 => .ok (params, sim)
  | n + 1 => updates cfg params sim n

/-- All accesses of the calls up to tick `n` are within their vectors. -/
def AllInRange (cfg : Config) (params : UpdateParams) (sim : Sim) (n : ℕ) : Prop :=
  ∀ k ≤ n, ∀ state, stateAt cfg params sim k = .ok state → ∀ access ∈ accesses cfg state.1 state.2, access.InRange

section Conditions

variable {α : Type}

def LastsUntil (es : List (ℤ × α)) (t : ℤ) : Prop := ∃ e ∈ es, t ≤ e.1

def AttachmentsLast (params : UpdateParams) (sim : Sim) (n : ℕ) : Prop :=
  ∀ st ∈ sim.stations, st.isHost = true →
    st.attachments ≠ [] ∧ (0 < n → LastsUntil st.attachments (n * params.interval))

def ProducersLast (params : UpdateParams) (sim : Sim) (n : ℕ) : Prop :=
  ∀ item ∈ sim.producerRoutes, item.table ≠ [] → LastsUntil item.table (n * params.interval)

/-- Of the entries that are left of a pair's, the first has time 0, or there are fewer than two, or some is not before
the time. -/
def PairLasts (curTime : ℤ) : List (ℤ × List String) → Prop
  | e0 :: e1 :: rest => e0.1 = 0 ∨ LastsUntil (e0 :: e1 :: rest) curTime
  | _ => True

def PairsLast (cfg : Config) (params : UpdateParams) (sim : Sim) (n : ℕ) : Prop :=
  ∀ k ≤ n, ∀ state, stateAt cfg params sim k = .ok state →
    ∀ item ∈ state.2.routes, PairLasts state.1.curTime item.table

end Conditions

section Reads

variable {α : Type}

theorem accessesOf_inRange_iff (es : List α) (reads : List ℕ) :
    (∀ access ∈ accessesOf es reads, access.InRange) ↔ ∀ index ∈ reads, index < es.length := by
  simp [accessesOf, Access.InRange]

theorem seekReads_lt_iff (curTime : ℤ) (rest : List (ℤ × α)) (idx : ℕ) (nextTime : ℤ) :
    (∀ index ∈ seekReads curTime false rest idx nextTime, index < idx + 1 + rest.length) ↔
      curTime ≤ nextTime ∨ LastsUntil rest curTime := by
  induction rest generalizing idx nextTime with
  | nil =>
    by_cases hbefore : nextTime < curTime
    · simp [seekReads, hbefore, LastsUntil]
    · simp [seekReads, hbefore, not_lt.mp hbefore]
  | cons e rest ih =>
    by_cases hbefore : nextTime < curTime
    · have hlength : idx + 1 + (e :: rest).length = idx + 1 + 1 + rest.length := by
        rw [List.length_cons]
        omega
      rw [seekReads, if_pos hbefore, List.forall_mem_cons, hlength, ih (idx + 1) e.1]
      simp only [LastsUntil, List.exists_mem_cons_iff, not_le.mpr hbefore, false_or, and_iff_right_iff_imp]
      omega
    · rw [seekReads, if_neg hbefore]
      simp [not_lt.mp hbefore]

theorem seekReads_lt (curTime : ℤ) (rest : List (ℤ × α)) (idx : ℕ) (nextTime : ℤ) :
    ∀ index ∈ seekReads curTime true rest idx nextTime, index < idx + 1 + rest.length := by
  induction rest generalizing idx nextTime with
  | nil => simp [seekReads]
  | cons e rest ih =>
    intro index hindex
    rw [seekReads] at hindex
    split at hindex
    · rw [List.length_cons]
      rcases List.mem_cons.mp hindex with rfl | hmem
      · omega
      · have hlt := ih (idx + 1) e.1 index hmem
        omega
    · cases hindex

theorem LastsUntil.mono {es : List (ℤ × α)} {t t' : ℤ} (h : LastsUntil es t') (ht : t ≤ t') : LastsUntil es t := by
  obtain ⟨e, he, hle⟩ := h
  exact ⟨e, he, ht.trans hle⟩

theorem lastsUntil_drop_iff {es : List (ℤ × α)} {t : ℤ} {i : ℕ} (hpassed : ∀ e ∈ es.take i, e.1 < t) :
    LastsUntil (es.drop i) t ↔ LastsUntil es t := by
  constructor
  · rintro ⟨e, he, hle⟩
    exact ⟨e, List.mem_of_mem_drop he, hle⟩
  · rintro ⟨e, he, hle⟩
    rw [← List.take_append_drop i es, List.mem_append] at he
    rcases he with htake | hdrop
    · exact absurd (hpassed e htake) (not_lt.mpr hle)
    · exact ⟨e, hdrop, hle⟩

theorem seek_stops {curTime : ℤ} (past : ℤ → ℤ) {es : List (ℤ × α)} {i : ℕ} (hi : i < es.length)
    (hlasts : LastsUntil (es.drop i) curTime) :
    ∃ j, ∃ hj : j < es.length, i ≤ j ∧ Timeline.seek curTime past (es.drop (i + 1)) i es[i].1 = (j, es[j].1) ∧
      curTime ≤ es[j].1 ∧ ∀ k, ∀ hk : k < j, i ≤ k → es[k].1 < curTime := by
  rcases Timeline.seek_spec curTime past es i hi with hstop | ⟨-, hbefore⟩
  · exact hstop
  · obtain ⟨e, he, hle⟩ := hlasts
    obtain ⟨k, hk, rfl⟩ := List.mem_drop_iff_getElem.mp he
    exact absurd (hbefore (i + k) (by omega) (by omega)) (not_lt.mpr hle)

theorem seek_stops_first {curTime : ℤ} (past : ℤ → ℤ) {e0 : ℤ × α} {rest : List (ℤ × α)}
    (hlasts : LastsUntil (e0 :: rest) curTime) :
    ∃ j, ∃ hj : j < (e0 :: rest).length, Timeline.seek curTime past rest 0 e0.1 = (j, (e0 :: rest)[j].1) ∧
      curTime ≤ (e0 :: rest)[j].1 ∧ ∀ k, ∀ hk : k < j, (e0 :: rest)[k].1 < curTime := by
  have hdrop : LastsUntil ((e0 :: rest).drop 0) curTime := hlasts
  obtain ⟨j, hj, -, hseek, hle, hbefore⟩ := seek_stops past (by simp : 0 < (e0 :: rest).length) hdrop
  exact ⟨j, hj, hseek, hle, fun k hk => hbefore k hk (Nat.zero_le k)⟩

theorem passed_of_seek {es : List (ℤ × α)} {i j : ℕ} {t : ℤ} (hpassed : ∀ e ∈ es.take i, e.1 < t)
    (hj : j ≤ es.length) (hbefore : ∀ k, ∀ hk : k < j, i ≤ k → es[k].1 < t) : ∀ e ∈ es.take j, e.1 < t := by
  intro e he
  obtain ⟨k, hk, rfl⟩ := List.mem_take_iff_getElem.mp he
  by_cases hik : i ≤ k
  · exact hbefore k (by omega) hik
  · exact hpassed _ (List.mem_take_iff_getElem.mpr ⟨k, by omega, rfl⟩)

end Reads

section Bodies

variable {cfg : Config} {curTime : ℤ}

theorem pairReads_lt_iff (table : List (ℤ × List String)) :
    (∀ index ∈ pairReads cfg curTime table, index < table.length) ↔ PairLasts curTime table := by
  rcases table with _ | ⟨e0, _ | ⟨e1, rest⟩⟩
  · simp [pairReads, PairLasts]
  · simp [pairReads, PairLasts]
  · have hlength : (e0 :: e1 :: rest).length = 1 + 1 + rest.length := by
      simp only [List.length_cons]
      omega
    by_cases hskip : e0.1 = 0 ∨ curTime ≤ e0.1
    · have hlasts : PairLasts curTime (e0 :: e1 :: rest) :=
        hskip.imp_right (fun hle => ⟨e0, List.mem_cons_self, hle⟩)
      simp [pairReads, hskip, hlasts]
    · have hiff : PairLasts curTime (e0 :: e1 :: rest) ↔ curTime ≤ e1.1 ∨ LastsUntil rest curTime := by
        simp only [PairLasts, LastsUntil, List.exists_mem_cons_iff]
        tauto
      rw [hiff, ← seekReads_lt_iff curTime rest 1 e1.1, ← hlength, pairReads, if_neg hskip]
      simp only [List.forall_mem_append]
      refine ⟨fun h => h.1.2, fun h => ⟨⟨?_, h⟩, ?_⟩⟩
      · simp
      · intro index hindex
        split_ifs at hindex with hwithin hgap
        all_goals simp only [List.mem_cons, List.not_mem_nil, or_false] at hindex
        all_goals omega

theorem producerReads_lt_iff (table : List (ℤ × RouteDelta)) :
    (∀ index ∈ producerReads cfg curTime table, index < table.length) ↔ (table ≠ [] → LastsUntil table curTime) := by
  cases table with
  | nil => simp [producerReads]
  | cons e0 rest =>
    have hlength : (e0 :: rest).length = 0 + 1 + rest.length := by
      rw [List.length_cons]
      omega
    have hiff : (e0 :: rest ≠ [] → LastsUntil (e0 :: rest) curTime) ↔ curTime ≤ e0.1 ∨ LastsUntil rest curTime := by
      simp [LastsUntil]
    rw [hiff, ← seekReads_lt_iff curTime rest 0 e0.1, ← hlength, producerReads]
    simp only [List.forall_mem_append]
    refine ⟨fun h => h.1.2, fun h => ⟨⟨by simp, h⟩, ?_⟩⟩
    rw [hlength, seekReads_lt_iff, ← hiff] at h
    obtain ⟨j, hj, hfound, -, -⟩ := seek_stops_first (fun _ => cfg.pastProducerRoutes.1) (h (List.cons_ne_nil e0 rest))
    rw [hfound]
    intro index hindex
    split_ifs at hindex
    all_goals simp only [List.mem_cons, List.not_mem_nil, or_false] at hindex
    all_goals omega

theorem updateProducerRoutes_drops {prefixes : List String} {table table' : List (ℤ × RouteDelta)} {w w' : World}
    (hrun : updateProducerRoutes cfg curTime prefixes table w = .ok (table', w'))
    (hlasts : table ≠ [] → LastsUntil table curTime) :
    ∃ m, table' = table.drop m ∧ ∀ e ∈ table.take m, e.1 < curTime := by
  cases table with
  | nil =>
    cases hrun
    exact ⟨0, rfl, by simp⟩
  | cons e0 rest =>
    obtain ⟨j, hj, hfound, hle, hbefore⟩ :=
      seek_stops_first (fun _ => cfg.pastProducerRoutes.1) (hlasts (List.cons_ne_nil e0 rest))
    have hpassed (m : ℕ) (hm : m ≤ j) : ∀ e ∈ (e0 :: rest).take m, e.1 < curTime :=
      passed_of_seek (i := 0) (by simp) (by omega) (fun k hk _ => hbefore k (by omega))
    simp only [updateProducerRoutes, hfound] at hrun
    split_ifs at hrun with hupdate hgap
    · obtain ⟨w₁, -, heq⟩ := ok_of_bind hrun
      cases heq
      exact ⟨j - 1, rfl, hpassed _ (Nat.sub_le j 1)⟩
    · obtain ⟨w₁, -, heq⟩ := ok_of_bind hrun
      cases heq
      exact ⟨j, rfl, hpassed _ le_rfl⟩
    · cases hrun
      exact ⟨0, rfl, by simp⟩
    · omega

/-- Where the cursor stops within the table, an entry before it stays. -/
theorem advanceRoutes_drops {prefixes : List String} {e0 e1 : ℤ × List String} {rest table : List (ℤ × List String)}
    {w w' : World} {j : ℕ} {nextTime : ℤ} (hpos : 1 ≤ j) (hj : j < (e0 :: e1 :: rest).length)
    (hfound : Timeline.seek curTime (fun _ => cfg.pastRoutes.1) rest 1 e1.1 = (j, nextTime))
    (hrun : advanceRoutes cfg curTime prefixes e0 e1 rest w = .ok (table, w')) :
    ∃ m, m + 1 ≤ j ∧ table = (e0 :: e1 :: rest).drop m := by
  simp only [advanceRoutes, hfound, if_neg (not_le.mpr hj)] at hrun
  split_ifs at hrun with hupdate hgap
  · obtain ⟨w₁, -, hrun⟩ := ok_of_bind hrun
    obtain ⟨w₂, -, heq⟩ := ok_of_bind hrun
    cases heq
    exact ⟨j - 1 - 1, by omega, rfl⟩
  · obtain ⟨w₁, -, hrun⟩ := ok_of_bind hrun
    obtain ⟨w₂, -, heq⟩ := ok_of_bind hrun
    cases heq
    exact ⟨j - 1, by omega, rfl⟩
  · cases hrun
    exact ⟨0, by omega, rfl⟩

theorem updatePairRoutes_drops {prefixes : List String} {table table' : List (ℤ × List String)} {w w' : World}
    (hrun : updatePairRoutes cfg curTime prefixes table w = .ok (table', w')) (hlasts : PairLasts curTime table) :
    (table.length < 2 ∧ table' = []) ∨
    (2 ≤ table'.length ∧ ((∃ e0 rest, table = e0 :: rest ∧ e0.1 = 0 ∧ table' = (-1, e0.2) :: rest) ∨
      ((∀ e0 ∈ table.head?, e0.1 ≠ 0) ∧ ∃ m, table' = table.drop m ∧ ∀ e ∈ table.take m, e.1 < curTime))) := by
  rcases table with _ | ⟨e0, rest⟩
  · cases hrun
    exact Or.inl ⟨by simp, rfl⟩
  · by_cases hzero : e0.1 = 0
    · simp only [updatePairRoutes, if_pos hzero] at hrun
      obtain ⟨w₁, -, heq⟩ := ok_of_bind hrun
      cases heq
      by_cases hshort : ((-1, e0.2) :: rest : List (ℤ × List String)).length < 2
      · exact Or.inl ⟨hshort, if_pos hshort⟩
      · rw [if_neg hshort]
        exact Or.inr ⟨not_lt.mp hshort, Or.inl ⟨e0, rest, rfl, hzero, rfl⟩⟩
    · have hhead : ∀ e ∈ (e0 :: rest).head?, e.1 ≠ 0 := by simpa using hzero
      cases rest with
      | nil =>
        simp only [updatePairRoutes, if_neg hzero] at hrun
        cases hrun
        exact Or.inl ⟨by simp, rfl⟩
      | cons e1 rest =>
        simp only [updatePairRoutes, if_neg hzero] at hrun
        by_cases hyet : curTime ≤ e0.1
        · rw [if_pos hyet] at hrun
          cases hrun
          exact Or.inr ⟨by simp, Or.inr ⟨hhead, 0, rfl, by simp⟩⟩
        · rw [if_neg hyet] at hrun
          obtain ⟨⟨table₁, w₁⟩, hadvance, heq⟩ := ok_of_bind hrun
          have hdrop : LastsUntil ((e0 :: e1 :: rest).drop 1) curTime := by
            rw [lastsUntil_drop_iff (by simpa using hyet)]
            exact hlasts.resolve_left hzero
          obtain ⟨j, hj, hpos, hseek, hle, hbefore⟩ :=
            seek_stops (fun _ => cfg.pastRoutes.1) (by simp : 1 < (e0 :: e1 :: rest).length) hdrop
          have hfound : Timeline.seek curTime (fun _ => cfg.pastRoutes.1) rest 1 e1.1 = (j, (e0 :: e1 :: rest)[j].1) := hseek
          have hpassed (m : ℕ) (hm : m ≤ j) : ∀ e ∈ (e0 :: e1 :: rest).take m, e.1 < curTime :=
            passed_of_seek (i := 1) (by simpa using hyet) (by omega) (fun k hk hik => hbefore k (by omega) hik)
          obtain ⟨m, hm, rfl⟩ := advanceRoutes_drops hpos hj hfound hadvance
          have hlong : 2 ≤ ((e0 :: e1 :: rest).drop m).length := by
            rw [List.length_drop]
            omega
          cases heq
          rw [if_neg (not_lt.mpr hlong)]
          exact Or.inr ⟨hlong, Or.inr ⟨hhead, m, rfl, hpassed m (by omega)⟩⟩

theorem predictAttachment_spec {st : Station} (hcur : st.curAttachmentIdx < st.attachments.length)
    (hpassed : ∀ e ∈ st.attachments.take st.curAttachmentIdx, e.1 < curTime) :
    (∀ e ∈ st.attachments.take (predictAttachment cfg curTime st).curAttachmentIdx, e.1 < curTime) ∧
      ((predictAttachment cfg curTime st).curAttachmentIdx < st.attachments.length ↔ LastsUntil st.attachments curTime) ∧
      ((predictAttachment cfg curTime st).handover = true →
        (predictAttachment cfg curTime st).curAttachmentIdx < st.attachments.length ∧
          (predictAttachment cfg curTime st).lastAttachmentIdx < st.attachments.length) := by
  have hfirst : st.attachments.getD st.curAttachmentIdx cfg.pastAttachments = st.attachments[st.curAttachmentIdx] :=
    List.getD_eq_getElem _ _ hcur
  by_cases hyet : curTime ≤ st.attachments[st.curAttachmentIdx].1
  · have hsame : predictAttachment cfg curTime st = { st with handover := false } := by
      simp only [predictAttachment, hfirst]
      exact if_pos (Or.inl hyet)
    rw [hsame]
    exact ⟨hpassed, iff_of_true hcur ⟨_, List.getElem_mem hcur, hyet⟩, fun h => by cases h⟩
  · have hmoves : ¬ (curTime ≤ st.attachments[st.curAttachmentIdx].1 ∨ st.attachments.length ≤ st.curAttachmentIdx) := by omega
    by_cases hlasts : LastsUntil (st.attachments.drop st.curAttachmentIdx) curTime
    · have hall := (lastsUntil_drop_iff hpassed).mp hlasts
      obtain ⟨j, hj, hij, hfound, hle, hbefore⟩ := seek_stops id hcur hlasts
      have hne : st.curAttachmentIdx ≠ j := by
        rintro rfl
        exact hyet hle
      have hprev : j - 1 < st.attachments.length := by omega
      have hpassed' (m : ℕ) (hm : m ≤ j) : ∀ e ∈ st.attachments.take m, e.1 < curTime :=
        passed_of_seek hpassed (by omega) (fun k hk hik => hbefore k (by omega) hik)
      simp only [predictAttachment, hfirst, if_neg hmoves, hfound]
      split_ifs with hgap hother hhit
      · exact ⟨hpassed' _ (Nat.sub_le j 1), iff_of_true hprev hall, fun _ => ⟨hprev, hcur⟩⟩
      · exact ⟨hpassed' _ (Nat.sub_le j 1), iff_of_true hprev hall, fun h => by cases h⟩
      · exact ⟨hpassed' _ le_rfl, iff_of_true hj hall, fun _ => ⟨hj, hcur⟩⟩
      · omega
    · rcases Timeline.seek_spec curTime id st.attachments _ hcur with ⟨j, hj, hij, -, hle, -⟩ | ⟨hfound, hbefore⟩
      · exact absurd ⟨_, List.mem_drop_iff_getElem.mpr ⟨j - st.curAttachmentIdx, by omega, rfl⟩, by
          simpa only [Nat.add_sub_cancel' hij] using hle⟩ hlasts
      · have hlast := hbefore (st.attachments.length - 1) (by omega) (by omega)
        have hpast : ¬ curTime < st.attachments[st.attachments.length - 1].1 ∧
            ¬ curTime = st.attachments[st.attachments.length - 1].1 := by omega
        simp only [predictAttachment, hfirst, if_neg hmoves, hfound, id, if_neg hpast.1, if_neg hpast.2]
        refine ⟨passed_of_seek hpassed le_rfl hbefore, iff_of_false (lt_irrefl _) ?_, fun h => by cases h⟩
        rwa [← lastsUntil_drop_iff hpassed]

end Bodies

section Stations

variable {cfg : Config} {interval : ℤ}

/-- A station at the start of tick `n`, while its cursor is within. -/
structure Tracked (interval : ℤ) (n : ℕ) (st₀ st : Station) : Prop where
  isHost : st.isHost = st₀.isHost
  attachments : st.attachments = st₀.attachments
  passed : st.isHost = true → ∀ e ∈ st.attachments.take st.curAttachmentIdx, e.1 < n * interval
  within : st.isHost = true → (st.curAttachmentIdx < st.attachments.length ↔
    st.attachments ≠ [] ∧ (0 < n → LastsUntil st.attachments (n * interval)))
  handover : st.isHost = true → st.handover = true → st.lastAttachmentIdx < st.attachments.length

def StationInRange (cfg : Config) (curTime : ℤ) (st : Station) : Prop :=
  (∀ index ∈ moveReads st, index < st.attachments.length) ∧
    ∀ index ∈ predictReads cfg curTime st, index < st.attachments.length

theorem tick_succ (n : ℕ) : ((n + 1 : ℕ) : ℤ) * interval = n * interval + interval := by
  push_cast
  ring

theorem Tracked.inRange_iff {n : ℕ} {st₀ st : Station} (h : Tracked interval n st₀ st) (hinterval : 0 < interval) :
    StationInRange cfg (n * interval + interval) st ↔
      (st₀.isHost = true → st₀.attachments ≠ [] ∧ (0 < n → LastsUntil st₀.attachments (n * interval))) := by
  rw [← h.isHost, ← h.attachments]
  cases hhost : st.isHost with
  | false => simp [StationInRange, moveReads, predictReads, hhost]
  | true =>
    have hwithin := h.within hhost
    simp only [forall_true_left, ← hwithin]
    constructor
    · intro hreads
      exact hreads.2 st.curAttachmentIdx (by simp [predictReads, hhost])
    · intro hcur
      have hpassed : ∀ e ∈ st.attachments.take st.curAttachmentIdx, e.1 < n * interval + interval :=
        fun e he => (h.passed hhost e he).trans (by omega)
      obtain ⟨-, -, hpredicted⟩ := @predictAttachment_spec cfg _ _ hcur hpassed
      refine ⟨?_, ?_⟩
      · intro index hindex
        have hmoves : ¬ (st.isHost = false ∨ st.attachments.length ≤ st.curAttachmentIdx) := by
          rw [hhost]
          simpa using hcur
        rw [moveReads, if_neg hmoves] at hindex
        split_ifs at hindex with hdetach
        all_goals simp only [List.mem_cons, List.not_mem_nil, or_false] at hindex
        · rcases hindex with rfl | rfl
          · exact h.handover hhost hdetach.1
          · exact hcur
        · exact hindex ▸ hcur
      · simp only [predictReads, hhost, Bool.true_eq_false, if_false, List.forall_mem_append]
        refine ⟨⟨by simpa using hcur, ?_⟩, ?_⟩
        · intro index hindex
          split at hindex
          · cases hindex
          · rcases List.mem_cons.mp hindex with rfl | hmem
            · exact hcur
            · have hlt := seekReads_lt _ _ _ _ index hmem
              rw [List.length_drop] at hlt
              omega
        · intro index hindex
          split_ifs at hindex with hhandover
          · obtain ⟨hcur', hlast'⟩ := hpredicted hhandover
            simp only [List.mem_cons, List.not_mem_nil, or_false] at hindex
            rcases hindex with rfl | rfl
            · exact hcur'
            · exact hlast'
          · cases hindex

def StationStep (cfg : Config) (curTime : ℤ) (st st' : Station) : Prop :=
  ∃ p2pDevice, st' = if st.isHost = false then { st with p2pDevice := p2pDevice }
    else predictAttachment cfg curTime { st with p2pDevice := p2pDevice }

theorem Tracked.step {n : ℕ} {st₀ st st' : Station} (h : Tracked interval n st₀ st) (hinterval : 0 < interval)
    (hgood : StationInRange cfg (n * interval + interval) st) (hstep : StationStep cfg (n * interval + interval) st st') :
    Tracked interval (n + 1) st₀ st' := by
  obtain ⟨p2pDevice, rfl⟩ := hstep
  by_cases hhost : st.isHost = false
  · rw [if_pos hhost]
    have hnone {P : Prop} (hh : st.isHost = true) : P := absurd (hhost.symm.trans hh) Bool.false_ne_true
    exact ⟨h.isHost, h.attachments, hnone, hnone, hnone⟩
  · rw [if_neg hhost]
    rw [Bool.not_eq_false] at hhost
    have hcur : st.curAttachmentIdx < st.attachments.length := hgood.2 _ (by simp [predictReads, hhost])
    have hpassed : ∀ e ∈ st.attachments.take st.curAttachmentIdx, e.1 < n * interval + interval :=
      fun e he => (h.passed hhost e he).trans (by omega)
    obtain ⟨hpassed', hwithin', hhandover'⟩ :=
      @predictAttachment_spec cfg _ { st with p2pDevice := p2pDevice } hcur hpassed
    obtain ⟨cur, last, handover, hpredict⟩ :=
      predictAttachment_attachments cfg (n * interval + interval) { st with p2pDevice := p2pDevice }
    rw [hpredict] at hpassed' hwithin' hhandover' ⊢
    refine ⟨h.isHost, h.attachments, fun _ => ?_, fun _ => ?_, fun _ hh => (hhandover' hh).2⟩
    · rw [tick_succ]
      exact hpassed'
    · rw [tick_succ]
      refine hwithin'.trans ⟨fun hlasts => ⟨List.ne_nil_of_length_pos (Nat.zero_lt_of_lt hcur), fun _ => hlasts⟩, fun hlasts => ?_⟩
      exact hlasts.2 (Nat.succ_pos n)

end Stations

section Tables

variable {cfg : Config} {interval : ℤ}

/-- What is left of the changes of a producer at the start of tick `n`. -/
structure ProducerKept (interval : ℤ) (n : ℕ) (item₀ item : ProducerItem) : Prop where
  rest : ∃ m, item.table = item₀.table.drop m ∧ ∀ e ∈ item₀.table.take m, e.1 < n * interval
  notEmpty : item₀.table ≠ [] → item.table ≠ []

theorem ProducerKept.inRange_iff {n : ℕ} {item₀ item : ProducerItem} (h : ProducerKept interval n item₀ item) :
    (item.table ≠ [] → LastsUntil item.table (n * interval)) ↔
      (item₀.table ≠ [] → LastsUntil item₀.table (n * interval)) := by
  obtain ⟨m, hrest, hpassed⟩ := h.rest
  have hempty : item.table ≠ [] ↔ item₀.table ≠ [] :=
    ⟨fun hne hnil => hne (by rw [hrest, hnil, List.drop_nil]), h.notEmpty⟩
  rw [hempty, hrest, lastsUntil_drop_iff hpassed]

theorem take_add_passed {α : Type} {es : List (ℤ × α)} {m k : ℕ} {t t' : ℤ} (ht : t ≤ t')
    (hpassed : ∀ e ∈ es.take m, e.1 < t) (hmore : ∀ e ∈ (es.drop m).take k, e.1 < t') :
    ∀ e ∈ es.take (m + k), e.1 < t' := by
  intro e he
  rw [List.take_add, List.mem_append] at he
  rcases he with hbefore | hafter
  · exact (hpassed e hbefore).trans_le ht
  · exact hmore e hafter

def ProducerStep (cfg : Config) (curTime : ℤ) (item item' : ProducerItem) : Prop :=
  ∃ prefixes w w', updateProducerRoutes cfg curTime prefixes item.table w = .ok (item'.table, w')

theorem ProducerKept.step {n : ℕ} {item₀ item item' : ProducerItem} (h : ProducerKept interval n item₀ item)
    (hinterval : 0 < interval) (hgood : item.table ≠ [] → LastsUntil item.table (n * interval))
    (hstep : ProducerStep cfg (n * interval) item item') : ProducerKept interval (n + 1) item₀ item' := by
  obtain ⟨prefixes, w, w', hrun⟩ := hstep
  obtain ⟨k, htable, hmore⟩ := updateProducerRoutes_drops hrun hgood
  obtain ⟨m, hrest, hpassed⟩ := h.rest
  have hlt : n * interval ≤ ((n + 1 : ℕ) : ℤ) * interval := by
    rw [tick_succ]
    omega
  refine ⟨⟨m + k, by rw [htable, hrest, List.drop_drop], ?_⟩, fun hne hnil => ?_⟩
  · rw [hrest] at hmore
    exact take_add_passed hlt hpassed (fun e he => (hmore e he).trans_le hlt)
  · obtain ⟨e, he, hle⟩ := (lastsUntil_drop_iff hmore).mpr (hgood (h.notEmpty hne))
    rw [← htable, hnil] at he
    cases he

/-- The entries of a pair once the first of time 0 has been marked. -/
def marked : List (ℤ × List String) → List (ℤ × List String)
  | [] => []
  | e0 :: rest => (if e0.1 = 0 then -1 else e0.1, e0.2) :: rest

/-- What is left of the entries of a pair at the start of tick `n`. -/
structure PairKept (interval : ℤ) (n : ℕ) (item₀ item : RouteItem) : Prop where
  short : item₀.table.length < 2 → item.table.length < 2
  start : n = 0 → item.table = item₀.table
  rest : 2 ≤ item₀.table.length → 0 < n → 2 ≤ item.table.length ∧
    ∃ m, item.table = (marked item₀.table).drop m ∧ ∀ e ∈ (marked item₀.table).take m, e.1 < n * interval

theorem marked_ne_zero {table : List (ℤ × List String)} (hzero : ∀ e ∈ table.tail, e.1 ≠ 0) :
    ∀ e ∈ marked table, e.1 ≠ 0 := by
  cases table with
  | nil => simp [marked]
  | cons e0 rest =>
    intro e he
    rcases List.mem_cons.mp he with rfl | hmem
    · by_cases h0 : e0.1 = 0
      · simp [h0]
      · simp [h0]
    · exact hzero e hmem

theorem marked_eq {table : List (ℤ × List String)} (hhead : ∀ e ∈ table.head?, e.1 ≠ 0) : marked table = table := by
  cases table with
  | nil => rfl
  | cons e0 rest => rw [marked, if_neg (hhead e0 rfl)]

theorem lastsUntil_marked {table : List (ℤ × List String)} {t : ℤ} (ht : 0 < t) :
    LastsUntil (marked table) t ↔ LastsUntil table t := by
  cases table with
  | nil => exact Iff.rfl
  | cons e0 rest =>
    simp only [LastsUntil, marked, List.exists_mem_cons_iff]
    by_cases h0 : e0.1 = 0
    · rw [if_pos h0]
      have hnone : ¬ t ≤ -1 ∧ ¬ t ≤ e0.1 := by omega
      simp only [hnone.1, hnone.2]
    · rw [if_neg h0]

theorem pairLasts_iff {table : List (ℤ × List String)} {t : ℤ} (hlong : 2 ≤ table.length)
    (hzero : ∀ e ∈ table.head?, e.1 = 0 → t ≤ e.1) : PairLasts t table ↔ LastsUntil table t := by
  rcases table with _ | ⟨e0, _ | ⟨e1, rest⟩⟩
  · simp at hlong
  · simp at hlong
  · exact ⟨fun h => h.elim (fun h0 => ⟨e0, List.mem_cons_self, hzero e0 rfl h0⟩) id, Or.inr⟩

theorem PairLasts.of_short {table : List (ℤ × List String)} {t : ℤ} (h : table.length < 2) : PairLasts t table := by
  rcases table with _ | ⟨e0, _ | ⟨e1, rest⟩⟩
  · trivial
  · trivial
  · simp only [List.length_cons] at h
    omega

theorem PairKept.lasts_iff {n : ℕ} {item₀ item : RouteItem} (h : PairKept interval n item₀ item)
    (hinterval : 0 < interval) (hzero : ∀ e ∈ item₀.table.tail, e.1 ≠ 0) :
    PairLasts (n * interval) item.table ↔ (2 ≤ item₀.table.length → LastsUntil item₀.table (n * interval)) := by
  by_cases hlong : 2 ≤ item₀.table.length
  · rw [forall_prop_of_true hlong]
    rcases Nat.eq_zero_or_pos n with rfl | hpos
    · rw [h.start rfl]
      refine pairLasts_iff hlong (fun e _ h0 => ?_)
      rw [h0]
      simp
    · obtain ⟨hrest, m, htable, hpassed⟩ := h.rest hlong hpos
      have ht : 0 < (n : ℤ) * interval := by positivity
      rw [pairLasts_iff hrest, htable, lastsUntil_drop_iff hpassed, lastsUntil_marked ht]
      intro e he h0
      have hmem : e ∈ marked item₀.table := by
        refine @List.mem_of_mem_drop _ _ m _ ?_
        rw [← htable]
        exact List.mem_of_mem_head? he
      exact absurd h0 (marked_ne_zero hzero e hmem)
  · exact iff_of_true (PairLasts.of_short (h.short (not_le.mp hlong))) (fun hh => absurd hh hlong)

def PairStep (cfg : Config) (curTime : ℤ) (item item' : RouteItem) : Prop :=
  ∃ prefixes w w', updatePairRoutes cfg curTime prefixes item.table w = .ok (item'.table, w')

theorem PairKept.step {n : ℕ} {item₀ item item' : RouteItem} (h : PairKept interval n item₀ item)
    (hinterval : 0 < interval) (hzero : ∀ e ∈ item₀.table.tail, e.1 ≠ 0) (hgood : PairLasts (n * interval) item.table)
    (hstep : PairStep cfg (n * interval) item item') : PairKept interval (n + 1) item₀ item' := by
  obtain ⟨prefixes, w, w', hrun⟩ := hstep
  have hlt : n * interval < ((n + 1 : ℕ) : ℤ) * interval := by
    rw [tick_succ]
    omega
  have hkept (hlong : 2 ≤ item₀.table.length) (hhead : ∀ e ∈ item.table.head?, e.1 ≠ 0) :
      ∃ m, item.table = (marked item₀.table).drop m ∧ ∀ e ∈ (marked item₀.table).take m, e.1 < n * interval := by
    rcases Nat.eq_zero_or_pos n with rfl | hpos
    · have hstart := h.start rfl
      rw [hstart] at hhead
      exact ⟨0, by rw [hstart, marked_eq hhead, List.drop_zero], by simp⟩
    · exact (h.rest hlong hpos).2
  have hlength (hlong : 2 ≤ item₀.table.length) : 2 ≤ item.table.length := by
    rcases Nat.eq_zero_or_pos n with rfl | hpos
    · rwa [h.start rfl]
    · exact (h.rest hlong hpos).1
  refine ⟨fun hshort => ?_, fun hn => absurd hn (Nat.succ_ne_zero n), fun hlong _ => ?_⟩
  · have hitem := h.short hshort
    rcases updatePairRoutes_drops hrun hgood with ⟨-, hnil⟩ | ⟨-, ⟨e0, rest, htable, -, hmark⟩ | ⟨-, k, hdrop, -⟩⟩
    · simp [hnil]
    · rw [hmark]
      rwa [htable] at hitem
    · rw [hdrop, List.length_drop]
      omega
  · rcases updatePairRoutes_drops hrun hgood with ⟨hshort, -⟩ | ⟨hrest, ⟨e0, rest, htable, h0, hmark⟩ | ⟨hhead, k, hdrop, hmore⟩⟩
    · exact absurd (hlength hlong) (not_le.mpr hshort)
    · refine ⟨hrest, 0, ?_, by simp⟩
      rcases Nat.eq_zero_or_pos n with rfl | hpos
      · rw [← h.start rfl, htable, marked, if_pos h0, List.drop_zero, hmark]
      · obtain ⟨-, m, hdrop, -⟩ := h.rest hlong hpos
        have hmem : e0 ∈ marked item₀.table := by
          refine @List.mem_of_mem_drop _ _ m _ ?_
          rw [← hdrop, htable]
          exact List.mem_cons_self
        exact absurd h0 (marked_ne_zero hzero e0 hmem)
    · obtain ⟨m, htable, hpassed⟩ := hkept hlong hhead
      refine ⟨hrest, m + k, by rw [hdrop, htable, List.drop_drop], ?_⟩
      rw [htable] at hmore
      exact take_add_passed hlt.le hpassed (fun e he => (hmore e he).trans hlt)

end Tables

section Ticks

variable {cfg : Config} {params : UpdateParams} {sim : Sim}

structure Tick (cfg : Config) (state state' : UpdateParams × Sim) : Prop where
  params : state'.1 = { state.1 with curTime := state.1.curTime + state.1.interval }
  stations : List.Forall₂ (StationStep cfg (state.1.curTime + state.1.interval)) state.2.stations state'.2.stations
  routes : List.Forall₂ (PairStep cfg state.1.curTime) state.2.routes state'.2.routes
  producers : List.Forall₂ (ProducerStep cfg state.1.curTime) state.2.producerRoutes state'.2.producerRoutes

theorem Update_tick {state state' : UpdateParams × Sim} (h : Update cfg state.1 state.2 = .ok state') :
    Tick cfg state state' := by
  obtain ⟨params', sim'⟩ := state'
  obtain ⟨stations, w₁, routes, w₂, producerRoutes, w₃, stations', w₄, hmove, hroutes, hproducers, hpredict, rfl, rfl⟩ :=
    Update_ok h
  refine ⟨rfl, ?_, ?_, ?_⟩
  · have hmoved : List.Forall₂ (fun st st₁ : Station => st₁ = { st with p2pDevice := st₁.p2pDevice })
        state.2.stations stations := by
      refine forEach_forall₂ (fun st w st₁ w' hpass => ?_) hmove
      exact (moveUserLink_grows hpass).2
    have hpredicted : List.Forall₂ (fun st₁ st' : Station => st' = if st₁.isHost = false then st₁
        else predictAttachment cfg (state.1.curTime + state.1.interval) st₁) stations stations' := by
      refine forEach_forall₂ (fun st₁ w st' w' hpass => ?_) hpredict
      unfold updateAttachment at hpass
      split_ifs at hpass with hhost
      · cases hpass
        rw [if_pos hhost]
      · cases hpass
        rw [if_neg hhost]
    refine forall₂_comp (fun st st₁ st' hmoved hpredicted => ?_) hmoved hpredicted
    rw [hmoved] at hpredicted
    exact ⟨st₁.p2pDevice, hpredicted⟩
  · refine forEach_forall₂ (fun item w item' w' hpass => ?_) hroutes
    obtain ⟨⟨table, w₀⟩, hrun, heq⟩ := ok_of_bind hpass
    cases heq
    exact ⟨_, _, _, hrun⟩
  · refine forEach_forall₂ (fun item w item' w' hpass => ?_) hproducers
    obtain ⟨⟨table, w₀⟩, hrun, heq⟩ := ok_of_bind hpass
    cases heq
    exact ⟨_, _, _, hrun⟩

theorem stateAt_succ (k : ℕ) (state' : UpdateParams × Sim) (h : stateAt cfg params sim (k + 1) = .ok state') :
    ∃ state, stateAt cfg params sim k = .ok state ∧ Tick cfg state state' := by
  cases k with
  | zero => exact ⟨(params, sim), rfl, Update_tick h⟩
  | succ k =>
    obtain ⟨state, hstate, hrun⟩ := ok_of_bind h
    exact ⟨state, hstate, Update_tick hrun⟩

def AtTick (params : UpdateParams) (n : ℕ) (state : UpdateParams × Sim) : Prop :=
  state.1.curTime = n * params.interval ∧ state.1.interval = params.interval

theorem AtTick.next {n : ℕ} {state state' : UpdateParams × Sim} (h : AtTick params n state)
    (htick : Tick cfg state state') : AtTick params (n + 1) state' := by
  rw [AtTick, htick.params, tick_succ, ← h.1, ← h.2]
  exact ⟨rfl, rfl⟩

theorem accesses_inRange_iff (state : UpdateParams × Sim) :
    (∀ access ∈ accesses cfg state.1 state.2, access.InRange) ↔
      (∀ st ∈ state.2.stations, StationInRange cfg (state.1.curTime + state.1.interval) st) ∧
      (∀ item ∈ state.2.producerRoutes, item.table ≠ [] → LastsUntil item.table state.1.curTime) ∧
      ∀ item ∈ state.2.routes, PairLasts state.1.curTime item.table := by
  have hflat {α : Type} (items : List α) (f : α → List Access) :
      (∀ access ∈ items.flatMap f, access.InRange) ↔ ∀ item ∈ items, ∀ access ∈ f item, access.InRange := by
    simp only [List.mem_flatMap, forall_exists_index, and_imp]
    exact ⟨fun h item hitem access haccess => h access item hitem haccess,
      fun h access item hitem haccess => h item hitem access haccess⟩
  simp only [accesses, List.forall_mem_append, hflat, accessesOf_inRange_iff, pairReads_lt_iff, producerReads_lt_iff,
    StationInRange]
  constructor
  · rintro ⟨⟨⟨hmove, hpairs⟩, hproducers⟩, hpredict⟩
    exact ⟨fun st hst => ⟨hmove st hst, hpredict st hst⟩, hproducers, hpairs⟩
  · rintro ⟨hstations, hproducers, hpairs⟩
    exact ⟨⟨⟨fun st hst => (hstations st hst).1, hpairs⟩, hproducers⟩, fun st hst => (hstations st hst).2⟩

structure AtStart (params : UpdateParams) (sim : Sim) : Prop where
  curTime : params.curTime = 0
  interval : 0 < params.interval
  cursors : ∀ st ∈ sim.stations, st.isHost = true → st.curAttachmentIdx = 0 ∧ st.handover = false

theorem stations_inRange_iff (h : AtStart params sim) {n : ℕ} {state : UpdateParams × Sim}
    (hstate : stateAt cfg params sim n = .ok state) :
    (∀ k ≤ n, ∀ state, stateAt cfg params sim k = .ok state →
      ∀ st ∈ state.2.stations, StationInRange cfg (state.1.curTime + state.1.interval) st) ↔ AttachmentsLast params sim n := by
  refine @always_iff _ _ _ (Tick cfg)
    (fun n state => AtTick params n state ∧ List.Forall₂ (Tracked params.interval n) sim.stations state.2.stations)
    _ _ stateAt_succ ?_ ?_ ?_ ?_ n state hstate
  · rintro state hstate
    cases hstate
    refine ⟨⟨by simp [h.curTime], rfl⟩, List.forall₂_same.mpr fun st hst => ⟨rfl, rfl, ?_, ?_, ?_⟩⟩
    · intro hhost
      simp [(h.cursors st hst hhost).1]
    · intro hhost
      rw [(h.cursors st hst hhost).1, List.length_pos_iff]
      simp
    · intro hhost hhandover
      rw [(h.cursors st hst hhost).2] at hhandover
      cases hhandover
  · rintro k state state' ⟨htime, htracked⟩ hgood htick
    rw [htime.1, htime.2] at hgood
    have hstations := htick.stations
    rw [htime.1, htime.2] at hstations
    refine ⟨htime.next htick, ?_⟩
    exact forall₂_comp (fun st₀ st st' hst hstep => hst.step h.interval hstep.1 hstep.2) htracked
      ((List.forall₂_and_left _ _).mpr ⟨hgood, hstations⟩)
  · rintro k state ⟨htime, htracked⟩
    rw [htime.1, htime.2]
    exact (forall₂_forall_iff (fun st₀ st hst => (hst.inRange_iff h.interval).symm) htracked).symm
  · intro k hlast st hst hhost
    obtain ⟨hne, hlasts⟩ := hlast st hst hhost
    refine ⟨hne, fun _ => (hlasts (Nat.succ_pos k)).mono ?_⟩
    rw [tick_succ]
    exact le_add_of_nonneg_right h.interval.le

theorem producers_inRange_iff (h : AtStart params sim) {n : ℕ} {state : UpdateParams × Sim}
    (hstate : stateAt cfg params sim n = .ok state) :
    (∀ k ≤ n, ∀ state, stateAt cfg params sim k = .ok state →
      ∀ item ∈ state.2.producerRoutes, item.table ≠ [] → LastsUntil item.table state.1.curTime) ↔
        ProducersLast params sim n := by
  refine @always_iff _ _ _ (Tick cfg)
    (fun n state => AtTick params n state ∧
      List.Forall₂ (ProducerKept params.interval n) sim.producerRoutes state.2.producerRoutes)
    _ _ stateAt_succ ?_ ?_ ?_ ?_ n state hstate
  · rintro state hstate
    cases hstate
    exact ⟨⟨by simp [h.curTime], rfl⟩, List.forall₂_same.mpr fun item _ => ⟨⟨0, rfl, by simp⟩, id⟩⟩
  · rintro k state state' ⟨htime, hkept⟩ hgood htick
    have hproducers := htick.producers
    rw [htime.1] at hgood hproducers
    refine ⟨htime.next htick, ?_⟩
    exact forall₂_comp (fun item₀ item item' hitem hstep => hitem.step h.interval hstep.1 hstep.2) hkept
      ((List.forall₂_and_left _ _).mpr ⟨hgood, hproducers⟩)
  · rintro k state ⟨htime, hkept⟩
    rw [htime.1]
    exact (forall₂_forall_iff (fun item₀ item hitem => hitem.inRange_iff.symm) hkept).symm
  · intro k hlast item hitem hne
    refine (hlast item hitem hne).mono ?_
    rw [tick_succ]
    exact le_add_of_nonneg_right h.interval.le

theorem pairsLast_iff (h : AtStart params sim) (hzero : ∀ item ∈ sim.routes, ∀ e ∈ item.table.tail, e.1 ≠ 0) {n : ℕ}
    {state : UpdateParams × Sim} (hstate : stateAt cfg params sim n = .ok state) :
    PairsLast cfg params sim n ↔
      ∀ item ∈ sim.routes, 2 ≤ item.table.length → LastsUntil item.table (n * params.interval) := by
  refine @always_iff _ _ _ (Tick cfg)
    (fun n state => AtTick params n state ∧
      List.Forall₂ (fun item₀ item => (∀ e ∈ item₀.table.tail, e.1 ≠ 0) ∧ PairKept params.interval n item₀ item)
        sim.routes state.2.routes)
    (fun state => ∀ item ∈ state.2.routes, PairLasts state.1.curTime item.table)
    (fun n => ∀ item ∈ sim.routes, 2 ≤ item.table.length → LastsUntil item.table (n * params.interval)) stateAt_succ
    ?_ ?_ ?_ ?_ n state hstate
  · rintro state hstate
    cases hstate
    refine ⟨⟨by simp [h.curTime], rfl⟩, List.forall₂_same.mpr fun item hitem => ⟨hzero item hitem, id, fun _ => rfl, ?_⟩⟩
    exact fun _ hpos => absurd hpos (lt_irrefl 0)
  · rintro k state state' ⟨htime, hkept⟩ hgood htick
    have hroutes := htick.routes
    rw [htime.1] at hgood hroutes
    refine ⟨htime.next htick, ?_⟩
    exact forall₂_comp (fun item₀ item item' hitem hstep =>
      ⟨hitem.1, hitem.2.step h.interval hitem.1 hstep.1 hstep.2⟩) hkept
      ((List.forall₂_and_left _ _).mpr ⟨hgood, hroutes⟩)
  · rintro k state ⟨htime, hkept⟩
    rw [htime.1]
    exact (forall₂_forall_iff (fun item₀ item hitem => (hitem.2.lasts_iff h.interval hitem.1).symm) hkept).symm
  · intro k hlast item hitem hlong
    refine (hlast item hitem hlong).mono ?_
    rw [tick_succ]
    exact le_add_of_nonneg_right h.interval.le

/-- The accesses of the calls up to tick `n` are in range if and only if no timeline and no table is used up before. -/
theorem allInRange_iff (h : AtStart params sim) {n : ℕ} {state : UpdateParams × Sim}
    (hstate : stateAt cfg params sim n = .ok state) :
    (AllInRange cfg params sim n ↔
      AttachmentsLast params sim n ∧ ProducersLast params sim n ∧ PairsLast cfg params sim n) ∧
    ((∀ item ∈ sim.routes, ∀ e ∈ item.table.tail, e.1 ≠ 0) → (PairsLast cfg params sim n ↔
      ∀ item ∈ sim.routes, 2 ≤ item.table.length → LastsUntil item.table (n * params.interval))) := by
  refine ⟨?_, fun hzero => pairsLast_iff h hzero hstate⟩
  rw [← stations_inRange_iff h hstate, ← producers_inRange_iff h hstate]
  simp only [AllInRange, accesses_inRange_iff, PairsLast]
  constructor
  · intro hall
    exact ⟨fun k hk state hstate => (hall k hk state hstate).1, fun k hk state hstate => (hall k hk state hstate).2.1,
      fun k hk state hstate => (hall k hk state hstate).2.2⟩
  · rintro ⟨hstations, hproducers, hpairs⟩ k hk state hstate
    exact ⟨hstations k hk state hstate, hproducers k hk state hstate, hpairs k hk state hstate⟩

end Ticks

section Examples

/-- A host with one entry, a pair with two and a producer with one. -/
def endingSim : Sim where
  world := lateWorld
  stations := [{ lateTerminal with attachments := [(0, "sat-0-0")] }]
  routes := [⟨"city-a", "city-b", [(0, ["sat-0-0", "sat-0-1"]), (1, ["sat-0-1", "sat-0-0"])]⟩]
  producerRoutes := [⟨"city-b", [(0, ⟨[], []⟩)]⟩]

theorem endingSim_atStart : AtStart ⟨2, 0, 40⟩ endingSim where
  curTime := rfl
  interval := by decide
  cursors := by decide

theorem allInRange_endingSim : AllInRange lateConfig ⟨2, 0, 40⟩ endingSim 0 := by
  obtain ⟨hiff, hpairs⟩ := @allInRange_iff lateConfig _ _ endingSim_atStart 0 _ rfl
  refine hiff.mpr ⟨?_, ?_, (hpairs (by decide)).mpr ?_⟩
  · intro st hst _
    exact ⟨by
      obtain rfl := List.mem_singleton.mp hst
      decide, fun hpos => absurd hpos (lt_irrefl 0)⟩
  · intro item hitem _
    obtain rfl := List.mem_singleton.mp hitem
    exact ⟨_, List.mem_cons_self, le_rfl⟩
  · intro item hitem _
    obtain rfl := List.mem_singleton.mp hitem
    exact ⟨_, List.mem_cons_self, le_rfl⟩

/-- At tick 1 each of the three loops reads the element past the end. -/
theorem not_allInRange_endingSim :
    (∃ state, stateAt lateConfig ⟨2, 0, 40⟩ endingSim 1 = .ok state ∧
      (accesses lateConfig state.1 state.2).filter (fun access => ¬ access.InRange) = [⟨2, 2⟩, ⟨1, 1⟩, ⟨1, 1⟩]) ∧
    ¬ AllInRange lateConfig ⟨2, 0, 40⟩ endingSim 1 := by
  have hstate : ∃ state, stateAt lateConfig ⟨2, 0, 40⟩ endingSim 1 = .ok state ∧
      (accesses lateConfig state.1 state.2).filter (fun access => ¬ access.InRange) = [⟨2, 2⟩, ⟨1, 1⟩, ⟨1, 1⟩] :=
    ⟨_, rfl, by decide⟩
  refine ⟨hstate, fun hall => ?_⟩
  obtain ⟨state, hok, hpast⟩ := hstate
  have hmem : (⟨2, 2⟩ : Access) ∈ (accesses lateConfig state.1 state.2).filter (fun access => ¬ access.InRange) := by
    rw [hpast]
    exact List.mem_cons_self
  have hrange := hall 1 le_rfl state hok _ (List.mem_filter.mp hmem).1
  exact absurd hrange (by decide)

end Examples

end LeoNdn.VectorAccesses
