import LeoNdn.SatelliteFibs
import Mathlib.Tactic.Linarith

/-!
The route table of a consumer/producer pair, consumed tick by tick, and the next
hops it leaves on the inter-satellite links.
-/

namespace LeoNdn.RouteTables

open LeoNdn.Loops LeoNdn.SimulatedNetwork LeoNdn.StationUpdate LeoNdn.AttachmentTracking
open LeoNdn.SatelliteFibs

def route (es : List (ℤ × List String)) (i : ℕ) : List String := (es.getD i (0, [])).2

def lastTime (es : List (ℤ × List String)) : ℤ := (es.getLast?.map Prod.fst).getD 0

def marked : List (ℤ × List String) → List (ℤ × List String)
  | [] => []
  | e :: es => (-1, e.2) :: es

theorem marked_length (es : List (ℤ × List String)) : (marked es).length = es.length := by
  cases es <;> rfl

theorem marked_getElem (es : List (ℤ × List String)) (i : ℕ) (hi : i < (marked es).length) (hpos : 0 < i) :
    (marked es)[i] = getElem es i (by rwa [marked_length] at hi) := by
  rcases es with _ | ⟨e, es⟩
  · simp [marked] at hi
  · obtain ⟨i, rfl⟩ : ∃ j, i = j + 1 := ⟨i - 1, by omega⟩
    rfl

theorem marked_route (es : List (ℤ × List String)) (i : ℕ) (hi : i < (marked es).length) :
    (marked es)[i].2 = route es i := by
  have hlen : i < es.length := by rwa [marked_length] at hi
  unfold route
  rw [List.getD_eq_getElem _ _ hlen]
  rcases es with _ | ⟨e, es⟩
  · simp [marked] at hi
  · cases i <;> rfl

/-- What is left of the table after the tick at time `t`: the entry before the
one in force, and all the later ones. -/
def remaining (es : List (ℤ × List String)) (t : ℤ) : List (ℤ × List String) :=
  if 2 ≤ es.length ∧ t ≤ lastTime es then (marked es).drop (Timeline.inForce es t - 1) else []

theorem lastTime_eq {es : List (ℤ × List String)} (h : Timeline.FromZero es) :
    lastTime es = (getElem es (es.length - 1) h.last_lt).1 := by
  rw [lastTime, h.getLast?]
  rfl

theorem valueAt_route {es : List (ℤ × List String)} (h : Timeline.FromZero es) {t : ℤ} (ht : 0 ≤ t) :
    Timeline.valueAt es t = some (route es (Timeline.inForce es t)) := by
  rw [h.valueAt_eq ht, route, List.getD_eq_getElem _ _ (h.inForce_spec ht).1]

theorem updatePairRoutes_start {cfg : Config} {prefixes : List String} {es table : List (ℤ × List String)}
    (h : Timeline.FromZero es) {w w' : World}
    (hrun : updatePairRoutes cfg 0 prefixes es w = .ok (table, w')) :
    ApplyRoutes prefixes (route es 0) w = .ok w' ∧ table = remaining es 0 := by
  have hfirst := h.first
  have hlast : 0 ≤ lastTime es := by
    rw [lastTime_eq h]
    exact h.last_nonneg
  have hzero := h.inForce_zero
  rcases es with _ | ⟨e0, rest⟩
  · exact absurd h.length_pos (by simp)
  · simp only [updatePairRoutes, List.getElem_cons_zero] at hrun hfirst
    rw [if_pos hfirst] at hrun
    obtain ⟨w₁, happly, hrun⟩ := ok_of_bind hrun
    cases hrun
    refine ⟨happly, ?_⟩
    simp only [remaining, hzero, marked, List.length_cons]
    by_cases hlen : rest.length + 1 < 2
    · rw [if_pos hlen, if_neg (by omega)]
    · rw [if_neg hlen, if_pos ⟨by omega, hlast⟩]
      rfl

theorem seek_remaining {es : List (ℤ × List String)} (h : Timeline.FromZero es) {t t' : ℤ} (ht : 0 ≤ t)
    (hlt : t < t') (past : ℤ → ℤ) {b : ℕ} (hb : b = Timeline.inForce es t - 1)
    {e0 e1 : ℤ × List String} {rest : List (ℤ × List String)} (hd : (marked es).drop b = e0 :: e1 :: rest) :
    (lastTime es < t' ∧ (e0 :: e1 :: rest).length ≤ (Timeline.seek t' past rest 1 e1.1).1) ∨
    (t' ≤ lastTime es ∧ ∃ j, 0 < j ∧ j < (e0 :: e1 :: rest).length ∧
      (Timeline.seek t' past rest 1 e1.1).1 = j ∧
      ((t' < (Timeline.seek t' past rest 1 e1.1).2 ∧ Timeline.inForce es t' = b + j - 1) ∨
        (t' = (Timeline.seek t' past rest 1 e1.1).2 ∧ Timeline.inForce es t' = b + j))) := by
  have hlen : (e0 :: e1 :: rest).length + b = es.length := by
    have := congrArg List.length hd
    rw [List.length_drop, marked_length] at this
    simp only [List.length_cons] at this ⊢
    omega
  have hentry (k : ℕ) (hk : k < (e0 :: e1 :: rest).length) (hpos : 0 < b + k) :
      (e0 :: e1 :: rest)[k] = getElem es (b + k) (by omega) := by
    rw [← marked_getElem es (b + k) (by rw [marked_length]; omega) hpos]
    simp only [← hd, List.getElem_drop]
  obtain ⟨hi, hle, -⟩ := h.inForce_spec ht
  rcases Timeline.seek_spec t' past (e0 :: e1 :: rest) 1 (by simp) with
    ⟨j, hj, hpos, hseek, hstop, hbefore⟩ | ⟨hseek, hbefore⟩
  · have hfound : Timeline.seek t' past rest 1 e1.1 = (j, (e0 :: e1 :: rest)[j].1) := hseek
    rw [hentry j hj (by omega)] at hstop hfound
    have hlast := (h.increasing.le_iff (by omega : b + j < es.length) h.last_lt).mpr (by omega)
    refine Or.inr ⟨by rw [lastTime_eq h]; omega, j, hpos, hj, by rw [hfound], ?_⟩
    rw [hfound]
    rcases hstop.lt_or_eq with hgap | hhit
    · refine Or.inl ⟨hgap, h.increasing.inForce_eq (by omega) ?_ ?_⟩
      · by_cases hone : j = 1
        · have hb' := (h.increasing.le_iff (by omega : b + j - 1 < es.length) hi).mpr (by omega)
          omega
        · have hprev := hbefore (j - 1) (by omega) (by omega)
          rw [hentry (j - 1) (by omega) (by omega)] at hprev
          simp only [show b + (j - 1) = b + j - 1 by omega] at hprev
          exact hprev.le
      · intro hnext
        simpa only [show b + j - 1 + 1 = b + j by omega] using hgap
    · refine Or.inr ⟨hhit, ?_⟩
      rw [hhit]
      exact h.increasing.inForce_getElem (by omega)
  · have hfound : Timeline.seek t' past rest 1 e1.1 =
        ((e0 :: e1 :: rest).length, past ((e0 :: e1 :: rest)[(e0 :: e1 :: rest).length - 1]).1) := hseek
    refine Or.inl ⟨?_, by rw [hfound]⟩
    have hend := hbefore ((e0 :: e1 :: rest).length - 1) (by simp) (by simp)
    rw [hentry _ (by simp) (by simp)] at hend
    rw [lastTime_eq h]
    simpa only [show b + ((e0 :: e1 :: rest).length - 1) = es.length - 1 by omega] using hend

theorem advanceRoutes_remaining {cfg : Config} {prefixes : List String} {es : List (ℤ × List String)}
    (h : Timeline.FromZero es) {t t' : ℤ} (ht : 0 ≤ t) (hlt : t < t') {e0 e1 : ℤ × List String}
    {rest table : List (ℤ × List String)}
    (hd : (marked es).drop (Timeline.inForce es t - 1) = e0 :: e1 :: rest) {w w' : World}
    (hrun : advanceRoutes cfg t' prefixes e0 e1 rest w = .ok (table, w')) :
    (lastTime es < t' ∧ table = [] ∧ w' = w) ∨
    (t' ≤ lastTime es ∧ table = (marked es).drop (Timeline.inForce es t' - 1) ∧
      ((Timeline.inForce es t = 0 ∧ Timeline.inForce es t' = 0 ∧ w' = w) ∨
        0 < Timeline.inForce es t' ∧
          ∃ w₁, RemoveRoutes prefixes (route es (Timeline.inForce es t - 1)) w = .ok w₁ ∧
            ApplyRoutes prefixes (route es (Timeline.inForce es t')) w₁ = .ok w')) := by
  generalize hb : Timeline.inForce es t - 1 = b at hd ⊢
  have hmono := Timeline.inForce_mono es hlt.le
  have hb0 : b < (marked es).length := by
    by_contra hle
    rw [List.drop_eq_nil_of_le (by omega)] at hd
    cases hd
  have he0 : e0.2 = route es b := by
    rw [← marked_route es b hb0]
    rw [List.drop_eq_getElem_cons hb0, List.cons.injEq] at hd
    rw [hd.1]
  rcases seek_remaining h ht hlt (fun _ => cfg.pastRoutes.1) hb.symm hd with
    ⟨hpast, hend⟩ | ⟨hle, j, hpos, hj, hidx, hstop⟩
  · simp only [advanceRoutes, if_pos hend] at hrun
    cases hrun
    exact Or.inl ⟨hpast, rfl, rfl⟩
  · refine Or.inr ⟨hle, ?_⟩
    have hin : ¬ (e0 :: e1 :: rest).length ≤ j := by omega
    have hroute (k : ℕ) (hk : k < (e0 :: e1 :: rest).length) :
        ((e0 :: e1 :: rest).getD k cfg.pastRoutes).2 = route es (b + k) := by
      rw [← hd] at hk ⊢
      rw [List.getD_eq_getElem _ _ hk, List.getElem_drop]
      exact marked_route es (b + k) _
    have hdrop (k : ℕ) : (e0 :: e1 :: rest).drop k = (marked es).drop (b + k) := by
      rw [← hd, List.drop_drop]
    simp only [advanceRoutes, hidx, if_neg hin] at hrun
    by_cases hsame : t' < (Timeline.seek t' (fun _ => cfg.pastRoutes.1) rest 1 e1.1).2 ∧ j = 1
    · -- the route in force has not changed
      have hforce : Timeline.inForce es t' = b := by omega
      have hno : ¬ ((t' < (Timeline.seek t' (fun _ => cfg.pastRoutes.1) rest 1 e1.1).2 ∧ j ≠ 1) ∨
          t' = (Timeline.seek t' (fun _ => cfg.pastRoutes.1) rest 1 e1.1).2) := by omega
      rw [if_neg hno] at hrun
      cases hrun
      refine ⟨?_, Or.inl ⟨by omega, by omega, rfl⟩⟩
      rw [hforce, show b - 1 = b by omega]
      exact hd.symm
    · have hyes : (t' < (Timeline.seek t' (fun _ => cfg.pastRoutes.1) rest 1 e1.1).2 ∧ j ≠ 1) ∨
          t' = (Timeline.seek t' (fun _ => cfg.pastRoutes.1) rest 1 e1.1).2 := by omega
      have hcur : b + (if t' < (Timeline.seek t' (fun _ => cfg.pastRoutes.1) rest 1 e1.1).2 ∧ j ≠ 1
          then j - 1 else j) = Timeline.inForce es t' := by
        split <;> omega
      rw [if_pos hyes] at hrun
      obtain ⟨w₁, hremove, hrun⟩ := ok_of_bind hrun
      obtain ⟨w₂, happly, hrun⟩ := ok_of_bind hrun
      cases hrun
      rw [he0] at hremove
      rw [hroute _ (by split <;> omega), hcur] at happly
      refine ⟨?_, Or.inr ⟨?_, w₁, hremove, happly⟩⟩
      · rw [hdrop]
        congr 1
        rw [← hcur]
        split <;> omega
      · rw [← hcur]
        split <;> omega

theorem updatePairRoutes_step {cfg : Config} {prefixes : List String} {es table : List (ℤ × List String)}
    (h : Timeline.FromZero es) {t t' : ℤ} (ht : 0 ≤ t) (hlt : t < t') {w w' : World}
    (hrun : updatePairRoutes cfg t' prefixes (remaining es t) w = .ok (table, w')) :
    table = remaining es t' ∧
      ((lastTime es < t' ∧ w' = w) ∨ (t' ≤ lastTime es ∧
        ((Timeline.inForce es t = 0 ∧ Timeline.inForce es t' = 0 ∧ w' = w) ∨
          0 < Timeline.inForce es t' ∧
            ∃ w₁, RemoveRoutes prefixes (route es (Timeline.inForce es t - 1)) w = .ok w₁ ∧
              ApplyRoutes prefixes (route es (Timeline.inForce es t')) w₁ = .ok w'))) := by
  by_cases hmore : 2 ≤ es.length ∧ t ≤ lastTime es
  · obtain ⟨hi, hle, -⟩ := h.inForce_spec ht
    have hidx : Timeline.inForce es t - 1 + 1 < (marked es).length := by
      rw [marked_length]
      omega
    have hd := List.drop_eq_getElem_cons (l := marked es) (by omega : Timeline.inForce es t - 1 < _)
    rw [List.drop_eq_getElem_cons hidx] at hd
    have hfirst : (marked es)[Timeline.inForce es t - 1].1 ≠ 0 ∧
        (marked es)[Timeline.inForce es t - 1].1 ≤ t := by
      by_cases hzero : Timeline.inForce es t - 1 = 0
      · simp only [hzero]
        rcases es with _ | ⟨e, es⟩
        · simp at hi
        · exact ⟨by simp [marked], by simp only [marked, List.getElem_cons_zero]; omega⟩
      · rw [marked_getElem es _ _ (by omega)]
        have hbefore := h.increasing.lt_of_lt (by omega : 0 < Timeline.inForce es t - 1) (by omega)
        rw [h.first] at hbefore
        have hafter := (h.increasing.le_iff (by omega : Timeline.inForce es t - 1 < _) hi).mpr (by omega)
        omega
    rw [remaining, if_pos hmore, hd] at hrun
    have hnot : ¬ t' ≤ (marked es)[Timeline.inForce es t - 1].1 := by omega
    simp only [updatePairRoutes, if_neg hfirst.1, if_neg hnot] at hrun
    obtain ⟨⟨table₁, w₁⟩, hadvance, hrun⟩ := ok_of_bind hrun
    cases hrun
    rcases advanceRoutes_remaining h ht hlt hd hadvance with ⟨hpast, rfl, rfl⟩ | ⟨hwithin, rfl, hroutes⟩
    · refine ⟨?_, Or.inl ⟨hpast, rfl⟩⟩
      have hnone : ¬ (2 ≤ es.length ∧ t' ≤ lastTime es) := by omega
      rw [remaining, if_neg hnone]
      rfl
    · refine ⟨?_, Or.inr ⟨hwithin, hroutes⟩⟩
      obtain ⟨hi', -, -⟩ := h.inForce_spec (ht.trans hlt.le)
      rw [if_neg, remaining, if_pos ⟨hmore.1, hwithin⟩]
      rw [List.length_drop, marked_length]
      omega
  · rw [remaining, if_neg hmore] at hrun
    cases hrun
    have hlast : lastTime es < t' := by
      by_cases hone : es.length < 2
      · have hfirst := h.first
        have hlast := lastTime_eq h
        simp only [show es.length - 1 = 0 by omega] at hlast
        omega
      · omega
    exact ⟨by rw [remaining, if_neg (by omega)], Or.inl ⟨hlast, rfl⟩⟩

section Calls

variable {cfg : Config} {params params' : UpdateParams} {w₀ : World} {p : String}

theorem updatePairRoutes_later {curTime : ℤ} {prefixes : List String} {table table' : List (ℤ × List String)}
    {w w' : World} (h : Later w₀ w)
    (hrun : updatePairRoutes cfg curTime prefixes table w = .ok (table', w')) :
    Later w₀ w' ∧ (p ∉ prefixes → Quiet p w w') := by
  rcases updatePairRoutes_cases hrun with rfl | ⟨links, w₁, rfl | ⟨old, hremove⟩, happly⟩
  · exact ⟨h, fun _ => Quiet.refl p _⟩
  · have hset := changeRoutes_spec addRoute_sets (ApplyRoutes_ok happly).2
    exact ⟨hset.later h, hset.quiet⟩
  · have hset := changeRoutes_spec removeRoute_sets (RemoveRoutes_ok hremove).2
    have hset' := changeRoutes_spec addRoute_sets (ApplyRoutes_ok happly).2
    exact ⟨hset'.later (hset.later h), fun hp => (hset.quiet hp).trans (hset'.quiet hp)⟩

theorem otherPairs_quiet {curTime : ℤ} {prefixesOf : String → List String} {items items' : List RouteItem}
    {w w' : World} (hothers : ∀ item ∈ items, p ∉ prefixesOf item.producer) (hlater : Later w₀ w)
    (hrun : forEach (fun item w => do
      let (table, w) ← updatePairRoutes cfg curTime (prefixesOf item.producer) item.table w
      .ok ({ item with table := table }, w)) items w = .ok (items', w')) : Quiet p w w' := by
  have hall : Later w₀ w → Later w₀ w' ∧ Quiet p w w' := by
    refine forEach_preserves (R := fun w w' => Later w₀ w → Later w₀ w' ∧ Quiet p w w')
      (fun w h => ⟨h, Quiet.refl p w⟩) ?_ ?_ hrun
    · intro w w' w'' h h' hlater
      exact ⟨(h' (h hlater).1).1, (h hlater).2.trans (h' (h hlater).1).2⟩
    · intro item hmem w item' w' hstep hlater
      obtain ⟨⟨table, w₁⟩, hpass, heq⟩ := ok_of_bind hstep
      cases heq
      obtain ⟨hlater', hquiet⟩ := updatePairRoutes_later (p := p) hlater hpass
      exact ⟨hlater', hquiet (hothers item hmem)⟩
  exact (hall hlater).2

theorem updateProducerRoutes_quiet {curTime : ℤ} {prefixes : List String}
    {table table' : List (ℤ × RouteDelta)} {w w' : World}
    (hrun : updateProducerRoutes cfg curTime prefixes table w = .ok (table', w')) (hp : p ∉ prefixes) :
    Quiet p w w' := by
  rcases updateProducerRoutes_cases hrun with rfl | ⟨routes, w₁, hadd, hremove⟩
  · exact Quiet.refl p _
  · exact ((changeRoutes_spec addRoute_sets hadd).quiet hp).trans
      ((changeRoutes_spec removeRoute_sets hremove).quiet hp)

theorem updateAttachment_quiet {st st' : Station} {w w' : World}
    (hrun : updateAttachment cfg params st w = .ok (st', w')) :
    Quiet p w w' ∧ st'.p2pDevice = st.p2pDevice ∧ st'.name = st.name ∧ st'.prefixes = st.prefixes := by
  unfold updateAttachment at hrun
  split at hrun
  · cases hrun
    exact ⟨Quiet.refl p _, rfl, rfl, rfl⟩
  · cases hrun
    obtain ⟨cur, last, handover, hpredict⟩ :=
      predictAttachment_attachments cfg (params.curTime + params.interval) st
    refine ⟨?_, by rw [hpredict], by rw [hpredict], by rw [hpredict]⟩
    simp only [announceHandover]
    split
    · split
      · refine ⟨?_, ?_, ?_, ?_⟩
        · exact nodeOf_satelliteAt _ _
        · exact deviceOf_satelliteAt _ _
        · simp only [satelliteAt_net]
          rfl
        · intro n f
          simp only [satelliteAt_net]
          rfl
      · split
        · exact ⟨rfl, rfl, rfl, fun _ _ => rfl⟩
        · exact Quiet.refl p w
    · exact Quiet.refl p w

theorem producerPrefixes_congr {stations stations' : List Station}
    (h : stations'.map (fun st => (st.name, st.prefixes)) = stations.map (fun st => (st.name, st.prefixes))) :
    producerPrefixes stations' = producerPrefixes stations := by
  have hfind (stations : List Station) (name : String) : producerPrefixes stations name =
      (((stations.map (fun st => (st.name, st.prefixes))).find? (fun e => e.1 = name)).map Prod.snd).getD [] := by
    rw [List.find?_map, Option.map_map]
    rfl
  funext name
  rw [hfind, hfind, h]

/-- The prefix is one of the producer's of the pair with index `r`, and of no
other pair or producer. -/
structure OnlyPair (sim : Sim) (r : ℕ) (p : String) : Prop where
  pair : ∀ item, sim.routes[r]? = some item → p ∈ producerPrefixes sim.stations item.producer
  others : ∀ j item, sim.routes[j]? = some item → j ≠ r → p ∉ producerPrefixes sim.stations item.producer
  producers : ∀ item ∈ sim.producerRoutes, p ∉ producerPrefixes sim.stations item.producer

/-- What the calls of `Update` keep of the simulation that starts in `sim₀`. -/
structure Kept (sim₀ sim : Sim) : Prop where
  later : Later sim₀.world sim.world
  devices : ∀ st ∈ sim.stations, UserDevice sim₀.world.net st.p2pDevice
  stations : sim.stations.map (fun st => (st.name, st.prefixes)) =
    sim₀.stations.map (fun st => (st.name, st.prefixes))
  routes : sim.routes.map RouteItem.producer = sim₀.routes.map RouteItem.producer
  producers : sim.producerRoutes.map ProducerItem.producer = sim₀.producerRoutes.map ProducerItem.producer

theorem Kept.onlyPair {sim₀ sim : Sim} (h : Kept sim₀ sim) {r : ℕ} (hpair : OnlyPair sim₀ r p) :
    OnlyPair sim r p := by
  have hprefixes := producerPrefixes_congr h.stations
  have hitem (j : ℕ) (item : RouteItem) (hj : sim.routes[j]? = some item) :
      ∃ item₀, sim₀.routes[j]? = some item₀ ∧ item₀.producer = item.producer := by
    have := congrArg (fun l => l[j]?) h.routes
    simp only [List.getElem?_map, hj, Option.map_some] at this
    exact Option.map_eq_some_iff.mp this.symm
  refine ⟨?_, ?_, ?_⟩
  · intro item hr
    obtain ⟨item₀, hr₀, hproducer⟩ := hitem r item hr
    rw [hprefixes, ← hproducer]
    exact hpair.pair item₀ hr₀
  · intro j item hj hne
    obtain ⟨item₀, hj₀, hproducer⟩ := hitem j item hj
    rw [hprefixes, ← hproducer]
    exact hpair.others j item₀ hj₀ hne
  · intro item hmem
    have hproducer : item.producer ∈ sim₀.producerRoutes.map ProducerItem.producer := by
      rw [← h.producers]
      exact List.mem_map_of_mem hmem
    obtain ⟨item₀, hmem₀, hproducer⟩ := List.mem_map.mp hproducer
    rw [hprefixes, ← hproducer]
    exact hpair.producers item₀ hmem₀

theorem moveUserLinks_spec {curTime : ℤ} {sim₀ sim : Sim} (hkept : Kept sim₀ sim) {stations : List Station}
    {w : World} (hrun : forEach (moveUserLink cfg curTime) sim.stations sim.world = .ok (stations, w)) :
    (∀ st ∈ stations, UserDevice sim₀.world.net st.p2pDevice) ∧ Later sim₀.world w ∧
      ∀ n p f, f < sim₀.world.net.nextFaceId n → w.net.fib n p f = sim.world.net.fib n p f := by
  refine forEach_invariant (P := fun st => UserDevice sim₀.world.net st.p2pDevice) (I := Later sim₀.world)
    (R := fun w w' => ∀ n p f, f < sim₀.world.net.nextFaceId n → w'.net.fib n p f = w.net.fib n p f)
    (fun _ _ _ _ _ => rfl) (fun _ _ _ h h' n p f hf => (h' n p f hf).trans (h n p f hf)) ?_
    hkept.devices hkept.later hrun
  intro st w st' w' hst hlater hpass
  obtain ⟨hchange, hsat, hst'⟩ := moveUserLink_userChange hlater.keeps hlater.devices hst hpass
  exact ⟨hst', hlater.userChange hchange (moveUserLink_grows hpass).1.nodes hsat, hchange.fib⟩

theorem otherProducers_quiet {curTime : ℤ} {prefixesOf : String → List String} {items items' : List ProducerItem}
    {w w' : World} (hothers : ∀ item ∈ items, p ∉ prefixesOf item.producer)
    (hrun : forEach (fun item w => do
      let (table, w) ← updateProducerRoutes cfg curTime (prefixesOf item.producer) item.table w
      .ok ({ item with table := table }, w)) items w = .ok (items', w')) : Quiet p w w' := by
  refine forEach_preserves (Quiet.refl p) (fun _ _ _ => Quiet.trans) ?_ hrun
  intro item hmem w item' w' hstep
  obtain ⟨⟨table, w''⟩, hpass, heq⟩ := ok_of_bind hstep
  cases heq
  exact updateProducerRoutes_quiet hpass (hothers item hmem)

/-- The four loops of a call of `Update`, with the worlds after the first three; the
loops over the stations leave the routes of all prefixes alone. -/
structure Phases (cfg : Config) (params : UpdateParams) (sim₀ sim sim' : Sim) (w₁ w₂ w₃ : World) : Prop where
  later : Later sim₀.world w₁
  change : UserChange sim₀.world.net sim.world.net w₁.net
  routes : forEach (fun item w => do
    let (table, w) ← updatePairRoutes cfg params.curTime (producerPrefixes sim.stations item.producer) item.table w
    .ok ({ item with table := table }, w)) sim.routes w₁ = .ok (sim'.routes, w₂)
  producerRoutes : forEach (fun item w => do
    let (table, w) ← updateProducerRoutes cfg params.curTime (producerPrefixes sim.stations item.producer)
      item.table w
    .ok ({ item with table := table }, w)) sim.producerRoutes w₂ = .ok (sim'.producerRoutes, w₃)
  quiet : ∀ p, Quiet p w₃ sim'.world
  kept : Later sim₀.world w₃ → Kept sim₀ sim'

theorem Update_phases {sim₀ sim sim' : Sim} (hkept : Kept sim₀ sim)
    (hrun : Update cfg params sim = .ok (params', sim')) :
    params' = { params with curTime := params.curTime + params.interval } ∧
      ∃ w₁ w₂ w₃, Phases cfg params sim₀ sim sim' w₁ w₂ w₃ := by
  obtain ⟨stations, w₁, routes, w₂, producerRoutes, w₃, stations', w₄, hmove, hroutes, hproducers, hpredict, rfl, rfl⟩ :=
    Update_ok hrun
  obtain ⟨hdevices, hlater, hfib⟩ := moveUserLinks_spec hkept hmove
  have hkeys : stations.map (fun st => (st.name, st.prefixes)) =
      sim.stations.map (fun st => (st.name, st.prefixes)) := by
    refine forEach_map ?_ hmove
    intro st w st' w' hst
    rw [(moveUserLink_grows hst).2]
  have hprefixes := producerPrefixes_congr hkeys
  simp only [hprefixes] at hroutes hproducers
  have hstations (p : String) := forEach_invariant (P := fun st => UserDevice sim₀.world.net st.p2pDevice)
    (I := fun _ => True) (Quiet.refl p) (fun _ _ _ => Quiet.trans)
    (fun st w st' w' hst _ hpass => ⟨by rw [(updateAttachment_quiet (p := p) hpass).2.1]; exact hst,
      trivial, (updateAttachment_quiet hpass).1⟩) hdevices trivial hpredict
  refine ⟨rfl, w₁, w₂, w₃, hlater, ⟨hlater.keeps, hfib⟩, hroutes, hproducers, fun p => (hstations p).2.2,
    fun hlater₃ => ⟨(hstations "").2.2.later hlater₃, (hstations "").1, ?_, ?_, ?_⟩⟩
  · rw [← hkept.stations, ← hkeys]
    refine forEach_map ?_ hpredict
    intro st w st' w' hst
    obtain ⟨-, -, hname, hprefixes⟩ := updateAttachment_quiet (p := "") hst
    rw [hname, hprefixes]
  · rw [← hkept.routes]
    refine forEach_map ?_ hroutes
    intro item w item' w' hpass
    obtain ⟨⟨table, w₀⟩, -, heq⟩ := ok_of_bind hpass
    cases heq
    rfl
  · rw [← hkept.producers]
    refine forEach_map ?_ hproducers
    intro item w item' w' hpass
    obtain ⟨⟨table, w₀⟩, -, heq⟩ := ok_of_bind hpass
    cases heq
    rfl

/-- What one call of `Update` does for one pair: between the loops over the
other pairs and over the stations, which leave its routes alone. -/
theorem Update_pair {sim₀ sim sim' : Sim} (hw : Installed sim₀.world.net) (hkept : Kept sim₀ sim) {r : ℕ}
    (hpair : OnlyPair sim r p) (hrun : Update cfg params sim = .ok (params', sim')) {item : RouteItem}
    (hitem : sim.routes[r]? = some item) :
    Kept sim₀ sim' ∧ params' = { params with curTime := params.curTime + params.interval } ∧
      ∃ w₁ table w₂, Later sim₀.world w₁ ∧
        updatePairRoutes cfg params.curTime (producerPrefixes sim.stations item.producer) item.table w₁ =
          .ok (table, w₂) ∧
        sim'.routes[r]? = some { item with table := table } ∧
        ∀ link, IsISL sim₀.world link → (HasRoute w₁ p link ↔ HasRoute sim.world p link) ∧
          (HasRoute sim'.world p link ↔ HasRoute w₂ p link) := by
  obtain ⟨hparams, w₁, w₄, w₅, hphases⟩ := Update_phases hkept hrun
  obtain ⟨item', w₂, w₃', hbefore, hstep, hafter, hitem'⟩ := forEach_split hphases.routes r item hitem
  obtain ⟨⟨table, w₃⟩, hpass, heq⟩ := ok_of_bind hstep
  obtain ⟨rfl, rfl⟩ : item' = { item with table := table } ∧ w₃ = w₃' := by
    cases heq
    exact ⟨rfl, rfl⟩
  have hquiet₂ : Quiet p w₁ w₂ := by
    refine otherPairs_quiet ?_ hphases.later hbefore
    intro item₂ hmem
    obtain ⟨j, hj, hget⟩ := List.mem_take_iff_getElem.mp hmem
    exact hpair.others j item₂ (by rw [List.getElem?_eq_getElem (by omega), hget]) (by omega)
  have hlater₂ := hquiet₂.later hphases.later
  have hlater₃ := (updatePairRoutes_later (p := p) hlater₂ hpass).1
  have hquiet₄ : Quiet p w₃ w₄ := by
    refine otherPairs_quiet ?_ hlater₃ hafter
    intro item₂ hmem
    obtain ⟨j, hj, hget⟩ := List.mem_drop_iff_getElem.mp hmem
    exact hpair.others (r + 1 + j) item₂ (by rw [List.getElem?_eq_getElem (by omega), hget]) (by omega)
  have hquiet₅ := hquiet₄.trans (otherProducers_quiet hpair.producers hphases.producerRoutes)
  refine ⟨hphases.kept (hquiet₅.later hlater₃), hparams, w₂, table, w₃, hlater₂, hpass, hitem', fun link hlink => ?_⟩
  rw [hquiet₂.hasRoute_iff, hphases.change.hasRoute_iff hw hkept.later hphases.later hlink,
    (hquiet₅.trans (hphases.quiet p)).hasRoute_iff]
  exact ⟨Iff.rfl, Iff.rfl⟩

/-- The simulation as `main` sets it up for the pair with index `r`, whose
producer has the prefix `p`. -/
structure PairSetup (sim : Sim) (r : ℕ) (p : String) (item : RouteItem) : Prop where
  installed : Installed sim.world.net
  distinctNodes : DistinctNodes sim.world
  stations : ∀ st ∈ sim.stations, st.p2pDevice = none
  satellites : ∀ name, deviceOf sim.world name = none
  onlyPair : OnlyPair sim r p
  routes : sim.routes[r]? = some item
  table : Timeline.FromZero item.table
  links : ∀ e ∈ item.table, ∀ link ∈ routeLinks e.2, IsISL sim.world link
  clean : ∀ link, IsISL sim.world link → ¬ HasRoute sim.world p link

variable {sim : Sim} {r : ℕ} {item : RouteItem}

theorem PairSetup.kept (h : PairSetup sim r p item) : Kept sim sim where
  later := ⟨h.installed.keepsISLs, rfl, fun name d hd => by rw [h.satellites name] at hd; cases hd⟩
  devices st hst d hd := by rw [h.stations st hst] at hd; cases hd
  stations := rfl
  routes := rfl
  producers := rfl

theorem PairSetup.isISL (h : PairSetup sim r p item) {i : ℕ} {link : String × String}
    (hlink : link ∈ routeLinks (route item.table i)) : IsISL sim.world link := by
  by_cases hi : i < item.table.length
  · rw [route, List.getD_eq_getElem _ _ hi] at hlink
    exact h.links _ (List.getElem_mem hi) link hlink
  · rw [route, List.getD_eq_default _ _ (by omega)] at hlink
    cases hlink

theorem PairSetup.start (h : PairSetup sim r p item) (hzero : params.curTime = 0) {sim' : Sim}
    (hrun : Update cfg params sim = .ok (params', sim')) :
    Kept sim sim' ∧ params' = { params with curTime := params.interval } ∧
      sim'.routes[r]? = some { item with table := remaining item.table 0 } ∧
      ∀ link, IsISL sim.world link → (HasRoute sim'.world p link ↔ link ∈ routeLinks (route item.table 0)) := by
  obtain ⟨hkept, hparams, w₁, table, w₂, hlater, hpass, hitem, hroutes⟩ :=
    Update_pair h.installed h.kept h.onlyPair hrun h.routes
  rw [hzero] at hpass
  obtain ⟨happly, rfl⟩ := updatePairRoutes_start h.table hpass
  obtain ⟨-, happlied⟩ := ApplyRoutes_hasRoute h.installed h.distinctNodes hlater
    (fun link hlink => h.isISL hlink) happly (h.onlyPair.pair item h.routes)
  refine ⟨hkept, by rw [hparams, hzero, zero_add], hitem, ?_⟩
  intro link hlink
  rw [(hroutes link hlink).2, happlied link hlink, (hroutes link hlink).1]
  simp [h.clean link hlink]

theorem PairSetup.step (h : PairSetup sim r p item) {sim₁ sim₂ : Sim} {t : ℤ} (ht : 0 ≤ t)
    (hlt : t < params.curTime) (hkept : Kept sim sim₁)
    (hitem : sim₁.routes[r]? = some { item with table := remaining item.table t })
    (hrun : Update cfg params sim₁ = .ok (params', sim₂)) :
    Kept sim sim₂ ∧ params' = { params with curTime := params.curTime + params.interval } ∧
      sim₂.routes[r]? = some { item with table := remaining item.table params.curTime } ∧
      ∀ link, IsISL sim.world link → (HasRoute sim₂.world p link ↔
        if lastTime item.table < params.curTime ∨ Timeline.inForce item.table params.curTime = 0
        then HasRoute sim₁.world p link
        else (HasRoute sim₁.world p link ∧
            link ∉ routeLinks (route item.table (Timeline.inForce item.table t - 1))) ∨
          link ∈ routeLinks (route item.table (Timeline.inForce item.table params.curTime))) := by
  have hpair := hkept.onlyPair h.onlyPair
  obtain ⟨hkept₂, hparams, w₁, table, w₂, hlater, hpass, hitem₂, hroutes⟩ :=
    Update_pair h.installed hkept hpair hrun hitem
  obtain ⟨rfl, hcases⟩ := updatePairRoutes_step h.table ht hlt hpass
  refine ⟨hkept₂, hparams, hitem₂, ?_⟩
  intro link hlink
  rw [(hroutes link hlink).2]
  rcases hcases with ⟨hpast, rfl⟩ | ⟨hwithin, ⟨-, hzero, rfl⟩ | ⟨hpos, w₃, hremove, happly⟩⟩
  · rw [if_pos (Or.inl hpast), (hroutes link hlink).1]
  · rw [if_pos (Or.inr hzero), (hroutes link hlink).1]
  · rw [if_neg (by omega)]
    obtain ⟨hlater₃, hremoved⟩ := RemoveRoutes_hasRoute h.installed h.distinctNodes hlater
      (fun link hlink => h.isISL hlink) hremove (hpair.pair _ hitem)
    obtain ⟨-, happlied⟩ := ApplyRoutes_hasRoute h.installed h.distinctNodes hlater₃
      (fun link hlink => h.isISL hlink) happly (hpair.pair _ hitem)
    rw [happlied link hlink, hremoved link hlink, (hroutes link hlink).1]

theorem PairSetup.updates_kept (h : PairSetup sim r p item) (hzero : params.curTime = 0)
    (hinterval : 0 < params.interval) (n : ℕ) (params' : UpdateParams) (sim' : Sim)
    (hrun : updates cfg params sim n = .ok (params', sim')) :
    Kept sim sim' ∧ params' = { params with curTime := (n + 1 : ℕ) * params.interval } ∧
      sim'.routes[r]? = some { item with table := remaining item.table (n * params.interval) } := by
  induction n generalizing params' sim' with
  | zero =>
    obtain ⟨hkept, hparams, hitem, -⟩ := h.start hzero hrun
    refine ⟨hkept, by rw [hparams]; simp, by rw [hitem]; simp⟩
  | succ n ih =>
    obtain ⟨⟨params₁, sim₁⟩, hrun₁, hstep⟩ := ok_of_bind hrun
    obtain ⟨hkept₁, hparams₁, hitem₁⟩ := ih _ _ hrun₁
    have hcurTime : params₁.curTime = (n + 1 : ℕ) * params.interval := by rw [hparams₁]
    have hlt : (n : ℤ) * params.interval < params₁.curTime := by
      rw [hcurTime]
      push_cast
      linarith
    obtain ⟨hkept, hparams, hitem, -⟩ := h.step (by positivity) hlt hkept₁ hitem₁ hstep
    refine ⟨hkept, ?_, by rw [hitem, hcurTime]⟩
    rw [hparams, hparams₁]
    simp only [UpdateParams.mk.injEq, true_and, and_true]
    push_cast
    ring

/-- The next hops of the prefix `p` over the inter-satellite links of `w₀` are
those of the route in force at time `t`. -/
def FollowsRoutes (w₀ w : World) (p : String) (es : List (ℤ × List String)) (t : ℤ) : Prop :=
  ∃ route, Timeline.valueAt es t = some route ∧
    ∀ link, IsISL w₀ link → (HasRoute w p link ↔ link ∈ routeLinks route)

def FollowsRoutesAt (cfg : Config) (params : UpdateParams) (sim : Sim) (p : String)
    (es : List (ℤ × List String)) (k : ℕ) : Prop :=
  ∃ params' sim', updates cfg params sim k = .ok (params', sim') ∧
    FollowsRoutes sim.world sim'.world p es (k * params.interval)

/-- Between the ticks at times `t` and `t'`: up to the last entry, every link of
the route in force at `t` is also in the route before it or in the new one; from
then on, the route in force does not change. -/
def CleanChange (es : List (ℤ × List String)) (t t' : ℤ) : Prop :=
  let links (i : ℕ) := routeLinks (route es i)
  let i := Timeline.inForce es t
  let j := Timeline.inForce es t'
  if t' ≤ lastTime es then ∀ link ∈ links i, link ∈ links (i - 1) ∨ link ∈ links j
  else links i ⊆ links j ∧ links j ⊆ links i

theorem followsRoutes_iff (h : PairSetup sim r p item) {t : ℤ} (ht : 0 ≤ t) (w : World) :
    FollowsRoutes sim.world w p item.table t ↔ ∀ link, IsISL sim.world link →
      (HasRoute w p link ↔ link ∈ routeLinks (route item.table (Timeline.inForce item.table t))) := by
  simp [FollowsRoutes, valueAt_route h.table ht]

/-- A tick after one at which the routes were right: they stay right exactly
when the change is clean. -/
theorem PairSetup.step_followsRoutes (h : PairSetup sim r p item) {sim₁ sim₂ : Sim} {t : ℤ} (ht : 0 ≤ t)
    (hlt : t < params.curTime) (hkept : Kept sim sim₁)
    (hitem : sim₁.routes[r]? = some { item with table := remaining item.table t })
    (hrun : Update cfg params sim₁ = .ok (params', sim₂))
    (hfollows : FollowsRoutes sim.world sim₁.world p item.table t) :
    FollowsRoutes sim.world sim₂.world p item.table params.curTime ↔
      CleanChange item.table t params.curTime := by
  obtain ⟨-, -, -, hroutes⟩ := h.step ht hlt hkept hitem hrun
  rw [followsRoutes_iff h ht] at hfollows
  rw [followsRoutes_iff h (ht.trans hlt.le)]
  have hmono := Timeline.inForce_mono item.table hlt.le
  simp only [CleanChange]
  generalize Timeline.inForce item.table t = i at *
  generalize Timeline.inForce item.table params.curTime = j at *
  have hlinks (i : ℕ) (link : String × String) (hmem : link ∈ routeLinks (route item.table i)) :
      IsISL sim.world link := h.isISL hmem
  by_cases hwithin : params.curTime ≤ lastTime item.table
  · rw [if_pos hwithin]
    by_cases hzero : j = 0
    · -- the first route is still in force
      obtain rfl : i = 0 := by omega
      subst hzero
      simp only [or_true, if_true] at hroutes
      constructor
      · intro _ link hlink
        exact Or.inr hlink
      · intro _ link hlink
        rw [hroutes link hlink, hfollows link hlink]
    · simp only [hzero, or_false, if_neg (not_lt.mpr hwithin)] at hroutes
      constructor
      · intro hall link hlink
        by_cases hold : link ∈ routeLinks (route item.table (i - 1))
        · exact Or.inl hold
        · have hisl := hlinks i link hlink
          have hnow := (hroutes link hisl).mpr (Or.inl ⟨(hfollows link hisl).mpr hlink, hold⟩)
          exact Or.inr ((hall link hisl).mp hnow)
      · intro hclean link hlink
        rw [hroutes link hlink, hfollows link hlink]
        constructor
        · rintro (⟨hmem, hold⟩ | hnew)
          · exact (hclean link hmem).resolve_left hold
          · exact hnew
        · exact Or.inr
  · rw [if_neg hwithin]
    simp only [not_le.mp hwithin, true_or, if_true] at hroutes
    constructor
    · intro hall
      refine ⟨fun link hlink => ?_, fun link hlink => ?_⟩
      · have hisl := hlinks i link hlink
        exact (hall link hisl).mp ((hroutes link hisl).mpr ((hfollows link hisl).mpr hlink))
      · have hisl := hlinks j link hlink
        exact (hfollows link hisl).mp ((hroutes link hisl).mp ((hall link hisl).mpr hlink))
    · rintro ⟨hsub, hsup⟩ link hlink
      rw [hroutes link hlink, hfollows link hlink]
      exact ⟨fun hmem => hsub hmem, fun hmem => hsup hmem⟩

end Calls

theorem routes_followed_iff (cfg : Config) (params : UpdateParams) (sim : Sim) (r : ℕ) (p : String)
    (item : RouteItem) (h : PairSetup sim r p item) (hzero : params.curTime = 0)
    (hinterval : 0 < params.interval) (n : ℕ) (last : UpdateParams × Sim)
    (hrun : updates cfg params sim n = .ok last) :
    (∀ k ≤ n, FollowsRoutesAt cfg params sim p item.table k) ↔
      ∀ k < n, CleanChange item.table (k * params.interval) ((k + 1 : ℕ) * params.interval) := by
  have hnext (k : ℕ) (hk : k < n) (hfollows : FollowsRoutesAt cfg params sim p item.table k) :
      FollowsRoutesAt cfg params sim p item.table (k + 1) ↔
        CleanChange item.table (k * params.interval) ((k + 1 : ℕ) * params.interval) := by
    obtain ⟨params₁, sim₁, hrun₁, hfollows⟩ := hfollows
    obtain ⟨params₂, sim₂, hrun₂⟩ := updates_ok_of_le hrun (Nat.succ_le_of_lt hk)
    obtain ⟨hkept, hparams, hitem⟩ := h.updates_kept hzero hinterval k params₁ sim₁ hrun₁
    have hstep : Update cfg params₁ sim₁ = .ok (params₂, sim₂) := by
      simpa [updates, hrun₁, bind, Except.bind] using hrun₂
    have hcurTime : params₁.curTime = (k + 1 : ℕ) * params.interval := by rw [hparams]
    have hlt : (k : ℤ) * params.interval < params₁.curTime := by
      rw [hcurTime]
      push_cast
      linarith
    rw [← hcurTime, ← h.step_followsRoutes (by positivity) hlt hkept hitem hstep hfollows]
    simp [FollowsRoutesAt, hrun₂, hcurTime]
  constructor
  · intro hall k hk
    exact (hnext k hk (hall k hk.le)).mp (hall (k + 1) hk)
  · intro hclean k
    induction k with
    | zero =>
      intro _
      obtain ⟨params₁, sim₁, hrun₁⟩ := updates_ok_of_le hrun (Nat.zero_le n)
      obtain ⟨-, -, -, hroutes⟩ := h.start hzero hrun₁
      refine ⟨params₁, sim₁, hrun₁, (followsRoutes_iff h (by simp) _).mpr ?_⟩
      simpa [h.table.inForce_zero] using hroutes
    | succ k ih =>
      intro hk
      exact (hnext k (by omega) (ih (by omega))).mpr (hclean k (by omega))

section ConsecutiveChanges

def movingStations : List Station :=
  [⟨"city-a", 3, true, .consumer, [], none, [(0, "sat-0-0")], 0, 0, false⟩,
    ⟨"city-b", 4, true, .producer, ["/sat/city-b"], none,
      [(0, "sat-0-1"), (1, "sat-1-0"), (2, "sat-0-1")], 0, 0, false⟩]

def movingItem : RouteItem where
  consumer := "city-a"
  producer := "city-b"
  table := [(0, ["sat-0-0", "sat-0-1"]), (1, ["sat-0-0", "sat-1-0"]), (2, ["sat-0-0", "sat-0-1"])]

def movingWorld : World where
  satellites name :=
    if name = "sat-0-0" then some ⟨name, some 0, "", none⟩
    else if name = "sat-0-1" then some ⟨name, some 1, "", none⟩
    else if name = "sat-1-0" then some ⟨name, some 2, "", none⟩ else none
  net :=
    { nextAddress := 4
      nextFaceId _ := 259
      channels := [(⟨0, 0⟩, ⟨1, 1⟩), (⟨2, 0⟩, ⟨3, 2⟩)]
      faces n :=
        if n = 0 then [{ id := 257, netDevice := ⟨0, 0⟩ }, { id := 258, netDevice := ⟨2, 0⟩ }]
        else if n = 1 then [{ id := 257, netDevice := ⟨1, 1⟩ }]
        else if n = 2 then [{ id := 257, netDevice := ⟨3, 2⟩ }] else []
      fib _ _ _ := none
      userLinks _ := [] }
  actions := []
  m_lastSatPrefix _ := ""

def movingConfig : Config := ⟨false, 5, (0, ""), (0, []), (0, ⟨[], []⟩)⟩

def movingSim : Sim := ⟨movingWorld, movingStations, [movingItem], []⟩

theorem movingWorld_installed : Installed movingWorld.net where
  fresh := by simp [Fresh, movingWorld]
  channels := by simp [movingWorld]
  faceIds n f hf f' hf' hid := by
    simp only [movingWorld] at hf hf'
    split_ifs at hf hf' <;> simp_all
    rcases hf with rfl | rfl <;> rcases hf' with rfl | rfl <;> simp_all
  faces n f hf := by
    simp only [movingWorld] at hf
    split_ifs at hf <;> simp_all [movingWorld]
    rcases hf with rfl | rfl <;> simp

theorem movingSim_pairSetup : PairSetup movingSim 0 "/sat/city-b" movingItem where
  installed := movingWorld_installed
  distinctNodes a b hsome hsame := by
    simp only [nodeOf, movingSim, movingWorld] at hsome hsame
    split_ifs at hsome hsame <;> simp_all
  stations := by simp [movingSim, movingStations]
  satellites name := by
    simp only [deviceOf, movingSim, movingWorld]
    split_ifs <;> rfl
  onlyPair := by
    refine ⟨?_, ?_, by simp [movingSim]⟩
    · rintro item ⟨rfl⟩
      decide
    · rintro (_ | j) item hj hne
      · exact absurd rfl hne
      · cases hj
  routes := rfl
  table := ⟨by decide, rfl⟩
  links := by decide
  clean link _ := by
    rintro ⟨n, f, -, hsome⟩
    simp [movingSim, movingWorld] at hsome

theorem movingSim_runs : ∃ last, updates movingConfig ⟨1, 0, 40⟩ movingSim 2 = .ok last :=
  ⟨_, rfl⟩

theorem routes_followed_iff_movingSim :
    (∀ k ≤ 2, FollowsRoutesAt movingConfig ⟨1, 0, 40⟩ movingSim "/sat/city-b" movingItem.table k) ↔
      ∀ k : ℕ, k < 2 → CleanChange movingItem.table (k * 1) ((k + 1 : ℕ) * 1) := by
  obtain ⟨last, hrun⟩ := movingSim_runs
  exact routes_followed_iff movingConfig ⟨1, 0, 40⟩ movingSim 0 "/sat/city-b" movingItem
    movingSim_pairSetup rfl (by decide) 2 last hrun

/-- At minute 2 the link of the route of minute 1 still has its next hop. -/
theorem stale_route_kept :
    PairSetup movingSim 0 "/sat/city-b" movingItem ∧
      (∃ params sim, updates movingConfig ⟨1, 0, 40⟩ movingSim 2 = .ok (params, sim) ∧
        HasRoute sim.world "/sat/city-b" ("sat-0-0", "sat-1-0")) ∧
      ¬ FollowsRoutesAt movingConfig ⟨1, 0, 40⟩ movingSim "/sat/city-b" movingItem.table 2 := by
  refine ⟨movingSim_pairSetup, ⟨_, _, rfl, by decide⟩, ?_⟩
  rintro ⟨params, sim, hrun, route, hroute, hlinks⟩
  cases hrun
  cases hroute
  have hstale := (hlinks ("sat-0-0", "sat-1-0") (by decide)).mp (by decide)
  revert hstale
  decide

end ConsecutiveChanges

end LeoNdn.RouteTables
