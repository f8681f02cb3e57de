import LeoNdn.RibTree
import LeoNdn.RouteRenewal

/-!
Which route a renewal finds: the search looks at a name and at the entry above it.
-/

namespace LeoNdn.LongestRoutes

open LeoNdn.NdnPacket LeoNdn.KiteProtocol LeoNdn.RibTable LeoNdn.FibUpdater LeoNdn.RibManager LeoNdn.Inheritance
open LeoNdn.RibTree LeoNdn.RouteRenewal LeoNdn.Runs

section Search

variable {rib : Rib} {name p q : Name} {query route : Route}

def routeQuery (faceId : ℕ) : Route := ⟨faceId, ROUTE_ORIGIN_PREFIXANN, 0, 0, none, none, 0, none⟩

/-- The longest prefix of the name that has the route, and the route there. -/
structure Longest (rib : Rib) (query : Route) (name p : Name) (route : Route) : Prop where
  isPrefix : p <+: name
  found : rib.findRoute p query = some route
  longest : ∀ q, q <+: name → (rib.findRoute q query).isSome = true → q <+: p

def NoPrefixHas (rib : Rib) (query : Route) (name : Name) : Prop := ∀ q, q <+: name → rib.findRoute q query = none

theorem Longest.unique {p' : Name} {route' : Route} (h : Longest rib query name p route)
    (h' : Longest rib query name p' route') : p = p' ∧ route = route' := by
  have hle := h'.longest p h.isPrefix (by rw [h.found]; rfl)
  have hge := h.longest p' h'.isPrefix (by rw [h'.found]; rfl)
  have heq : p = p' := hle.eq_of_length (le_antisymm hle.length_le hge.length_le)
  refine ⟨heq, ?_⟩
  have hfound := h.found
  rw [heq, h'.found, Option.some_inj] at hfound
  exact hfound.symm

theorem longest_or_none (rib : Rib) (query : Route) (name : Name) :
    NoPrefixHas rib query name ∨ ∃ p route, Longest rib query name p route := by
  induction name using List.reverseRecOn with
  | nil =>
    cases hroot : rib.findRoute [] query with
    | none => exact Or.inl fun q hq => List.prefix_nil.mp hq ▸ hroot
    | some route =>
      exact Or.inr ⟨[], route, List.prefix_rfl, hroot, fun q hq _ => List.prefix_nil.mp hq ▸ List.prefix_rfl⟩
  | append_singleton name component ih =>
    cases hname : rib.findRoute (name ++ [component]) query with
    | some route => exact Or.inr ⟨_, route, List.prefix_rfl, hname, fun q hq _ => hq⟩
    | none =>
      rcases ih with hnone | ⟨p, route, h⟩
      · refine Or.inl fun q hq => ?_
        rcases List.prefix_concat_iff.mp hq with rfl | hq
        · exact hname
        · exact hnone q hq
      · refine Or.inr ⟨p, route, h.isPrefix.trans (List.prefix_append name [component]), h.found, fun q hq hsome => ?_⟩
        rcases List.prefix_concat_iff.mp hq with rfl | hq
        · rw [hname] at hsome
          cases hsome
        · exact h.longest q hq hsome

theorem mem_of_findRoute (h : rib.findRoute p query = some route) : Mem rib p := by
  obtain ⟨entry, hentry, -⟩ := Option.bind_eq_some_iff.mp h
  rw [Mem, hentry]
  rfl

theorem findLongestPrefix_eq_some (h : rib.findLongestPrefix name query = some route) :
    rib.findRoute name query = some route ∨
      rib.findRoute name query = none ∧ ∃ parent, rib.findParent name = some parent ∧
        rib.findRoute parent.m_name query = some route := by
  unfold Rib.findLongestPrefix at h
  cases hname : rib.findRoute name query with
  | some existing =>
    rw [hname] at h
    exact Or.inl h
  | none =>
    rw [hname] at h
    obtain ⟨parent, hparent, hroute⟩ := Option.bind_eq_some_iff.mp h
    exact Or.inr ⟨rfl, parent, hparent, hroute⟩

theorem findParent_under {parent : RibEntry} (h : rib.findParent name = some parent) :
    Under parent.m_name name ∧ ∀ q, Under q name → Mem rib q → q <+: parent.m_name := by
  have hisParent := findParent_isParent rib name
  rw [h] at hisParent
  exact ⟨hisParent.1, hisParent.2.2⟩

theorem Longest.at_parent (h : Longest rib query name p route) {parent : RibEntry} {found : Route}
    (hparent : rib.findParent name = some parent) (hname : rib.findRoute name query = none)
    (hfound : rib.findRoute parent.m_name query = some found) : p = parent.m_name := by
  obtain ⟨hunder, hnearest⟩ := findParent_under hparent
  have hne : p ≠ name := by
    rintro rfl
    rw [h.found] at hname
    cases hname
  have hle := hnearest p ⟨h.isPrefix, hne⟩ (mem_of_findRoute h.found)
  have hge := h.longest parent.m_name hunder.1 (by rw [hfound]; rfl)
  exact hle.eq_of_length (le_antisymm hle.length_le hge.length_le)

end Search

section Reports

variable {γ : Type} {s s' s'' : State γ}

def Reports (s s' : State γ) : Prop :=
  ∃ reported, s'.completions = s.completions ++ reported ∧ ∀ completion ∈ reported, completion.2 ≠ .NOT_FOUND

theorem Reports.of_eq (h : s'.completions = s.completions) : Reports s s' :=
  ⟨[], h.trans (List.append_nil _).symm, fun _ hmem => absurd hmem List.not_mem_nil⟩

theorem Reports.trans (h : Reports s s') (h' : Reports s' s'') : Reports s s'' := by
  obtain ⟨first, hfirst, hnone⟩ := h
  obtain ⟨second, hsecond, hnone'⟩ := h'
  refine ⟨first ++ second, ?_, fun completion hmem => ?_⟩
  · rw [hsecond, hfirst, List.append_assoc]
  · rcases List.mem_append.mp hmem with hmem | hmem
    · exact hnone completion hmem
    · exact hnone' completion hmem

theorem Reports.complete (s : State γ) (callback : Option γ) {res : SlAnnounceResult} (hres : res ≠ .NOT_FOUND) :
    Reports s (s.complete callback res) := by
  refine ⟨_, rfl, fun completion hmem => ?_⟩
  obtain ⟨_, -, rfl⟩ := Option.map_eq_some_iff.mp (Option.mem_toList.mp hmem)
  exact hres

theorem reports_sendBatches {batches : List (UpdateQueueItem γ)} (h : sendBatches batches s = some s') : Reports s s' := by
  induction batches generalizing s with
  | nil =>
    cases h
    exact Reports.of_eq rfl
  | cons item batches ih =>
    obtain ⟨timers, sender, -, rfl | ⟨inheritedRoutes, hrest⟩⟩ := sendBatches_cons h
    · exact Reports.of_eq rfl
    · refine Reports.trans ?_ (ih hrest)
      obtain ⟨_, _, heq⟩ := onFibUpdateSuccess_eq { s with
        timers := timers, m_updateBatches := batches, inProgress := some item, m_fibUpdater := sender } item
        inheritedRoutes
      rw [heq]
      exact Reports.complete s item.callback nofun

theorem reports_beginApplyUpdate {update : RibUpdate} {callback : Option γ} {cause : Option EventId}
    (h : beginApplyUpdate update callback cause s = some s') : Reports s s' := by
  rcases sendBatchFromQueue_cases h with rfl | ⟨-, hbatches⟩
  · exact Reports.of_eq rfl
  · obtain ⟨reported, hreported, hnone⟩ := reports_sendBatches hbatches
    exact ⟨reported, hreported, hnone⟩

theorem reports_beginAddRoute {name : Name} {route : Route} {expires : Option ℤ} {callback : Option γ}
    (h : beginAddRoute name route expires callback s = some s') : Reports s s' := by
  unfold beginAddRoute at h
  dsimp only at h
  split at h
  · exact reports_beginApplyUpdate h
  · split at h
    · obtain ⟨expired, hexpired, rfl⟩ := Option.map_eq_some_iff.mp h
      exact (reports_beginApplyUpdate hexpired).trans (Reports.complete expired callback nofun)
    · obtain ⟨reported, hreported, hnone⟩ := reports_beginApplyUpdate h
      exact ⟨reported, hreported, hnone⟩

end Reports

section Renewal

variable {γ : Type} (s : State γ) (name : Name) (faceId : ℕ)

/-- `slRenew` renews the route at the longest prefix of the name that has one, and
reports `NOT_FOUND` if and only if there is none. -/
structure RenewsLongest : Prop where
  renewed : match findRenewed name faceId s with
    | some (p, route) => Longest s.m_rib (routeQuery faceId) name p route
    | none => NoPrefixHas s.m_rib (routeQuery faceId) name
  renews : ∀ p route, Longest s.m_rib (routeQuery faceId) name p route → ∀ maxLifetime callback,
    slRenew name faceId maxLifetime callback s =
      beginAddRoute p (limitLifetime s.now route maxLifetime) none (some callback) s
  notFound : ∀ maxLifetime callback s', slRenew name faceId maxLifetime callback s = some s' →
    ((∃ reported, s'.completions = s.completions ++ reported ∧ (callback, .NOT_FOUND) ∈ reported) ↔
      NoPrefixHas s.m_rib (routeQuery faceId) name)

/-- The longest prefix that has the route is the name or the nearest entry above it,
and the route there holds the announcement of that prefix. -/
def LongestIsNearest : Prop :=
  ∀ p route, Longest s.m_rib (routeQuery faceId) name p route →
    (p = name ∨ (s.m_rib.findParent name).map RibEntry.m_name = some p) ∧
      route.announcement.map PrefixAnnouncement.m_announcedName = some p

variable {s name faceId}

theorem findRenewed_eq : findRenewed name faceId s =
    (s.m_rib.findLongestPrefix name (routeQuery faceId)).bind (fun oldRoute =>
      oldRoute.announcement.map (fun announcement => (announcement.m_announcedName, oldRoute))) := by
  unfold findRenewed routeQuery
  cases s.m_rib.findLongestPrefix name ⟨faceId, ROUTE_ORIGIN_PREFIXANN, 0, 0, none, none, 0, none⟩ <;> rfl

theorem findRenewed_eq_some {p : Name} {route : Route} : findRenewed name faceId s = some (p, route) ↔
    s.m_rib.findLongestPrefix name (routeQuery faceId) = some route ∧
      route.announcement.map PrefixAnnouncement.m_announcedName = some p := by
  rw [findRenewed_eq, Option.bind_eq_some_iff]
  constructor
  · rintro ⟨oldRoute, hfind, hrenews⟩
    obtain ⟨announcement, hann, heq⟩ := Option.map_eq_some_iff.mp hrenews
    obtain ⟨rfl, rfl⟩ := Prod.mk.inj heq
    exact ⟨hfind, Option.map_eq_some_iff.mpr ⟨announcement, hann, rfl⟩⟩
  · rintro ⟨hfind, hcarries⟩
    obtain ⟨announcement, hann, rfl⟩ := Option.map_eq_some_iff.mp hcarries
    exact ⟨route, hfind, Option.map_eq_some_iff.mpr ⟨announcement, hann, rfl⟩⟩

theorem findLongestPrefix_of_longest {rib : Rib} {p : Name} {query route : Route} (h : Longest rib query name p route)
    (hnear : p = name ∨ (rib.findParent name).map RibEntry.m_name = some p) :
    rib.findLongestPrefix name query = some route := by
  unfold Rib.findLongestPrefix
  rcases hnear with rfl | hparent
  · rw [h.found]
  · obtain ⟨parent, hentry, rfl⟩ := Option.map_eq_some_iff.mp hparent
    cases hname : rib.findRoute name query with
    | some existing =>
      have hle := h.longest name List.prefix_rfl (by rw [hname]; rfl)
      exact absurd hle (Under.not_prefix (findParent_under hentry).1)
    | none => simp only [hentry, Option.bind_some, h.found]

theorem findLongestPrefix_of_none {rib : Rib} {query : Route} (h : NoPrefixHas rib query name) :
    rib.findLongestPrefix name query = none := by
  unfold Rib.findLongestPrefix
  rw [h name List.prefix_rfl]
  cases hparent : rib.findParent name with
  | none => rfl
  | some parent => exact h parent.m_name (findParent_under hparent).1.1

theorem not_noPrefixHas {rib : Rib} {p : Name} {query route : Route} (h : Longest rib query name p route) :
    ¬ NoPrefixHas rib query name := by
  intro hnone
  have hfound := h.found
  rw [hnone p h.isPrefix] at hfound
  cases hfound

theorem renewed_iff : (match findRenewed name faceId s with
    | some (p, route) => Longest s.m_rib (routeQuery faceId) name p route
    | none => NoPrefixHas s.m_rib (routeQuery faceId) name) ↔ LongestIsNearest s name faceId := by
  constructor
  · intro hrenewed p route hlongest
    cases hfind : findRenewed name faceId s with
    | none =>
      rw [hfind] at hrenewed
      exact absurd hrenewed (not_noPrefixHas hlongest)
    | some result =>
      obtain ⟨p', route'⟩ := result
      rw [hfind] at hrenewed
      obtain ⟨rfl, rfl⟩ := hlongest.unique hrenewed
      obtain ⟨hsearch, hann⟩ := findRenewed_eq_some.mp hfind
      refine ⟨?_, hann⟩
      rcases findLongestPrefix_eq_some hsearch with hname | ⟨hname, parent, hparent, hfound⟩
      · have hle := hlongest.longest name List.prefix_rfl (by rw [hname]; rfl)
        exact Or.inl (hlongest.isPrefix.eq_of_length (le_antisymm hlongest.isPrefix.length_le hle.length_le))
      · rw [hlongest.at_parent hparent hname hfound, hparent]
        exact Or.inr rfl
  · intro hnear
    rcases longest_or_none s.m_rib (routeQuery faceId) name with hnone | ⟨p, route, hlongest⟩
    · have hfind : findRenewed name faceId s = none := by
        rw [Option.eq_none_iff_forall_ne_some]
        rintro ⟨p, route⟩ hsome
        have hsearch := (findRenewed_eq_some.mp hsome).1
        rw [findLongestPrefix_of_none hnone] at hsearch
        cases hsearch
      rw [hfind]
      exact hnone
    · obtain ⟨hplace, hann⟩ := hnear p route hlongest
      rw [findRenewed_eq_some.mpr ⟨findLongestPrefix_of_longest hlongest hplace, hann⟩]
      exact hlongest

theorem notFound_iff (hnear : LongestIsNearest s name faceId) {maxLifetime : ℤ} {callback : γ} {s' : State γ}
    (h : slRenew name faceId maxLifetime callback s = some s') :
    (∃ reported, s'.completions = s.completions ++ reported ∧ (callback, .NOT_FOUND) ∈ reported) ↔
      NoPrefixHas s.m_rib (routeQuery faceId) name := by
  have hrenewed := renewed_iff.mpr hnear
  unfold slRenew at h
  cases hfind : findRenewed name faceId s with
  | none =>
    rw [hfind] at h hrenewed
    cases h
    exact iff_of_true ⟨_, rfl, List.mem_cons_self⟩ hrenewed
  | some result =>
    obtain ⟨p, route⟩ := result
    rw [hfind] at h hrenewed
    refine iff_of_false ?_ (not_noPrefixHas hrenewed)
    rintro ⟨reported, hreported, hmem⟩
    obtain ⟨reported', hreported', hnone⟩ := reports_beginAddRoute h
    rw [hreported, List.append_right_inj] at hreported'
    exact hnone _ (hreported' ▸ hmem) rfl

theorem slRenew_eq (hnear : LongestIsNearest s name faceId) {p : Name} {route : Route}
    (hlongest : Longest s.m_rib (routeQuery faceId) name p route) (maxLifetime : ℤ) (callback : γ) :
    slRenew name faceId maxLifetime callback s =
      beginAddRoute p (limitLifetime s.now route maxLifetime) none (some callback) s := by
  obtain ⟨hplace, hann⟩ := hnear p route hlongest
  rw [slRenew, findRenewed_eq_some.mpr ⟨findLongestPrefix_of_longest hlongest hplace, hann⟩]

theorem renewsLongest_iff (s : State γ) (name : Name) (faceId : ℕ) :
    RenewsLongest s name faceId ↔ LongestIsNearest s name faceId := by
  constructor
  · exact fun h => renewed_iff.mp h.renewed
  · exact fun hnear => ⟨renewed_iff.mpr hnear, fun _ _ h => slRenew_eq hnear h, fun _ _ _ h => notFound_iff hnear h⟩

end Renewal

section Samples

/-- `/a` is announced on face 1, and then `/a/b` is registered for face 2. -/
def coveredEvents : List (Event Unit) :=
  announceEvents ++ [.registerEntry [⟨8, [97]⟩, ⟨8, [98]⟩] ⟨2, 0, 0, 0, none, none, 0, none⟩ none,
    .fibResponse 0 .success, .fibResponse 0 .success]

theorem covered_route_is_not_renewed :
    ∃ s, runOf (step id) (fun _ _ => True) sampleState coveredEvents = some s ∧
      ¬ RenewsLongest s [⟨8, [97]⟩, ⟨8, [98]⟩, ⟨8, [99]⟩] 1 := by
  have hrun : (runOf (step id) (fun _ _ => True) sampleState coveredEvents).map (fun s =>
      (findRenewed [⟨8, [97]⟩, ⟨8, [98]⟩, ⟨8, [99]⟩] 1 s = none : Bool) &&
        (s.m_rib.findRoute [⟨8, [97]⟩] (routeQuery 1)).isSome) = some true := by decide
  obtain ⟨s, hs, hfound⟩ := Option.map_eq_some_iff.mp hrun
  rw [Bool.and_eq_true, decide_eq_true_eq] at hfound
  refine ⟨s, hs, fun h => ?_⟩
  have hrenewed := h.renewed
  rw [hfound.1] at hrenewed
  have hnone := hrenewed [⟨8, [97]⟩] (by decide)
  rw [hnone] at hfound
  cases hfound.2

end Samples

end LeoNdn.LongestRoutes
