import LeoNdn.RouteChanges
import LeoNdn.Runs

/-!
The RIB, the queue of its updates, and the FIB that follows it: the commands of
one update are applied to the FIB before the next update is looked at.
-/

namespace LeoNdn.FibSync

open LeoNdn.NdnPacket LeoNdn.RibTable LeoNdn.FibUpdater LeoNdn.Inheritance LeoNdn.RibTree
open LeoNdn.FibChanges LeoNdn.RibTraversal LeoNdn.RouteInheritance LeoNdn.RouteChanges

section System

/-- The next hops are those that the commands of the RIB have left; faces that
have been removed have no next hops and are never there again. -/
structure State where
  m_rib : Rib
  nextHops : Name → ℕ → Option ℕ
  removedFaces : List ℕ
  m_updateBatches : List RibUpdate

inductive Event
  | registerEntry (name : Name) (route : Route)
  | unregisterEntry (name : Name) (route : Route)
  | faceDestroyed (face : ℕ)
  | beginRemoveFace (face : ℕ)
  | sendBatchFromQueue

def initial : State := ⟨⟨[], 0, fun _ => []⟩, fun _ _ => none, [], []⟩

def addUpdateToQueue (update : RibUpdate) (s : State) : State :=
  { s with m_updateBatches := s.m_updateBatches ++ [update] }

/-- Only a next hop of a face that does not exist cannot be added. -/
def succeeds (s : State) (update : FibUpdate) : Bool :=
  update.action = .REMOVE_NEXTHOP || ! s.removedFaces.contains update.faceId

def applyBatch (update : RibUpdate) (updates : Updates) (s : State) : State :=
  { s with
    m_rib := modifyInheritedRoutes updates.m_inheritedRoutes (updateRib update s.m_rib),
    nextHops := applyFibUpdates updates.m_updatesForNonBatchFaceId
      (applyFibUpdates updates.m_updatesForBatchFaceId s.nextHops) }

/-- One event; nothing where it cannot happen, where a command fails, and where
a null pointer is dereferenced. -/
def step (s : State) : Event → Option State
  | .registerEntry name route => some (addUpdateToQueue ⟨.REGISTER, name, route⟩ s)
  | .unregisterEntry name route => some (addUpdateToQueue ⟨.UNREGISTER, name, route⟩ s)
  | .faceDestroyed face => some { s with
      removedFaces := face :: s.removedFaces,
      nextHops := fun name f => if f = face then none else s.nextHops name f }
  | .beginRemoveFace face =>
    if face ∈ s.removedFaces then
      some ((s.m_rib.findRoutesWithFaceId face).foldl (fun s nameAndRoute =>
        addUpdateToQueue ⟨.REMOVE_FACE, nameAndRoute.1, nameAndRoute.2⟩ s) s)
    else none
  | .sendBatchFromQueue =>
    match s.m_updateBatches with
    | [] => none
    | update :: batches => do
      let updates ← computeUpdates s.m_rib update
      if (updates.m_updatesForBatchFaceId ++ updates.m_updatesForNonBatchFaceId).all (succeeds s) then
        some (applyBatch update updates { s with m_updateBatches := batches })
      else none

/-- The FIB has the next hops that the RIB asks for, and no others. -/
def FollowsRib (s : State) : Prop :=
  ∀ name face, s.nextHops name face = if face ∈ s.removedFaces then none else expected s.m_rib name face

def table (s : State) : Table := fun name face => (s.nextHops name face, inherits s.m_rib name face)

/-- A next hop that an entry has of its ancestors is recorded with the entry. -/
structure Consistent (s : State) : Prop where
  tree : Tree s.m_rib
  unique : UniqueKeys s.m_rib
  counted : Counted s.m_rib
  follows : FollowsRib s
  recorded : ∀ face, face ∉ s.removedFaces → ∀ name, ownCost (s.m_rib.routesOf name) face = none →
    (s.nextHops name face).isSome = true → inherits s.m_rib name face = true
  removals : ∀ update ∈ s.m_updateBatches, update.action = .REMOVE_FACE → update.route.faceId ∈ s.removedFaces

end System

section Updates

variable {rib : Rib} {update : RibUpdate} {name d : Name} {face : ℕ}

theorem find_updateRib_other {β : Type} {g : RibEntry → β} (hg : IgnoresLinks g) (hd : d ≠ update.name) :
    ((updateRib update rib).find d).map g = (rib.find d).map g := by
  unfold updateRib
  split
  · rw [find_insert hg, if_neg hd]
  · rw [find_erase hg, if_neg hd]

theorem routesOf_updateRib_other (hd : d ≠ update.name) : (updateRib update rib).routesOf d = rib.routesOf d := by
  rw [Rib.routesOf, find_updateRib_other routes_ignoreLinks hd]
  rfl

theorem mem_updateRib_other (hd : d ≠ update.name) : Mem (updateRib update rib) d ↔ Mem rib d := by
  have hsame : ((updateRib update rib).find d).map RibEntry.m_routes = (rib.find d).map RibEntry.m_routes :=
    find_updateRib_other routes_ignoreLinks hd
  rw [Mem, Mem, ← Option.isSome_map (f := RibEntry.m_routes), hsame, Option.isSome_map]

theorem inheritedRoutes_ignoreLinks : IgnoresLinks RibEntry.m_inheritedRoutes := fun _ _ _ => rfl

theorem accept_inheritedRoutes (entry : RibEntry) (route : Route) :
    (entry.accept route).m_inheritedRoutes = entry.m_inheritedRoutes := by
  unfold RibEntry.accept RibEntry.insertRoute
  split
  · split <;> rfl
  · rfl

theorem eraseRoute_inheritedRoutes (entry : RibEntry) (route : Route) :
    (entry.eraseRoute route).m_inheritedRoutes = entry.m_inheritedRoutes := by
  unfold RibEntry.eraseRoute
  split <;> rfl

theorem inherits_map (rib : Rib) (d : Name) (face : ℕ) : inherits rib d face =
    ((rib.find d).map RibEntry.m_inheritedRoutes).any (fun routes => onFace routes face) := by
  rw [inherits, Option.any_map]
  rfl

theorem inherits_erase {namePrefix : Name} {route : Route} (hd : Mem (rib.erase namePrefix route) d) :
    inherits (rib.erase namePrefix route) d face = inherits rib d face := by
  have herase := find_erase inheritedRoutes_ignoreLinks rib namePrefix route d
  rw [inherits_map, inherits_map, herase]
  split
  · rename_i hname
    subst hname
    have hleft := find_erase inheritedRoutes_ignoreLinks rib d route d
    rw [if_pos rfl] at hleft
    cases hfind : rib.find d with
    | none => rfl
    | some entry =>
      rw [hfind, Option.bind_some, RibEntry.afterErase] at hleft
      rw [Option.bind_some, RibEntry.afterErase]
      split
      · rename_i hempty
        rw [if_pos hempty, Option.map_none, Option.map_eq_none_iff] at hleft
        rw [Mem, hleft] at hd
        cases hd
      · rw [Option.map_some, Option.map_some, eraseRoute_inheritedRoutes]
  · rfl

theorem inherits_updateRib (hd : Mem (updateRib update rib) d) :
    inherits (updateRib update rib) d face = inherits rib d face := by
  unfold updateRib at hd ⊢
  cases haction : update.action with
  | REGISTER =>
    dsimp only
    rw [inherits_map, inherits_map, find_insert inheritedRoutes_ignoreLinks]
    split
    · rename_i hname
      rw [hname, accept_inheritedRoutes]
      cases rib.find update.name <;> rfl
    · rfl
  | UNREGISTER =>
    rw [haction] at hd
    exact inherits_erase hd
  | REMOVE_FACE =>
    rw [haction] at hd
    exact inherits_erase hd

theorem uniqueKeys_updateRib (h : UniqueKeys rib) (update : RibUpdate) :
    UniqueKeys (FibUpdater.updateRib update rib) := by
  unfold FibUpdater.updateRib
  split
  · exact h.insert update.name update.route
  · exact h.erase update.name update.route

def counts (entry : RibEntry) : List Route × ℕ := (entry.m_routes, entry.m_nRoutesWithCaptureSet)

theorem counts_ignoreLinks : IgnoresLinks counts := fun _ _ _ => rfl

theorem counted_congr {rib' : Rib} (h : Counted rib) (hsame : SameBy counts rib rib') : Counted rib' := by
  intro name entry hfind
  have hmap := hsame name
  rw [hfind, Option.map_some, eq_comm, Option.map_eq_some_iff] at hmap
  obtain ⟨old, hold, heq⟩ := hmap
  have hcount := h name old hold
  rw [counts, counts, Prod.mk.injEq] at heq
  rw [← heq.1, ← heq.2, hcount]

theorem counted_modifyInheritedRoutes (h : Counted rib) (inheritedRoutes : List RibUpdate) :
    Counted (FibUpdater.modifyInheritedRoutes inheritedRoutes rib) := by
  induction inheritedRoutes generalizing rib with
  | nil => exact h
  | cons update inheritedRoutes ih =>
    refine ih ?_
    dsimp only
    split
    · exact counted_congr h (SameBy.modifyEntry (fun _ => by rfl) (fun _ => by rfl) update.name)
    · exact counted_congr h (SameBy.modifyEntry (fun _ => by rfl) (fun _ => by rfl) update.name)
    · exact h

end Updates

section Settling

variable {s : State} {name : Name} {face : ℕ}

def PassesTo (rib : Rib) (name : Name) (face : ℕ) : Prop := ∃ d, Reached rib name face d ∧ hasFace rib d face = false

/-- Some entry that the name reaches has routes of its own on the face, and
still a record of an inherited one. -/
def StaleBelow (rib : Rib) (name : Name) (face : ℕ) : Prop :=
  ∃ d, Reached rib name face d ∧ hasFace rib d face = true ∧ inherits rib d face = true

theorem hasFace_eq (rib : Rib) (name : Name) (face : ℕ) :
    hasFace rib name face = (ownCost (rib.routesOf name) face).isSome := by
  rw [hasFace]
  cases hfind : rib.find name with
  | none =>
    rw [routesOf_none hfind]
    rfl
  | some entry =>
    rw [routesOf_some hfind]
    exact hasFaceId_eq entry face

theorem takeOver_own (inherited : Bool) (add : Option ℕ) (remove : Bool) (x : Option ℕ × Bool)
    (h : remove = true → inherited = false) : takeOver true inherited add remove x = x := by
  cases remove with
  | false => simp [takeOver]
  | true => simp [takeOver, h rfl]

theorem takeOver_inherited (add : Option ℕ) (remove : Bool) (x : Option ℕ × Bool)
    (h : x.1.isSome = true → x.2 = true) :
    (takeOver false x.2 add remove x).1 = add.or (if remove = true then none else x.1) ∧
      ((takeOver false x.2 add remove x).1.isSome = true → (takeOver false x.2 add remove x).2 = true) := by
  obtain ⟨cost, inherited⟩ := x
  cases add with
  | some cost => exact ⟨rfl, fun _ => rfl⟩
  | none =>
    cases remove with
    | false => simpa [takeOver] using h
    | true =>
      cases inherited with
      | true => simp [takeOver]
      | false =>
        cases cost with
        | none => simp [takeOver]
        | some cost => exact absurd (h rfl) Bool.false_ne_true

theorem passedDown_of_reached (hcounted : Counted s.m_rib) {d : Name} (hreached : Reached s.m_rib name face d)
    (hown : ownCost (s.m_rib.routesOf d) face = none) (above : Option ℕ) :
    nextHopCost (s.m_rib.routesOf d) face above = above := by
  obtain ⟨hd, hunder, hopen⟩ := hreached
  obtain ⟨entry, hfind⟩ := Option.isSome_iff_exists.mp hd
  have hcapture := (hopen d entry hfind hunder List.prefix_rfl).1
  rw [hcounted.hasCapture hfind, ← routesOf_some hfind] at hcapture
  rw [nextHopCost, hown, hcapture, if_neg Bool.false_ne_true, Option.none_or]

theorem expected_of_mem {rib : Rib} (h : Mem rib name) :
    expected rib name face = nextHopCost (rib.routesOf name) face (passedDown rib name face) := if_pos h

theorem expected_of_not_mem {rib : Rib} (h : ¬ Mem rib name) : expected rib name face = none := if_neg h

theorem Consistent.below (h : Consistent s) {rib' : Rib} (own : ℕ → Option ℕ × Bool) {add : ℕ → Option ℕ}
    {remove : ℕ → Bool} (hroutes : ∀ q, q ≠ name → rib'.routesOf q = s.m_rib.routesOf q)
    (hmem : ∀ q, q ≠ name → (Mem rib' q ↔ Mem s.m_rib q)) (hface : face ∉ s.removedFaces)
    (hadd : PassesTo s.m_rib name face →
      (add face).or (if remove face = true then none else passedFrom s.m_rib name face) = passedFrom rib' name face)
    (hremove : remove face = true → ¬ StaleBelow s.m_rib name face) {d : Name} (hd : d ≠ name) :
    (changed s.m_rib name (table s) own add remove d face).1 = expected rib' d face ∧
      (ownCost (s.m_rib.routesOf d) face = none → (changed s.m_rib name (table s) own add remove d face).1.isSome = true →
        (changed s.m_rib name (table s) own add remove d face).2 = true) := by
  have hbefore : s.nextHops d face = expected s.m_rib d face := (h.follows d face).trans (if_neg hface)
  have hrecord := h.recorded face hface d
  by_cases hdmem : Mem s.m_rib d
  · have hexpected : expected rib' d face = nextHopCost (s.m_rib.routesOf d) face (passedDown rib' d face) := by
      rw [expected_of_mem ((hmem d hd).mpr hdmem), hroutes d hd]
    rw [expected_of_mem hdmem] at hbefore
    rcases nextHopCost_below hroutes h.counted hdmem hd with ⟨hreached, hdown, hdown'⟩ | ⟨hreached, hsame⟩
    · rw [changed_reached hreached]
      cases hcost : ownCost (s.m_rib.routesOf d) face with
      | some cost =>
        have hhas : hasFace s.m_rib d face = true := by
          rw [hasFace_eq, hcost]
          rfl
        rw [hhas, takeOver_own]
        · rw [hexpected, nextHopCost_of_own hcost]
          rw [nextHopCost_of_own hcost] at hbefore
          refine ⟨hbefore, ?_⟩
          rintro ⟨⟩
        · intro hr
          rw [Bool.eq_false_iff]
          exact fun hinherits => hremove hr ⟨d, hreached, hhas, hinherits⟩
      | none =>
        have hhas : hasFace s.m_rib d face = false := by
          rw [hasFace_eq, hcost]
          rfl
        obtain ⟨hvalue, hrecorded⟩ := takeOver_inherited (add face) (remove face) (table s d face) (hrecord hcost)
        rw [hhas]
        refine ⟨?_, fun _ => hrecorded⟩
        rw [passedDown_of_reached h.counted hreached hcost] at hbefore
        rw [hexpected, passedDown_of_reached h.counted hreached hcost, hdown', ← hadd ⟨d, hreached, hhas⟩, ← hdown,
          ← hbefore]
        exact hvalue
    · rw [changed_other hd hreached, hexpected, hsame]
      exact ⟨hbefore, hrecord⟩
  · have hreached : ¬ Reached s.m_rib name face d := fun hreached => hdmem hreached.1
    rw [changed_other hd hreached, expected_of_not_mem (mt (hmem d hd).mp hdmem)]
    rw [expected_of_not_mem hdmem] at hbefore
    exact ⟨hbefore, hrecord⟩

/-- The updates give the name of an update its next hops and records, and pass
down below it what it passes down when the update is applied. -/
structure Settles (s : State) (update : RibUpdate) (updates : Updates) (own : ℕ → Option ℕ × Bool)
    (add : ℕ → Option ℕ) (remove : ℕ → Bool) : Prop where
  changes : Changes s.m_rib update.name (table s) updates own add remove
  nextHops : ∀ face, face ∉ s.removedFaces → (own face).1 =
    if ((updateRib update s.m_rib).find update.name).isSome = true then
      nextHopCost ((updateRib update s.m_rib).routesOf update.name) face (passedDown s.m_rib update.name face)
    else none
  recorded : ∀ face, face ∉ s.removedFaces →
    ownCost ((updateRib update s.m_rib).routesOf update.name) face = none → (own face).1.isSome = true →
      (own face).2 = true
  passed : ∀ face, face ∉ s.removedFaces → PassesTo s.m_rib update.name face →
    (add face).or (if remove face = true then none else passedFrom s.m_rib update.name face) =
      passedOn ((updateRib update s.m_rib).routesOf update.name) face (passedDown s.m_rib update.name face)
  removed : ∀ face, face ∉ s.removedFaces → remove face = true → ¬ StaleBelow s.m_rib update.name face

section Batch

variable {update : RibUpdate} {updates updates' : Updates} {own : ℕ → Option ℕ × Bool} {add : ℕ → Option ℕ}
  {remove : ℕ → Bool}

theorem routesOf_applyBatch (s : State) (update : RibUpdate) (updates : Updates) (q : Name) :
    (applyBatch update updates s).m_rib.routesOf q = (updateRib update s.m_rib).routesOf q :=
  (SameRoutes.modifyInheritedRoutes updates.m_inheritedRoutes (updateRib update s.m_rib)).routesOf q

theorem mem_applyBatch (s : State) (update : RibUpdate) (updates : Updates) (q : Name) :
    Mem (applyBatch update updates s).m_rib q ↔ Mem (updateRib update s.m_rib) q := by
  have hsame := SameRoutes.modifyInheritedRoutes updates.m_inheritedRoutes (updateRib update s.m_rib) q
  rw [Mem, Mem, ← Option.isSome_map (f := RibEntry.m_routes), applyBatch, hsame, Option.isSome_map]

theorem passedDown_applyBatch (s : State) (update : RibUpdate) (updates : Updates) (face : ℕ) :
    passedDown (applyBatch update updates s).m_rib update.name face = passedDown s.m_rib update.name face := by
  have hroutes : ∀ q, q ≠ update.name → (applyBatch update updates s).m_rib.routesOf q = s.m_rib.routesOf q := by
    intro q hq
    rw [routesOf_applyBatch, routesOf_updateRib_other hq]
  exact passedDown_of_not_under hroutes fun hunder => hunder.2 rfl

theorem nextHops_applyBatch (hchanges : Changes s.m_rib update.name (table s) updates own add remove)
    (hsent : updates' = updates ∨
      updates' = { updates with m_updatesForBatchFaceId := [] } ∧ updates.m_batchFaceId ∈ s.removedFaces)
    (d : Name) (hface : face ∉ s.removedFaces) :
    (applyBatch update updates' s).nextHops d face =
      (changed s.m_rib update.name (table s) own add remove d face).1 := by
  rcases hsent with rfl | ⟨rfl, hbatch⟩
  · exact Amounts.applied hchanges rfl
  · exact Amounts.applied_other hchanges rfl fun heq => hface (heq ▸ hbatch)

theorem inherits_applyBatch (hchanges : Changes s.m_rib update.name (table s) updates own add remove)
    (hsent : updates' = updates ∨
      updates' = { updates with m_updatesForBatchFaceId := [] } ∧ updates.m_batchFaceId ∈ s.removedFaces)
    {d : Name} (hd : Mem (updateRib update s.m_rib) d) (face : ℕ) :
    inherits (applyBatch update updates' s).m_rib d face =
      (changed s.m_rib update.name (table s) own add remove d face).2 := by
  rw [applyBatch, inherits_modifyInheritedRoutes _ hd, inherits_updateRib hd, hchanges.inherits]
  rcases hsent with rfl | ⟨rfl, -⟩ <;> rfl

theorem Consistent.nextHops_removedFace (h : Consistent s)
    (hsucceeds : (updates.m_updatesForBatchFaceId ++ updates.m_updatesForNonBatchFaceId).all (succeeds s) = true)
    (d : Name) (hface : face ∈ s.removedFaces) : (applyBatch update updates s).nextHops d face = none := by
  have hnone : ∀ command ∈ updates.m_updatesForBatchFaceId ++ updates.m_updatesForNonBatchFaceId,
      command.action = .ADD_NEXTHOP → command.faceId ≠ face := by
    rintro command hcommand hadds rfl
    have hok := List.all_eq_true.mp hsucceeds command hcommand
    rw [succeeds, hadds] at hok
    simp [hface] at hok
  refine applyFibUpdates_none (fun command hcommand => hnone command (List.mem_append_right _ hcommand))
    (applyFibUpdates_none (fun command hcommand => hnone command (List.mem_append_left _ hcommand)) ?_)
  rw [h.follows, if_pos hface]

theorem Consistent.below_applyBatch (h : Consistent s) (hsettles : Settles s update updates own add remove)
    (updates' : Updates) (hface : face ∉ s.removedFaces) {d : Name} (hd : d ≠ update.name) :
    (changed s.m_rib update.name (table s) own add remove d face).1 =
        expected (applyBatch update updates' s).m_rib d face ∧
      (ownCost (s.m_rib.routesOf d) face = none →
        (changed s.m_rib update.name (table s) own add remove d face).1.isSome = true →
          (changed s.m_rib update.name (table s) own add remove d face).2 = true) := by
  refine h.below own (fun q hq => ?_) (fun q hq => ?_) hface (fun hpasses => ?_) (hsettles.removed face hface) hd
  · rw [routesOf_applyBatch, routesOf_updateRib_other hq]
  · rw [mem_applyBatch, mem_updateRib_other hq]
  · rw [hsettles.passed face hface hpasses, passedFrom, routesOf_applyBatch, passedDown_applyBatch]

theorem Consistent.followsRib_applyBatch (h : Consistent s) (hsettles : Settles s update updates own add remove)
    (hsent : updates' = updates ∨
      updates' = { updates with m_updatesForBatchFaceId := [] } ∧ updates.m_batchFaceId ∈ s.removedFaces)
    (hsucceeds : (updates'.m_updatesForBatchFaceId ++ updates'.m_updatesForNonBatchFaceId).all (succeeds s) = true) :
    FollowsRib (applyBatch update updates' s) := by
  intro d f
  by_cases hf : f ∈ s.removedFaces
  · rw [h.nextHops_removedFace hsucceeds d hf]
    exact (if_pos hf).symm
  · rw [nextHops_applyBatch hsettles.changes hsent d hf]
    refine Eq.trans ?_ (if_neg hf).symm
    by_cases hd : d = update.name
    · have hiff := mem_applyBatch s update updates' update.name
      unfold Mem at hiff
      rw [hd, changed_name, hsettles.nextHops f hf, expected, routesOf_applyBatch, passedDown_applyBatch]
      simp only [hiff]
    · exact (h.below_applyBatch hsettles updates' hf hd).1

theorem Consistent.recorded_applyBatch (h : Consistent s) (hsettles : Settles s update updates own add remove)
    (hsent : updates' = updates ∨
      updates' = { updates with m_updatesForBatchFaceId := [] } ∧ updates.m_batchFaceId ∈ s.removedFaces)
    (hfollows : FollowsRib (applyBatch update updates' s)) (hface : face ∉ s.removedFaces) (d : Name)
    (hcost : ownCost ((applyBatch update updates' s).m_rib.routesOf d) face = none)
    (hnext : ((applyBatch update updates' s).nextHops d face).isSome = true) :
    inherits (applyBatch update updates' s).m_rib d face = true := by
  have hd : Mem (applyBatch update updates' s).m_rib d := by
    by_contra hnot
    have hexpected := (hfollows d face).trans (if_neg hface)
    rw [hexpected, expected_of_not_mem hnot] at hnext
    cases hnext
  rw [nextHops_applyBatch hsettles.changes hsent d hface] at hnext
  rw [inherits_applyBatch hsettles.changes hsent ((mem_applyBatch s update updates' d).mp hd)]
  rw [routesOf_applyBatch] at hcost
  by_cases hname : d = update.name
  · subst hname
    rw [changed_name] at hnext ⊢
    exact hsettles.recorded face hface hcost hnext
  · rw [routesOf_updateRib_other hname] at hcost
    exact (h.below_applyBatch hsettles updates' hface hname).2 hcost hnext

theorem Consistent.settle (h : Consistent s) (hsettles : Settles s update updates own add remove)
    (hsent : updates' = updates ∨
      updates' = { updates with m_updatesForBatchFaceId := [] } ∧ updates.m_batchFaceId ∈ s.removedFaces)
    (hsucceeds : (updates'.m_updatesForBatchFaceId ++ updates'.m_updatesForNonBatchFaceId).all (succeeds s) = true)
    (hcounted : Counted (updateRib update s.m_rib)) {batches : List RibUpdate}
    (hbatches : ∀ update ∈ batches, update ∈ s.m_updateBatches) :
    Consistent (applyBatch update updates' { s with m_updateBatches := batches }) := by
  have hfollows := h.followsRib_applyBatch hsettles hsent hsucceeds
  refine ⟨?_, ?_, ?_, hfollows, ?_, fun other hother => h.removals other (hbatches other hother)⟩
  · exact (h.tree.updateRib update).modifyInheritedRoutes updates'.m_inheritedRoutes
  · intro q
    have hunique := uniqueKeys_updateRib h.unique update q
    rw [← routesOf_applyBatch s update updates'] at hunique
    exact hunique
  · exact counted_modifyInheritedRoutes hcounted updates'.m_inheritedRoutes
  · exact fun face hface d => h.recorded_applyBatch hsettles hsent hfollows hface d

end Batch

end Settling

end LeoNdn.FibSync
