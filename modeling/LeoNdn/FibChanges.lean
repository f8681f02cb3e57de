import LeoNdn.RibTree

/-!
What lists of FIB updates and of inherited routes amount to: for each name and
face the next hop, and whether the face is an inherited one.
-/

namespace LeoNdn.FibChanges

open LeoNdn.NdnPacket LeoNdn.RibTable LeoNdn.FibUpdater LeoNdn.Inheritance LeoNdn.RibTree

section Commands

def nextHopAfter (update : FibUpdate) : Option ℕ :=
  match update.action with
  | .ADD_NEXTHOP => some update.cost
  | .REMOVE_NEXTHOP => none

def applyFibUpdate (fib : Name → ℕ → Option ℕ) (update : FibUpdate) : Name → ℕ → Option ℕ :=
  fun name face => if name = update.name ∧ face = update.faceId then nextHopAfter update else fib name face

def applyFibUpdates (updates : List FibUpdate) (fib : Name → ℕ → Option ℕ) : Name → ℕ → Option ℕ :=
  updates.foldl applyFibUpdate fib

def isFor (name : Name) (face : ℕ) (update : FibUpdate) : Bool := name = update.name && face = update.faceId

def key (update : FibUpdate) : Name × ℕ := (update.name, update.faceId)

variable {updates : List FibUpdate} {fib : Name → ℕ → Option ℕ} {name : Name} {face : ℕ}

theorem isFor_iff {update : FibUpdate} : isFor name face update = true ↔ name = update.name ∧ face = update.faceId := by
  rw [isFor, Bool.and_eq_true, decide_eq_true_eq, decide_eq_true_eq]

theorem applyFibUpdates_of_absent (h : ∀ update ∈ updates, ¬ (name = update.name ∧ face = update.faceId)) :
    applyFibUpdates updates fib name face = fib name face := by
  induction updates generalizing fib with
  | nil => rfl
  | cons update updates ih =>
    rw [applyFibUpdates, List.foldl_cons]
    refine (ih fun other hother => h other (List.mem_cons_of_mem _ hother)).trans ?_
    exact if_neg (h update List.mem_cons_self)

theorem applyFibUpdates_eq (h : (updates.map key).Nodup) :
    applyFibUpdates updates fib name face =
      match updates.find? (isFor name face) with
      | some update => nextHopAfter update
      | none => fib name face := by
  induction updates generalizing fib with
  | nil => rfl
  | cons update updates ih =>
    rw [List.map_cons, List.nodup_cons] at h
    rw [List.find?_cons]
    by_cases hkey : isFor name face update = true
    · rw [hkey]
      obtain ⟨rfl, rfl⟩ := isFor_iff.mp hkey
      rw [applyFibUpdates, List.foldl_cons]
      refine (applyFibUpdates_of_absent ?_).trans (if_pos ⟨rfl, rfl⟩)
      rintro other hother ⟨hname, hface⟩
      exact h.1 (List.mem_map.mpr ⟨other, hother, by rw [key, key, hname, hface]⟩)
    · rw [Bool.eq_false_iff.mpr hkey]
      rw [isFor_iff] at hkey
      rw [applyFibUpdates, List.foldl_cons]
      refine (ih h.2).trans ?_
      rw [applyFibUpdate, if_neg hkey]

theorem applyFibUpdates_none (h : ∀ update ∈ updates, update.action = .ADD_NEXTHOP → update.faceId ≠ face)
    (hfib : fib name face = none) : applyFibUpdates updates fib name face = none := by
  induction updates generalizing fib with
  | nil => exact hfib
  | cons update updates ih =>
    refine ih (fun other hother => h other (List.mem_cons_of_mem _ hother)) ?_
    rw [applyFibUpdate]
    split
    · rename_i hkey
      have hne := h update List.mem_cons_self
      rw [nextHopAfter]
      cases haction : update.action with
      | ADD_NEXTHOP => exact absurd hkey.2.symm (hne haction)
      | REMOVE_NEXTHOP => rfl
    · exact hfib

theorem replaceOrPush_keys (update : FibUpdate) (updates : List FibUpdate) :
    (replaceOrPush update updates).map key =
      if key update ∈ updates.map key then updates.map key else updates.map key ++ [key update] := by
  induction updates with
  | nil => rfl
  | cons other updates ih =>
    rw [replaceOrPush]
    by_cases hsame : update.name = other.name ∧ update.faceId = other.faceId
    · have hkey : key update = key other := Prod.ext hsame.1 hsame.2
      rw [if_pos hsame, List.map_cons, List.map_cons, if_pos (by rw [hkey]; exact List.mem_cons_self)]
      rfl
    · have hkey : key update ≠ key other := fun heq => hsame ⟨congrArg Prod.fst heq, congrArg Prod.snd heq⟩
      have hiff : key update ∈ key other :: updates.map key ↔ key update ∈ updates.map key := by
        rw [List.mem_cons, or_iff_right hkey]
      rw [if_neg hsame, List.map_cons, ih, List.map_cons]
      by_cases hmem : key update ∈ updates.map key
      · rw [if_pos hmem, if_pos (hiff.mpr hmem)]
      · rw [if_neg hmem, if_neg (mt hiff.mp hmem)]
        rfl

theorem replaceOrPush_find (update : FibUpdate) (updates : List FibUpdate) (name : Name) (face : ℕ) :
    ((replaceOrPush update updates).find? (isFor name face)).map nextHopAfter =
      if name = update.name ∧ face = update.faceId then some (nextHopAfter update)
      else (updates.find? (isFor name face)).map nextHopAfter := by
  induction updates with
  | nil =>
    rw [replaceOrPush, List.find?_singleton]
    simp only [isFor_iff]
    split <;> rfl
  | cons other updates ih =>
    rw [replaceOrPush]
    by_cases hsame : update.name = other.name ∧ update.faceId = other.faceId
    · rw [if_pos hsame, List.find?_cons, List.find?_cons]
      by_cases hkey : isFor name face other = true
      · have hkey' : isFor name face { other with action := update.action, cost := update.cost } = true := hkey
        rw [hkey', hkey]
        rw [isFor_iff, ← hsame.1, ← hsame.2] at hkey
        rw [if_pos hkey]
        rfl
      · have hkey' : isFor name face { other with action := update.action, cost := update.cost } = false :=
          Bool.eq_false_iff.mpr hkey
        rw [hkey', Bool.eq_false_iff.mpr hkey]
        rw [isFor_iff, ← hsame.1, ← hsame.2] at hkey
        rw [if_neg hkey]
    · rw [if_neg hsame, List.find?_cons, List.find?_cons]
      by_cases hkey : isFor name face other = true
      · rw [hkey]
        rw [isFor_iff] at hkey
        rw [if_neg]
        rintro ⟨hname, hface⟩
        exact hsame ⟨hname.symm.trans hkey.1, hface.symm.trans hkey.2⟩
      · rw [Bool.eq_false_iff.mpr hkey]
        exact ih

end Commands

section Tables

/-- For each name and face the cost of the next hop, and whether the face is inherited. -/
abbrev Table := Name → ℕ → Option ℕ × Bool

def Table.nextHops (table : Table) : Name → ℕ → Option ℕ := fun name face => (table name face).1

def Table.set (table : Table) (name : Name) (face : ℕ) (x : Option ℕ × Bool) : Table :=
  fun n f => if n = name ∧ f = face then x else table n f

def Table.setNextHop (table : Table) (name : Name) (face : ℕ) (cost : Option ℕ) : Table :=
  table.set name face (cost, (table name face).2)

def recordAfter (update : RibUpdate) (inherits : Bool) : Bool :=
  match update.action with
  | .REGISTER => true
  | .UNREGISTER => false
  | .REMOVE_FACE => inherits

def inheritsAfter (inheritedRoutes : List RibUpdate) (inherits : Bool) (name : Name) (face : ℕ) : Bool :=
  inheritedRoutes.foldl (fun inherits update =>
    if name = update.name ∧ face = update.route.faceId then recordAfter update inherits else inherits) inherits

/-- What the updates do: the FIB commands do not depend on their order, and with
the inherited routes they turn the one table into the other. -/
structure Amounts (updates : Updates) (before after : Table) : Prop where
  batchFace : ∀ update ∈ updates.m_updatesForBatchFaceId, update.faceId = updates.m_batchFaceId
  otherFaces : ∀ update ∈ updates.m_updatesForNonBatchFaceId, update.faceId ≠ updates.m_batchFaceId
  batchKeys : (updates.m_updatesForBatchFaceId.map key).Nodup
  otherKeys : (updates.m_updatesForNonBatchFaceId.map key).Nodup
  nextHops : ∀ name face, (after name face).1 =
    (((if face = updates.m_batchFaceId then updates.m_updatesForBatchFaceId else updates.m_updatesForNonBatchFaceId).find?
      (isFor name face)).map nextHopAfter).getD (before name face).1
  inherits : ∀ name face, (after name face).2 =
    inheritsAfter updates.m_inheritedRoutes (before name face).2 name face

variable {updates : Updates} {before after after' : Table} {name : Name} {face : ℕ}

theorem Amounts.congr (h : Amounts updates before after) (heq : ∀ name face, after' name face = after name face) :
    Amounts updates before after' := by
  have hsame : after' = after := funext fun name => funext fun face => heq name face
  rw [hsame]
  exact h

theorem amounts_none (batchFaceId : ℕ) (table : Table) : Amounts ⟨batchFaceId, [], [], []⟩ table table := by
  refine ⟨?_, ?_, List.nodup_nil, List.nodup_nil, ?_, fun _ _ => rfl⟩
  · exact fun _ hmem => absurd hmem List.not_mem_nil
  · exact fun _ hmem => absurd hmem List.not_mem_nil
  · intro name face
    rw [ite_self]
    rfl

theorem mem_replaceOrPush {update other : FibUpdate} {updates : List FibUpdate}
    (h : other ∈ replaceOrPush update updates) :
    other.faceId = update.faceId ∨ ∃ old ∈ updates, other.faceId = old.faceId := by
  have hmem : key other ∈ (replaceOrPush update updates).map key := List.mem_map_of_mem h
  rw [replaceOrPush_keys] at hmem
  have hold : key other ∈ updates.map key → ∃ old ∈ updates, other.faceId = old.faceId := by
    intro hold
    obtain ⟨old, hmem, heq⟩ := List.mem_map.mp hold
    exact ⟨old, hmem, (congrArg Prod.snd heq).symm⟩
  split at hmem
  · exact Or.inr (hold hmem)
  · rcases List.mem_append.mp hmem with hmem | hmem
    · exact Or.inr (hold hmem)
    · exact Or.inl (congrArg Prod.snd (List.mem_singleton.mp hmem))

theorem nodup_replaceOrPush {updates : List FibUpdate} (h : (updates.map key).Nodup) (update : FibUpdate) :
    ((replaceOrPush update updates).map key).Nodup := by
  rw [replaceOrPush_keys]
  split
  · exact h
  · rename_i hnew
    refine List.nodup_append.mpr ⟨h, List.nodup_singleton _, ?_⟩
    rintro a ha b hb rfl
    rw [List.mem_singleton.mp hb] at ha
    exact hnew ha

theorem Amounts.addFibUpdate (h : Amounts updates before after) (update : FibUpdate) :
    Amounts (updates.addFibUpdate update) before (after.setNextHop update.name update.faceId (nextHopAfter update)) := by
  have hset : ∀ name face, (after.setNextHop update.name update.faceId (nextHopAfter update) name face).2 =
      (after name face).2 := by
    intro name face
    unfold Table.setNextHop Table.set
    split
    · rename_i hkey
      rw [hkey.1, hkey.2]
    · rfl
  have hnext : ∀ name face, (after.setNextHop update.name update.faceId (nextHopAfter update) name face).1 =
      if name = update.name ∧ face = update.faceId then nextHopAfter update else (after name face).1 := by
    intro name face
    unfold Table.setNextHop Table.set
    split <;> rfl
  unfold Updates.addFibUpdate
  by_cases hbatch : update.faceId = updates.m_batchFaceId
  · rw [if_pos hbatch]
    refine ⟨?_, h.otherFaces, nodup_replaceOrPush h.batchKeys update, h.otherKeys, ?_, ?_⟩
    · intro other hother
      rcases mem_replaceOrPush hother with heq | ⟨old, hold, heq⟩
      · exact heq.trans hbatch
      · exact heq.trans (h.batchFace old hold)
    · intro name face
      rw [hnext]
      by_cases hface : face = updates.m_batchFaceId
      · simp only [if_pos hface, replaceOrPush_find]
        split
        · rfl
        · rw [h.nextHops, if_pos hface]
      · simp only [if_neg hface]
        rw [if_neg, h.nextHops, if_neg hface]
        rintro ⟨-, hkey⟩
        exact hface (hkey.trans hbatch)
    · intro name face
      rw [hset]
      exact h.inherits name face
  · rw [if_neg hbatch]
    refine ⟨h.batchFace, ?_, h.batchKeys, nodup_replaceOrPush h.otherKeys update, ?_, ?_⟩
    · intro other hother
      rcases mem_replaceOrPush hother with heq | ⟨old, hold, heq⟩
      · rw [heq]
        exact hbatch
      · rw [heq]
        exact h.otherFaces old hold
    · intro name face
      rw [hnext]
      by_cases hface : face = updates.m_batchFaceId
      · simp only [if_pos hface]
        rw [if_neg, h.nextHops, if_pos hface]
        rintro ⟨-, hkey⟩
        exact hbatch (hkey.symm.trans hface)
      · simp only [if_neg hface, replaceOrPush_find]
        split
        · rfl
        · rw [h.nextHops, if_neg hface]
    · intro name face
      rw [hset]
      exact h.inherits name face

/-- The commands leave the next hops that the updates amount to. -/
theorem Amounts.applied (h : Amounts updates before after) {fib : Name → ℕ → Option ℕ}
    (hfib : (before name face).1 = fib name face) :
    applyFibUpdates updates.m_updatesForNonBatchFaceId (applyFibUpdates updates.m_updatesForBatchFaceId fib) name face =
      (after name face).1 := by
  rw [h.nextHops, hfib]
  by_cases hface : face = updates.m_batchFaceId
  · rw [if_pos hface, applyFibUpdates_of_absent, applyFibUpdates_eq h.batchKeys]
    · cases updates.m_updatesForBatchFaceId.find? (isFor name face) <;> rfl
    · rintro update hupdate ⟨-, hkey⟩
      exact h.otherFaces update hupdate (hkey.symm.trans hface)
  · rw [if_neg hface, applyFibUpdates_eq h.otherKeys, applyFibUpdates_of_absent]
    · cases updates.m_updatesForNonBatchFaceId.find? (isFor name face) <;> rfl
    · rintro update hupdate ⟨-, hkey⟩
      exact hface (hkey.trans (h.batchFace update hupdate))

theorem Amounts.applied_other (h : Amounts updates before after) {fib : Name → ℕ → Option ℕ}
    (hfib : (before name face).1 = fib name face) (hface : face ≠ updates.m_batchFaceId) :
    applyFibUpdates updates.m_updatesForNonBatchFaceId fib name face = (after name face).1 := by
  rw [h.nextHops, hfib, if_neg hface, applyFibUpdates_eq h.otherKeys]
  cases updates.m_updatesForNonBatchFaceId.find? (isFor name face) <;> rfl

theorem inheritsAfter_append (inheritedRoutes : List RibUpdate) (update : RibUpdate) (inherits : Bool) (name : Name)
    (face : ℕ) : inheritsAfter (inheritedRoutes ++ [update]) inherits name face =
      if name = update.name ∧ face = update.route.faceId then
        recordAfter update (inheritsAfter inheritedRoutes inherits name face)
      else inheritsAfter inheritedRoutes inherits name face := by
  rw [inheritsAfter, List.foldl_append]
  rfl

theorem Amounts.changeInherited (h : Amounts updates before after) (update : RibUpdate) (fibUpdate : FibUpdate)
    (hname : fibUpdate.name = update.name) (hface : fibUpdate.faceId = update.route.faceId) :
    Amounts (Updates.addFibUpdate { updates with m_inheritedRoutes := updates.m_inheritedRoutes ++ [update] } fibUpdate)
      before (after.set update.name update.route.faceId
        (nextHopAfter fibUpdate, recordAfter update (after update.name update.route.faceId).2)) := by
  have hinherited : Amounts { updates with m_inheritedRoutes := updates.m_inheritedRoutes ++ [update] } before
      (after.set update.name update.route.faceId
        ((after update.name update.route.faceId).1, recordAfter update (after update.name update.route.faceId).2)) := by
    refine ⟨h.batchFace, h.otherFaces, h.batchKeys, h.otherKeys, ?_, ?_⟩
    · intro name face
      refine Eq.trans ?_ (h.nextHops name face)
      unfold Table.set
      split
      · rename_i hkey
        rw [hkey.1, hkey.2]
      · rfl
    · intro name face
      rw [inheritsAfter_append, ← h.inherits]
      unfold Table.set
      split
      · rename_i hkey
        rw [hkey.1, hkey.2]
      · rfl
  refine (hinherited.addFibUpdate fibUpdate).congr ?_
  intro name face
  rw [hname, hface]
  unfold Table.setNextHop Table.set
  split
  · rw [if_pos ⟨rfl, rfl⟩]
  · rfl

theorem Amounts.inherit (h : Amounts updates before after) (name : Name) (route : Route) :
    Amounts (updates.inherit name route) before (after.set name route.faceId (some route.cost, true)) :=
  h.changeInherited ⟨.REGISTER, name, route⟩ (.createAddUpdate name route.faceId route.cost) rfl rfl

theorem Amounts.disinherit (h : Amounts updates before after) (name : Name) (route : Route) :
    Amounts (updates.disinherit name route) before (after.set name route.faceId (none, false)) :=
  h.changeInherited ⟨.UNREGISTER, name, route⟩ (.createRemoveUpdate name route.faceId) rfl rfl

end Tables

section Inheriting

variable {updates : Updates} {before after : Table}

def costOn (routes : List Route) (face : ℕ) :
    Option ℕ := (routes.find? (fun route => route.faceId = face)).map Route.cost

def onFace (routes : List Route) (face : ℕ) : Bool := routes.any (fun route => route.faceId = face)

def inheritsFace (entry : RibEntry) (face : ℕ) : Bool := onFace entry.m_inheritedRoutes face

theorem costOn_cons (route : Route) (routes : List Route) (face : ℕ) :
    costOn (route :: routes) face = if route.faceId = face then some route.cost else costOn routes face := by
  rw [costOn, List.find?_cons]
  by_cases h : route.faceId = face
  · rw [if_pos h, decide_eq_true h]
    rfl
  · rw [if_neg h, decide_eq_false h]
    rfl

theorem onFace_cons (route : Route) (routes : List Route) (face : ℕ) :
    onFace (route :: routes) face = (decide (route.faceId = face) || onFace routes face) := List.any_cons

theorem onFace_iff {routes : List Route} {face : ℕ} :
    onFace routes face = true ↔ ∃ route ∈ routes, route.faceId = face := by
  rw [onFace, List.any_eq_true]
  simp only [decide_eq_true_eq]

theorem costOn_eq_none {routes : List Route} {face : ℕ} : costOn routes face = none ↔ onFace routes face = false := by
  rw [costOn, Option.map_eq_none_iff, List.find?_eq_none, onFace, List.any_eq_false]

theorem costOn_isSome (routes : List Route) (face : ℕ) : (costOn routes face).isSome = onFace routes face := by
  cases hcost : costOn routes face with
  | none => exact (costOn_eq_none.mp hcost).symm
  | some cost =>
    rw [Option.isSome_some, eq_comm, ← Bool.not_eq_false, ← costOn_eq_none, hcost]
    exact Option.some_ne_none cost

theorem Amounts.inheritAll (h : Amounts updates before after) (skip : ℕ → Prop) [DecidablePred skip] (name : Name)
    (routes : List Route) (hnodup : (routes.map Route.faceId).Nodup) :
    Amounts (routes.foldl (fun updates route => if skip route.faceId then updates else updates.inherit name route) updates)
      before (fun n f => if n = name ∧ ¬ skip f then ((costOn routes f).map (fun cost => (some cost, true))).getD (after n f)
        else after n f) := by
  induction routes generalizing updates after with
  | nil => exact h.congr fun n f => by rw [show costOn [] f = none from rfl, Option.map_none, Option.getD_none, ite_self]
  | cons route routes ih =>
    rw [List.map_cons, List.nodup_cons] at hnodup
    have hnone : costOn routes route.faceId = none := by
      rw [costOn_eq_none, Bool.eq_false_iff, Ne, onFace_iff]
      rintro ⟨other, hother, hface⟩
      exact hnodup.1 (hface ▸ List.mem_map_of_mem hother)
    rw [List.foldl_cons]
    by_cases hskip : skip route.faceId
    · rw [if_pos hskip]
      refine (ih h hnodup.2).congr ?_
      intro n f
      by_cases hn : n = name ∧ ¬ skip f
      · rw [if_pos hn, if_pos hn, costOn_cons, if_neg]
        rintro rfl
        exact hn.2 hskip
      · rw [if_neg hn, if_neg hn]
    · rw [if_neg hskip]
      refine (ih (h.inherit name route) hnodup.2).congr ?_
      intro n f
      by_cases hn : n = name ∧ ¬ skip f
      · rw [if_pos hn, if_pos hn, costOn_cons]
        by_cases hface : route.faceId = f
        · subst hface
          rw [if_pos rfl, hnone]
          exact (if_pos ⟨hn.1, rfl⟩).symm
        · rw [if_neg hface, Table.set, if_neg]
          exact fun hkey => hface hkey.2.symm
      · rw [if_neg hn, if_neg hn, Table.set, if_neg]
        rintro ⟨hname, rfl⟩
        exact hn ⟨hname, hskip⟩

theorem Amounts.removeInheritedRoutes (h : Amounts updates before after) (entry : RibEntry) (routes : List Route) :
    Amounts (updates.removeInheritedRoutes entry routes) before
      (fun n f => if n = entry.m_name ∧ onFace routes f = true ∧ inheritsFace entry f = true then (none, false)
        else after n f) := by
  unfold Updates.removeInheritedRoutes
  induction routes generalizing updates after with
  | nil =>
    refine h.congr fun n f => if_neg ?_
    rintro ⟨-, hface, -⟩
    cases hface
  | cons route routes ih =>
    rw [List.foldl_cons]
    by_cases hinherited : entry.hasInheritedRoute route = true
    · rw [if_pos hinherited]
      refine (ih (h.disinherit entry.m_name route)).congr ?_
      intro n f
      rw [onFace_cons]
      by_cases hrest : n = entry.m_name ∧ onFace routes f = true ∧ inheritsFace entry f = true
      · rw [if_pos hrest, if_pos ⟨hrest.1, by rw [hrest.2.1, Bool.or_true], hrest.2.2⟩]
      · rw [if_neg hrest, Table.set]
        by_cases hfirst : n = entry.m_name ∧ f = route.faceId
        · rw [if_pos hfirst, if_pos ⟨hfirst.1, by rw [hfirst.2]; simp, by rw [hfirst.2]; exact hinherited⟩]
        · rw [if_neg hfirst, if_neg]
          rintro ⟨hname, hface, hinh⟩
          rw [Bool.or_eq_true, decide_eq_true_eq] at hface
          rcases hface with hface | hface
          · exact hfirst ⟨hname, hface.symm⟩
          · exact hrest ⟨hname, hface, hinh⟩
    · rw [if_neg hinherited]
      refine (ih h).congr ?_
      intro n f
      rw [onFace_cons]
      by_cases hface : route.faceId = f
      · have hnot : ¬ inheritsFace entry f = true := by
          rw [← hface]
          exact hinherited
        rw [if_neg fun hall => hnot hall.2.2, if_neg fun hall => hnot hall.2.2]
      · rw [decide_eq_false hface, Bool.false_or]

end Inheriting

end LeoNdn.FibChanges
