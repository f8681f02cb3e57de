import LeoNdn.Forwarder
import Mathlib.Data.List.Sort

/-!
The next hops of a FIB entry: they are kept sorted by cost, and a next hop that
is new is announced.
-/

namespace LeoNdn.Fib

open LeoNdn.NdnPacket LeoNdn.Forwarder

structure NextHop where
  m_face : Face
  m_endpointId : ℕ
  m_cost : ℕ
  deriving DecidableEq, Repr

structure Entry where
  getPrefix : Name
  m_nextHops : List NextHop
  deriving DecidableEq, Repr

inductive RemoveNextHopResult
  | noSuchNexthop
  | nexthopRemoved
  | fibEntryRemoved
  deriving DecidableEq, Repr

/-- What `std::sort` promises with the comparison of `sortNextHops`: next hops
of one cost may come in any order. -/
structure SortNextHops where
  sort : List NextHop → List NextHop
  perm : ∀ nextHops, (sort nextHops).Perm nextHops
  sorted : ∀ nextHops, (sort nextHops).Pairwise (fun a b => a.m_cost ≤ b.m_cost)

def NextHop.isOf (face : Face) (endpointId : ℕ) (nextHop : NextHop) : Bool :=
  nextHop.m_face = face && nextHop.m_endpointId = endpointId

def NextHop.setCost (cost : ℕ) (nextHop : NextHop) : NextHop := { nextHop with m_cost := cost }

/-- The position of the next hop, which is the end if there is none. -/
def Entry.findNextHop (entry : Entry) (face : Face) (endpointId : ℕ) : ℕ :=
  entry.m_nextHops.findIdx (NextHop.isOf face endpointId)

/-- The entry, with the position that the iterator points to and `isNew`. -/
def Entry.addOrUpdateNextHop (sortNextHops : SortNextHops) (entry : Entry) (face : Face) (endpointId cost : ℕ) :
    Entry × ℕ × Bool :=
  let it := entry.findNextHop face endpointId
  let isNew : Bool := it = entry.m_nextHops.length
  let nextHops := if isNew then entry.m_nextHops ++ [⟨face, endpointId, 0⟩] else entry.m_nextHops
  ({ entry with m_nextHops := sortNextHops.sort (nextHops.modify it (NextHop.setCost cost)) }, it, isNew)

def Entry.removeNextHop (entry : Entry) (face : Face) (endpointId : ℕ) : Entry × Bool :=
  let it := entry.findNextHop face endpointId
  if it = entry.m_nextHops.length then (entry, false)
  else ({ entry with m_nextHops := entry.m_nextHops.eraseIdx it }, true)

def Entry.removeNextHopByFace (entry : Entry) (face : Face) : Entry :=
  { entry with m_nextHops := entry.m_nextHops.filter (fun nextHop => nextHop.m_face ≠ face) }

/-- The entry, and what `afterNewNextHop` is emitted with. -/
def addOrUpdateNextHop (sortNextHops : SortNextHops) (entry : Entry) (face : Face) (endpointId cost : ℕ) :
    Entry × Option (Name × NextHop) :=
  let (entry, it, isNew) := entry.addOrUpdateNextHop sortNextHops face endpointId cost
  (entry, if isNew then entry.m_nextHops[it]?.map (fun nextHop => (entry.getPrefix, nextHop)) else none)

/-- An entry that is removed from the FIB is one without next hops. -/
def removeNextHop (entry : Entry) (face : Face) (endpointId : ℕ) : Entry × RemoveNextHopResult :=
  let (entry, isRemoved) := entry.removeNextHop face endpointId
  (entry, if ¬ isRemoved then .noSuchNexthop else if entry.m_nextHops = [] then .fibEntryRemoved else .nexthopRemoved)

inductive Call
  | addOrUpdateNextHop (face : Face) (endpointId cost : ℕ)
  | removeNextHop (face : Face) (endpointId : ℕ)
  | removeNextHopByFace (face : Face)
  deriving DecidableEq, Repr

variable (sortNextHops : SortNextHops)

def call (entry : Entry) : Call → Entry × Option (Name × NextHop)
  | .addOrUpdateNextHop face endpointId cost => addOrUpdateNextHop sortNextHops entry face endpointId cost
  | .removeNextHop face endpointId => ((removeNextHop entry face endpointId).1, none)
  | .removeNextHopByFace face => (entry.removeNextHopByFace face, none)

def run (entry : Entry) (calls : List Call) : Entry := calls.foldl (fun entry c => (call sortNextHops entry c).1) entry

def emitted : Entry → List Call → List (Option (Name × NextHop))
  | _, [] => []
  | entry, c :: calls => (call sortNextHops entry c).2 :: emitted (call sortNextHops entry c).1 calls

section Costs

/-- What a FIB entry is for: the cost of each next hop that it has. -/
abbrev Costs := Face → ℕ → Option ℕ

def Call.costs (costs : Costs) : Call → Costs
  | .addOrUpdateNextHop face endpointId cost =>
    fun face' endpointId' => if face' = face ∧ endpointId' = endpointId then some cost else costs face' endpointId'
  | .removeNextHop face endpointId =>
    fun face' endpointId' => if face' = face ∧ endpointId' = endpointId then none else costs face' endpointId'
  | .removeNextHopByFace face => fun face' endpointId' => if face' = face then none else costs face' endpointId'

def Call.inserted (costs : Costs) : Call → Option NextHop
  | .addOrUpdateNextHop face endpointId cost =>
    if costs face endpointId = none then some ⟨face, endpointId, cost⟩ else none
  | _ => none

def inserted : Costs → List Call → List (Option NextHop)
  | _, [] => []
  | costs, c :: calls => c.inserted costs :: inserted (c.costs costs) calls

/-- The condition holds of each next hop that is inserted and the costs before. -/
def EachInserted (condition : Costs → NextHop → Prop) : Costs → List Call → Prop
  | _, [] => True
  | costs, c :: calls =>
    (∀ nextHop, c.inserted costs = some nextHop → condition costs nextHop) ∧ EachInserted condition (c.costs costs) calls

def CostsMost (costs : Costs) (nextHop : NextHop) : Prop :=
  ∀ face endpointId cost, costs face endpointId = some cost → cost < nextHop.m_cost

def CostsAtLeast (costs : Costs) (nextHop : NextHop) : Prop :=
  ∀ face endpointId cost, costs face endpointId = some cost → cost ≤ nextHop.m_cost

end Costs

def NextHop.key (nextHop : NextHop) : Face × ℕ := (nextHop.m_face, nextHop.m_endpointId)

/-- Sorted by cost, with at most one next hop for a face and an endpoint. -/
structure WellFormed (entry : Entry) : Prop where
  sorted : entry.m_nextHops.Pairwise (fun a b => a.m_cost ≤ b.m_cost)
  nodup : (entry.m_nextHops.map NextHop.key).Nodup

def Entry.Has (entry : Entry) (costs : Costs) : Prop :=
  ∀ nextHop, nextHop ∈ entry.m_nextHops ↔ costs nextHop.m_face nextHop.m_endpointId = some nextHop.m_cost

section NextHops

theorem modify_middle {α : Type} (f : α → α) (before : List α) (a : α) (after : List α) :
    (before ++ a :: after).modify before.length f = before ++ f a :: after := by
  induction before with
  | nil => rfl
  | cons b before ih =>
    rw [List.cons_append, List.length_cons, List.modify_succ_cons, ih, List.cons_append]

variable {sortNextHops : SortNextHops} {entry : Entry} {costs : Costs} {face : Face} {endpointId cost : ℕ}

theorem isOf_iff {nextHop : NextHop} : nextHop.isOf face endpointId = true ↔ nextHop.key = (face, endpointId) := by
  simp [NextHop.isOf, NextHop.key]

theorem findNextHop_eq_length :
    entry.findNextHop face endpointId = entry.m_nextHops.length ↔
      ∀ nextHop ∈ entry.m_nextHops, nextHop.key ≠ (face, endpointId) := by
  rw [Entry.findNextHop, List.findIdx_eq_length]
  exact forall₂_congr fun nextHop _ => by rw [← Bool.not_eq_true, isOf_iff]

theorem findNextHop_split (h : entry.findNextHop face endpointId ≠ entry.m_nextHops.length) :
    ∃ before nextHop after, entry.m_nextHops = before ++ nextHop :: after ∧
      entry.findNextHop face endpointId = before.length ∧ nextHop.key = (face, endpointId) := by
  have hlt : entry.findNextHop face endpointId < entry.m_nextHops.length :=
    lt_of_le_of_ne List.findIdx_le_length h
  have hkey : (entry.m_nextHops[entry.findNextHop face endpointId]).key = (face, endpointId) :=
    isOf_iff.mp (List.findIdx_getElem (w := hlt))
  refine ⟨entry.m_nextHops.take (entry.findNextHop face endpointId), entry.m_nextHops[entry.findNextHop face endpointId],
    entry.m_nextHops.drop (entry.findNextHop face endpointId + 1), ?_, ?_, hkey⟩
  · rw [← List.drop_eq_getElem_cons hlt, List.take_append_drop]
  · rw [List.length_take, Nat.min_eq_left hlt.le]

def Entry.others (entry : Entry) (face : Face) (endpointId : ℕ) : List NextHop :=
  entry.m_nextHops.filter (fun nextHop => nextHop.key ≠ (face, endpointId))

theorem others_split {before after : List NextHop} {nextHop : NextHop}
    (hsplit : entry.m_nextHops = before ++ nextHop :: after) (hkey : nextHop.key = (face, endpointId))
    (hwf : WellFormed entry) : entry.others face endpointId = before ++ after := by
  have hnodup := hwf.nodup
  rw [hsplit, List.map_append, List.map_cons, List.nodup_middle, List.nodup_cons, List.mem_append] at hnodup
  obtain ⟨hnot, -⟩ := hnodup
  have hbefore : before.filter (fun nextHop => nextHop.key ≠ (face, endpointId)) = before := by
    refine List.filter_eq_self.mpr fun other hother => decide_eq_true fun h => hnot (Or.inl ?_)
    rw [hkey, ← h]
    exact List.mem_map_of_mem hother
  have hafter : after.filter (fun nextHop => nextHop.key ≠ (face, endpointId)) = after := by
    refine List.filter_eq_self.mpr fun other hother => decide_eq_true fun h => hnot (Or.inr ?_)
    rw [hkey, ← h]
    exact List.mem_map_of_mem hother
  rw [Entry.others, hsplit, List.filter_append, List.filter_cons, hbefore, hafter]
  simp [hkey]

theorem others_eq_self (h : entry.findNextHop face endpointId = entry.m_nextHops.length) :
    entry.others face endpointId = entry.m_nextHops :=
  List.filter_eq_self.mpr fun nextHop hmem => decide_eq_true (findNextHop_eq_length.mp h nextHop hmem)

theorem addOrUpdateNextHop_perm (hwf : WellFormed entry) :
    (addOrUpdateNextHop sortNextHops entry face endpointId cost).1.m_nextHops.Perm
      (⟨face, endpointId, cost⟩ :: entry.others face endpointId) := by
  refine (sortNextHops.perm _).trans ?_
  by_cases hnew : entry.findNextHop face endpointId = entry.m_nextHops.length
  · rw [others_eq_self hnew]
    simp only [hnew, decide_true, if_true]
    rw [modify_middle]
    exact List.perm_append_singleton _ _
  · obtain ⟨before, nextHop, after, hsplit, hlength, hkey⟩ := findNextHop_split hnew
    rw [others_split hsplit hkey hwf]
    have hset : nextHop.setCost cost = ⟨face, endpointId, cost⟩ := by
      simp only [NextHop.key, Prod.mk.injEq] at hkey
      simp only [NextHop.setCost, hkey]
    simp only [hnew, decide_false, Bool.false_eq_true, if_false]
    rw [hlength, hsplit, modify_middle, hset]
    exact List.perm_middle

theorem removeNextHop_eq (hwf : WellFormed entry) :
    (removeNextHop entry face endpointId).1.m_nextHops = entry.others face endpointId := by
  unfold removeNextHop Entry.removeNextHop
  by_cases hnew : entry.findNextHop face endpointId = entry.m_nextHops.length
  · simp only [hnew, if_true]
    exact (others_eq_self hnew).symm
  · obtain ⟨before, nextHop, after, hsplit, hlength, hkey⟩ := findNextHop_split hnew
    simp only [hnew, if_false]
    rw [others_split hsplit hkey hwf, hlength, hsplit, List.eraseIdx_append_of_length_le le_rfl]
    simp

theorem key_ne_iff {nextHop : NextHop} :
    nextHop.key ≠ (face, endpointId) ↔ ¬ (nextHop.m_face = face ∧ nextHop.m_endpointId = endpointId) := by
  rw [NextHop.key, ne_eq, Prod.mk.injEq]

theorem mem_others (hhas : entry.Has costs) (nextHop : NextHop) :
    nextHop ∈ entry.others face endpointId ↔ ¬ (nextHop.m_face = face ∧ nextHop.m_endpointId = endpointId) ∧
      costs nextHop.m_face nextHop.m_endpointId = some nextHop.m_cost := by
  rw [Entry.others, List.mem_filter, decide_eq_true_iff, hhas, key_ne_iff, and_comm]

theorem nodup_others (hwf : WellFormed entry) : ((entry.others face endpointId).map NextHop.key).Nodup :=
  hwf.nodup.sublist (List.filter_sublist.map _)

theorem notMem_others : (face, endpointId) ∉ (entry.others face endpointId).map NextHop.key := by
  intro h
  obtain ⟨nextHop, hmem, hkey⟩ := List.mem_map.mp h
  exact of_decide_eq_true (List.mem_filter.mp hmem).2 hkey

theorem wellFormed_call (sortNextHops : SortNextHops) (hwf : WellFormed entry) (c : Call) :
    WellFormed (call sortNextHops entry c).1 := by
  cases c with
  | addOrUpdateNextHop face endpointId cost =>
    refine ⟨sortNextHops.sorted _, ?_⟩
    refine ((addOrUpdateNextHop_perm hwf).map NextHop.key).nodup_iff.mpr ?_
    exact List.nodup_cons.mpr ⟨notMem_others, nodup_others hwf⟩
  | removeNextHop face endpointId =>
    have heq : (removeNextHop entry face endpointId).1.m_nextHops = entry.others face endpointId :=
      removeNextHop_eq hwf
    refine ⟨?_, ?_⟩
    · rw [call, heq]
      exact hwf.sorted.filter _
    · rw [call, heq]
      exact nodup_others hwf
  | removeNextHopByFace face =>
    exact ⟨hwf.sorted.filter _, hwf.nodup.sublist (List.filter_sublist.map _)⟩

theorem has_call (sortNextHops : SortNextHops) (hwf : WellFormed entry) (hhas : entry.Has costs) (c : Call) :
    (call sortNextHops entry c).1.Has (c.costs costs) := by
  intro nextHop
  cases c with
  | addOrUpdateNextHop face endpointId cost =>
    have hmem : nextHop ∈ (call sortNextHops entry (.addOrUpdateNextHop face endpointId cost)).1.m_nextHops ↔
        nextHop = ⟨face, endpointId, cost⟩ ∨ nextHop ∈ entry.others face endpointId :=
      (addOrUpdateNextHop_perm hwf).mem_iff.trans List.mem_cons
    rw [hmem, mem_others hhas, Call.costs]
    obtain ⟨face', endpointId', cost'⟩ := nextHop
    simp only [NextHop.mk.injEq]
    split
    · rename_i h
      simp only [h, true_and, not_true_eq_false, and_self, false_and, or_false, Option.some.injEq]
      exact eq_comm
    · rename_i h
      simp only [h, not_false_eq_true, true_and, ← and_assoc, false_and, false_or]
  | removeNextHop face endpointId =>
    rw [call, removeNextHop_eq hwf, mem_others hhas, Call.costs]
    dsimp only
    split
    · rename_i h
      simp [h]
    · rename_i h
      simp [h]
  | removeNextHopByFace face =>
    have hmem : nextHop ∈ (entry.removeNextHopByFace face).m_nextHops ↔
        nextHop ∈ entry.m_nextHops ∧ nextHop.m_face ≠ face := by
      rw [Entry.removeNextHopByFace, List.mem_filter, decide_eq_true_iff]
    rw [call, hmem, hhas, Call.costs]
    dsimp only
    split
    · rename_i h
      simp [h]
    · rename_i h
      simp [h]

theorem wellFormed_run (hwf : WellFormed entry) (calls : List Call) : WellFormed (run sortNextHops entry calls) := by
  induction calls generalizing entry with
  | nil => exact hwf
  | cons c calls ih => exact ih (wellFormed_call sortNextHops hwf c)

theorem has_run (hwf : WellFormed entry) (hhas : entry.Has costs) (calls : List Call) :
    (run sortNextHops entry calls).Has (calls.foldl (fun costs c => c.costs costs) costs) := by
  induction calls generalizing entry costs with
  | nil => exact hhas
  | cons c calls ih => exact ih (wellFormed_call sortNextHops hwf c) (has_call sortNextHops hwf hhas c)

end NextHops

section Emitted

variable {sortNextHops : SortNextHops} {entry : Entry} {costs : Costs}

theorem isNew_iff (hhas : entry.Has costs) (face : Face) (endpointId : ℕ) :
    entry.findNextHop face endpointId = entry.m_nextHops.length ↔ costs face endpointId = none := by
  rw [findNextHop_eq_length, Option.eq_none_iff_forall_ne_some]
  constructor
  · intro h cost hcost
    exact h ⟨face, endpointId, cost⟩ ((hhas ⟨face, endpointId, cost⟩).mpr hcost) rfl
  · intro h nextHop hmem hkey
    simp only [NextHop.key, Prod.mk.injEq] at hkey
    refine h nextHop.m_cost ?_
    rw [← hkey.1, ← hkey.2]
    exact (hhas nextHop).mp hmem

theorem inserted_some {c : Call} {nextHop : NextHop} (h : c.inserted costs = some nextHop) :
    c = .addOrUpdateNextHop nextHop.m_face nextHop.m_endpointId nextHop.m_cost ∧
      costs nextHop.m_face nextHop.m_endpointId = none := by
  cases c with
  | addOrUpdateNextHop face endpointId cost =>
    simp only [Call.inserted] at h
    split at h
    · rename_i hnone
      obtain rfl := Option.some.inj h
      exact ⟨rfl, hnone⟩
    · cases h
  | removeNextHop face endpointId => cases h
  | removeNextHopByFace face => cases h

theorem emitted_inserted (hhas : entry.Has costs) {c : Call} {nextHop : NextHop}
    (h : c.inserted costs = some nextHop) :
    (call sortNextHops entry c).2 = (call sortNextHops entry c).1.m_nextHops.getLast?.map (fun last => (entry.getPrefix, last)) := by
  obtain ⟨rfl, hnone⟩ := inserted_some h
  have hnew := (isNew_iff hhas _ _).mpr hnone
  simp only [call, addOrUpdateNextHop, Entry.addOrUpdateNextHop, hnew, decide_true, if_true]
  rw [List.getLast?_eq_getElem?, (sortNextHops.perm _).length_eq, List.length_modify, List.length_append]
  rfl

theorem emitted_other (hhas : entry.Has costs) {c : Call} (h : c.inserted costs = none) :
    (call sortNextHops entry c).2 = none := by
  cases c with
  | addOrUpdateNextHop face endpointId cost =>
    have hnew : ¬ entry.findNextHop face endpointId = entry.m_nextHops.length := by
      intro hnew
      rw [isNew_iff hhas] at hnew
      simp [Call.inserted, hnew] at h
    simp [call, addOrUpdateNextHop, Entry.addOrUpdateNextHop, hnew]
  | removeNextHop face endpointId => rfl
  | removeNextHopByFace face => rfl

end Emitted

section Last

variable {nextHops : List NextHop} {nextHop last : NextHop}

theorem cost_le_last (hsorted : nextHops.Pairwise (fun a b => a.m_cost ≤ b.m_cost))
    (hlast : nextHops.getLast? = some last) (hmem : nextHop ∈ nextHops) : nextHop.m_cost ≤ last.m_cost := by
  obtain ⟨before, rfl⟩ := List.getLast?_eq_some_iff.mp hlast
  rcases List.mem_append.mp hmem with hmem | hmem
  · exact (List.pairwise_append.mp hsorted).2.2 nextHop hmem last (List.mem_singleton_self last)
  · rw [List.mem_singleton.mp hmem]

theorem last_of_unbeaten (hmem : nextHop ∈ nextHops)
    (hunbeaten : ∀ last, nextHops.getLast? = some last → last ≠ nextHop → False) : nextHops.getLast? = some nextHop := by
  obtain ⟨last, hlast⟩ : ∃ last, nextHops.getLast? = some last :=
    ⟨_, List.getLast?_eq_some_getLast (List.ne_nil_of_mem hmem)⟩
  rw [hlast, Option.some.injEq]
  by_contra hne
  exact hunbeaten last hlast hne

theorem last_of_costsMost (hsorted : nextHops.Pairwise (fun a b => a.m_cost ≤ b.m_cost)) (hmem : nextHop ∈ nextHops)
    (hmost : ∀ other ∈ nextHops, other ≠ nextHop → other.m_cost < nextHop.m_cost) :
    nextHops.getLast? = some nextHop := by
  refine last_of_unbeaten hmem fun last hlast hne => ?_
  have hlt := hmost last (List.mem_of_getLast? hlast) hne
  have hle := cost_le_last hsorted hlast hmem
  omega

theorem not_sublist_of_last (hnodup : nextHops.Nodup) (hlast : nextHops.getLast? = some last) :
    ¬ [last, nextHop].Sublist nextHops := by
  intro hsub
  obtain ⟨before, after, rfl, hbefore, hafter⟩ := List.cons_sublist_iff.mp hsub
  have hne : after ≠ [] := List.ne_nil_of_mem (List.singleton_sublist.mp hafter)
  rw [List.getLast?_append_of_ne_nil _ hne] at hlast
  exact (List.nodup_append.mp hnodup).2.2 last hbefore last (List.mem_of_getLast? hlast) rfl

theorem last_of_sublists (hnodup : nextHops.Nodup) (hmem : nextHop ∈ nextHops)
    (hsub : ∀ other ∈ nextHops, other ≠ nextHop → [other, nextHop].Sublist nextHops) :
    nextHops.getLast? = some nextHop := by
  refine last_of_unbeaten hmem fun last hlast hne => ?_
  exact not_sublist_of_last hnodup hlast (hsub last (List.mem_of_getLast? hlast) hne)

end Last

section Sorts

def isCheaper (nextHop other : NextHop) : Bool := nextHop.m_cost ≤ other.m_cost

theorem isCheaper_trans (a b c : NextHop) (hab : isCheaper a b) (hbc : isCheaper b c) : isCheaper a c :=
  decide_eq_true ((of_decide_eq_true hab).trans (of_decide_eq_true hbc))

theorem isCheaper_total (a b : NextHop) : isCheaper a b || isCheaper b a := by
  simp only [isCheaper, Bool.or_eq_true, decide_eq_true_eq]
  exact Nat.le_total _ _

theorem pairwise_mergeSort (nextHops : List NextHop) :
    (nextHops.mergeSort isCheaper).Pairwise (fun a b => a.m_cost ≤ b.m_cost) :=
  (List.pairwise_mergeSort isCheaper_trans isCheaper_total nextHops).imp of_decide_eq_true

def stableSort : SortNextHops where
  sort nextHops := nextHops.mergeSort isCheaper
  perm nextHops := List.mergeSort_perm nextHops isCheaper
  sorted := pairwise_mergeSort

def reversingSort : SortNextHops where
  sort nextHops := nextHops.reverse.mergeSort isCheaper
  perm nextHops := (List.mergeSort_perm _ isCheaper).trans nextHops.reverse_perm
  sorted nextHops := pairwise_mergeSort nextHops.reverse

end Sorts

section Notifies

variable {sortNextHops : SortNextHops} {entry : Entry} {costs : Costs} {nextHop : NextHop}

theorem call_getPrefix (sortNextHops : SortNextHops) (entry : Entry) (c : Call) :
    (call sortNextHops entry c).1.getPrefix = entry.getPrefix := by
  cases c with
  | addOrUpdateNextHop face endpointId cost => rfl
  | removeNextHop face endpointId =>
    simp only [call, removeNextHop, Entry.removeNextHop]
    split <;> rfl
  | removeNextHopByFace face => rfl

theorem call_inserted (hhas : entry.Has costs) {c : Call} (h : c.inserted costs = some nextHop) :
    (call sortNextHops entry c).1.m_nextHops = sortNextHops.sort (entry.m_nextHops ++ [nextHop]) := by
  obtain ⟨rfl, hnone⟩ := inserted_some h
  have hnew := (isNew_iff hhas _ _).mpr hnone
  simp only [call, addOrUpdateNextHop, Entry.addOrUpdateNextHop, hnew, decide_true, if_true]
  rw [modify_middle]
  rfl

theorem emitted_iff_last (hhas : entry.Has costs) {c : Call} (h : c.inserted costs = some nextHop) :
    (call sortNextHops entry c).2 = some (entry.getPrefix, nextHop) ↔
      (sortNextHops.sort (entry.m_nextHops ++ [nextHop])).getLast? = some nextHop := by
  rw [emitted_inserted hhas h, call_inserted hhas h, Option.map_eq_some_iff]
  constructor
  · rintro ⟨last, hlast, heq⟩
    rw [hlast, (Prod.mk.inj heq).2]
  · exact fun hlast => ⟨nextHop, hlast, rfl⟩

theorem mem_sort (nextHops : List NextHop) : nextHop ∈ sortNextHops.sort nextHops ↔ nextHop ∈ nextHops :=
  (sortNextHops.perm nextHops).mem_iff

theorem mem_entry_of_ne {other : NextHop} (h : other ∈ entry.m_nextHops ++ [nextHop]) (hne : other ≠ nextHop) :
    other ∈ entry.m_nextHops :=
  (List.mem_append.mp h).resolve_right fun h => hne (List.mem_singleton.mp h)

theorem emitted_of_costsMost (hhas : entry.Has costs) {c : Call} (h : c.inserted costs = some nextHop)
    (hmost : CostsMost costs nextHop) : (call sortNextHops entry c).2 = some (entry.getPrefix, nextHop) := by
  refine (emitted_iff_last hhas h).mpr (last_of_costsMost (sortNextHops.sorted _) ?_ ?_)
  · exact (mem_sort _).mpr (List.mem_append_right _ (List.mem_singleton_self nextHop))
  · intro other hother hne
    exact hmost _ _ _ ((hhas other).mp (mem_entry_of_ne ((mem_sort _).mp hother) hne))

theorem costsAtLeast_of_emitted (hhas : entry.Has costs) {c : Call} (h : c.inserted costs = some nextHop)
    (hemitted : (call sortNextHops entry c).2 = some (entry.getPrefix, nextHop)) : CostsAtLeast costs nextHop := by
  have hlast := (emitted_iff_last hhas h).mp hemitted
  intro face endpointId cost hcost
  have hmem : ⟨face, endpointId, cost⟩ ∈ entry.m_nextHops := (hhas ⟨face, endpointId, cost⟩).mpr hcost
  exact cost_le_last (sortNextHops.sorted _) hlast ((mem_sort _).mpr (List.mem_append_left _ hmem))

theorem nodup_sort (hwf : WellFormed entry) (hhas : entry.Has costs) {c : Call} (h : c.inserted costs = some nextHop) :
    (sortNextHops.sort (entry.m_nextHops ++ [nextHop])).Nodup := by
  rw [← call_inserted hhas h]
  exact (wellFormed_call sortNextHops hwf c).nodup.of_map _

theorem emitted_of_costsAtLeast (hwf : WellFormed entry) (hhas : entry.Has costs) {c : Call}
    (h : c.inserted costs = some nextHop) (hleast : CostsAtLeast costs nextHop) :
    (call stableSort entry c).2 = some (entry.getPrefix, nextHop) := by
  refine (emitted_iff_last hhas h).mpr (last_of_sublists (nodup_sort hwf hhas h) ?_ ?_)
  · exact (mem_sort _).mpr (List.mem_append_right _ (List.mem_singleton_self nextHop))
  · intro other hother hne
    have hmem := mem_entry_of_ne ((mem_sort _).mp hother) hne
    refine List.pair_sublist_mergeSort isCheaper_trans isCheaper_total ?_ ?_
    · exact decide_eq_true (hleast _ _ _ ((hhas other).mp hmem))
    · exact (List.singleton_sublist.mpr hmem).append (List.Sublist.refl [nextHop])

theorem costsMost_of_emitted (hwf : WellFormed entry) (hhas : entry.Has costs) {c : Call}
    (h : c.inserted costs = some nextHop) (hemitted : (call reversingSort entry c).2 = some (entry.getPrefix, nextHop)) :
    CostsMost costs nextHop := by
  have hlast := (emitted_iff_last hhas h).mp hemitted
  intro face endpointId cost hcost
  refine lt_of_le_of_ne (costsAtLeast_of_emitted hhas h hemitted face endpointId cost hcost) fun heq => ?_
  have hmem : ⟨face, endpointId, cost⟩ ∈ entry.m_nextHops := (hhas ⟨face, endpointId, cost⟩).mpr hcost
  refine (not_sublist_of_last (nodup_sort hwf hhas h) hlast : ¬ [nextHop, ⟨face, endpointId, cost⟩].Sublist _) ?_
  refine List.pair_sublist_mergeSort isCheaper_trans isCheaper_total (decide_eq_true heq.ge) ?_
  rw [List.reverse_append, List.reverse_singleton, List.singleton_append]
  exact (List.singleton_sublist.mpr (List.mem_reverse.mpr hmem)).cons_cons _

/-- The entry stays well formed and has the next hops it should, and each call emits what it inserts. -/
def Notifies (sortNextHops : SortNextHops) (entry : Entry) (costs : Costs) (calls : List Call) : Prop :=
  WellFormed (run sortNextHops entry calls) ∧
    (run sortNextHops entry calls).Has (calls.foldl (fun costs c => c.costs costs) costs) ∧
    emitted sortNextHops entry calls = (inserted costs calls).map (Option.map (fun nextHop => (entry.getPrefix, nextHop)))

variable {condition : Costs → NextHop → Prop} {calls : List Call}

theorem notifies_of (hstep : ∀ entry costs c nextHop, WellFormed entry → entry.Has costs → c.inserted costs = some nextHop →
      condition costs nextHop → (call sortNextHops entry c).2 = some (entry.getPrefix, nextHop))
    (hwf : WellFormed entry) (hhas : entry.Has costs) (heach : EachInserted condition costs calls) :
    Notifies sortNextHops entry costs calls := by
  refine ⟨wellFormed_run hwf calls, has_run hwf hhas calls, ?_⟩
  induction calls generalizing entry costs with
  | nil => rfl
  | cons c calls ih =>
    have htail := ih (wellFormed_call sortNextHops hwf c) (has_call sortNextHops hwf hhas c) heach.2
    rw [call_getPrefix] at htail
    rw [emitted, inserted, List.map_cons, htail]
    cases hinserted : c.inserted costs with
    | none => rw [emitted_other hhas hinserted, Option.map_none]
    | some nextHop =>
      rw [hstep entry costs c nextHop hwf hhas hinserted (heach.1 nextHop hinserted), Option.map_some]

theorem of_notifies (hstep : ∀ entry costs c nextHop, WellFormed entry → entry.Has costs → c.inserted costs = some nextHop →
      (call sortNextHops entry c).2 = some (entry.getPrefix, nextHop) → condition costs nextHop)
    (hwf : WellFormed entry) (hhas : entry.Has costs) (h : Notifies sortNextHops entry costs calls) :
    EachInserted condition costs calls := by
  replace h := h.2.2
  induction calls generalizing entry costs with
  | nil => trivial
  | cons c calls ih =>
    rw [emitted, inserted, List.map_cons, List.cons.injEq] at h
    refine ⟨?_, ?_⟩
    · intro nextHop hinserted
      rw [hinserted] at h
      exact hstep entry costs c nextHop hwf hhas hinserted h.1
    · refine ih (wellFormed_call sortNextHops hwf c) (has_call sortNextHops hwf hhas c) ?_
      rw [call_getPrefix]
      exact h.2

def noCosts : Costs := fun _ _ => none

theorem wellFormed_new (namePrefix : Name) : WellFormed ⟨namePrefix, []⟩ := ⟨List.Pairwise.nil, List.nodup_nil⟩

theorem has_new (namePrefix : Name) : Entry.Has ⟨namePrefix, []⟩ noCosts := fun nextHop => by simp [noCosts]

theorem notifies_iff (namePrefix : Name) (calls : List Call) :
    ((∀ sortNextHops, Notifies sortNextHops ⟨namePrefix, []⟩ noCosts calls) ↔ EachInserted CostsMost noCosts calls) ∧
      (Notifies stableSort ⟨namePrefix, []⟩ noCosts calls ↔ EachInserted CostsAtLeast noCosts calls) := by
  have hwf := wellFormed_new namePrefix
  have hhas := has_new namePrefix
  refine ⟨⟨fun h => ?_, fun h sortNextHops => ?_⟩, ⟨fun h => ?_, fun h => ?_⟩⟩
  · exact of_notifies (fun _ _ _ _ hwf hhas => costsMost_of_emitted hwf hhas) hwf hhas (h reversingSort)
  · exact notifies_of (fun _ _ _ _ _ hhas => emitted_of_costsMost hhas) hwf hhas h
  · exact of_notifies (fun _ _ _ _ _ hhas => costsAtLeast_of_emitted hhas) hwf hhas h
  · exact notifies_of (fun _ _ _ _ hwf hhas => emitted_of_costsAtLeast hwf hhas) hwf hhas h

/-- Alice's next hop costs less than the one that is there. -/
theorem cheaper_nextHop_misreported :
    ¬ ∃ sortNextHops, Notifies sortNextHops ⟨[⟨8, [97]⟩], []⟩ noCosts
      [.addOrUpdateNextHop ⟨256, .scopeNonLocal, .pointToPoint⟩ 0 10,
        .addOrUpdateNextHop ⟨257, .scopeNonLocal, .pointToPoint⟩ 0 5] := by
  rintro ⟨sortNextHops, h⟩
  have heach := of_notifies (fun _ _ _ _ _ hhas => costsAtLeast_of_emitted hhas) (wellFormed_new _) (has_new _) h
  have hle := heach.2.1 ⟨⟨257, .scopeNonLocal, .pointToPoint⟩, 0, 5⟩ rfl ⟨256, .scopeNonLocal, .pointToPoint⟩ 0 10 rfl
  exact absurd hle (by decide)

end Notifies

end LeoNdn.Fib
