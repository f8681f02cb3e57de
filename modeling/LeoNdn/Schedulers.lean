import Mathlib.Algebra.Order.Group.Int
import Mathlib.Data.List.Pairwise
import Mathlib.Data.List.Perm.Basic
import Mathlib.Data.List.Nodup

/-!
A scheduler of events: a queue in the order of the times at which they expire.
-/

namespace LeoNdn.Schedulers

/-- An event is known by its id, which is never given out again. -/
structure EventInfo (β : Type) where
  id : ℕ
  expireTime : ℤ
  callback : β
  deriving DecidableEq, Repr

structure Scheduler (β : Type) where
  m_queue : List (EventInfo β)
  nextId : ℕ
  deriving DecidableEq, Repr

variable {β : Type}

def Scheduler.empty : Scheduler β := ⟨[], 0⟩

/-- An event comes after those that expire at the same time. -/
def insertEvent (info : EventInfo β) : List (EventInfo β) → List (EventInfo β)
  | [] => [info]
  | head :: queue => if info.expireTime < head.expireTime then info :: head :: queue else head :: insertEvent info queue

/-- `Scheduler::scheduleEvent`; the id of the event is the next one. -/
def Scheduler.scheduleEvent (now after : ℤ) (callback : β) (scheduler : Scheduler β) : Scheduler β :=
  ⟨insertEvent ⟨scheduler.nextId, now + after, callback⟩ scheduler.m_queue, scheduler.nextId + 1⟩

/-- Nothing where the event has expired, or there has been none. -/
def Scheduler.cancel (id : Option ℕ) (scheduler : Scheduler β) : Scheduler β :=
  { scheduler with m_queue := scheduler.m_queue.filter (fun info => id ≠ some info.id) }

/-- The head of the queue, if it has expired, and the scheduler without it. -/
def Scheduler.popExpired (now : ℤ) (scheduler : Scheduler β) : Option (EventInfo β × Scheduler β) :=
  match scheduler.m_queue with
  | [] => none
  | head :: queue => if head.expireTime > now then none else some (head, { scheduler with m_queue := queue })

structure Scheduler.WellFormed (scheduler : Scheduler β) : Prop where
  lt_nextId : ∀ info ∈ scheduler.m_queue, info.id < scheduler.nextId
  nodup : (scheduler.m_queue.map EventInfo.id).Nodup
  sorted : scheduler.m_queue.Pairwise (fun first second => first.expireTime ≤ second.expireTime)

section Queue

variable {info other : EventInfo β} {queue : List (EventInfo β)} {scheduler : Scheduler β}

theorem insertEvent_perm (info : EventInfo β) (queue : List (EventInfo β)) :
    (insertEvent info queue).Perm (info :: queue) := by
  induction queue with
  | nil => exact List.Perm.refl _
  | cons head queue ih =>
    rw [insertEvent]
    split
    · exact List.Perm.refl _
    · exact (ih.cons head).trans (List.Perm.swap info head queue)

theorem mem_insertEvent : other ∈ insertEvent info queue ↔ other = info ∨ other ∈ queue := by
  rw [(insertEvent_perm info queue).mem_iff, List.mem_cons]

theorem sorted_insertEvent (h : queue.Pairwise (fun first second => first.expireTime ≤ second.expireTime)) :
    (insertEvent info queue).Pairwise (fun first second => first.expireTime ≤ second.expireTime) := by
  induction queue with
  | nil => exact List.pairwise_singleton _ _
  | cons head queue ih =>
    rw [List.pairwise_cons] at h
    rw [insertEvent]
    split
    · rename_i hlt
      refine List.pairwise_cons.mpr ⟨?_, List.pairwise_cons.mpr h⟩
      intro second hsecond
      rcases List.mem_cons.mp hsecond with rfl | hrest
      · exact le_of_lt hlt
      · exact (le_of_lt hlt).trans (h.1 second hrest)
    · rename_i hge
      refine List.pairwise_cons.mpr ⟨?_, ih h.2⟩
      intro second hsecond
      rcases mem_insertEvent.mp hsecond with rfl | hrest
      · exact not_lt.mp hge
      · exact h.1 second hrest

namespace Scheduler

theorem WellFormed.empty : (Scheduler.empty : Scheduler β).WellFormed :=
  ⟨fun _ hinfo => absurd hinfo List.not_mem_nil, List.nodup_nil, List.Pairwise.nil⟩

theorem WellFormed.scheduleEvent (h : scheduler.WellFormed) (now after : ℤ) (callback : β) :
    (scheduler.scheduleEvent now after callback).WellFormed := by
  refine ⟨?_, ?_, sorted_insertEvent h.sorted⟩
  · intro info hinfo
    rcases mem_insertEvent.mp hinfo with rfl | hold
    · exact Nat.lt_succ_self _
    · exact Nat.lt_succ_of_lt (h.lt_nextId info hold)
  · have hperm := (insertEvent_perm ⟨scheduler.nextId, now + after, callback⟩ scheduler.m_queue).map EventInfo.id
    refine (hperm.nodup_iff).mpr (List.nodup_cons.mpr ⟨?_, h.nodup⟩)
    intro hmem
    obtain ⟨info, hinfo, hid⟩ := List.mem_map.mp hmem
    exact absurd hid (Nat.ne_of_lt (h.lt_nextId info hinfo))

theorem WellFormed.cancel (h : scheduler.WellFormed) (id : Option ℕ) : (scheduler.cancel id).WellFormed := by
  refine ⟨fun info hinfo => h.lt_nextId info (List.mem_filter.mp hinfo).1, ?_, h.sorted.filter _⟩
  exact h.nodup.sublist (List.filter_sublist.map EventInfo.id)

theorem popExpired_eq {now : ℤ} {rest : Scheduler β} (h : scheduler.popExpired now = some (info, rest)) :
    scheduler.m_queue = info :: rest.m_queue ∧ rest.nextId = scheduler.nextId ∧ info.expireTime ≤ now := by
  unfold popExpired at h
  split at h
  · cases h
  · rename_i head queue hqueue
    split at h
    · cases h
    · rename_i hexpired
      cases h
      exact ⟨hqueue, rfl, not_lt.mp hexpired⟩

theorem WellFormed.popExpired {now : ℤ} {rest : Scheduler β} (h : scheduler.WellFormed)
    (hpop : scheduler.popExpired now = some (info, rest)) : rest.WellFormed := by
  obtain ⟨hqueue, hnext, -⟩ := popExpired_eq hpop
  have hlt := h.lt_nextId
  have hnodup := h.nodup
  have hsorted := h.sorted
  rw [hqueue] at hlt hnodup hsorted
  refine ⟨?_, (List.nodup_cons.mp hnodup).2, (List.pairwise_cons.mp hsorted).2⟩
  intro other hother
  rw [hnext]
  exact hlt other (List.mem_cons_of_mem info hother)

theorem WellFormed.eq_of_id (h : scheduler.WellFormed) (hinfo : info ∈ scheduler.m_queue)
    (hother : other ∈ scheduler.m_queue)
    (hid : info.id = other.id) : info = other :=
  List.inj_on_of_nodup_map h.nodup hinfo hother hid

end Scheduler

end Queue

end LeoNdn.Schedulers
