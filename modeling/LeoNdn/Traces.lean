import Mathlib.Data.List.Chain
import Mathlib.Data.Set.Basic
import Mathlib.Logic.Relation

/-!
Requests that flow through a network: a node passes on only what has come to it. Then
a request that has come in somewhere has a trace, back to the place where it has entered.
-/

namespace LeoNdn.Traces

variable {π ν χ : Type}

section Traces

/-- The history begins with what has come in last. Each place of the trace is at the
other end of a link from a node that the request had come to before. -/
structure Trace (node : π → ν) (peer : π → Option π) (history : List (π × χ)) (key : χ) (place : π) (path : List π) :
    Prop where
  head : path.head? = some place
  received : (path.map (fun place => (place, key))).Sublist history
  linked : path.IsChain (fun place next => ∃ source, peer source = some place ∧ node source = node next)
  origin : ∀ last ∈ path.getLast?, peer last = none

variable {node : π → ν} {peer : π → Option π} {history : List (π × χ)} {key : χ} {place next : π} {path : List π}

theorem Trace.of_origin (hpeer : peer place = none) : Trace node peer ((place, key) :: history) key place [place] := by
  refine ⟨rfl, ?_, List.IsChain.singleton place, ?_⟩
  · exact (List.nil_sublist history).cons_cons (place, key)
  · intro last hlast
    cases hlast
    exact hpeer

theorem Trace.hop {source : π} (h : Trace node peer history key next path) (hpeer : peer source = some place)
    (hnode : node source = node next) : Trace node peer ((place, key) :: history) key place (place :: path) := by
  cases path with
  | nil => cases h.head
  | cons first path =>
    obtain rfl : first = next := Option.some.inj h.head
    exact ⟨rfl, h.received.cons_cons (place, key), h.linked.cons_cons ⟨source, hpeer, hnode⟩, h.origin⟩

theorem Trace.later (h : Trace node peer history key place path) (arrival : π × χ) :
    Trace node peer (arrival :: history) key place path :=
  ⟨h.head, h.received.cons arrival, h.linked, h.origin⟩

end Traces

section Flows

structure Flow (π χ : Type) where
  history : List (π × χ)
  inFlight : Set (π × χ)

variable (node : π → ν) (peer : π → Option π)

/-- A request enters the network, a node passes on requests that have come to it, one
comes in over a link, or some are lost. -/
inductive Flow.Step (flow : Flow π χ) : Flow π χ → Prop
  | enter (place : π) (key : χ) (hpeer : peer place = none) :
    Flow.Step flow { flow with history := (place, key) :: flow.history }
  | send (sent : Set (π × χ))
    (hknown : ∀ request ∈ sent, ∃ place, node place = node request.1 ∧ (place, request.2) ∈ flow.history) :
    Flow.Step flow { flow with inFlight := flow.inFlight ∪ sent }
  | deliver (source place : π) (key : χ) (hflight : (source, key) ∈ flow.inFlight) (hpeer : peer source = some place) :
    Flow.Step flow { flow with history := (place, key) :: flow.history }
  | lose (inFlight : Set (π × χ)) (hkept : ∀ request ∈ inFlight, request ∈ flow.inFlight) :
    Flow.Step flow { flow with inFlight := inFlight }

variable {node peer} {flow flow' : Flow π χ}

/-- Each request that has come in has a trace, and each that is under way has come to the node that it is from. -/
structure Traced (node : π → ν) (peer : π → Option π) (flow : Flow π χ) : Prop where
  trace : ∀ place key, (place, key) ∈ flow.history → ∃ path, Trace node peer flow.history key place path
  known : ∀ request ∈ flow.inFlight, ∃ place, node place = node request.1 ∧ (place, request.2) ∈ flow.history

theorem Traced.arrive (h : Traced node peer flow) {place : π} {key : χ} {path : List π}
    (htrace : Trace node peer ((place, key) :: flow.history) key place path) :
    Traced node peer { flow with history := (place, key) :: flow.history } := by
  refine ⟨fun other key' hmem => ?_, fun request hrequest => ?_⟩
  · rcases List.mem_cons.mp hmem with heq | hold
    · cases heq
      exact ⟨path, htrace⟩
    · obtain ⟨path', htrace'⟩ := h.trace other key' hold
      exact ⟨path', htrace'.later (place, key)⟩
  · obtain ⟨known, hnode, hmem⟩ := h.known request hrequest
    exact ⟨known, hnode, List.mem_cons_of_mem _ hmem⟩

theorem traced_step (h : Traced node peer flow) (hstep : flow.Step node peer flow') : Traced node peer flow' := by
  cases hstep with
  | enter place key hpeer => exact h.arrive (Trace.of_origin hpeer)
  | send sent hknown => exact ⟨h.trace, fun request hrequest => hrequest.elim (h.known request) (hknown request)⟩
  | deliver source place key hflight hpeer =>
    obtain ⟨next, hnode, hmem⟩ := h.known _ hflight
    obtain ⟨path, htrace⟩ := h.trace next key hmem
    exact h.arrive (htrace.hop hpeer hnode.symm)
  | lose inFlight hkept => exact ⟨h.trace, fun request hrequest => h.known request (hkept request hrequest)⟩

theorem traced_run (hrun : Relation.ReflTransGen (Flow.Step node peer) ⟨[], ∅⟩ flow) : Traced node peer flow := by
  induction hrun with
  | refl => exact ⟨fun _ _ hmem => absurd hmem List.not_mem_nil, fun _ hmem => absurd hmem (Set.notMem_empty _)⟩
  | tail _ hstep ih => exact traced_step ih hstep

end Flows

end LeoNdn.Traces
