import Mathlib.Algebra.BigOperators.Group.List.Basic
import Mathlib.Algebra.Order.BigOperators.Group.List
import Mathlib.Algebra.Order.Ring.Nat
import Mathlib.Data.Fintype.EquivFin
import Mathlib.Logic.Relation
import Mathlib.Order.WellFounded

/-!
Paths in a directed graph whose edges have costs: least paths, the edges that
they begin with, and walks from one such edge to the next.
-/

namespace LeoNdn.WeightedPaths

open Relation

variable {V E : Type}

section Definitions

variable (edges : V → List E) (target : E → V) (cost : E → ℕ)

inductive IsPath : V → V → List E → Prop
  | nil (u : V) : IsPath u u []
  | cons {u v : V} {e : E} {path : List E} (he : e ∈ edges u) (hpath : IsPath (target e) v path) : IsPath u v (e :: path)

def pathCost (path : List E) : ℕ := (path.map cost).sum

structure IsLeast (u v : V) (path : List E) : Prop where
  isPath : IsPath edges target u v path
  le : ∀ other, IsPath edges target u v other → pathCost cost path ≤ pathCost cost other

def FirstHop (e : E) (u v : V) : Prop := ∃ path, IsLeast edges target cost u v (e :: path)

def IsSimple (u : V) (path : List E) : Prop := (u :: path.map target).Nodup

/-- An edge that costs nothing between two nodes other than the last one. -/
def ZeroHop (last u v : V) : Prop := u ≠ last ∧ v ≠ last ∧ ∃ e ∈ edges u, target e = v ∧ cost e = 0

end Definitions

/-- The nodes of a walk, its ends included. -/
inductive Walk (R : V → V → Prop) : V → V → List V → Prop
  | nil (u : V) : Walk R u u [u]
  | cons {u v w : V} {nodes : List V} (hstep : R u v) (hwalk : Walk R v w nodes) : Walk R u w (u :: nodes)

section Least

variable {edges : V → List E} {target : E → V} {cost : E → ℕ} {u v w : V} {e : E} {path other : List E}

theorem pathCost_cons (e : E) (path : List E) : pathCost cost (e :: path) = cost e + pathCost cost path := by
  rw [pathCost, pathCost, List.map_cons, List.sum_cons]

theorem IsPath.append (h : IsPath edges target u v path) (hother : IsPath edges target v w other) :
    IsPath edges target u w (path ++ other) := by
  induction h with
  | nil u => exact hother
  | cons he _ ih => exact IsPath.cons he (ih hother)

theorem IsPath.head_mem (h : IsPath edges target u v (e :: path)) : e ∈ edges u := by
  cases h with
  | cons he _ => exact he

theorem IsPath.tail (h : IsPath edges target u v (e :: path)) : IsPath edges target (target e) v path := by
  cases h with
  | cons _ hpath => exact hpath

theorem IsLeast.cost_eq (h : IsLeast edges target cost u v path) (hother : IsLeast edges target cost u v other) :
    pathCost cost path = pathCost cost other :=
  le_antisymm (h.le other hother.isPath) (hother.le path h.isPath)

theorem IsLeast.tail (h : IsLeast edges target cost u v (e :: path)) : IsLeast edges target cost (target e) v path := by
  refine ⟨h.isPath.tail, ?_⟩
  intro other hother
  have hle := h.le (e :: other) (IsPath.cons h.isPath.head_mem hother)
  rw [pathCost_cons, pathCost_cons] at hle
  exact Nat.le_of_add_le_add_left hle

theorem IsLeast.cons (h : IsLeast edges target cost (target e) v path) (he : e ∈ edges u)
    (hle : ∀ other, IsPath edges target u v other → cost e + pathCost cost path ≤ pathCost cost other) :
    IsLeast edges target cost u v (e :: path) := by
  refine ⟨IsPath.cons he h.isPath, ?_⟩
  intro other hother
  rw [pathCost_cons]
  exact hle other hother

theorem FirstHop.mem (h : FirstHop edges target cost e u v) : e ∈ edges u := by
  obtain ⟨path, hleast⟩ := h
  exact hleast.isPath.head_mem

end Least

section Simple

variable {edges : V → List E} {target source : E → V} {cost cost' : E → ℕ} {u v w : V} {e : E} {path : List E}

theorem le_pathCost (h : e ∈ path) : cost e ≤ pathCost cost path :=
  List.single_le_sum (fun _ _ => Nat.zero_le _) _ (List.mem_map_of_mem h)

theorem pathCost_congr (h : ∀ e ∈ path, cost e = cost' e) : pathCost cost path = pathCost cost' path := by
  rw [pathCost, pathCost, List.map_congr_left h]

theorem pathCost_mono (h : ∀ e ∈ path, cost e ≤ cost' e) : pathCost cost path ≤ pathCost cost' path :=
  List.sum_le_sum h

theorem IsPath.source_mem (hsource : ∀ u, ∀ e ∈ edges u, source e = u) (h : IsPath edges target u v path) :
    ∀ e ∈ path, source e ∈ u :: path.map target := by
  induction h with
  | nil u => exact nofun
  | @cons u v e path he _ ih =>
    intro other hother
    rcases List.mem_cons.mp hother with rfl | hrest
    · rw [hsource u other he]
      exact List.mem_cons_self
    · exact List.mem_cons_of_mem u (ih other hrest)

theorem IsPath.from_node (h : IsPath edges target u v path) (hw : w ∈ u :: path.map target) :
    ∃ rest, IsPath edges target w v rest ∧ rest <:+ path ∧ (w :: rest.map target) <:+ (u :: path.map target) := by
  induction h with
  | nil u =>
    rw [List.map_nil, List.mem_singleton] at hw
    rw [hw]
    exact ⟨[], IsPath.nil u, List.suffix_rfl, List.suffix_rfl⟩
  | @cons u v e path he hpath ih =>
    rcases List.mem_cons.mp hw with rfl | hlater
    · exact ⟨e :: path, IsPath.cons he hpath, List.suffix_rfl, List.suffix_rfl⟩
    · obtain ⟨rest, hrest, hedges, hnodes⟩ := ih hlater
      exact ⟨rest, hrest, hedges.trans (List.suffix_cons e path), hnodes.trans (List.suffix_cons u _)⟩

theorem IsPath.exists_simple (h : IsPath edges target u v path) :
    ∃ simple, IsPath edges target u v simple ∧ IsSimple target u simple ∧ simple ⊆ path := by
  induction h with
  | nil u => exact ⟨[], IsPath.nil u, List.nodup_singleton u, List.Subset.refl []⟩
  | @cons u v e path he _ ih =>
    obtain ⟨rest, hrest, hsimple, hsub⟩ := ih
    by_cases hagain : u ∈ target e :: rest.map target
    · obtain ⟨short, hshort, hedges, hnodes⟩ := hrest.from_node hagain
      refine ⟨short, hshort, hsimple.sublist hnodes.sublist, ?_⟩
      exact List.Subset.trans hedges.subset (List.subset_cons_of_subset e hsub)
    · exact ⟨e :: rest, IsPath.cons he hrest, List.nodup_cons.mpr ⟨hagain, hsimple⟩, List.cons_subset_cons e hsub⟩

end Simple

section Walks

variable {R : V → V → Prop} {u v : V} {nodes : List V}

theorem Walk.reaches (h : Walk R u v nodes) : ∀ w ∈ nodes, ReflTransGen R u w := by
  induction h with
  | nil u =>
    intro w hw
    rw [List.mem_singleton.mp hw]
  | cons hstep _ ih =>
    intro w hw
    rcases List.mem_cons.mp hw with rfl | hrest
    · exact ReflTransGen.refl
    · exact ReflTransGen.head hstep (ih w hrest)

theorem Walk.nodup (hacyclic : ∀ u, ¬ TransGen R u u) (h : Walk R u v nodes) : nodes.Nodup := by
  induction h with
  | nil u => exact List.nodup_singleton u
  | @cons u _ _ nodes hstep hwalk ih =>
    apply List.nodup_cons.mpr
    refine ⟨?_, ih⟩
    intro hmem
    exact hacyclic u (TransGen.head' hstep (hwalk.reaches u hmem))

theorem Walk.invariant {P : V → Prop} (hstep : ∀ u v, P u → R u v → P v) (h : Walk R u v nodes) (hu : P u) : P v := by
  induction h with
  | nil u => exact hu
  | cons huv _ ih => exact ih (hstep _ _ hu huv)

end Walks

end LeoNdn.WeightedPaths
