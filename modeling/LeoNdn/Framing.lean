import Mathlib.Data.List.Basic
import Mathlib.Data.List.Flatten

/-!
A stream of bytes that is cut into frames as it comes in. What is cut off does not
depend on how much of the stream has come.
-/

namespace LeoNdn.Framing

/-- A rule that finds the first frame, once all of it is there. -/
structure Splitter (β : Type) where
  split : List β → Option (List β × List β)
  eq_append : ∀ bytes frame rest, split bytes = some (frame, rest) → bytes = frame ++ rest
  ne_nil : ∀ bytes frame rest, split bytes = some (frame, rest) → frame ≠ []
  append : ∀ bytes frame rest more, split bytes = some (frame, rest) →
    split (bytes ++ more) = some (frame, rest ++ more)

variable {β : Type} (D : Splitter β)

namespace Splitter

theorem length_lt {bytes frame rest : List β} (h : D.split bytes = some (frame, rest)) : rest.length < bytes.length := by
  have hpos := List.length_pos_iff.mpr (D.ne_nil bytes frame rest h)
  rw [D.eq_append bytes frame rest h, List.length_append]
  omega

def frames (bytes : List β) : List (List β) × List β :=
  match _h : D.split bytes with
  | none => ([], bytes)
  | some (frame, rest) => (frame :: (frames rest).1, (frames rest).2)
termination_by bytes.length
decreasing_by all_goals exact D.length_lt _h

def IsFrame (frame : List β) : Prop := D.split frame = some (frame, [])

instance [DecidableEq β] (frame : List β) : Decidable (D.IsFrame frame) :=
  inferInstanceAs (Decidable (D.split frame = some (frame, [])))

def Stuck (bytes : List β) : Prop := D.split bytes = none

variable {D} {bytes frame rest more : List β}

theorem frames_of_none (h : D.split bytes = none) : D.frames bytes = ([], bytes) := by
  rw [frames]
  split
  · rfl
  · rename_i hsome
    rw [h] at hsome
    cases hsome

theorem frames_of_some (h : D.split bytes = some (frame, rest)) :
    D.frames bytes = (frame :: (D.frames rest).1, (D.frames rest).2) := by
  rw [frames]
  split
  · rename_i hnone
    rw [h] at hnone
    cases hnone
  · rename_i hsome
    rw [h] at hsome
    cases hsome
    rfl

theorem IsFrame.split_append (h : D.IsFrame frame) (more : List β) : D.split (frame ++ more) = some (frame, more) :=
  D.append frame frame [] more h

theorem stuck_nil : D.Stuck [] := by
  rw [Stuck, Option.eq_none_iff_forall_ne_some]
  rintro ⟨frame, rest⟩ h
  exact absurd (D.length_lt h) (Nat.not_lt_zero _)

theorem flatten_frames (bytes : List β) : bytes = (D.frames bytes).1.flatten ++ (D.frames bytes).2 := by
  fun_induction frames D bytes with
  | case1 bytes h => rfl
  | case2 bytes frame rest h ih =>
    rw [List.flatten_cons, List.append_assoc, ← ih]
    exact D.eq_append bytes frame rest h

theorem stuck_frames (bytes : List β) : D.Stuck (D.frames bytes).2 := by
  fun_induction frames D bytes with
  | case1 bytes h => exact h
  | case2 bytes frame rest h ih => exact ih

theorem frames_eq_nil_iff : (D.frames bytes).1 = [] ↔ D.Stuck bytes := by
  constructor
  · intro hnil
    have hrest := stuck_frames (D := D) bytes
    have hbytes := flatten_frames (D := D) bytes
    rw [hnil] at hbytes
    rwa [hbytes]
  · intro hstuck
    rw [frames_of_none hstuck]

theorem frames_isPrefix {stream : List (List β)} (hstream : ∀ frame ∈ stream, D.IsFrame frame)
    (h : bytes ++ more = stream.flatten) : ∃ later, stream = (D.frames bytes).1 ++ later := by
  induction stream generalizing bytes with
  | nil =>
    have hnil : bytes = [] := (List.append_eq_nil_iff.mp h).1
    exact ⟨[], by rw [hnil, frames_of_none stuck_nil]; rfl⟩
  | cons first stream ih =>
    cases hsplit : D.split bytes with
    | none => exact ⟨first :: stream, by rw [frames_of_none hsplit]; rfl⟩
    | some split =>
      obtain ⟨frame, rest⟩ := split
      have hmore := D.append bytes frame rest more hsplit
      rw [h, List.flatten_cons, (hstream first List.mem_cons_self).split_append] at hmore
      obtain ⟨rfl, hrest⟩ := Prod.mk.inj (Option.some.inj hmore)
      obtain ⟨later, hlater⟩ := ih (fun frame hframe => hstream frame (List.mem_cons_of_mem _ hframe)) hrest.symm
      exact ⟨later, by rw [frames_of_some hsplit, hlater]; rfl⟩

theorem eq_nil_of_stuck {stream : List (List β)} (hstream : ∀ frame ∈ stream, D.IsFrame frame)
    (hstuck : D.Stuck stream.flatten) : stream = [] := by
  cases stream with
  | nil => rfl
  | cons first stream =>
    rw [Stuck, List.flatten_cons, (hstream first List.mem_cons_self).split_append] at hstuck
    cases hstuck

theorem length_lt_of_stuck {stream : List (List β)} (hstream : ∀ frame ∈ stream, D.IsFrame frame)
    (h : bytes ++ more = stream.flatten) (hstuck : D.Stuck bytes) {size : ℕ}
    (hsize : ∀ frame ∈ stream, frame.length ≤ size) (hpos : 0 < size) : bytes.length < size := by
  cases stream with
  | nil =>
    rw [(List.append_eq_nil_iff.mp h).1]
    exact hpos
  | cons first stream =>
    have hfirst := hstream first List.mem_cons_self
    by_contra hlong
    have hle : first.length ≤ bytes.length := Nat.le_trans (hsize first List.mem_cons_self) (Nat.not_lt.mp hlong)
    obtain ⟨rest, hrest⟩ : ∃ rest, bytes = first ++ rest := by
      have hprefix : first <+: bytes := by
        refine List.prefix_of_prefix_length_le ?_ (List.prefix_append bytes more) hle
        rw [h, List.flatten_cons]
        exact List.prefix_append _ _
      obtain ⟨rest, hrest⟩ := hprefix
      exact ⟨rest, hrest.symm⟩
    rw [Stuck, hrest, hfirst.split_append] at hstuck
    cases hstuck

end Splitter

end LeoNdn.Framing
