import Mathlib.Data.List.Basic
import Mathlib.Order.Basic
import Mathlib.Tactic.Ring

/-!
Run-length timelines: lists of timed entries in increasing time order, the
entry in force at a time, and the cursor loop that moves over such a list.
-/

namespace LeoNdn.Timeline

variable {τ α : Type} [LinearOrder τ]

def Increasing (es : List (τ × α)) : Prop := es.Pairwise (fun a b => a.1 < b.1)

instance (es : List (τ × α)) : Decidable (Increasing es) :=
  inferInstanceAs (Decidable (es.Pairwise (fun a b => a.1 < b.1)))

def inForce (es : List (τ × α)) (t : τ) : ℕ := es.countP (fun e => e.1 ≤ t) - 1

def valueAt (es : List (τ × α)) (t : τ) : Option α :=
  ((es.filter (fun e => e.1 ≤ t)).getLast?).map Prod.snd

theorem lt_countP_iff {β : Type} (p : β → Bool) (es : List β)
    (hp : es.Pairwise (fun a b => p b = true → p a = true)) (i : ℕ) (hi : i < es.length) :
    i < es.countP p ↔ p es[i] = true := by
  induction es generalizing i with
  | nil => simp at hi
  | cons a es ih =>
    obtain ⟨ha, hes⟩ := List.pairwise_cons.mp hp
    by_cases hpa : p a = true
    · cases i with
      | zero => simp [hpa]
      | succ i =>
        simp only [List.countP_cons, hpa, if_true, Nat.add_lt_add_iff_right, List.getElem_cons_succ]
        exact ih hes i (by simpa using hi)
    · have hnone : es.countP p = 0 := List.countP_eq_zero.mpr (fun b hb h => hpa (ha b hb h))
      simp only [List.countP_cons, hpa, hnone]
      cases i with
      | zero => simpa using hpa
      | succ i =>
        have hb := List.getElem_mem (l := es) (n := i) (by simpa using hi)
        simpa using fun h => hpa (ha _ hb h)

theorem Increasing.lt_countP_le {es : List (τ × α)} (h : Increasing es) (t : τ) (i : ℕ)
    (hi : i < es.length) : i < es.countP (fun e => e.1 ≤ t) ↔ es[i].1 ≤ t := by
  rw [lt_countP_iff _ es ?_ i hi]
  · simp
  · exact h.imp (fun hab => by simpa using fun hb => hab.le.trans hb)

theorem Increasing.lt_of_lt {es : List (τ × α)} (h : Increasing es) {i j : ℕ} (hij : i < j)
    (hj : j < es.length) : es[i].1 < es[j].1 :=
  List.pairwise_iff_getElem.mp h i j (hij.trans hj) hj hij

theorem Increasing.le_iff {es : List (τ × α)} (h : Increasing es) {i j : ℕ} (hi : i < es.length)
    (hj : j < es.length) : es[i].1 ≤ es[j].1 ↔ i ≤ j := by
  constructor
  · intro hle
    by_contra hlt
    exact absurd (h.lt_of_lt (by omega : j < i) hi) (not_lt.mpr hle)
  · intro hle
    rcases hle.lt_or_eq with hlt | rfl
    · exact (h.lt_of_lt hlt hj).le
    · exact le_rfl

theorem Increasing.inForce_eq {es : List (τ × α)} (h : Increasing es) {t : τ} {i : ℕ}
    (hi : i < es.length) (hle : es[i].1 ≤ t) (hnext : ∀ hj : i + 1 < es.length, t < es[i + 1].1) :
    inForce es t = i := by
  have h1 := (h.lt_countP_le t i hi).mpr hle
  have h2 : es.countP (fun e => e.1 ≤ t) ≤ i + 1 := by
    by_contra hlt
    have hlen : i + 1 < es.length := lt_of_lt_of_le (not_le.mp hlt) List.countP_le_length
    have := (h.lt_countP_le t (i + 1) hlen).mp (by omega)
    exact absurd (hnext hlen) (not_lt.mpr this)
  unfold inForce
  omega

theorem Increasing.inForce_spec {es : List (τ × α)} (h : Increasing es) {t : τ} (hes : 0 < es.length)
    (h0 : es[0].1 ≤ t) :
    ∃ hi : inForce es t < es.length, es[inForce es t].1 ≤ t ∧
      ∀ hj : inForce es t + 1 < es.length, t < es[inForce es t + 1].1 := by
  have hpos := (h.lt_countP_le t 0 hes).mpr h0
  have hlen := (List.countP_le_length : es.countP (fun e => decide (e.1 ≤ t)) ≤ es.length)
  have hi : inForce es t < es.length := by unfold inForce; omega
  refine ⟨hi, (h.lt_countP_le t _ hi).mp (by unfold inForce; omega), ?_⟩
  intro hj
  have hcount : ¬ inForce es t + 1 < es.countP (fun e => e.1 ≤ t) := by unfold inForce; omega
  exact not_le.mp (fun hle => hcount ((h.lt_countP_le t _ hj).mpr hle))

theorem inForce_mono (es : List (τ × α)) {t t' : τ} (ht : t ≤ t') :
    inForce es t ≤ inForce es t' := by
  unfold inForce
  have := (List.countP_mono_left (fun e _ he => by simpa using (of_decide_eq_true he).trans ht) :
    es.countP (fun e => decide (e.1 ≤ t)) ≤ es.countP (fun e => decide (e.1 ≤ t')))
  omega

theorem Increasing.inForce_getElem {es : List (τ × α)} (h : Increasing es) {i : ℕ} (hi : i < es.length) :
    inForce es es[i].1 = i :=
  h.inForce_eq hi le_rfl (fun hj => h.lt_of_lt (Nat.lt_succ_self i) hj)

theorem Increasing.inForce_last {es : List (τ × α)} (h : Increasing es) (hes : 0 < es.length) {t : τ}
    (ht : es[es.length - 1].1 ≤ t) : inForce es t = es.length - 1 :=
  h.inForce_eq (by omega) ht (fun hj => by omega)

theorem getLast?_filter_take {β : Type} (p : β → Bool) (es : List β)
    (hp : es.Pairwise (fun a b => p b = true → p a = true)) (hpos : 0 < es.countP p) :
    (es.filter p).getLast? = es[es.countP p - 1]? := by
  induction es with
  | nil => simp at hpos
  | cons a es ih =>
    obtain ⟨ha, hes⟩ := List.pairwise_cons.mp hp
    by_cases hpa : p a = true
    · rcases Nat.eq_zero_or_pos (es.countP p) with h0 | hpos'
      · have hnil : es.filter p = [] := by
          rw [List.filter_eq_nil_iff]
          exact List.countP_eq_zero.mp h0
        simp [hpa, hnil, h0]
      · obtain ⟨n, hn⟩ : ∃ n, es.countP p = n + 1 := ⟨es.countP p - 1, by omega⟩
        have hne : es.filter p ≠ [] := by
          intro hnil
          rw [← List.length_eq_zero_iff, ← List.countP_eq_length_filter] at hnil
          omega
        rw [List.filter_cons_of_pos hpa, List.getLast?_cons_of_ne_nil hne, ih hes hpos']
        simp [hpa, hn]
    · have hnone : es.countP p = 0 := List.countP_eq_zero.mpr (fun b hb h => hpa (ha b hb h))
      simp [hpa, hnone] at hpos

theorem Increasing.valueAt_eq {es : List (τ × α)} (h : Increasing es) {t : τ} (hes : 0 < es.length)
    (h0 : es[0].1 ≤ t) : valueAt es t = (es[inForce es t]?).map Prod.snd := by
  unfold valueAt inForce
  rw [getLast?_filter_take]
  · exact h.imp (fun hab => by simpa using fun hb => hab.le.trans hb)
  · exact (h.lt_countP_le t 0 hes).mpr h0

/-- `while (curTime > nextTime)`: move the cursor `idx`, whose entry has time
`nextTime`, over the entries `rest` after it. Once the cursor has left the
list, `nextTime` is what `past` makes of the last time read. -/
def seek (curTime : τ) (past : τ → τ) : List (τ × α) → ℕ → τ → ℕ × τ
  | [], idx, nextTime => if nextTime < curTime then (idx + 1, past nextTime) else (idx, nextTime)
  | e :: rest, idx, nextTime =>
    if nextTime < curTime then seek curTime past rest (idx + 1) e.1 else (idx, nextTime)

/-- Where the loop stops: at the first entry that is not before `curTime`, or
past the end. -/
theorem seek_spec (curTime : τ) (past : τ → τ) (es : List (τ × α)) (i : ℕ) (hi : i < es.length) :
    (∃ j, ∃ hj : j < es.length, i ≤ j ∧
      seek curTime past (es.drop (i + 1)) i es[i].1 = (j, es[j].1) ∧
      curTime ≤ es[j].1 ∧ ∀ k, ∀ hk : k < j, i ≤ k → es[k].1 < curTime) ∨
    (seek curTime past (es.drop (i + 1)) i es[i].1 = (es.length, past es[es.length - 1].1) ∧
      ∀ k, ∀ hk : k < es.length, i ≤ k → es[k].1 < curTime) := by
  induction hn : es.length - i generalizing i with
  | zero => omega
  | succ n ih =>
    by_cases hlt : es[i].1 < curTime
    · by_cases hlast : i + 1 < es.length
      · have hstep : seek curTime past (es.drop (i + 1)) i es[i].1 =
            seek curTime past (es.drop (i + 2)) (i + 1) es[i + 1].1 := by
          rw [List.drop_eq_getElem_cons hlast]
          simp [seek, hlt]
        rw [hstep]
        rcases ih (i + 1) hlast (by omega) with ⟨j, hj, hij, hs, hle, hbefore⟩ | ⟨hs, hbefore⟩
        · refine Or.inl ⟨j, hj, by omega, hs, hle, ?_⟩
          intro k hk hik
          rcases Nat.eq_or_lt_of_le hik with rfl | hik
          · exact hlt
          · exact hbefore k hk hik
        · refine Or.inr ⟨hs, ?_⟩
          intro k hk hik
          rcases Nat.eq_or_lt_of_le hik with rfl | hik
          · exact hlt
          · exact hbefore k hk hik
      · have hidx : es.length - 1 = i := by omega
        refine Or.inr ⟨?_, ?_⟩
        · rw [List.drop_eq_nil_of_le (by omega)]
          simp only [seek, hlt, if_true, hidx, Prod.mk.injEq, and_true]
          omega
        · intro k hk hik
          obtain rfl : k = i := by omega
          exact hlt
    · refine Or.inl ⟨i, hi, le_rfl, ?_, not_lt.mp hlt, by omega⟩
      cases hd : es.drop (i + 1) <;> simp [seek, hlt]

theorem Increasing.seek_within {es : List (τ × α)} (h : Increasing es) {t t' : τ} (past : τ → τ)
    (hes : 0 < es.length) (ht : t < t') (hlast : t' ≤ es[es.length - 1].1)
    {i : ℕ} (hi : i < es.length) (hit : es[i].1 ≤ t) :
    ∃ j, ∃ hj : j < es.length, i < j ∧ seek t' past (es.drop (i + 1)) i es[i].1 = (j, es[j].1) ∧
      ((t' < es[j].1 ∧ inForce es t' = j - 1) ∨ (t' = es[j].1 ∧ inForce es t' = j)) := by
  rcases seek_spec t' past es i hi with ⟨j, hj, hij, hs, hle, hbefore⟩ | ⟨-, hbefore⟩
  · have hlt : i < j := by
      rcases Nat.eq_or_lt_of_le hij with rfl | hij
      · exact absurd (hit.trans_lt ht) (not_lt.mpr hle)
      · exact hij
    refine ⟨j, hj, hlt, hs, ?_⟩
    rcases hle.lt_or_eq with hlt' | heq
    · refine Or.inl ⟨hlt', h.inForce_eq (by omega) (hbefore (j - 1) (by omega) (by omega)).le ?_⟩
      intro hj'
      simpa only [show j - 1 + 1 = j by omega] using hlt'
    · refine Or.inr ⟨heq, ?_⟩
      rw [heq]
      exact h.inForce_getElem hj
  · exact absurd (hbefore (es.length - 1) (by omega) (by omega)) (not_lt.mpr hlast)

theorem seek_past (es : List (τ × α)) {t' : τ} (past : τ → τ) (h : Increasing es) {i : ℕ}
    (hi : i < es.length) (hlast : es[es.length - 1].1 < t') :
    seek t' past (es.drop (i + 1)) i es[i].1 = (es.length, past es[es.length - 1].1) := by
  rcases seek_spec t' past es i hi with ⟨j, hj, -, -, hle, -⟩ | ⟨hs, -⟩
  · have := (h.le_iff hj (by omega : es.length - 1 < es.length)).mpr (by omega)
    exact absurd (hle.trans this) (not_le.mpr hlast)
  · exact hs

/-- A timeline that begins at time 0, as the traces do. -/
structure FromZero {α : Type} (es : List (ℤ × α)) : Prop where
  increasing : Increasing es
  starts : (es[0]?).map Prod.fst = some 0

namespace FromZero

variable {α : Type} {es : List (ℤ × α)}

theorem length_pos (h : FromZero es) : 0 < es.length := by
  have := h.starts
  rcases es with _ | ⟨e, es⟩
  · simp at this
  · simp

theorem last_lt (h : FromZero es) : es.length - 1 < es.length := Nat.sub_lt h.length_pos one_pos

theorem first (h : FromZero es) : (getElem es 0 h.length_pos).1 = 0 := by
  have := h.starts
  rw [List.getElem?_eq_getElem h.length_pos] at this
  simpa using this

theorem last_nonneg (h : FromZero es) : 0 ≤ (getElem es (es.length - 1) h.last_lt).1 := by
  rw [← h.first, h.increasing.le_iff]
  exact Nat.zero_le _

theorem getLast? (h : FromZero es) : es.getLast? = some (getElem es (es.length - 1) h.last_lt) := by
  rw [List.getLast?_eq_getElem?, List.getElem?_eq_getElem h.last_lt]

theorem inForce_spec (h : FromZero es) {t : ℤ} (ht : 0 ≤ t) :
    ∃ hi : inForce es t < es.length, es[inForce es t].1 ≤ t ∧
      ∀ hj : inForce es t + 1 < es.length, t < es[inForce es t + 1].1 :=
  h.increasing.inForce_spec h.length_pos (by rwa [h.first])

theorem inForce_zero (h : FromZero es) : inForce es 0 = 0 := by
  have := h.increasing.inForce_getElem h.length_pos
  rwa [h.first] at this

theorem inForce_last (h : FromZero es) {t : ℤ} (ht : (getElem es (es.length - 1) h.last_lt).1 ≤ t) :
    inForce es t = es.length - 1 :=
  h.increasing.inForce_last h.length_pos ht

theorem valueAt_eq (h : FromZero es) {t : ℤ} (ht : 0 ≤ t) :
    valueAt es t = some (getElem es (inForce es t) (h.inForce_spec ht).1).2 := by
  rw [h.increasing.valueAt_eq h.length_pos (by rwa [h.first]),
    List.getElem?_eq_getElem (h.inForce_spec ht).1]
  rfl

end FromZero

end LeoNdn.Timeline
