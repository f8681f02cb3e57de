import LeoNdn.ReversePath
import Mathlib.Algebra.BigOperators.Group.Multiset.Basic
import Mathlib.Algebra.Ring.Nat

/-!
A flood in which each copy of the request carries the number of hops that it has
left: how far the copies come, and how many of them there can be.
-/

namespace LeoNdn.HopLimits

open LeoNdn.ReversePath

variable {ν δ : Type}

/-- Where a node sends copies, given the device that the request came in on, and the hops that a new request has. -/
structure Relay (ν δ : Type) where
  limit : ℕ
  devices : ν → Option δ → List δ

/-- A request without hops is taken for a new one. -/
def Relay.left (R : Relay ν δ) (h : ℕ) : ℕ := if h = 0 then R.limit else h - 1

def Relay.copies (R : Relay ν δ) (n : ν) (arrival : Option δ) (h : ℕ) : List (δ × ℕ) :=
  if R.left h = 0 then [] else (R.devices n arrival).map (fun d => (d, R.left h))

def Relay.Sends (R : Relay ν δ) (W : Wiring ν δ) : Act ν δ → Prop
  | .start n copies => copies = R.copies n none 0
  | .flood d h copies => copies = R.copies (W.next d) (some (W.peer d)) h
  | _ => True

def received : Act ν δ → Option ℕ
  | .answer _ h => some h
  | .discard _ h => some h
  | .flood _ h _ => some h
  | _ => none

/-- A path of at most `m` hops, over the given devices. -/
def Within (W : Wiring ν δ) (used : δ → Prop) (root : ν) (m : ℕ) (n : ν) : Prop :=
  ∃ ds, Path W root n ds ∧ ds.length ≤ m ∧ ∀ d ∈ ds, used d

theorem Path.snoc {W : Wiring ν δ} {n m : ν} {ds : List δ} {d : δ} (h : Path W n m ds) (hd : W.owner d = m) :
    Path W n (W.next d) (ds ++ [d]) := by
  induction ds generalizing n with
  | nil =>
    obtain rfl : n = m := h
    exact ⟨hd, rfl⟩
  | cons c ds ih => exact ⟨h.1, ih h.2⟩

variable {W : Wiring ν δ} {used : δ → Prop} {root n : ν} {R : Relay ν δ} {m m' : ℕ}

theorem Within.mono (h : Within W used root m n) (hle : m ≤ m') : Within W used root m' n := by
  obtain ⟨ds, hpath, hlength, hused⟩ := h
  exact ⟨ds, hpath, hlength.trans hle, hused⟩

theorem Within.next {d : δ} (h : Within W used root m (W.owner d)) (hd : used d) : Within W used root (m + 1) (W.next d) := by
  obtain ⟨ds, hpath, hlength, hused⟩ := h
  refine ⟨ds ++ [d], Path.snoc hpath rfl, ?_, ?_⟩
  · rw [List.length_append, List.length_singleton]
    omega
  · intro e he
    rcases List.mem_append.mp he with he | he
    · exact hused e he
    · rwa [List.mem_singleton.mp he]

theorem Within.refl (m : ℕ) : Within W used root m root := ⟨[], rfl, Nat.zero_le m, by simp⟩

/-- Every copy in flight has between one hop and the limit left. -/
def Limited (R : Relay ν δ) (s : State ν δ) : Prop := ∀ c ∈ s.requests, 1 ≤ c.2 ∧ c.2 ≤ R.limit

/-- The hops that a copy has used lead to the node that it is on its way to. -/
structure Near (W : Wiring ν δ) (used : δ → Prop) (root : ν) (R : Relay ν δ) (s : State ν δ) : Prop where
  requests : ∀ c ∈ s.requests, Within W used root (R.limit + 1 - c.2) (W.next c.1)
  pending : ∀ n, (s.pending n).isSome → Within W used root R.limit n

theorem mem_copies {c : δ × ℕ} {arrival : Option δ} {h : ℕ} (hc : c ∈ R.copies n arrival h) :
    c.1 ∈ R.devices n arrival ∧ c.2 = R.left h ∧ 1 ≤ R.left h := by
  unfold Relay.copies at hc
  split at hc
  · cases hc
  · obtain ⟨d, hd, rfl⟩ := List.mem_map.mp hc
    exact ⟨hd, rfl, by omega⟩

theorem left_of_pos {h : ℕ} (hpos : 1 ≤ h) : R.left h + 1 = h := by
  rw [Relay.left, if_neg (by omega)]
  omega

variable [DecidableEq ν] {s s' : State ν δ} {a : Act ν δ} {acts : List (Act ν δ)}

theorem Limited.step (h : Limited R s) (hstep : Step W s a s') (hsends : R.Sends W a) :
    Limited R s' ∧ ∀ k ∈ received a, 1 ≤ k ∧ k ≤ R.limit := by
  cases hstep with
  | register n => exact ⟨h, by simp [received]⟩
  | start n copies hcopies =>
    refine ⟨fun c hc => ?_, by simp [received]⟩
    rcases Multiset.mem_add.mp hc with hc | hc
    · exact h c hc
    · rw [show copies = R.copies n none 0 from hsends] at hc
      obtain ⟨-, hleft, hpos⟩ := mem_copies (Multiset.mem_coe.mp hc)
      have hlimit : R.left 0 = R.limit := if_pos rfl
      omega
  | answer d k rest hd htarget =>
    have hk := h (d, k) (by rw [hd]; exact Multiset.mem_cons_self _ _)
    refine ⟨fun c hc => h c (by rw [hd]; exact Multiset.mem_cons_of_mem hc), ?_⟩
    simpa [received] using hk
  | discard d k rest hd htarget hpending =>
    have hk := h (d, k) (by rw [hd]; exact Multiset.mem_cons_self _ _)
    refine ⟨fun c hc => h c (by rw [hd]; exact Multiset.mem_cons_of_mem hc), ?_⟩
    simpa [received] using hk
  | flood d k copies rest hd htarget hpending hcopies =>
    have hk : 1 ≤ k ∧ k ≤ R.limit := h (d, k) (by rw [hd]; exact Multiset.mem_cons_self _ _)
    refine ⟨fun c hc => ?_, by simpa [received] using hk⟩
    rcases Multiset.mem_add.mp hc with hc | hc
    · exact h c (by rw [hd]; exact Multiset.mem_cons_of_mem hc)
    · rw [show copies = R.copies (W.next d) (some (W.peer d)) k from hsends] at hc
      obtain ⟨-, hleft, hpos⟩ := mem_copies (Multiset.mem_coe.mp hc)
      have hone := @left_of_pos _ _ R _ hk.1
      omega
  | accept d r rest hd hpending => exact ⟨h, by simp [received]⟩
  | drop d rest hd hpending => exact ⟨h, by simp [received]⟩

theorem Near.step (h : Near W used root R s) (hlimited : Limited R s) (hstep : Step W s a s') (hsends : R.Sends W a)
    (hused : ∀ n arrival, ∀ d ∈ R.devices n arrival, used d) (hroot : ∀ n copies, a = .start n copies → n = root) :
    Near W used root R s' := by
  cases hstep with
  | register n => exact ⟨h.requests, h.pending⟩
  | start n copies hcopies =>
    obtain rfl := hroot n copies rfl
    refine ⟨fun c hc => ?_, fun x hx => ?_⟩
    · rcases Multiset.mem_add.mp hc with hc | hc
      · exact h.requests c hc
      · have howner := hcopies c (Multiset.mem_coe.mp hc)
        rw [show copies = R.copies n none 0 from hsends] at hc
        obtain ⟨hdevice, -, -⟩ := mem_copies (Multiset.mem_coe.mp hc)
        have hself : Within W used n 0 (W.owner c.1) := howner ▸ Within.refl 0
        obtain ⟨-, hle⟩ := (hlimited.step (.start n copies hcopies) hsends).1 c
          (Multiset.mem_add.mpr (Or.inr (by rw [show copies = R.copies n none 0 from hsends]; exact hc)))
        exact (hself.next (hused _ _ _ hdevice)).mono (by omega)
    · by_cases hx' : x = n
      · exact hx' ▸ Within.refl _
      · exact h.pending x (by simpa [Function.update_of_ne hx'] using hx)
  | answer d k rest hd htarget =>
    exact ⟨fun c hc => h.requests c (by rw [hd]; exact Multiset.mem_cons_of_mem hc), h.pending⟩
  | discard d k rest hd htarget hpending =>
    exact ⟨fun c hc => h.requests c (by rw [hd]; exact Multiset.mem_cons_of_mem hc), h.pending⟩
  | flood d k copies rest hd htarget hpending hcopies =>
    have hmem : (d, k) ∈ s.requests := by
      rw [hd]
      exact Multiset.mem_cons_self _ _
    obtain ⟨hpos, hle⟩ := hlimited _ hmem
    have hnear : Within W used root (R.limit + 1 - k) (W.next d) := h.requests _ hmem
    simp only at hpos hle
    refine ⟨fun c hc => ?_, fun x hx => ?_⟩
    · rcases Multiset.mem_add.mp hc with hc | hc
      · exact h.requests c (by rw [hd]; exact Multiset.mem_cons_of_mem hc)
      · have howner := hcopies c (Multiset.mem_coe.mp hc)
        rw [show copies = R.copies (W.next d) (some (W.peer d)) k from hsends] at hc
        obtain ⟨hdevice, hleft, -⟩ := mem_copies (Multiset.mem_coe.mp hc)
        have hone := @left_of_pos _ _ R _ hpos
        rw [← howner] at hnear
        exact (hnear.next (hused _ _ _ hdevice)).mono (by omega)
    · by_cases hx' : x = W.next d
      · exact hx' ▸ hnear.mono (by omega)
      · exact h.pending x (by simpa [Function.update_of_ne hx'] using hx)
  | accept d r rest hd hpending =>
    refine ⟨h.requests, fun x hx => ?_⟩
    by_cases hx' : x = W.next d
    · rw [hx'] at hx
      simp at hx
    · exact h.pending x (by simpa [Function.update_of_ne hx'] using hx)
  | drop d rest hd hpending => exact ⟨h.requests, h.pending⟩

section Sizes

/-- How many copies there can be of one that has used up all but `h` of its hops when it arrives, itself included. -/
def size (W : Wiring ν δ) (R : Relay ν δ) : ℕ → δ → ℕ
  | 0, _ => 1
  | h + 1, d => 1 + ((R.devices (W.next d) (some (W.peer d))).map (size W R h)).sum

def weight (W : Wiring ν δ) (R : Relay ν δ) (c : δ × ℕ) : ℕ := size W R (c.2 - 1) c.1

def total (W : Wiring ν δ) (R : Relay ν δ) (requests : Multiset (δ × ℕ)) : ℕ := (requests.map (weight W R)).sum

/-- How many copies there can be of a request that begins at the node. -/
def floodSize (W : Wiring ν δ) (R : Relay ν δ) (n : ν) : ℕ := ((R.devices n none).map (size W R (R.limit - 1))).sum

omit [DecidableEq ν] in
theorem copies_weight (n : ν) (arrival : Option δ) (h : ℕ) :
    ((R.copies n arrival h).map (weight W R)).sum ≤ ((R.devices n arrival).map (size W R (R.left h - 1))).sum := by
  unfold Relay.copies
  split
  · exact Nat.zero_le _
  · rw [List.map_map]
    exact Nat.le_refl _

omit [DecidableEq ν] in
theorem weight_pos (c : δ × ℕ) : 1 ≤ weight W R c := by
  unfold weight
  cases c.2 - 1 with
  | zero => exact Nat.le_refl 1
  | succ h => exact Nat.le_add_right 1 _

omit [DecidableEq ν] in
theorem flood_weight (d : δ) {k : ℕ} (hpos : 1 ≤ k) :
    1 + ((R.copies (W.next d) (some (W.peer d)) k).map (weight W R)).sum ≤ weight W R (d, k) := by
  have hleft := @left_of_pos _ _ R _ hpos
  by_cases hend : R.left k = 0
  · rw [Relay.copies, if_pos hend]
    exact weight_pos (d, k)
  · obtain ⟨j, hj⟩ := Nat.exists_eq_succ_of_ne_zero hend
    have hweight : weight W R (d, k) = 1 + ((R.devices (W.next d) (some (W.peer d))).map (size W R j)).sum := by
      rw [weight, show k - 1 = j + 1 by omega, size]
    have hcopies := @copies_weight _ _ W R (W.next d) (some (W.peer d)) k
    rw [hj, Nat.succ_sub_one] at hcopies
    omega

omit [DecidableEq ν] in
theorem total_cons (c : δ × ℕ) (rest : Multiset (δ × ℕ)) : total W R (c ::ₘ rest) = weight W R c + total W R rest := by
  rw [total, Multiset.map_cons, Multiset.sum_cons]
  rfl

omit [DecidableEq ν] in
theorem total_add (requests : Multiset (δ × ℕ)) (copies : List (δ × ℕ)) :
    total W R (requests + copies) = total W R requests + (copies.map (weight W R)).sum := by
  rw [total, Multiset.map_add, Multiset.sum_add]
  rfl

theorem total_step (hlimited : Limited R s) (hstep : Step W s a s') (hsends : R.Sends W a)
    (hroot : ∀ n copies, a = .start n copies → n = root) :
    (received a).isSome.toNat + total W R s'.requests ≤
      total W R s.requests + a.isStart.toNat * floodSize W R root := by
  cases hstep with
  | register n => simp [received, Act.isStart]
  | start n copies hcopies =>
    obtain rfl := hroot n copies rfl
    have hweight := @copies_weight _ _ W R n none 0
    rw [← show copies = R.copies n none 0 from hsends] at hweight
    have hlimit : R.left 0 = R.limit := if_pos rfl
    rw [hlimit] at hweight
    simp only [received, Option.isSome_none, Bool.toNat_false, Act.isStart, Bool.toNat_true, Nat.one_mul, total_add,
      floodSize]
    omega
  | answer d k rest hd htarget =>
    have hpos := @weight_pos _ _ W R (d, k)
    simp only [received, Option.isSome_some, Bool.toNat_true, Act.isStart, Bool.toNat_false, hd, total_cons]
    omega
  | discard d k rest hd htarget hpending =>
    have hpos := @weight_pos _ _ W R (d, k)
    simp only [received, Option.isSome_some, Bool.toNat_true, Act.isStart, Bool.toNat_false, hd, total_cons]
    omega
  | flood d k copies rest hd htarget hpending hcopies =>
    have hk := hlimited (d, k) (by rw [hd]; exact Multiset.mem_cons_self _ _)
    have hweight := @flood_weight _ _ W R d k hk.1
    rw [← show copies = R.copies (W.next d) (some (W.peer d)) k from hsends] at hweight
    simp only [received, Option.isSome_some, Bool.toNat_true, Act.isStart, Bool.toNat_false, hd, total_cons, total_add]
    omega
  | accept d r rest hd hpending => simp [received, Act.isStart]
  | drop d rest hd hpending => simp [received, Act.isStart]

end Sizes

section Runs

variable (hrun : Run W s acts s') (hsends : ∀ a ∈ acts, R.Sends W a)

include hrun hsends

theorem run_limited (h : Limited R s) : Limited R s' ∧ ∀ a ∈ acts, ∀ k ∈ received a, 1 ≤ k ∧ k ≤ R.limit := by
  induction hrun with
  | nil => exact ⟨h, by simp⟩
  | snoc hrun hstep ih =>
    obtain ⟨hlimited, hall⟩ := ih (fun a ha => hsends a (List.mem_append_left _ ha))
    obtain ⟨hlimited', hlast⟩ := hlimited.step hstep (hsends _ (by simp))
    refine ⟨hlimited', fun a ha => ?_⟩
    rcases List.mem_append.mp ha with ha | ha
    · exact hall a ha
    · rwa [List.mem_singleton.mp ha]

variable (hroot : ∀ n copies, .start n copies ∈ acts → n = root) (h : Limited R s)

include hroot h

theorem run_near (hused : ∀ n arrival, ∀ d ∈ R.devices n arrival, used d) (hnear : Near W used root R s) :
    Near W used root R s' := by
  induction hrun with
  | nil => exact hnear
  | snoc hrun hstep ih =>
    have hbefore := ih (fun a ha => hsends a (List.mem_append_left _ ha))
      (fun n copies ha => hroot n copies (List.mem_append_left _ ha))
    have hlimited := (run_limited hrun (fun a ha => hsends a (List.mem_append_left _ ha)) h).1
    exact hbefore.step hlimited hstep (hsends _ (by simp)) hused (fun n copies ha => hroot n copies (by simp [ha]))

theorem run_received_le : (acts.filterMap received).length + total W R s'.requests ≤
    total W R s.requests + acts.countP Act.isStart * floodSize W R root := by
  induction hrun with
  | nil => simp
  | @snoc acts a s₁ s₂ hrun hstep ih =>
    have hbefore := ih (fun a ha => hsends a (List.mem_append_left _ ha))
      (fun n copies ha => hroot n copies (List.mem_append_left _ ha))
    have hlimited := (run_limited hrun (fun a ha => hsends a (List.mem_append_left _ ha)) h).1
    have hlast := total_step hlimited hstep (hsends _ (by simp)) (fun n copies ha => hroot n copies (by simp [ha]))
    have hlength : (List.filterMap received [a]).length = (received a).isSome.toNat := by
      cases hreceived : received a <;> simp [hreceived]
    have hstart : List.countP Act.isStart [a] = a.isStart.toNat := by
      cases hstart : a.isStart <;> simp [hstart]
    rw [List.filterMap_append, List.length_append, List.countP_append, hlength, hstart, Nat.add_mul]
    omega

end Runs

end LeoNdn.HopLimits
