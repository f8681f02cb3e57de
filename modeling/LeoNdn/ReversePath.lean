import Mathlib.Data.List.Induction
import Mathlib.Data.List.Nodup
import Mathlib.Data.Multiset.AddSub
import Mathlib.Logic.Function.Basic

/-!
A request flooded from one node, and the acknowledgement that a target sends
back along the reverse path. A node remembers the device that the request first
reached it on; the acknowledgement turns this into a pair of devices. Messages
in flight are taken out in any order.
-/

namespace LeoNdn.ReversePath

structure Wiring (ν δ : Type) where
  owner : δ → ν
  peer : δ → δ
  peer_peer : ∀ d, peer (peer d) = d

def Wiring.next {ν δ : Type} (W : Wiring ν δ) (d : δ) : ν := W.owner (W.peer d)

/-- A message in flight stands with the device it was sent on, a request also
with its hop limit. -/
structure State (ν δ : Type) where
  targets : ν → ℕ
  pending : ν → Option (Option δ)
  pairs : ν → Option (Option δ × Option δ)
  requests : Multiset (δ × ℕ)
  acks : Multiset δ

inductive Act (ν δ : Type)
  | register (n : ν)
  | start (n : ν) (copies : List (δ × ℕ))
  | answer (d : δ) (h : ℕ)
  | discard (d : δ) (h : ℕ)
  | flood (d : δ) (h : ℕ) (copies : List (δ × ℕ))
  | accept (d : δ)
  | drop (d : δ)

variable {ν δ : Type} [DecidableEq ν]

inductive Step (W : Wiring ν δ) (s : State ν δ) : Act ν δ → State ν δ → Prop
  | register (n : ν) :
    Step W s (.register n) { s with targets := Function.update s.targets n (s.targets n + 1) }
  | start (n : ν) (copies : List (δ × ℕ)) (hcopies : ∀ c ∈ copies, W.owner c.1 = n) :
    Step W s (.start n copies) { s with
      pending := Function.update s.pending n (some none)
      requests := s.requests + copies }
  | answer (d : δ) (h : ℕ) (rest : Multiset (δ × ℕ)) (hd : s.requests = (d, h) ::ₘ rest)
    (htarget : 0 < s.targets (W.next d)) :
    Step W s (.answer d h) { s with
      targets := Function.update s.targets (W.next d) (s.targets (W.next d) - 1)
      pairs := Function.update s.pairs (W.next d) (some (none, some (W.peer d)))
      requests := rest
      acks := W.peer d ::ₘ s.acks }
  | discard (d : δ) (h : ℕ) (rest : Multiset (δ × ℕ)) (hd : s.requests = (d, h) ::ₘ rest)
    (htarget : s.targets (W.next d) = 0) (hpending : (s.pending (W.next d)).isSome) :
    Step W s (.discard d h) { s with requests := rest }
  | flood (d : δ) (h : ℕ) (copies : List (δ × ℕ)) (rest : Multiset (δ × ℕ))
    (hd : s.requests = (d, h) ::ₘ rest) (htarget : s.targets (W.next d) = 0)
    (hpending : s.pending (W.next d) = none) (hcopies : ∀ c ∈ copies, W.owner c.1 = W.next d) :
    Step W s (.flood d h copies) { s with
      pending := Function.update s.pending (W.next d) (some (some (W.peer d)))
      requests := rest + copies }
  | accept (d : δ) (r : Option δ) (rest : Multiset δ) (hd : s.acks = d ::ₘ rest)
    (hpending : s.pending (W.next d) = some r) :
    Step W s (.accept d) { s with
      pairs := Function.update s.pairs (W.next d) (some (some (W.peer d), r))
      pending := Function.update s.pending (W.next d) none
      acks := r.toList + rest }
  | drop (d : δ) (rest : Multiset δ) (hd : s.acks = d ::ₘ rest) (hpending : s.pending (W.next d) = none) :
    Step W s (.drop d) { s with acks := rest }

theorem Step.of_start {W : Wiring ν δ} {s s' : State ν δ} {n : ν} {copies : List (δ × ℕ)}
    (h : Step W s (.start n copies) s') : (s'.pending n).isSome ∧ s'.targets = s.targets := by
  cases h with
  | start n copies hcopies => exact ⟨by simp, rfl⟩

inductive Run (W : Wiring ν δ) (s : State ν δ) : List (Act ν δ) → State ν δ → Prop
  | nil : Run W s [] s
  | snoc {acts : List (Act ν δ)} {a : Act ν δ} {s' s'' : State ν δ} (hrun : Run W s acts s')
    (hstep : Step W s' a s'') : Run W s (acts ++ [a]) s''

theorem Run.cons {W : Wiring ν δ} {s s₁ s' : State ν δ} {a : Act ν δ} {acts : List (Act ν δ)}
    (hrun : Run W s₁ acts s') (hstep : Step W s a s₁) : Run W s (a :: acts) s' := by
  induction hrun with
  | nil => exact Run.snoc Run.nil hstep
  | snoc hrun hlast ih => exact Run.snoc ih hlast

structure Idle (s : State ν δ) : Prop where
  pending : ∀ n, s.pending n = none
  pairs : ∀ n, s.pairs n = none
  requests : s.requests = 0
  acks : s.acks = 0

section Paths

variable (W : Wiring ν δ)

def Path (n m : ν) : List δ → Prop
  | [] => n = m
  | d :: ds => W.owner d = n ∧ Path (W.next d) m ds

def nodes (n : ν) (ds : List δ) : List ν := n :: ds.map W.next

/-- Along the devices, each node is waiting for the acknowledgement and will
send it on to the next device; the last node is where the request began. -/
def Waiting (pending : ν → Option (Option δ)) (n : ν) : List δ → Prop
  | [] => pending n = some none
  | d :: ds => pending n = some (some d) ∧ W.owner d = n ∧ Waiting pending (W.next d) ds

/-- Along the devices, the pair of each node is the device of arrival and the
device of departure. -/
def Paired (pairs : ν → Option (Option δ × Option δ)) (arrival : Option δ) : List δ → Prop
  | [] => True
  | d :: ds => pairs (W.owner d) = some (arrival, some d) ∧ Paired pairs (some (W.peer d)) ds

end Paths

variable {W : Wiring ν δ} {n m : ν} {ds : List δ}

omit [DecidableEq ν] in
theorem Waiting.isSome {pending : ν → Option (Option δ)} (h : Waiting W pending n ds) :
    ∀ x ∈ nodes W n ds, (pending x).isSome := by
  induction ds generalizing n with
  | nil =>
    intro x hx
    obtain rfl : x = n := by simpa [nodes] using hx
    simp [show pending x = some none from h]
  | cons d ds ih =>
    obtain ⟨hn, -, hrest⟩ := h
    intro x hx
    rcases List.mem_cons.mp hx with rfl | hx
    · simp [hn]
    · exact ih hrest x hx

omit [DecidableEq ν] in
theorem Waiting.congr {pending pending' : ν → Option (Option δ)} (h : Waiting W pending n ds)
    (hsame : ∀ x ∈ nodes W n ds, pending' x = pending x) : Waiting W pending' n ds := by
  induction ds generalizing n with
  | nil => exact (hsame n (by simp [nodes])).trans h
  | cons d ds ih =>
    obtain ⟨hn, howner, hrest⟩ := h
    refine ⟨(hsame n (by simp [nodes])).trans hn, howner, ih hrest ?_⟩
    intro x hx
    exact hsame x (List.mem_cons_of_mem _ hx)

omit [DecidableEq ν] in
theorem Waiting.path {pending : ν → Option (Option δ)} {root : ν}
    (hroot : ∀ x, pending x = some none → x = root) (h : Waiting W pending n ds) : Path W n root ds := by
  induction ds generalizing n with
  | nil => exact hroot n h
  | cons d ds ih =>
    obtain ⟨-, howner, hrest⟩ := h
    exact ⟨howner, ih hrest⟩

omit [DecidableEq ν] in
theorem Paired.congr {pairs pairs' : ν → Option (Option δ × Option δ)} {arrival : Option δ}
    (h : Paired W pairs arrival ds) (hsame : ∀ d ∈ ds, pairs' (W.owner d) = pairs (W.owner d)) :
    Paired W pairs' arrival ds := by
  induction ds generalizing arrival with
  | nil => trivial
  | cons d ds ih =>
    obtain ⟨hd, hrest⟩ := h
    exact ⟨(hsame d (by simp)).trans hd, ih hrest (fun e he => hsame e (List.mem_cons_of_mem _ he))⟩

omit [DecidableEq ν] in
theorem Paired.append_singleton {pairs : ν → Option (Option δ × Option δ)} {arrival : Option δ} {d e : δ}
    (h : Paired W pairs arrival (ds ++ [d])) (he : pairs (W.owner e) = some (some (W.peer d), some e)) :
    Paired W pairs arrival (ds ++ [d] ++ [e]) := by
  induction ds generalizing arrival with
  | nil => exact ⟨h.1, he, trivial⟩
  | cons c ds ih => exact ⟨h.1, ih h.2⟩

omit [DecidableEq ν] in
theorem Path.append {k : ν} {as bs : List δ} (h : Path W n m (as ++ bs)) (ha : Path W n k as) :
    Path W k m bs := by
  induction as generalizing n with
  | nil =>
    obtain rfl : n = k := ha
    exact h
  | cons d as ih => exact ih h.2 ha.2

omit [DecidableEq ν] in
theorem Path.init {as : List δ} {d : δ} (h : Path W n m (as ++ [d])) : Path W n (W.owner d) as := by
  induction as generalizing n with
  | nil => exact h.1.symm
  | cons c as ih => exact ⟨h.1, ih h.2⟩

omit [DecidableEq ν] in
theorem Path.prefix_end {as bs : List δ} {d : δ} (h : Path W n m (as ++ d :: bs)) :
    Path W n (W.next d) (as ++ [d]) := by
  induction as generalizing n with
  | nil => exact ⟨h.1, rfl⟩
  | cons c as ih => exact ⟨h.1, ih h.2⟩

omit [DecidableEq ν] in
theorem Path.end_eq {as : List δ} {d : δ} (h : Path W n m (as ++ [d])) : W.next d = m := by
  induction as generalizing n with
  | nil => exact h.2
  | cons c as ih => exact ih h.2

omit [DecidableEq ν] in
theorem Path.owners {as : List δ} (h : Path W n m as) : ∀ d ∈ as, W.owner d ∈ (nodes W n as).dropLast := by
  induction as generalizing n with
  | nil => simp
  | cons c as ih =>
    obtain ⟨hc, hrest⟩ := h
    intro d hd
    have hcons : (nodes W n (c :: as)).dropLast = n :: (nodes W (W.next c) as).dropLast := by
      simp [nodes]
    rw [hcons]
    rcases List.mem_cons.mp hd with rfl | hd
    · simp [hc]
    · exact List.mem_cons_of_mem _ (ih hrest d hd)

omit [DecidableEq ν] in
theorem Path.end_mem (h : Path W n m ds) : m ∈ nodes W n ds := by
  induction ds generalizing n with
  | nil =>
    obtain rfl : n = m := h
    simp [nodes]
  | cons d ds ih => exact List.mem_cons_of_mem _ (ih h.2)

omit [DecidableEq ν] in
theorem Path.owner_ne_end (h : Path W n m ds) (hnodup : (nodes W n ds).Nodup) :
    ∀ d ∈ ds, W.owner d ≠ m := by
  induction ds generalizing n with
  | nil => simp
  | cons c ds ih =>
    obtain ⟨rfl, hrest⟩ := h
    obtain ⟨hfirst, hnodup⟩ := List.nodup_cons.mp hnodup
    intro d hd
    rcases List.mem_cons.mp hd with rfl | hd
    · rintro rfl
      exact hfirst hrest.end_mem
    · exact ih hrest hnodup d hd

omit [DecidableEq ν] in
theorem Path.owner_ne_next {as bs : List δ} {d : δ} (h : Path W n m (as ++ d :: bs))
    (hnodup : (nodes W n (as ++ d :: bs)).Nodup) : ∀ e ∈ as ++ [d], W.owner e ≠ W.next d := by
  intro e he heq
  have hmem := h.prefix_end.owners e he
  have hnodes : nodes W n (as ++ d :: bs) = nodes W n as ++ W.next d :: bs.map W.next := by
    simp [nodes]
  have hlast : (nodes W n (as ++ [d])).dropLast = nodes W n as := by
    rw [show nodes W n (as ++ [d]) = nodes W n as ++ [W.next d] by simp [nodes], List.dropLast_concat]
  rw [hlast, heq] at hmem
  rw [hnodes] at hnodup
  exact (List.nodup_append.mp hnodup).2.2 _ hmem _ (by simp) rfl

/-- While the request spreads: every node it has reached is waiting, on a path
back to the root. -/
structure Flooding (W : Wiring ν δ) (root : ν) (s : State ν δ) : Prop where
  acks : s.acks = 0
  pairs : ∀ n, s.pairs n = none
  origin : ∀ n, s.pending n = some none → n = root
  targets : ∀ n, n ≠ root → 0 < s.targets n → s.pending n = none
  senders : ∀ e ∈ s.requests, (s.pending (W.owner e.1)).isSome
  chains : ∀ n, (s.pending n).isSome → ∃ ds, Waiting W s.pending n ds ∧ (nodes W n ds).Nodup

/-- While the acknowledgement returns: it is in flight on the device `last` of a
path from the node that has answered; behind it the pairs are set, before it the
nodes are waiting. -/
structure Returning (W : Wiring ν δ) (root : ν) (s : State ν δ) (n : ν) (before : List δ) (last : δ)
    (rest : List δ) : Prop where
  acks : s.acks = {last}
  path : Path W n root (before ++ last :: rest)
  nodup : (nodes W n (before ++ last :: rest)).Nodup
  paired : Paired W s.pairs none (before ++ [last])
  waiting : Waiting W s.pending (W.next last) rest
  atRoot : s.pairs root = none

/-- The pairs make a tunnel from the node `n` to the root, along a path without
cycles that ends with the device `last`. -/
structure Tunnel (W : Wiring ν δ) (root : ν) (pairs : ν → Option (Option δ × Option δ)) (n : ν)
    (before : List δ) (last : δ) : Prop where
  path : Path W n root (before ++ [last])
  nodup : (nodes W n (before ++ [last])).Nodup
  paired : Paired W pairs none (before ++ [last])
  atRoot : pairs root = some (some (W.peer last), none)

/-- The acknowledgement has arrived: the pairs lead from the node that has
answered to the root. -/
structure Established (W : Wiring ν δ) (root : ν) (s : State ν δ) (n : ν) (before : List δ) (last : δ) :
    Prop where
  acks : s.acks = 0
  tunnel : Tunnel W root s.pairs n before last

def Act.isLocal : Act ν δ → Bool
  | .register _ => true
  | .start _ _ => true
  | _ => false

def Act.answered : Act ν δ → Option (δ × ℕ)
  | .answer d h => some (d, h)
  | _ => none

def answers (acts : List (Act ν δ)) : List (δ × ℕ) := acts.filterMap Act.answered

variable {root : ν} {s s' : State ν δ} {a : Act ν δ}

omit [DecidableEq ν] in
theorem Idle.flooding (h : Idle s) : Flooding W root s := by
  refine ⟨h.acks, h.pairs, ?_, ?_, ?_, ?_⟩
  · intro n hn
    rw [h.pending n] at hn
    cases hn
  · intro n _ _
    exact h.pending n
  · intro e he
    rw [h.requests] at he
    exact absurd he (Multiset.notMem_zero e)
  · intro n hn
    rw [h.pending n] at hn
    cases hn

theorem Idle.start {copies : List (δ × ℕ)} (h : Idle s) (hstep : Step W s (.start root copies) s') :
    Flooding W root s' := by
  cases hstep with
  | start n copies hcopies =>
    refine ⟨h.acks, h.pairs, ?_, ?_, ?_, ?_⟩
    · intro n hn
      by_contra hne
      simp [Function.update_of_ne hne, h.pending] at hn
    · intro n hne _
      simp [Function.update_of_ne hne, h.pending]
    · intro e he
      rw [h.requests, Multiset.zero_add] at he
      simp [hcopies e (Multiset.mem_coe.mp he)]
    · intro n hn
      have heq : n = root := by
        by_contra hne
        simp [Function.update_of_ne hne, h.pending] at hn
      subst heq
      exact ⟨[], by simp [Waiting], by simp [nodes]⟩

theorem Flooding.step (h : Flooding W root s) (hstep : Step W s a s') (hlocal : a.isLocal = false)
    (hanswer : a.answered = none) : Flooding W root s' := by
  cases hstep with
  | register n => cases hlocal
  | start n copies hcopies => cases hlocal
  | answer d k rest hd htarget => cases hanswer
  | discard d k rest hd htarget hpending =>
    refine ⟨h.acks, h.pairs, h.origin, h.targets, ?_, h.chains⟩
    intro e he
    exact h.senders e (by rw [hd]; exact Multiset.mem_cons_of_mem he)
  | flood d k copies rest hd htarget hpending hcopies =>
    have hsender := h.senders (d, k) (by rw [hd]; exact Multiset.mem_cons_self _ _)
    have hother (x : ν) (hx : (s.pending x).isSome) : Function.update s.pending (W.next d)
        (some (some (W.peer d))) x = s.pending x := by
      apply Function.update_of_ne
      rintro rfl
      simp [hpending] at hx
    refine ⟨h.acks, h.pairs, ?_, ?_, ?_, ?_⟩
    · intro x hx
      by_cases hsame : x = W.next d
      · subst hsame
        simp at hx
      · exact h.origin x (by simpa [Function.update_of_ne hsame] using hx)
    · intro x hroot hx
      have hne : x ≠ W.next d := by
        rintro rfl
        exact absurd hx (by simp [htarget])
      simpa [Function.update_of_ne hne] using h.targets x hroot hx
    · intro e he
      rcases Multiset.mem_add.mp he with he | he
      · have hold := h.senders e (by rw [hd]; exact Multiset.mem_cons_of_mem he)
        simpa only [hother _ hold] using hold
      · simp [hcopies e (Multiset.mem_coe.mp he)]
    · intro x hx
      have hkeep (y : ν) (ds : List δ) (hds : Waiting W s.pending y ds) :
          Waiting W (Function.update s.pending (W.next d) (some (some (W.peer d)))) y ds :=
        hds.congr (fun z hz => hother z (hds.isSome z hz))
      by_cases hsame : x = W.next d
      · -- the path of the node that sent the copy, with one more node
        obtain ⟨ds, hds, hnodup⟩ := h.chains (W.owner d) hsender
        have hback : W.next (W.peer d) = W.owner d := by simp [Wiring.next, W.peer_peer]
        refine ⟨W.peer d :: ds, ⟨by simp [hsame], hsame.symm, ?_⟩, ?_⟩
        · rw [hback]
          exact hkeep _ ds hds
        · have hnodes : nodes W x (W.peer d :: ds) = x :: nodes W (W.owner d) ds := by
            simp [nodes, hback]
          rw [hnodes, List.nodup_cons]
          refine ⟨?_, hnodup⟩
          intro hmem
          have := hds.isSome x hmem
          simp [hsame, hpending] at this
      · obtain ⟨ds, hds, hnodup⟩ := h.chains x (by simpa [Function.update_of_ne hsame] using hx)
        exact ⟨ds, hkeep x ds hds, hnodup⟩
  | accept d r rest hd hpending =>
    rw [h.acks] at hd
    exact absurd hd (Multiset.zero_ne_cons)
  | drop d rest hd hpending =>
    rw [h.acks] at hd
    exact absurd hd (Multiset.zero_ne_cons)

theorem Flooding.answer {d : δ} {k : ℕ} (h : Flooding W root s) (hstep : Step W s (.answer d k) s')
    (hroot : W.next d ≠ root) : ∃ rest, Returning W root s' (W.next d) [] (W.peer d) rest := by
  cases hstep with
  | answer d k rest hd htarget =>
    have hsender := h.senders (d, k) (by rw [hd]; exact Multiset.mem_cons_self _ _)
    obtain ⟨ds, hds, hnodup⟩ := h.chains (W.owner d) hsender
    have hback : W.next (W.peer d) = W.owner d := by simp [Wiring.next, W.peer_peer]
    have hnone := h.targets (W.next d) hroot htarget
    refine ⟨ds, ?_, ⟨rfl, ?_⟩, ?_, ⟨?_, trivial⟩, ?_, ?_⟩
    · simp [h.acks]
    · rw [hback]
      exact hds.path h.origin
    · have hnodes : nodes W (W.next d) ([] ++ W.peer d :: ds) = W.next d :: nodes W (W.owner d) ds := by
        simp [nodes, hback]
      rw [hnodes, List.nodup_cons]
      refine ⟨?_, hnodup⟩
      intro hmem
      have := hds.isSome _ hmem
      simp [hnone] at this
    · simp [Wiring.next]
    · rw [hback]
      exact hds
    · simp [Function.update_of_ne hroot.symm, h.pairs root]

theorem Returning.step {before rest : List δ} {last : δ} (h : Returning W root s n before last rest)
    (hstep : Step W s a s') (hlocal : a.isLocal = false) (hanswer : a.answered = none) :
    Returning W root s' n before last rest ∨ Established W root s' n before last ∨
      ∃ e rest', rest = e :: rest' ∧ Returning W root s' n (before ++ [last]) e rest' := by
  cases hstep with
  | register n => cases hlocal
  | start n copies hcopies => cases hlocal
  | answer d k rest hd htarget => cases hanswer
  | discard d k rest hd htarget hpending =>
    exact Or.inl ⟨h.acks, h.path, h.nodup, h.paired, h.waiting, h.atRoot⟩
  | flood d k copies rest' hd htarget hpending hcopies =>
    refine Or.inl ⟨h.acks, h.path, h.nodup, h.paired, ?_, h.atRoot⟩
    apply h.waiting.congr
    intro x hx
    apply Function.update_of_ne
    rintro rfl
    have := h.waiting.isSome _ hx
    simp [hpending] at this
  | drop d rest' hd hpending =>
    obtain ⟨rfl, -⟩ := (Multiset.singleton_eq_cons_iff _).mp (h.acks.symm.trans hd)
    have := h.waiting.isSome (W.next last) (by simp [nodes])
    simp [hpending] at this
  | accept d r rest' hd hpending =>
    obtain ⟨rfl, rfl⟩ := (Multiset.singleton_eq_cons_iff _).mp (h.acks.symm.trans hd)
    have hbehind (p : Option δ × Option δ) : Paired W (Function.update s.pairs (W.next last) (some p)) none
        (before ++ [last]) := by
      apply h.paired.congr
      intro e he
      exact Function.update_of_ne (h.path.owner_ne_next h.nodup e he) _ _
    cases rest with
    | nil =>
      -- the acknowledgement has reached the root
      have hnone : s.pending (W.next last) = some none := h.waiting
      obtain rfl : r = none := by
        rw [hnone] at hpending
        exact (Option.some.inj hpending).symm
      have hend : W.next last = root := h.path.end_eq
      refine Or.inr (Or.inl ⟨by simp, h.path, h.nodup, hbehind _, ?_⟩)
      simp [← hend]
    | cons e rest =>
      obtain ⟨hsome, howner, hwaiting⟩ := h.waiting
      obtain rfl : r = some e := by
        rw [hsome] at hpending
        exact (Option.some.inj hpending).symm
      have hnodup : (nodes W (W.next last) (e :: rest)).Nodup := by
        have hsplit : nodes W n (before ++ last :: e :: rest) =
            nodes W n before ++ nodes W (W.next last) (e :: rest) := by
          simp [nodes]
        have := h.nodup
        rw [hsplit] at this
        exact (List.nodup_append.mp this).2.1
      have hrest : W.next last ∉ nodes W (W.next e) rest := by
        have hcons : nodes W (W.next last) (e :: rest) = W.next last :: nodes W (W.next e) rest := by
          simp [nodes]
        rw [hcons] at hnodup
        exact (List.nodup_cons.mp hnodup).1
      have hpath : Path W (W.next last) root (e :: rest) := by
        have hall := h.path
        rw [show before ++ last :: e :: rest = (before ++ [last]) ++ e :: rest by simp] at hall
        exact hall.append h.path.prefix_end
      refine Or.inr (Or.inr ⟨e, rest, rfl, ?_⟩)
      refine ⟨by simp, by simpa using h.path, by simpa using h.nodup, ?_, ?_, ?_⟩
      · apply (hbehind _).append_singleton
        rw [howner, Function.update_self]
      · apply hwaiting.congr
        intro x hx
        apply Function.update_of_ne
        rintro rfl
        exact hrest hx
      · have hne : root ≠ W.next last := by
          intro heq
          apply hrest
          rw [← heq]
          exact hpath.2.end_mem
        simp [Function.update_of_ne hne, h.atRoot]

theorem Established.step {before : List δ} {last : δ} (h : Established W root s n before last)
    (hstep : Step W s a s') (hlocal : a.isLocal = false) (hanswer : a.answered = none) :
    Established W root s' n before last ∧ s'.pairs = s.pairs := by
  cases hstep with
  | register n => cases hlocal
  | start n copies hcopies => cases hlocal
  | answer d k rest hd htarget => cases hanswer
  | discard d k rest hd htarget hpending => exact ⟨⟨h.acks, h.tunnel⟩, rfl⟩
  | flood d k copies rest hd htarget hpending hcopies => exact ⟨⟨h.acks, h.tunnel⟩, rfl⟩
  | accept d r rest hd hpending =>
    rw [h.acks] at hd
    exact absurd hd Multiset.zero_ne_cons
  | drop d rest hd hpending =>
    rw [h.acks] at hd
    exact absurd hd Multiset.zero_ne_cons

structure AnsweredOnce (W : Wiring ν δ) (root : ν) (acts : List (Act ν δ)) : Prop where
  once : (answers acts).length ≤ 1
  elsewhere : ∀ e ∈ answers acts, W.next e.1 ≠ root

omit [DecidableEq ν] in
theorem answers_append (acts acts' : List (Act ν δ)) :
    answers (acts ++ acts') = answers acts ++ answers acts' := by
  simp [answers]

omit [DecidableEq ν] in
theorem answers_singleton (a : Act ν δ) : answers [a] = a.answered.toList := by
  cases h : a.answered <;> simp [answers, h]

omit [DecidableEq ν] in
theorem AnsweredOnce.of_append {acts acts' : List (Act ν δ)} (h : AnsweredOnce W root (acts ++ acts')) :
    AnsweredOnce W root acts := by
  obtain ⟨honce, helsewhere⟩ := h
  rw [answers_append] at honce helsewhere
  rw [List.length_append] at honce
  exact ⟨by omega, fun e he => helsewhere e (List.mem_append_left _ he)⟩

omit [DecidableEq ν] in
theorem answered_eq {e : δ × ℕ} (h : a.answered = some e) : a = .answer e.1 e.2 := by
  cases a with
  | answer d k =>
    cases h
    rfl
  | _ => cases h

theorem Run.phase {acts : List (Act ν δ)} (hrun : Run W s acts s') (h : Flooding W root s)
    (hlocal : ∀ a ∈ acts, a.isLocal = false) (hone : AnsweredOnce W root acts) :
    (answers acts = [] ∧ Flooding W root s') ∨
      ∃ d k before last, answers acts = [(d, k)] ∧
        ((∃ rest, Returning W root s' (W.next d) before last rest) ∨
          Established W root s' (W.next d) before last) := by
  induction hrun with
  | nil => exact Or.inl ⟨rfl, h⟩
  | snoc hrun hstep ih =>
    rename_i acts a s₁ s₂
    have hlast : a.isLocal = false := hlocal a (by simp)
    have honce := hone.once
    have helsewhere := hone.elsewhere
    rw [answers_append, answers_singleton] at honce helsewhere ⊢
    rcases ih (fun b hb => hlocal b (List.mem_append_left _ hb)) hone.of_append with
      ⟨hnone, hflooding⟩ | ⟨d, k, before, last, hanswers, hphase⟩
    · rw [hnone] at helsewhere ⊢
      cases hanswer : a.answered with
      | none => exact Or.inl ⟨rfl, hflooding.step hstep hlast hanswer⟩
      | some e =>
        rw [hanswer] at helsewhere
        rw [answered_eq hanswer] at hstep
        obtain ⟨rest, hreturning⟩ := hflooding.answer hstep (helsewhere e (by simp))
        exact Or.inr ⟨e.1, e.2, [], W.peer e.1, rfl, Or.inl ⟨rest, hreturning⟩⟩
    · rw [hanswers] at honce ⊢
      have hanswer : a.answered = none := by
        cases hanswer : a.answered with
        | none => rfl
        | some e => simp [hanswer] at honce
      rw [hanswer]
      refine Or.inr ⟨d, k, ?_⟩
      rcases hphase with ⟨rest, hreturning⟩ | hestablished
      · rcases hreturning.step hstep hlast hanswer with h | h | ⟨e, rest', -, h⟩
        · exact ⟨before, last, rfl, Or.inl ⟨rest, h⟩⟩
        · exact ⟨before, last, rfl, Or.inr h⟩
        · exact ⟨before ++ [last], e, rfl, Or.inl ⟨rest', h⟩⟩
      · exact ⟨before, last, rfl, Or.inr (hestablished.step hstep hlast hanswer).1⟩

theorem Run.established_stable {acts : List (Act ν δ)} {before : List δ} {last : δ}
    (hrun : Run W s acts s') (h : Established W root s n before last)
    (hlocal : ∀ a ∈ acts, a.isLocal = false) (hanswers : answers acts = []) :
    Established W root s' n before last ∧ s'.pairs = s.pairs := by
  induction hrun with
  | nil => exact ⟨h, rfl⟩
  | snoc hrun hstep ih =>
    rename_i acts a s₁ s₂
    rw [answers_append, List.append_eq_nil_iff, answers_singleton, Option.toList_eq_nil_iff] at hanswers
    obtain ⟨hestablished, hpairs⟩ := ih (fun b hb => hlocal b (List.mem_append_left _ hb)) hanswers.1
    obtain ⟨hestablished', hpairs'⟩ := hestablished.step hstep (hlocal a (by simp)) hanswers.2
    exact ⟨hestablished', hpairs'.trans hpairs⟩

section Counts

def Act.copies : Act ν δ → List (δ × ℕ)
  | .start _ copies => copies
  | .flood _ _ copies => copies
  | _ => []

def Act.receivedBy (W : Wiring ν δ) : Act ν δ → Option ν
  | .answer d _ => some (W.next d)
  | .discard d _ => some (W.next d)
  | .flood d _ _ => some (W.next d)
  | _ => none

def Act.answeredBy (W : Wiring ν δ) : Act ν δ → Option ν
  | .answer d _ => some (W.next d)
  | _ => none

def Act.forwardedBy (W : Wiring ν δ) : Act ν δ → Option ν
  | .flood d _ copies => if copies = [] then none else some (W.next d)
  | _ => none

def Act.acceptedBy (W : Wiring ν δ) : Act ν δ → Option ν
  | .accept d => some (W.next d)
  | _ => none

def Act.isStart : Act ν δ → Bool
  | .start _ _ => true
  | _ => false

omit [DecidableEq ν] in
theorem Act.answeredBy_eq (a : Act ν δ) : a.answeredBy W = a.answered.map (fun e => W.next e.1) := by
  cases a <;> rfl

theorem Step.pending_kept (hstep : Step W s a s') (hstart : a.isStart = false)
    (hn : (s.pending n).isSome) : (s'.pending n).isSome ∨ a.acceptedBy W = some n := by
  cases hstep with
  | register m => exact Or.inl hn
  | start m copies hcopies => cases hstart
  | answer d k rest hd htarget => exact Or.inl hn
  | discard d k rest hd htarget hpending => exact Or.inl hn
  | flood d k copies rest hd htarget hpending hcopies =>
    by_cases hsame : n = W.next d
    · exact Or.inl (by simp [hsame])
    · exact Or.inl (by simpa [Function.update_of_ne hsame] using hn)
  | accept d r rest hd hpending =>
    by_cases hsame : n = W.next d
    · exact Or.inr (by rw [Act.acceptedBy, hsame])
    · exact Or.inl (by simpa [Function.update_of_ne hsame] using hn)
  | drop d rest hd hpending => exact Or.inl hn

theorem Step.forwardedBy_pending (hstep : Step W s a s') (hn : a.forwardedBy W = some n) :
    s.pending n = none ∧ (s'.pending n).isSome := by
  cases hstep with
  | flood d k copies rest hd htarget hpending hcopies =>
    simp only [Act.forwardedBy] at hn
    split at hn
    · cases hn
    · cases hn
      exact ⟨hpending, by simp⟩
  | _ => cases hn

/-- No node that sends copies on has accepted an acknowledgement before. -/
def Timely (W : Wiring ν δ) (acts : List (Act ν δ)) : Prop :=
  acts.Pairwise (fun a b => ∀ n, a.acceptedBy W = some n → b.forwardedBy W ≠ some n)

theorem Run.forwarded_once {acts : List (Act ν δ)} (hrun : Run W s acts s')
    (hstart : ∀ a ∈ acts, a.isStart = false) (htimely : Timely W acts) (sent : List ν) (hsent : sent.Nodup)
    (hpending : ∀ n ∈ sent, (s.pending n).isSome) :
    (sent ++ acts.filterMap (Act.forwardedBy W)).Nodup ∧
      ∀ n ∈ sent ++ acts.filterMap (Act.forwardedBy W), (s'.pending n).isSome ∨
        ∃ a ∈ acts, a.acceptedBy W = some n := by
  induction hrun with
  | nil =>
    rw [List.filterMap_nil, List.append_nil]
    exact ⟨hsent, fun n hn => Or.inl (hpending n hn)⟩
  | snoc hrun hstep ih =>
    rename_i acts a s₁ s₂
    obtain ⟨hold, -, hnew⟩ := List.pairwise_append.mp htimely
    obtain ⟨hnodup, hwaiting⟩ := ih (fun b hb => hstart b (List.mem_append_left _ hb)) hold
    have hkept : ∀ n ∈ sent ++ acts.filterMap (Act.forwardedBy W), (s₂.pending n).isSome ∨
        ∃ b ∈ acts ++ [a], b.acceptedBy W = some n := by
      intro n hn
      rcases hwaiting n hn with hsome | ⟨b, hb, haccept⟩
      · rcases hstep.pending_kept (hstart a (by simp)) hsome with hsome | haccept
        · exact Or.inl hsome
        · exact Or.inr ⟨a, by simp, haccept⟩
      · exact Or.inr ⟨b, List.mem_append_left _ hb, haccept⟩
    rw [List.filterMap_append, ← List.append_assoc]
    cases hflood : a.forwardedBy W with
    | none => simpa [hflood] using And.intro hnodup hkept
    | some m =>
      obtain ⟨hnone, hsome⟩ := hstep.forwardedBy_pending hflood
      have hfresh : m ∉ sent ++ acts.filterMap (Act.forwardedBy W) := by
        intro hm
        rcases hwaiting m hm with hm | ⟨b, hb, haccept⟩
        · simp [hnone] at hm
        · exact hnew b hb a (by simp) m haccept hflood
      have hone : [a].filterMap (Act.forwardedBy W) = [m] := by simp [hflood]
      rw [hone]
      refine ⟨?_, ?_⟩
      · rw [← List.concat_eq_append]
        exact hnodup.concat hfresh
      · intro n hn
        rcases List.mem_append.mp hn with hn | hn
        · exact hkept n hn
        · rw [List.mem_singleton.mp hn]
          exact Or.inl hsome

theorem Step.targets_eq (hstep : Step W s a s') (hlocal : a.isLocal = false) (n : ν) :
    s.targets n = s'.targets n + (if a.answeredBy W = some n then 1 else 0) ∧
      (a.receivedBy W = some n → a.answeredBy W = if 0 < s.targets n then some n else none) := by
  cases hstep with
  | register m => cases hlocal
  | start m copies hcopies => cases hlocal
  | answer d k rest hd htarget =>
    by_cases hsame : n = W.next d
    · subst hsame
      simp only [Act.answeredBy, Act.receivedBy, Function.update_self, if_true, if_pos htarget]
      exact ⟨by omega, fun _ => trivial⟩
    · have hne : W.next d ≠ n := fun heq => hsame heq.symm
      simp [Act.answeredBy, Act.receivedBy, Function.update_of_ne hsame, hne]
  | discard d k rest hd htarget hpending =>
    refine ⟨by simp [Act.answeredBy], ?_⟩
    intro hn
    obtain rfl : W.next d = n := by simpa [Act.receivedBy] using hn
    simp [Act.answeredBy, htarget]
  | flood d k copies rest hd htarget hpending hcopies =>
    refine ⟨by simp [Act.answeredBy], ?_⟩
    intro hn
    obtain rfl : W.next d = n := by simpa [Act.receivedBy] using hn
    simp [Act.answeredBy, htarget]
  | accept d r rest hd hpending => simp [Act.answeredBy, Act.receivedBy]
  | drop d rest hd hpending => simp [Act.answeredBy, Act.receivedBy]

omit [DecidableEq ν] in
theorem Act.receivedBy_of_answeredBy (h : a.answeredBy W = some n) : a.receivedBy W = some n := by
  cases a with
  | answer d k => exact h
  | _ => cases h

theorem Run.answers_count {acts : List (Act ν δ)} (hrun : Run W s acts s')
    (hlocal : ∀ a ∈ acts, a.isLocal = false) (n : ν) :
    s.targets n = s'.targets n + (acts.filterMap (Act.answeredBy W)).count n ∧
      (acts.filterMap (Act.answeredBy W)).count n =
        min (s.targets n) ((acts.filterMap (Act.receivedBy W)).count n) := by
  induction hrun with
  | nil => simp
  | snoc hrun hstep ih =>
    rename_i acts a s₁ s₂
    obtain ⟨hleft, hcount⟩ := ih (fun b hb => hlocal b (List.mem_append_left _ hb))
    obtain ⟨htargets, hreceived⟩ := hstep.targets_eq (hlocal a (by simp)) n
    have hlast (f : Act ν δ → Option ν) :
        ((acts ++ [a]).filterMap f).count n = (acts.filterMap f).count n + (if f a = some n then 1 else 0) := by
      rw [List.filterMap_append, List.count_append]
      congr 1
      cases hf : f a with
      | none => simp [hf]
      | some m => simp [hf, List.count_singleton]
    rw [hlast, hlast]
    by_cases hsame : a.receivedBy W = some n
    · rw [hreceived hsame] at htargets ⊢
      rw [if_pos hsame]
      by_cases hpos : 0 < s₁.targets n
      · rw [if_pos hpos, if_pos rfl] at htargets ⊢
        omega
      · rw [if_neg hpos, if_neg (by simp)] at htargets ⊢
        omega
    · have hnot : a.answeredBy W ≠ some n := fun h => hsame (Act.receivedBy_of_answeredBy h)
      rw [if_neg hnot] at htargets ⊢
      rw [if_neg hsame]
      omega

end Counts

section Follow

variable [DecidableEq δ]

def follow (W : Wiring ν δ) (pairs : ν → Option (Option δ × Option δ)) : ℕ → Option δ → ν → List ν
  | 0, _, n => [n]
  | k + 1, arrival, n =>
    match pairs n with
    | none => [n]
    | some (a, b) =>
      match (if a = arrival then b else if b = arrival then a else none) with
      | none => [n]
      | some d => n :: follow W pairs k (some (W.peer d)) (W.next d)

variable {pairs : ν → Option (Option δ × Option δ)}

omit [DecidableEq ν] in
theorem follow_forth {before : List δ} {last : δ} {arrival : Option δ} (k : ℕ)
    (hpath : Path W n m (before ++ [last])) (hpaired : Paired W pairs arrival (before ++ [last]))
    (hend : pairs m = some (some (W.peer last), none)) :
    follow W pairs (before.length + 2 + k) arrival n = nodes W n (before ++ [last]) := by
  induction before generalizing n arrival with
  | nil =>
    obtain ⟨hn, hm⟩ := hpath
    obtain ⟨hpair, -⟩ := hpaired
    obtain rfl : W.next last = m := hm
    rw [hn] at hpair
    rw [show ([] : List δ).length + 2 + k = (k + 1) + 1 by simp; omega]
    simp [follow, hpair, hend, nodes]
  | cons d before ih =>
    obtain ⟨hn, hrest⟩ := hpath
    obtain ⟨hpair, hpaired⟩ := hpaired
    rw [hn] at hpair
    rw [show (d :: before).length + 2 + k = (before.length + 2 + k) + 1 by simp; omega]
    simp only [follow, hpair, if_true]
    rw [ih hrest hpaired]
    simp [nodes]

omit [DecidableEq ν] [DecidableEq δ] in
theorem Paired.last {before : List δ} {d e : δ} {arrival : Option δ}
    (h : Paired W pairs arrival (before ++ [d] ++ [e])) :
    pairs (W.owner e) = some (some (W.peer d), some e) := by
  induction before generalizing arrival with
  | nil => exact h.2.1
  | cons c before ih => exact ih h.2

omit [DecidableEq ν] [DecidableEq δ] in
theorem Paired.init {before : List δ} {d : δ} {arrival : Option δ}
    (h : Paired W pairs arrival (before ++ [d])) : Paired W pairs arrival before := by
  induction before generalizing arrival with
  | nil => trivial
  | cons c before ih => exact ⟨h.1, ih h.2⟩

omit [DecidableEq ν] in
theorem follow_back {before : List δ} {last : δ} (k : ℕ) (hpath : Path W n (W.owner last) before)
    (hpaired : Paired W pairs none (before ++ [last])) (hnodup : (nodes W n (before ++ [last])).Nodup) :
    follow W pairs (before.length + 1 + k) (some last) (W.owner last) = (nodes W n before).reverse := by
  induction before using List.reverseRecOn generalizing last with
  | nil =>
    obtain rfl : n = W.owner last := hpath
    obtain ⟨hpair, -⟩ := hpaired
    rw [show ([] : List δ).length + 1 + k = k + 1 by simp; omega]
    simp [follow, hpair, nodes]
  | append_singleton before c ih =>
    have hsplit : nodes W n (before ++ [c] ++ [last]) = nodes W n before ++ [W.next c, W.next last] := by
      simp [nodes]
    have hc : W.next c = W.owner last := hpath.end_eq
    have hpath' : Path W n (W.owner c) before := hpath.init
    have hne : W.peer c ≠ last := by
      rintro rfl
      rw [hsplit, show W.next (W.peer c) = W.owner c by simp [Wiring.next, W.peer_peer]] at hnodup
      exact (List.nodup_append.mp hnodup).2.2 _ hpath'.end_mem _ (by simp) rfl
    have hback : W.next (W.peer c) = W.owner c := by simp [Wiring.next, W.peer_peer]
    rw [show (before ++ [c]).length + 1 + k = (before.length + 1 + k) + 1 by simp; omega]
    simp only [follow, hpaired.last, Option.some.injEq, hne, if_false, if_true, W.peer_peer, hback]
    rw [ih hpath' hpaired.init]
    · simp [nodes, hc]
    · rw [hsplit] at hnodup
      have hshort : nodes W n (before ++ [c]) = nodes W n before ++ [W.next c] := by simp [nodes]
      rw [hshort]
      exact hnodup.sublist (by simp)

omit [DecidableEq ν] in
theorem Tunnel.follow_forth {before : List δ} {last : δ} (h : Tunnel W m pairs n before last) (k : ℕ) :
    follow W pairs (before.length + 2 + k) none n = nodes W n (before ++ [last]) :=
  ReversePath.follow_forth k h.path h.paired h.atRoot

omit [DecidableEq ν] in
theorem Tunnel.follow_back {before : List δ} {last : δ} (h : Tunnel W m pairs n before last) (k : ℕ) :
    follow W pairs (before.length + 2 + k) none m = (nodes W n (before ++ [last])).reverse := by
  have hend : W.next last = m := h.path.end_eq
  have hback : W.next (W.peer last) = W.owner last := by simp [Wiring.next, W.peer_peer]
  rw [show before.length + 2 + k = (before.length + 1 + k) + 1 by omega]
  simp only [follow, h.atRoot, reduceCtorEq, if_false, if_true, W.peer_peer, hback]
  rw [ReversePath.follow_back k h.path.init h.paired h.nodup]
  simp [nodes, hend]

end Follow

end LeoNdn.ReversePath
