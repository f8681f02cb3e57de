import Mathlib.Data.List.Basic
import Mathlib.Data.Nat.ModEq
import Mathlib.Tactic.Ring

/-!
The topology snapshots that `Constellation` generates. A snapshot is a
`networkx` graph over satellite names; the nested loops that fill it are kept
as loops, and the neighbours they produce are compared with the torus of
orbits and satellite numbers.
-/

namespace LeoNdn.InterSatelliteLinks

/-- `networkx.Graph`: the edges in insertion order, each with its `weight`. -/
structure Graph (ι ω : Type) where
  edges : List ((ι × ι) × ω) := []
  deriving Repr

namespace Graph

variable {ι ω : Type}

def Adj (G : Graph ι ω) (u v : ι) : Prop :=
  ∃ e ∈ G.edges, e.1 = (u, v) ∨ e.1 = (v, u)

instance [DecidableEq ι] (G : Graph ι ω) (u v : ι) : Decidable (G.Adj u v) :=
  inferInstanceAs (Decidable (∃ e ∈ G.edges, e.1 = (u, v) ∨ e.1 = (v, u)))

theorem foldl_adj {β : Type} (f : Graph ι ω → β → Graph ι ω) (E : β → ι → ι → Prop)
    (hf : ∀ G b x y, (f G b).Adj x y ↔ G.Adj x y ∨ E b x y) (l : List β) (G : Graph ι ω) (x y : ι) :
    (l.foldl f G).Adj x y ↔ G.Adj x y ∨ ∃ b ∈ l, E b x y := by
  induction l generalizing G with
  | nil => simp
  | cons b l ih => simp only [List.foldl_cons, ih, hf, List.exists_mem_cons_iff, or_assoc]

variable [DecidableEq ι]

/-- `add_edge`: an edge that is already there only gets the new weight. -/
def addEdge (G : Graph ι ω) (u v : ι) (weight : ω) : Graph ι ω :=
  if G.Adj u v then
    ⟨G.edges.map (fun e => if e.1 = (u, v) ∨ e.1 = (v, u) then (e.1, weight) else e)⟩
  else ⟨G.edges ++ [((u, v), weight)]⟩

theorem addEdge_adj (G : Graph ι ω) (u v : ι) (weight : ω) (x y : ι) :
    (G.addEdge u v weight).Adj x y ↔ G.Adj x y ∨ (x, y) = (u, v) ∨ (x, y) = (v, u) := by
  unfold addEdge
  split_ifs with h
  · have hmap : Adj (⟨G.edges.map (fun e =>
        if e.1 = (u, v) ∨ e.1 = (v, u) then (e.1, weight) else e)⟩ : Graph ι ω) x y ↔ G.Adj x y := by
      simp only [Adj, List.mem_map]
      constructor
      · rintro ⟨_, ⟨e, he, rfl⟩, hxy⟩
        refine ⟨e, he, ?_⟩
        split_ifs at hxy <;> exact hxy
      · rintro ⟨e, he, hxy⟩
        refine ⟨_, ⟨e, he, rfl⟩, ?_⟩
        split_ifs <;> exact hxy
    rw [hmap]
    constructor
    · exact Or.inl
    · rintro (hxy | hxy | hxy)
      · exact hxy
      · obtain ⟨rfl, rfl⟩ := Prod.mk.injEq .. ▸ hxy
        exact h
      · obtain ⟨rfl, rfl⟩ := Prod.mk.injEq .. ▸ hxy
        obtain ⟨e, he, hor⟩ := h
        exact ⟨e, he, hor.symm⟩
  · simp only [Adj, List.mem_append, List.mem_singleton, Prod.mk.injEq]
    constructor
    · rintro ⟨e, he | rfl, hxy⟩
      · exact Or.inl ⟨e, he, hxy⟩
      · simp only [Prod.mk.injEq] at hxy
        rcases hxy with ⟨rfl, rfl⟩ | ⟨rfl, rfl⟩ <;> simp
    · rintro (⟨e, he, hxy⟩ | ⟨rfl, rfl⟩ | ⟨rfl, rfl⟩)
      · exact ⟨e, Or.inl he, hxy⟩
      · exact ⟨_, Or.inr rfl, Or.inl rfl⟩
      · exact ⟨_, Or.inr rfl, Or.inr rfl⟩

end Graph

def getSatId (orbitNum satNum : ℕ) : String :=
  "sat-" ++ (toString orbitNum ++ ("-" ++ toString satNum))

theorem dash_notMem_digits (n : ℕ) : '-' ∉ Nat.toDigits 10 n := by
  intro h
  have := Nat.isDigit_of_mem_toDigits (by omega) (by omega) h
  simp [Char.isDigit] at this

theorem toDigits_injective {m n : ℕ} (h : Nat.toDigits 10 m = Nat.toDigits 10 n) : m = n := by
  rw [← Nat.ofDigitChars_toDigits (n := m) (by omega) (le_refl 10), h,
    Nat.ofDigitChars_toDigits (by omega) (le_refl 10)]

theorem getSatId_injective {o s o' s' : ℕ} (h : getSatId o s = getSatId o' s') : o = o' ∧ s = s' := by
  have hl := congrArg String.toList h
  have hd (n : ℕ) : (toString n).toList = Nat.toDigits 10 n := Nat.toList_repr
  have hdash : "-".toList = ['-'] := rfl
  simp only [getSatId, String.toList_append, List.append_cancel_left_eq, hd, hdash,
    List.singleton_append] at hl
  obtain ⟨ho, -, hs⟩ := (List.append_cons_inj_of_notMem (dash_notMem_digits o)
    (dash_notMem_digits s)).mp hl
  exact ⟨toDigits_injective ho, toDigits_injective hs⟩

/-- The part of `Constellation` that the topology is generated from. The length
of an inter-satellite link at an epoch is whatever the orbital model returns. -/
structure Constellation (ω : Type) where
  NUM_ORBITS : ℕ
  NUM_SATS_PER_ORBIT : ℕ
  SIM_PERIOD : ℕ
  getDistance : ℕ × ℕ → ℕ × ℕ → ℕ → ω

variable {ω : Type} (c : Constellation ω)

def addISL (t : ℕ) (G : Graph String ω) (a b : ℕ × ℕ) : Graph String ω :=
  G.addEdge (getSatId a.1 a.2) (getSatId b.1 b.2) (c.getDistance a b t)

/-- The body of the loop over `satNum`. -/
def addSatLinks (t orbitNum : ℕ) (G : Graph String ω) (satNum : ℕ) : Graph String ω :=
  let G := addISL c t G (orbitNum, satNum) (orbitNum, satNum + 1)
  if orbitNum < c.NUM_ORBITS - 1 then addISL c t G (orbitNum, satNum) (orbitNum + 1, satNum)
  else addISL c t G (orbitNum, satNum) (0, satNum)

/-- The body of the loop over `orbitNum`. -/
def addOrbitLinks (t : ℕ) (G : Graph String ω) (orbitNum : ℕ) : Graph String ω :=
  let G := (List.range (c.NUM_SATS_PER_ORBIT - 1)).foldl (addSatLinks c t orbitNum) G
  addISL c t G (orbitNum, 0) (orbitNum, c.NUM_SATS_PER_ORBIT - 1)

def snapshot (t : ℕ) : Graph String ω :=
  (List.range c.NUM_ORBITS).foldl (addOrbitLinks c t) {}

def snapshots : List (Graph String ω) := (List.range c.SIM_PERIOD).map (snapshot c)

/-- `storeISLs`: the links the simulation installs, from the first snapshot. -/
def storeISLs : List (String × String) :=
  ((snapshots c).headD {}).edges.map (fun e => e.1)

def SatLink (orbitNum satNum : ℕ) (x y : String) : Prop :=
  let next := if orbitNum < c.NUM_ORBITS - 1 then orbitNum + 1 else 0
  ((x, y) = (getSatId orbitNum satNum, getSatId orbitNum (satNum + 1)) ∨
    (x, y) = (getSatId orbitNum (satNum + 1), getSatId orbitNum satNum)) ∨
  (x, y) = (getSatId orbitNum satNum, getSatId next satNum) ∨
    (x, y) = (getSatId next satNum, getSatId orbitNum satNum)

theorem addSatLinks_adj (t orbitNum : ℕ) (G : Graph String ω) (satNum : ℕ) (x y : String) :
    (addSatLinks c t orbitNum G satNum).Adj x y ↔ G.Adj x y ∨ SatLink c orbitNum satNum x y := by
  unfold addSatLinks SatLink addISL
  split_ifs <;> simp only [Graph.addEdge_adj, or_assoc]

theorem addOrbitLinks_adj (t : ℕ) (G : Graph String ω) (orbitNum : ℕ) (x y : String) :
    (addOrbitLinks c t G orbitNum).Adj x y ↔ G.Adj x y ∨
      (∃ satNum ∈ List.range (c.NUM_SATS_PER_ORBIT - 1), SatLink c orbitNum satNum x y) ∨
      (x, y) = (getSatId orbitNum 0, getSatId orbitNum (c.NUM_SATS_PER_ORBIT - 1)) ∨
      (x, y) = (getSatId orbitNum (c.NUM_SATS_PER_ORBIT - 1), getSatId orbitNum 0) := by
  unfold addOrbitLinks
  simp only [addISL, Graph.addEdge_adj,
    Graph.foldl_adj _ (SatLink c orbitNum) (addSatLinks_adj c t orbitNum), or_assoc]

theorem snapshot_adj (t : ℕ) (x y : String) :
    (snapshot c t).Adj x y ↔ ∃ o < c.NUM_ORBITS,
      (∃ s < c.NUM_SATS_PER_ORBIT - 1, SatLink c o s x y) ∨
      (x, y) = (getSatId o 0, getSatId o (c.NUM_SATS_PER_ORBIT - 1)) ∨
      (x, y) = (getSatId o (c.NUM_SATS_PER_ORBIT - 1), getSatId o 0) := by
  unfold snapshot
  rw [Graph.foldl_adj (addOrbitLinks c t) _ (addOrbitLinks_adj c t)]
  simp [Graph.Adj]

def Linked (a b : ℕ × ℕ) : Prop :=
  (a.1 = b.1 ∧ a.1 < c.NUM_ORBITS ∧
    ((b.2 = a.2 + 1 ∧ a.2 < c.NUM_SATS_PER_ORBIT - 1) ∨
      (a.2 = b.2 + 1 ∧ b.2 < c.NUM_SATS_PER_ORBIT - 1) ∨
      (a.2 = 0 ∧ b.2 = c.NUM_SATS_PER_ORBIT - 1) ∨
      (a.2 = c.NUM_SATS_PER_ORBIT - 1 ∧ b.2 = 0))) ∨
  (a.2 = b.2 ∧ a.2 < c.NUM_SATS_PER_ORBIT - 1 ∧
    ((a.1 < c.NUM_ORBITS ∧ b.1 = if a.1 < c.NUM_ORBITS - 1 then a.1 + 1 else 0) ∨
      (b.1 < c.NUM_ORBITS ∧ a.1 = if b.1 < c.NUM_ORBITS - 1 then b.1 + 1 else 0)))

theorem pair_eq_getSatId {a : ℕ × ℕ} {y : String} {o s o' s' : ℕ} :
    (getSatId a.1 a.2, y) = (getSatId o s, getSatId o' s') ↔
      a = (o, s) ∧ y = getSatId o' s' := by
  constructor
  · intro h
    obtain ⟨h1, h2⟩ := Prod.mk.inj h
    obtain ⟨ho, hs⟩ := getSatId_injective h1
    exact ⟨Prod.ext ho hs, h2⟩
  · rintro ⟨rfl, rfl⟩
    rfl

theorem snapshot_adj_iff (t : ℕ) (a : ℕ × ℕ) (y : String) :
    (snapshot c t).Adj (getSatId a.1 a.2) y ↔ ∃ b, y = getSatId b.1 b.2 ∧ Linked c a b := by
  rw [snapshot_adj]
  simp only [SatLink, pair_eq_getSatId]
  constructor
  · rintro ⟨o, ho, ⟨s, hs, (⟨rfl, rfl⟩ | ⟨rfl, rfl⟩) | ⟨rfl, rfl⟩ | ⟨rfl, rfl⟩⟩ | ⟨rfl, rfl⟩ | ⟨rfl, rfl⟩⟩
    · exact ⟨(o, s + 1), rfl, Or.inl ⟨rfl, ho, Or.inl ⟨rfl, hs⟩⟩⟩
    · exact ⟨(o, s), rfl, Or.inl ⟨rfl, ho, Or.inr (Or.inl ⟨rfl, hs⟩)⟩⟩
    · exact ⟨(_, s), rfl, Or.inr ⟨rfl, hs, Or.inl ⟨ho, rfl⟩⟩⟩
    · exact ⟨(o, s), rfl, Or.inr ⟨rfl, hs, Or.inr ⟨ho, rfl⟩⟩⟩
    · exact ⟨(o, _), rfl, Or.inl ⟨rfl, ho, Or.inr (Or.inr (Or.inl ⟨rfl, rfl⟩))⟩⟩
    · exact ⟨(o, _), rfl, Or.inl ⟨rfl, ho, Or.inr (Or.inr (Or.inr ⟨rfl, rfl⟩))⟩⟩
  · obtain ⟨o, s⟩ := a
    rintro ⟨⟨o', s'⟩, rfl, ⟨heq, ho, hs | hs | hs | hs⟩ | ⟨heq, hs, hor | hor⟩⟩
    all_goals simp only at *
    · obtain ⟨rfl, hs⟩ := hs
      subst heq
      exact ⟨o, ho, Or.inl ⟨s, hs, Or.inl (Or.inl ⟨rfl, rfl⟩)⟩⟩
    · obtain ⟨rfl, hs⟩ := hs
      subst heq
      exact ⟨o, ho, Or.inl ⟨s', hs, Or.inl (Or.inr ⟨rfl, rfl⟩)⟩⟩
    · obtain ⟨rfl, rfl⟩ := hs
      subst heq
      exact ⟨o, ho, Or.inr (Or.inl ⟨rfl, rfl⟩)⟩
    · obtain ⟨rfl, rfl⟩ := hs
      subst heq
      exact ⟨o, ho, Or.inr (Or.inr ⟨rfl, rfl⟩)⟩
    · obtain ⟨ho, rfl⟩ := hor
      subst heq
      exact ⟨o, ho, Or.inl ⟨s, hs, Or.inr (Or.inl ⟨rfl, rfl⟩)⟩⟩
    · obtain ⟨ho, rfl⟩ := hor
      subst heq
      exact ⟨o', ho, Or.inl ⟨s, hs, Or.inr (Or.inr ⟨rfl, rfl⟩)⟩⟩

/-- The four neighbours of a satellite on the torus of `m` orbits with `n`
satellites each, in the order: previous and next of the orbit, previous and
next orbit. -/
def torusNeighbours (m n : ℕ) (a : ℕ × ℕ) : List (ℕ × ℕ) :=
  [(a.1, (a.2 + n - 1) % n), (a.1, (a.2 + 1) % n), ((a.1 + m - 1) % m, a.2), ((a.1 + 1) % m, a.2)]

theorem succ_mod {i n : ℕ} (hi : i < n) : (i + 1) % n = if i < n - 1 then i + 1 else 0 := by
  split_ifs with h
  · exact Nat.mod_eq_of_lt (by omega)
  · rw [show i + 1 = n by omega, Nat.mod_self]

theorem pred_mod {i n : ℕ} (hi : i < n) : (i + n - 1) % n = if i = 0 then n - 1 else i - 1 := by
  split_ifs with h
  · rw [h, Nat.zero_add]
    exact Nat.mod_eq_of_lt (by omega)
  · rw [show i + n - 1 = i - 1 + n by omega, Nat.add_mod_right, Nat.mod_eq_of_lt (by omega)]

theorem satNum_adjacent_iff {n s s' : ℕ} (hs : s < n - 1) :
    (s' = s + 1 ∧ s < n - 1 ∨ s = s' + 1 ∧ s' < n - 1 ∨ s = 0 ∧ s' = n - 1 ∨ s = n - 1 ∧ s' = 0) ↔
      s' = (if s = 0 then n - 1 else s - 1) ∨ s' = if s < n - 1 then s + 1 else 0 := by
  rw [if_pos hs]
  split_ifs <;> omega

theorem orbitNum_adjacent_iff {m o o' : ℕ} (ho : o < m) :
    (o < m ∧ (o' = if o < m - 1 then o + 1 else 0) ∨ o' < m ∧ o = if o' < m - 1 then o' + 1 else 0) ↔
      o' = (if o = 0 then m - 1 else o - 1) ∨ o' = if o < m - 1 then o + 1 else 0 := by
  have hprev : (o' < m ∧ o = if o' < m - 1 then o' + 1 else 0) ↔ o' = if o = 0 then m - 1 else o - 1 := by
    split_ifs <;> omega
  rw [hprev, and_iff_right ho]
  exact or_comm

theorem linked_iff_torus {m n : ℕ} (hm : c.NUM_ORBITS = m) (hn : c.NUM_SATS_PER_ORBIT = n)
    (a b : ℕ × ℕ) (h1 : a.1 < m) (h2 : a.2 < n - 1) :
    Linked c a b ↔ b ∈ torusNeighbours m n a := by
  obtain ⟨o, s⟩ := a
  obtain ⟨o', s'⟩ := b
  have hs : s < n := Nat.lt_of_lt_of_le h2 (Nat.sub_le n 1)
  dsimp only at h1 h2
  simp only [Linked, torusNeighbours, hm, hn, List.mem_cons, List.not_mem_nil, or_false, Prod.mk.injEq,
    succ_mod h1, succ_mod hs, pred_mod h1, pred_mod hs, satNum_adjacent_iff h2, orbitNum_adjacent_iff h1]
  constructor
  · rintro (⟨rfl, -, hprev | hnext⟩ | ⟨rfl, -, hprev | hnext⟩)
    · exact Or.inl ⟨rfl, hprev⟩
    · exact Or.inr (Or.inl ⟨rfl, hnext⟩)
    · exact Or.inr (Or.inr (Or.inl ⟨hprev, rfl⟩))
    · exact Or.inr (Or.inr (Or.inr ⟨hnext, rfl⟩))
  · rintro (⟨rfl, hprev⟩ | ⟨rfl, hnext⟩ | ⟨hprev, rfl⟩ | ⟨hnext, rfl⟩)
    · exact Or.inl ⟨rfl, h1, Or.inl hprev⟩
    · exact Or.inl ⟨rfl, h1, Or.inr hnext⟩
    · exact Or.inr ⟨rfl, h2, Or.inl hprev⟩
    · exact Or.inr ⟨rfl, h2, Or.inr hnext⟩

theorem linked_last {a b : ℕ × ℕ} (h : Linked c a b) (ha : a.2 = c.NUM_SATS_PER_ORBIT - 1) :
    b.1 = a.1 := by
  rcases h with ⟨h, -⟩ | ⟨-, h, -⟩
  · exact h.symm
  · omega

def torusIds (a : ℕ × ℕ) : List String :=
  (torusNeighbours c.NUM_ORBITS c.NUM_SATS_PER_ORBIT a).map (fun b => getSatId b.1 b.2)

/-- Every snapshot links a satellite to its four torus neighbours and to nothing
else exactly when it is not the last satellite of its orbit: the loop over
`satNum` that also adds the links between orbits stops one short. -/
theorem snapshot_torus_iff (hm : 3 ≤ c.NUM_ORBITS) (hn : 3 ≤ c.NUM_SATS_PER_ORBIT)
    (G : Graph String ω) (hG : G ∈ snapshots c) (o s : ℕ) (ho : o < c.NUM_ORBITS)
    (hs : s < c.NUM_SATS_PER_ORBIT) :
    (∀ y, G.Adj (getSatId o s) y ↔ y ∈ torusIds c (o, s)) ↔ s ≠ c.NUM_SATS_PER_ORBIT - 1 := by
  obtain ⟨t, -, rfl⟩ := List.mem_map.mp hG
  constructor
  · intro h hlast
    have hmem : getSatId ((o + 1) % c.NUM_ORBITS) s ∈ torusIds c (o, s) :=
      List.mem_map.mpr ⟨((o + 1) % c.NUM_ORBITS, s), by simp [torusNeighbours], rfl⟩
    obtain ⟨b, hb, hl⟩ := (snapshot_adj_iff c t (o, s) _).mp ((h _).mpr hmem)
    have hnext : (o + 1) % c.NUM_ORBITS = o :=
      (getSatId_injective hb).1.trans (linked_last c hl hlast)
    rw [succ_mod ho] at hnext
    split_ifs at hnext <;> omega
  · intro hlast y
    rw [snapshot_adj_iff c t (o, s)]
    simp only [torusIds, List.mem_map]
    constructor
    · rintro ⟨b, rfl, hl⟩
      exact ⟨b, (linked_iff_torus c rfl rfl (o, s) b ho (by change s < _; omega)).mp hl, rfl⟩
    · rintro ⟨b, hb, rfl⟩
      exact ⟨b, rfl, (linked_iff_torus c rfl rfl (o, s) b ho (by change s < _; omega)).mpr hb⟩

def threeByThree : Constellation ℕ := ⟨3, 3, 1, fun _ _ _ => 0⟩

theorem snapshot_torus_iff_threeByThree :
    (∀ y, (snapshot threeByThree 0).Adj (getSatId 0 1) y ↔ y ∈ torusIds threeByThree (0, 1)) ↔
      1 ≠ 2 :=
  snapshot_torus_iff threeByThree (by decide) (by decide) (snapshot threeByThree 0)
    (List.mem_map.mpr ⟨0, by decide, rfl⟩) 0 1 (by decide) (by decide)

/-- `sat-0-2` and `sat-1-2` are not linked. -/
theorem last_satellite_not_torus :
    ¬ ∀ G ∈ snapshots threeByThree, ∀ o < 3, ∀ s < 3, ∀ y,
      G.Adj (getSatId o s) y ↔ y ∈ torusIds threeByThree (o, s) := by
  intro h
  have hadj := (h (snapshot threeByThree 0) (List.mem_map.mpr ⟨0, by decide, rfl⟩)
    0 (by decide) 2 (by decide) (getSatId 1 2)).mpr (by decide)
  revert hadj
  decide

end LeoNdn.InterSatelliteLinks
