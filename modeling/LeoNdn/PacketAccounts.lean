import LeoNdn.LpReliability
import Mathlib.Data.Finset.Card

/-!
What a reliable link counts: each network packet is in flight or counted once, and
no fragment is sent more often than it may be. Both go through acknowledgements,
losses and retransmissions in any order.
-/

namespace LeoNdn.PacketAccounts

open LeoNdn.Tlv LeoNdn.LinkService LeoNdn.LpFragmenter LeoNdn.OrderedMaps LeoNdn.LpReliability

section Accounts

variable {options : Options} {s : Reliability} {frags frags' : OrderedMap UnackedFrag} {netPkt txSeq : ℕ}

/-- The fragment under this TxSequence number is one of the packet. -/
def Waits (frags : OrderedMap UnackedFrag) (netPkt txSeq : ℕ) : Prop :=
  ∃ frag, (txSeq, frag) ∈ frags ∧ frag.netPkt = netPkt

def live (frags : OrderedMap UnackedFrag) (netPkt : ℕ) : Bool := frags.any (fun entry => entry.2.netPkt = netPkt)

theorem live_iff : live frags netPkt ↔ ∃ txSeq, Waits frags netPkt txSeq := by
  simp only [live, List.any_eq_true, decide_eq_true_eq, Waits, Prod.exists]

/-- The network packets that have fragments without an acknowledgement. -/
def inFlight (s : Reliability) : ℕ :=
  ((Finset.range s.netPkts.length).filter (fun netPkt => live s.unackedFrags netPkt)).card

structure ListsOf (frags : OrderedMap UnackedFrag) (netPkt : ℕ) (txSeqs : List ℕ) : Prop where
  nodup : txSeqs.Nodup
  mem_iff : ∀ txSeq, txSeq ∈ txSeqs ↔ Waits frags netPkt txSeq

/-- Fragments refer to packets, and packets that have fragments list them. -/
structure Listed (frags : OrderedMap UnackedFrag) (netPkts : List NetPkt) : Prop where
  lt_length : ∀ txSeq frag, (txSeq, frag) ∈ frags → frag.netPkt < netPkts.length
  lists : ∀ netPkt p, netPkts[netPkt]? = some p → live frags netPkt → ListsOf frags netPkt p.unackedFrags

def nTransmissions (s : Reliability) (netPkt fragment : ℕ) : ℕ :=
  s.transmissions.countP (fun sent => sent.netPkt = netPkt ∧ sent.fragment = fragment)

structure Transmitted (options : Options) (s : Reliability) : Prop where
  retxCount_le : ∀ txSeq frag, (txSeq, frag) ∈ s.unackedFrags → frag.retxCount ≤ options.maxRetx
  sent : ∀ txSeq frag, (txSeq, frag) ∈ s.unackedFrags → nTransmissions s frag.netPkt frag.fragment = 1 + frag.retxCount
  distinct : ∀ txSeq frag txSeq' frag', (txSeq, frag) ∈ s.unackedFrags → (txSeq', frag') ∈ s.unackedFrags →
    frag.netPkt = frag'.netPkt → frag.fragment = frag'.fragment → txSeq = txSeq'
  bounded : ∀ netPkt fragment, nTransmissions s netPkt fragment ≤ 1 + options.maxRetx
  fresh : ∀ netPkt fragment, s.netPkts.length ≤ netPkt → nTransmissions s netPkt fragment = 0

structure Consistent (options : Options) (s : Reliability) : Prop where
  window : Window s
  listed : Listed s.unackedFrags s.netPkts
  counted : s.netPkts.length = s.nAcknowledged + s.nRetransmitted + s.nRetxExhausted + inFlight s
  transmitted : Transmitted options s

theorem consistent_initial (options : Options) : Consistent options initial where
  window := ⟨List.Pairwise.nil, fun txSeq frag hmem => (List.not_mem_nil hmem).elim, rfl, rfl⟩
  listed := ⟨fun txSeq frag hmem => (List.not_mem_nil hmem).elim, fun netPkt p hp => by cases hp⟩
  counted := rfl
  transmitted := ⟨fun txSeq frag hmem => (List.not_mem_nil hmem).elim, fun txSeq frag hmem => (List.not_mem_nil hmem).elim,
    fun txSeq frag txSeq' frag' hmem => (List.not_mem_nil hmem).elim, fun netPkt fragment => Nat.zero_le _, fun _ _ _ => rfl⟩

theorem card_live_eq {n : ℕ} (hlt : netPkt < n) (hlive : live frags netPkt) (hdead : live frags' netPkt = false)
    (hother : ∀ other ≠ netPkt, live frags' other = live frags other) :
    ((Finset.range n).filter (fun netPkt => live frags netPkt)).card =
      ((Finset.range n).filter (fun netPkt => live frags' netPkt)).card + 1 := by
  have hnot : netPkt ∉ (Finset.range n).filter (fun netPkt => live frags' netPkt) := by simp [hdead]
  rw [← Finset.card_insert_of_notMem hnot]
  congr 1
  ext other
  rw [Finset.mem_insert, Finset.mem_filter, Finset.mem_filter]
  by_cases heq : other = netPkt
  · subst heq
    simp [hlive, hlt]
  · rw [hother other heq]
    simp [heq]

theorem card_live_congr {n : ℕ} (hsame : ∀ netPkt, live frags' netPkt = live frags netPkt) :
    ((Finset.range n).filter (fun netPkt => live frags' netPkt)).card =
      ((Finset.range n).filter (fun netPkt => live frags netPkt)).card := by
  simp only [hsame]

theorem live_congr (hwaits : ∀ txSeq, Waits frags' netPkt txSeq ↔ Waits frags netPkt txSeq) :
    live frags' netPkt = live frags netPkt := by
  rw [Bool.eq_iff_iff, live_iff, live_iff]
  exact exists_congr hwaits

theorem ListsOf.congr {txSeqs : List ℕ} (h : ListsOf frags netPkt txSeqs)
    (hwaits : ∀ txSeq, Waits frags' netPkt txSeq ↔ Waits frags netPkt txSeq) : ListsOf frags' netPkt txSeqs :=
  ⟨h.nodup, fun txSeq => (h.mem_iff txSeq).trans (hwaits txSeq).symm⟩

theorem Consistent.lookup_netPkt (h : Consistent options s) {frag : UnackedFrag} (hfrag : (txSeq, frag) ∈ s.unackedFrags) :
    ∃ p, s.netPkts[frag.netPkt]? = some p ∧ ListsOf s.unackedFrags frag.netPkt p.unackedFrags := by
  have hlt := h.listed.lt_length _ _ hfrag
  exact ⟨s.netPkts[frag.netPkt], List.getElem?_eq_getElem hlt, h.listed.lists _ _ (List.getElem?_eq_getElem hlt)
    (live_iff.mpr ⟨txSeq, frag, hfrag, rfl⟩)⟩

theorem Transmitted.subset (h : Transmitted options s) {s' : Reliability}
    (hsubset : ∀ entry ∈ s'.unackedFrags, entry ∈ s.unackedFrags) (hsent : s'.transmissions = s.transmissions)
    (hlength : s'.netPkts.length = s.netPkts.length) : Transmitted options s' := by
  have hcount : ∀ netPkt fragment, nTransmissions s' netPkt fragment = nTransmissions s netPkt fragment := fun _ _ => by
    rw [nTransmissions, hsent]
    rfl
  refine ⟨fun txSeq frag hmem => h.retxCount_le _ _ (hsubset _ hmem), fun txSeq frag hmem => ?_,
    fun txSeq frag txSeq' frag' hmem hmem' => h.distinct _ _ _ _ (hsubset _ hmem) (hsubset _ hmem'),
    fun netPkt fragment => ?_, fun netPkt fragment hle => ?_⟩
  · rw [hcount]
    exact h.sent _ _ (hsubset _ hmem)
  · rw [hcount]
    exact h.bounded _ _
  · rw [hcount]
    exact h.fresh _ _ (by rwa [← hlength])

end Accounts

section Losses

variable {options : Options} {s : Reliability} {txSeq : ℕ} {txFrag : UnackedFrag} {p : NetPkt}

/-- What the loss of fragments leaves: none is gone that is not said to be removed. -/
structure Lost (options : Options) (s : Reliability) (removed : List ℕ) (s' : Reliability) : Prop where
  consistent : Consistent options s'
  length : s'.netPkts.length = s.netPkts.length
  removed : ∀ txSeq ∈ s.unackedFrags.map Prod.fst, txSeq ∈ removed ∨ txSeq ∈ s'.unackedFrags.map Prod.fst

theorem giveUp_lost (h : Consistent options s) (hfrag : (txSeq, txFrag) ∈ s.unackedFrags)
    (hp : s.netPkts[txFrag.netPkt]? = some p) :
    ∃ removed s', giveUp txSeq p s = .ok (removed, s') ∧ Lost options s removed s' := by
  have hlists := h.listed.lists _ _ hp (live_iff.mpr ⟨txSeq, txFrag, hfrag, rfl⟩)
  generalize hothers : p.unackedFrags.filter (fun other => other ≠ txSeq) = others
  have hmem : ∀ other, other ∈ others ↔ Waits s.unackedFrags txFrag.netPkt other ∧ other ≠ txSeq := by
    intro other
    rw [← hothers, List.mem_filter, hlists.mem_iff]
    simp
  obtain ⟨s₁, hfold, ⟨first, rfl⟩, hwindow⟩ := foldlM_deleteUnackedFrag others h.window
    (by rw [← hothers]; exact hlists.nodup.filter _) fun other hother => by
      obtain ⟨frag, hentry, -⟩ := ((hmem other).mp hother).1
      exact List.mem_map_of_mem hentry
  obtain ⟨first', hdelete, hwindow'⟩ := @deleteUnackedFrag_window { s with
      unackedFrags := s.unackedFrags.filter (fun entry => entry.1 ∉ others)
      firstUnackedFrag := first
      nRetxExhausted := s.nRetxExhausted + 1
      droppedInterests := if p.isInterest then s.droppedInterests ++ [p.pkt] else s.droppedInterests } txSeq
    ⟨hwindow.ordered, hwindow.inWindow, hwindow.last_eq, hwindow.first⟩ (by
      refine List.mem_map_of_mem (List.mem_filter.mpr ⟨hfrag, ?_⟩)
      simp [hmem])
  have hleft : ∀ entry, entry ∈ erase (s.unackedFrags.filter (fun entry => entry.1 ∉ others)) txSeq ↔
      entry ∈ s.unackedFrags ∧ entry.2.netPkt ≠ txFrag.netPkt := by
    rintro ⟨other, frag⟩
    rw [mem_erase, List.mem_filter, decide_eq_true_eq, hmem]
    constructor
    · rintro ⟨⟨hentry, hnot⟩, hne⟩
      exact ⟨hentry, fun heq => hnot ⟨⟨frag, hentry, heq⟩, hne⟩⟩
    · rintro ⟨hentry, hne⟩
      refine ⟨⟨hentry, ?_⟩, ?_⟩
      · rintro ⟨⟨frag', hentry', heq⟩, -⟩
        rw [h.window.ordered.eq_of_mem hentry hentry'] at hne
        exact hne heq
      · rintro rfl
        exact hne (by rw [h.window.ordered.eq_of_mem hentry hfrag])
  generalize erase (s.unackedFrags.filter (fun entry => entry.1 ∉ others)) txSeq = left at hdelete hwindow' hleft
  have hwaits : ∀ other ≠ txFrag.netPkt, ∀ key, Waits left other key ↔ Waits s.unackedFrags other key := by
    intro other hne key
    constructor
    · rintro ⟨frag, hentry, heq⟩
      exact ⟨frag, ((hleft _).mp hentry).1, heq⟩
    · rintro ⟨frag, hentry, rfl⟩
      exact ⟨frag, (hleft _).mpr ⟨hentry, hne⟩, rfl⟩
  have hdead : live left txFrag.netPkt = false := by
    rw [← Bool.not_eq_true, live_iff]
    rintro ⟨key, frag, hentry, heq⟩
    exact ((hleft _).mp hentry).2 heq
  refine ⟨others ++ [txSeq], _, ?_, ⟨⟨hwindow', ⟨?_, ?_⟩, ?_, ?_⟩, rfl, ?_⟩⟩
  · simp only [giveUp, hothers, hfold, hdelete, bind, Except.bind]
  · exact fun key frag hentry => h.listed.lt_length _ _ ((hleft _).mp hentry).1
  · intro netPkt q hq hlive
    have hne : netPkt ≠ txFrag.netPkt := by
      rintro rfl
      rw [hdead] at hlive
      cases hlive
    exact (h.listed.lists _ _ hq (by rwa [live_congr (hwaits _ hne)] at hlive)).congr (hwaits _ hne)
  · have hcounted := h.counted
    have hcard := card_live_eq (h.listed.lt_length _ _ hfrag) (live_iff.mpr ⟨txSeq, txFrag, hfrag, rfl⟩) hdead
      fun other hne => live_congr (hwaits _ hne)
    rw [inFlight, hcard] at hcounted
    rw [inFlight]
    dsimp only
    omega
  · exact h.transmitted.subset (fun entry hentry => ((hleft _).mp hentry).1) rfl rfl
  · intro key hkey
    obtain ⟨⟨key, frag⟩, hentry, rfl⟩ := List.mem_map.mp hkey
    by_cases hne : frag.netPkt = txFrag.netPkt
    · refine Or.inl (List.mem_append.mpr ?_)
      by_cases heq : key = txSeq
      · exact Or.inr (List.mem_singleton.mpr heq)
      · exact Or.inl ((hmem key).mpr ⟨⟨frag, hentry, hne⟩, heq⟩)
    · exact Or.inr (List.mem_map_of_mem ((hleft _).mpr ⟨hentry, hne⟩))

theorem nTransmissions_append {s' : Reliability} {sent : Transmission} (h : s'.transmissions = s.transmissions ++ [sent])
    (netPkt fragment : ℕ) : nTransmissions s' netPkt fragment =
      nTransmissions s netPkt fragment + if sent.netPkt = netPkt ∧ sent.fragment = fragment then 1 else 0 := by
  rw [nTransmissions, h, List.countP_append, List.countP_singleton]
  simp only [decide_eq_true_eq]
  rfl

theorem replace_perm {l : List ℕ} {a : ℕ} (b : ℕ) (h : a ∈ l) : (l.replace a b).Perm (b :: l.erase a) := by
  induction l with
  | nil => cases h
  | cons c l ih =>
    by_cases heq : c = a
    · subst heq
      simp
    · rw [List.replace_cons, List.erase_cons, beq_false_of_ne heq, beq_false_of_ne (Ne.symm heq)]
      have hmem : a ∈ l := (List.mem_cons.mp h).resolve_left (Ne.symm heq)
      exact ((ih hmem).cons c).trans (List.Perm.swap b c _)

structure Renumbered (s : Reliability) (txSeq newTxSeq : ℕ) (txFrag newFrag : UnackedFrag)
    (frags : OrderedMap UnackedFrag) : Prop where
  old : (txSeq, txFrag) ∈ s.unackedFrags
  new : newTxSeq ∉ s.unackedFrags.map Prod.fst
  netPkt : newFrag.netPkt = txFrag.netPkt
  fragment : newFrag.fragment = txFrag.fragment
  retxCount : newFrag.retxCount = txFrag.retxCount + 1
  mem_iff : ∀ entry, entry ∈ frags ↔ entry = (newTxSeq, newFrag) ∨ entry ∈ s.unackedFrags ∧ entry.1 ≠ txSeq

variable {newTxSeq : ℕ} {newFrag : UnackedFrag} {frags : OrderedMap UnackedFrag}

theorem Renumbered.waits_iff (h : Renumbered s txSeq newTxSeq txFrag newFrag frags) (netPkt key : ℕ) :
    Waits frags netPkt key ↔ (netPkt = txFrag.netPkt ∧ key = newTxSeq) ∨ (Waits s.unackedFrags netPkt key ∧ key ≠ txSeq) := by
  constructor
  · rintro ⟨frag, hentry, rfl⟩
    rcases (h.mem_iff _).mp hentry with heq | ⟨hold, hne⟩
    · obtain ⟨rfl, rfl⟩ := Prod.mk.inj heq
      exact Or.inl ⟨h.netPkt, rfl⟩
    · exact Or.inr ⟨⟨frag, hold, rfl⟩, hne⟩
  · rintro (⟨rfl, rfl⟩ | ⟨⟨frag, hold, heq⟩, hne⟩)
    · exact ⟨newFrag, (h.mem_iff _).mpr (Or.inl rfl), h.netPkt⟩
    · exact ⟨frag, (h.mem_iff _).mpr (Or.inr ⟨hold, hne⟩), heq⟩

theorem Renumbered.waits_other (h : Renumbered s txSeq newTxSeq txFrag newFrag frags) (hordered : Ordered s.unackedFrags)
    {netPkt : ℕ} (hne : netPkt ≠ txFrag.netPkt) (key : ℕ) : Waits frags netPkt key ↔ Waits s.unackedFrags netPkt key := by
  rw [h.waits_iff]
  constructor
  · rintro (⟨heq, -⟩ | ⟨hwaits, -⟩)
    · exact absurd heq hne
    · exact hwaits
  · intro hwaits
    refine Or.inr ⟨hwaits, ?_⟩
    rintro rfl
    obtain ⟨frag, hentry, rfl⟩ := hwaits
    exact hne (by rw [hordered.eq_of_mem hentry h.old])

theorem Renumbered.live_eq (h : Renumbered s txSeq newTxSeq txFrag newFrag frags) (hordered : Ordered s.unackedFrags)
    (netPkt : ℕ) : live frags netPkt = live s.unackedFrags netPkt := by
  by_cases heq : netPkt = txFrag.netPkt
  · subst heq
    rw [live_iff.mpr ⟨newTxSeq, (h.waits_iff _ _).mpr (Or.inl ⟨rfl, rfl⟩)⟩, live_iff.mpr ⟨txSeq, txFrag, h.old, rfl⟩]
  · exact live_congr (h.waits_other hordered heq)

theorem Renumbered.listed (h : Renumbered s txSeq newTxSeq txFrag newFrag frags) (hconsistent : Consistent options s)
    (hp : s.netPkts[txFrag.netPkt]? = some p) (didRetx : Bool) :
    Listed frags (s.netPkts.set txFrag.netPkt
      { p with
        didRetx := didRetx
        unackedFrags := p.unackedFrags.replace txSeq newTxSeq }) := by
  have hlt := hconsistent.listed.lt_length _ _ h.old
  have hordered := hconsistent.window.ordered
  refine ⟨fun key frag hentry => ?_, fun netPkt q hq hlive => ?_⟩
  · rw [List.length_set]
    rcases (h.mem_iff _).mp hentry with heq | ⟨hold, -⟩
    · rw [(Prod.mk.inj heq).2, h.netPkt]
      exact hlt
    · exact hconsistent.listed.lt_length _ _ hold
  · by_cases heq : netPkt = txFrag.netPkt
    · subst heq
      rw [List.getElem?_set_self hlt] at hq
      obtain rfl := Option.some.inj hq
      have hlists := hconsistent.listed.lists _ _ hp (live_iff.mpr ⟨txSeq, txFrag, h.old, rfl⟩)
      have hperm := replace_perm newTxSeq ((hlists.mem_iff txSeq).mpr ⟨txFrag, h.old, rfl⟩)
      have hnew : newTxSeq ∉ p.unackedFrags := by
        rw [hlists.mem_iff]
        rintro ⟨frag, hentry, -⟩
        exact h.new (List.mem_map_of_mem hentry)
      refine ⟨hperm.nodup_iff.mpr (List.nodup_cons.mpr ⟨fun hmem => hnew (List.mem_of_mem_erase hmem), hlists.nodup.erase _⟩),
        fun key => ?_⟩
      rw [hperm.mem_iff, List.mem_cons, hlists.nodup.mem_erase_iff, hlists.mem_iff, h.waits_iff]
      tauto
    · rw [List.getElem?_set_ne (Ne.symm heq)] at hq
      exact (hconsistent.listed.lists _ _ hq (by rwa [h.live_eq hordered] at hlive)).congr (h.waits_other hordered heq)

theorem Renumbered.transmitted (h : Renumbered s txSeq newTxSeq txFrag newFrag frags) (hconsistent : Consistent options s)
    (hretx : txFrag.retxCount < options.maxRetx) {s' : Reliability} (hfrags : s'.unackedFrags = frags)
    (hlength : s'.netPkts.length = s.netPkts.length) {pkt : LpPacket}
    (hsent : s'.transmissions = s.transmissions ++ [⟨txFrag.netPkt, txFrag.fragment, pkt⟩]) : Transmitted options s' := by
  obtain ⟨hle, hcount, hdistinct, hbounded, hfresh⟩ := hconsistent.transmitted
  have hcount' := nTransmissions_append hsent
  have hold : ∀ key frag, (key, frag) ∈ s.unackedFrags → key ≠ txSeq →
      ¬ (txFrag.netPkt = frag.netPkt ∧ txFrag.fragment = frag.fragment) := fun key frag hentry hne heq =>
    hne (hdistinct _ _ _ _ hentry h.old heq.1.symm heq.2.symm)
  refine ⟨?_, ?_, ?_, fun netPkt fragment => ?_, fun netPkt fragment hlen => ?_⟩
  · intro key frag hentry
    rw [hfrags] at hentry
    rcases (h.mem_iff _).mp hentry with heq | ⟨hentry, -⟩
    · rw [(Prod.mk.inj heq).2, h.retxCount]
      exact hretx
    · exact hle _ _ hentry
  · intro key frag hentry
    rw [hfrags] at hentry
    rcases (h.mem_iff _).mp hentry with heq | ⟨hentry, hne⟩
    · rw [(Prod.mk.inj heq).2, hcount', h.netPkt, h.fragment, if_pos ⟨rfl, rfl⟩, hcount _ _ h.old, h.retxCount]
      omega
    · rw [hcount', if_neg (hold _ _ hentry hne), hcount _ _ hentry, Nat.add_zero]
  · intro key frag key' frag' hentry hentry' hnet hfragment
    rw [hfrags] at hentry hentry'
    rcases (h.mem_iff _).mp hentry with heq | ⟨hentry, hne⟩ <;> rcases (h.mem_iff _).mp hentry' with heq' | ⟨hentry', hne'⟩
    · rw [(Prod.mk.inj heq).1, (Prod.mk.inj heq').1]
    · rw [(Prod.mk.inj heq).2, h.netPkt] at hnet
      rw [(Prod.mk.inj heq).2, h.fragment] at hfragment
      exact absurd ⟨hnet, hfragment⟩ (hold _ _ hentry' hne')
    · rw [(Prod.mk.inj heq').2, h.netPkt] at hnet
      rw [(Prod.mk.inj heq').2, h.fragment] at hfragment
      exact absurd ⟨hnet.symm, hfragment.symm⟩ (hold _ _ hentry hne)
    · exact hdistinct _ _ _ _ hentry hentry' hnet hfragment
  · rw [hcount']
    split
    · rename_i heq
      obtain ⟨rfl, rfl⟩ := heq
      rw [hcount _ _ h.old]
      omega
    · exact hbounded _ _
  · rw [hlength] at hlen
    have hlt := hconsistent.listed.lt_length _ _ h.old
    rw [hcount', if_neg (by
      rintro ⟨heq, -⟩
      dsimp only at heq
      omega), hfresh _ _ hlen]

theorem retransmit_lost (h : Consistent options s) (hfrag : (txSeq, txFrag) ∈ s.unackedFrags)
    (hp : s.netPkts[txFrag.netPkt]? = some p) (hretx : txFrag.retxCount < options.maxRetx) :
    Outcome (fun result => Lost options s result.1 result.2) (retransmit options txSeq txFrag p s) := by
  have hlists := h.listed.lists _ _ hp (live_iff.mpr ⟨txSeq, txFrag, hfrag, rfl⟩)
  rcases assignTxSequence_window h.window txFrag.pkt with herror | ⟨hassign, hnew, hlimit⟩
  · rw [retransmit, herror]
    exact rfl
  simp only [retransmit, hassign, bind, Except.bind]
  rw [if_neg (not_not_intro ((hlists.mem_iff txSeq).mpr ⟨txFrag, hfrag, rfl⟩))]
  generalize hnewFrag : UnackedFrag.mk (set txFrag.pkt (txSequenceField (s.nTxSequences % sequenceLimit)))
    (txFrag.retxCount + 1) 0 txFrag.netPkt txFrag.fragment (s.nTxSequences + 1 - 1) = newFrag
  have hwindow := emplace_window h.window newFrag (by rw [← hnewFrag]; rfl) hnew hlimit
    (s.netPkts.set txFrag.netPkt
      { p with
        didRetx := true
        unackedFrags := p.unackedFrags.replace txSeq (s.nTxSequences % sequenceLimit) })
  rw [if_neg (by rw [List.isEmpty_iff]; exact List.ne_nil_of_mem hfrag)] at hwindow
  have hmem : ∀ entry, entry ∈ emplace s.unackedFrags (s.nTxSequences % sequenceLimit) newFrag ↔
      entry = (s.nTxSequences % sequenceLimit, newFrag) ∨ entry ∈ s.unackedFrags := fun entry => by
    rw [(emplace_perm hnew newFrag).mem_iff, List.mem_cons]
  obtain ⟨first, hdelete, hwindow'⟩ := deleteUnackedFrag_window hwindow
    (List.mem_map_of_mem ((hmem _).mpr (Or.inr hfrag)))
  have hne : s.nTxSequences % sequenceLimit ≠ txSeq := fun heq => hnew (heq ▸ List.mem_map_of_mem hfrag)
  have hrenumbered : Renumbered s txSeq (s.nTxSequences % sequenceLimit) txFrag newFrag
      (erase (emplace s.unackedFrags (s.nTxSequences % sequenceLimit) newFrag) txSeq) := by
    refine ⟨hfrag, hnew, by rw [← hnewFrag], by rw [← hnewFrag], by rw [← hnewFrag], fun entry => ?_⟩
    rw [mem_erase, hmem]
    constructor
    · rintro ⟨rfl | hold, hentry⟩
      · exact Or.inl rfl
      · exact Or.inr ⟨hold, hentry⟩
    · rintro (rfl | ⟨hold, hentry⟩)
      · exact ⟨Or.inl rfl, hne⟩
      · exact ⟨Or.inr hold, hentry⟩
  rw [hdelete]
  refine ⟨⟨⟨hwindow'.ordered, hwindow'.inWindow, hwindow'.last_eq, hwindow'.first⟩, hrenumbered.listed h hp true, ?_, ?_⟩,
    List.length_set, fun key hkey => ?_⟩
  · have hcounted := h.counted
    simp only [sendLpPacket, inFlight, List.length_set, card_live_congr (hrenumbered.live_eq h.window.ordered)]
    exact hcounted
  · exact hrenumbered.transmitted h hretx rfl List.length_set rfl
  · obtain ⟨⟨key, frag⟩, hentry, rfl⟩ := List.mem_map.mp hkey
    by_cases heq : key = txSeq
    · exact Or.inl (List.mem_singleton.mpr heq)
    · exact Or.inr (List.mem_map_of_mem ((hrenumbered.mem_iff _).mpr (Or.inr ⟨hentry, heq⟩)))

theorem onLpPacketLost_lost (h : Consistent options s) (hmem : txSeq ∈ s.unackedFrags.map Prod.fst) :
    Outcome (fun result => Lost options s result.1 result.2) (onLpPacketLost options txSeq s) := by
  obtain ⟨txFrag, hlookup⟩ := Option.isSome_iff_exists.mp (lookup_isSome.mpr hmem)
  have hfrag := mem_of_lookup hlookup
  obtain ⟨p, hp, -⟩ := h.lookup_netPkt hfrag
  simp only [onLpPacketLost, hlookup, hp]
  split
  · obtain ⟨removed, s', hgiveUp, hlost⟩ := giveUp_lost h hfrag hp
    rw [hgiveUp]
    exact hlost
  · exact retransmit_lost h hfrag hp (by omega)

end Losses

section Acknowledgements

variable {options : Options} {s : Reliability} {txSeq : ℕ}

theorem swapRemove_perm {l : List ℕ} {a : ℕ} (h : a ∈ l) : (swapRemove l a).Perm (l.erase a) := by
  obtain ⟨before, after, rfl, hbefore⟩ := List.eq_append_cons_of_mem h
  have hindex : (before ++ a :: after).idxOf a = before.length := by
    rw [List.idxOf_append_of_notMem hbefore, List.idxOf_cons_self, Nat.add_zero]
  rw [swapRemove, hindex, List.set_append_right _ _ le_rfl, Nat.sub_self, List.set_cons_zero,
    List.erase_append_right _ hbefore, List.erase_cons_head]
  rcases List.eq_nil_or_concat after with rfl | ⟨middle, last, rfl⟩
  · simp
  · have hlast : (before ++ a :: (middle.concat last)).getLastD 0 = last := by
      rw [List.concat_eq_append, ← List.cons_append, ← List.append_assoc, List.getLastD_concat]
    rw [hlast, List.concat_eq_append, ← List.cons_append, ← List.append_assoc, List.dropLast_concat]
    exact (List.perm_append_singleton last middle).symm.append_left before

theorem onLpPacketAcknowledged_ok (h : Consistent options s) (hmem : txSeq ∈ s.unackedFrags.map Prod.fst) :
    ∃ s', onLpPacketAcknowledged txSeq s = .ok s' ∧ Lost options s [txSeq] s' := by
  obtain ⟨frag, hlookup⟩ := Option.isSome_iff_exists.mp (lookup_isSome.mpr hmem)
  have hfrag := mem_of_lookup hlookup
  obtain ⟨p, hp, hlists⟩ := h.lookup_netPkt hfrag
  have hlisted : txSeq ∈ p.unackedFrags := (hlists.mem_iff txSeq).mpr ⟨frag, hfrag, rfl⟩
  have hperm := swapRemove_perm hlisted
  simp only [onLpPacketAcknowledged, hlookup, hp]
  rw [if_neg (not_not_intro hlisted)]
  generalize swapRemove p.unackedFrags txSeq = unackedFrags at hperm ⊢
  have hmemIff : ∀ key, key ∈ unackedFrags ↔ Waits s.unackedFrags frag.netPkt key ∧ key ≠ txSeq := fun key => by
    rw [hperm.mem_iff, hlists.nodup.mem_erase_iff, hlists.mem_iff, and_comm]
  obtain ⟨first, hdelete, hwindow⟩ := @deleteUnackedFrag_window { s with
      netPkts := s.netPkts.set frag.netPkt { p with unackedFrags := unackedFrags }
      nRetransmitted := if unackedFrags.isEmpty ∧ p.didRetx then s.nRetransmitted + 1 else s.nRetransmitted
      nAcknowledged := if unackedFrags.isEmpty ∧ ¬ p.didRetx then s.nAcknowledged + 1 else s.nAcknowledged } txSeq
    ⟨h.window.ordered, h.window.inWindow, h.window.last_eq, h.window.first⟩ hmem
  have hwaits : ∀ netPkt key, Waits (erase s.unackedFrags txSeq) netPkt key ↔
      Waits s.unackedFrags netPkt key ∧ key ≠ txSeq := by
    intro netPkt key
    simp only [Waits, mem_erase]
    constructor
    · rintro ⟨frag', ⟨hentry, hne⟩, heq⟩
      exact ⟨⟨frag', hentry, heq⟩, hne⟩
    · rintro ⟨⟨frag', hentry, heq⟩, hne⟩
      exact ⟨frag', ⟨hentry, hne⟩, heq⟩
  have hother : ∀ netPkt ≠ frag.netPkt, ∀ key, Waits (erase s.unackedFrags txSeq) netPkt key ↔
      Waits s.unackedFrags netPkt key := by
    intro netPkt hne key
    rw [hwaits]
    refine ⟨fun hboth => hboth.1, fun hold => ⟨hold, ?_⟩⟩
    rintro rfl
    obtain ⟨frag', hentry, rfl⟩ := hold
    exact hne (by rw [h.window.ordered.eq_of_mem hentry hfrag])
  have hlt := h.listed.lt_length _ _ hfrag
  have hlive : live s.unackedFrags frag.netPkt := live_iff.mpr ⟨txSeq, frag, hfrag, rfl⟩
  have hleft : live (erase s.unackedFrags txSeq) frag.netPkt = ! unackedFrags.isEmpty := by
    rw [Bool.eq_iff_iff, live_iff]
    simp only [hwaits, ← hmemIff, Bool.not_eq_true', List.isEmpty_eq_false_iff_exists_mem]
  rw [hdelete]
  refine ⟨_, rfl, ⟨hwindow, ⟨fun key frag' hentry => ?_, fun netPkt q hq hlive' => ?_⟩, ?_, ?_⟩, List.length_set,
    fun key hkey => ?_⟩
  · rw [List.length_set]
    exact h.listed.lt_length _ _ (mem_erase.mp hentry).1
  · by_cases heq : netPkt = frag.netPkt
    · subst heq
      rw [List.getElem?_set_self hlt] at hq
      obtain rfl := Option.some.inj hq
      exact ⟨hperm.nodup_iff.mpr (hlists.nodup.erase _), fun key => (hmemIff key).trans (hwaits _ key).symm⟩
    · rw [List.getElem?_set_ne (Ne.symm heq)] at hq
      rw [live_congr (hother _ heq)] at hlive'
      exact (h.listed.lists _ _ hq hlive').congr (hother _ heq)
  · have hcounted := h.counted
    simp only [inFlight, List.length_set] at hcounted ⊢
    by_cases hempty : unackedFrags.isEmpty
    · rw [hempty] at hleft
      rw [card_live_eq hlt hlive hleft fun netPkt hne => live_congr (hother _ hne)] at hcounted
      cases p.didRetx <;> simp [hempty] <;> omega
    · have hsame : ∀ netPkt, live (erase s.unackedFrags txSeq) netPkt = live s.unackedFrags netPkt := fun netPkt => by
        by_cases heq : netPkt = frag.netPkt
        · subst heq
          rw [hleft, hlive, Bool.eq_false_iff.mpr hempty]
          rfl
        · exact live_congr (hother _ heq)
      rw [if_neg (fun hboth => hempty hboth.1), if_neg (fun hboth => hempty hboth.1), card_live_congr hsame]
      exact hcounted
  · exact h.transmitted.subset (fun entry hentry => (mem_erase.mp hentry).1) rfl List.length_set
  · obtain ⟨⟨key, frag'⟩, hentry, rfl⟩ := List.mem_map.mp hkey
    by_cases heq : key = txSeq
    · exact Or.inl (List.mem_singleton.mpr heq)
    · exact Or.inr (List.mem_map_of_mem (mem_erase.mpr ⟨hentry, heq⟩))

end Acknowledgements

section Incoming

variable {options : Options} {s : Reliability}

theorem waits_mapValues (frags : OrderedMap UnackedFrag) {f : ℕ → UnackedFrag → UnackedFrag}
    (hf : ∀ txSeq frag, (f txSeq frag).netPkt = frag.netPkt) (netPkt txSeq : ℕ) :
    Waits (mapValues f frags) netPkt txSeq ↔ Waits frags netPkt txSeq := by
  simp only [Waits, mem_mapValues]
  constructor
  · rintro ⟨frag, ⟨frag', hmem, rfl⟩, heq⟩
    exact ⟨frag', hmem, by rwa [hf] at heq⟩
  · rintro ⟨frag, hmem, heq⟩
    exact ⟨f txSeq frag, ⟨frag, hmem, rfl⟩, by rwa [hf]⟩

theorem Consistent.mapValues (h : Consistent options s) {f : ℕ → UnackedFrag → UnackedFrag}
    (hf : ∀ txSeq frag, ∃ n, f txSeq frag = { frag with nGreaterSeqAcks := n }) :
    Consistent options { s with unackedFrags := mapValues f s.unackedFrags } := by
  have hnumber : ∀ txSeq frag, (f txSeq frag).number = frag.number := fun txSeq frag => by
    obtain ⟨n, hn⟩ := hf txSeq frag
    rw [hn]
  have hnetPkt : ∀ txSeq frag, (f txSeq frag).netPkt = frag.netPkt := fun txSeq frag => by
    obtain ⟨n, hn⟩ := hf txSeq frag
    rw [hn]
  have hfragment : ∀ txSeq frag, (f txSeq frag).fragment = frag.fragment := fun txSeq frag => by
    obtain ⟨n, hn⟩ := hf txSeq frag
    rw [hn]
  have hretx : ∀ txSeq frag, (f txSeq frag).retxCount = frag.retxCount := fun txSeq frag => by
    obtain ⟨n, hn⟩ := hf txSeq frag
    rw [hn]
  have hwaits := waits_mapValues s.unackedFrags hnetPkt
  refine ⟨mapValues_window h.window hnumber, ⟨?_, fun netPkt p hp hlive => ?_⟩, ?_, ⟨?_, ?_, ?_, h.transmitted.bounded,
    h.transmitted.fresh⟩⟩
  · intro txSeq frag hmem
    obtain ⟨frag', hmem', rfl⟩ := mem_mapValues.mp hmem
    rw [hnetPkt]
    exact h.listed.lt_length _ _ hmem'
  · rw [live_congr (hwaits netPkt)] at hlive
    exact (h.listed.lists _ _ hp hlive).congr (hwaits netPkt)
  · rw [inFlight, card_live_congr fun netPkt => live_congr (hwaits netPkt)]
    exact h.counted
  · intro txSeq frag hmem
    obtain ⟨frag', hmem', rfl⟩ := mem_mapValues.mp hmem
    rw [hretx]
    exact h.transmitted.retxCount_le _ _ hmem'
  · intro txSeq frag hmem
    obtain ⟨frag', hmem', rfl⟩ := mem_mapValues.mp hmem
    rw [hretx, hnetPkt, hfragment]
    exact h.transmitted.sent _ _ hmem'
  · intro txSeq frag txSeq' frag' hmem hmem' hnet hfrag
    obtain ⟨old, hold, rfl⟩ := mem_mapValues.mp hmem
    obtain ⟨old', hold', rfl⟩ := mem_mapValues.mp hmem'
    rw [hnetPkt, hnetPkt] at hnet
    rw [hfragment, hfragment] at hfrag
    exact h.transmitted.distinct _ _ _ _ hold hold' hnet hfrag

theorem findLostLpPackets_consistent (h : Consistent options s) (ackSeq : ℕ) :
    Consistent options (findLostLpPackets options ackSeq s).2 ∧
      (findLostLpPackets options ackSeq s).2.netPkts = s.netPkts ∧
      (findLostLpPackets options ackSeq s).2.unackedFrags.map Prod.fst = s.unackedFrags.map Prod.fst ∧
      ∀ txSeq ∈ (findLostLpPackets options ackSeq s).1, txSeq ∈ s.unackedFrags.map Prod.fst ∧ txSeq ≠ ackSeq := by
  refine ⟨h.mapValues fun txSeq frag => ?_, rfl, ?_, fun txSeq hmem => ?_⟩
  · split
    · exact ⟨_, rfl⟩
    · exact ⟨frag.nGreaterSeqAcks, rfl⟩
  · simp only [findLostLpPackets, mapValues_keys]
  · have hpassed := (List.mem_filter.mp hmem).1
    exact ⟨mem_circularFrom.mp ((List.takeWhile_sublist _).subset hpassed), by simpa using List.mem_takeWhile_imp hpassed⟩

def Kept (options : Options) (s s' : Reliability) : Prop :=
  Consistent options s' ∧ s'.netPkts.length = s.netPkts.length

theorem resendLost_kept (lost removed : List ℕ) (h : Consistent options s)
    (hlost : ∀ txSeq ∈ lost, txSeq ∈ removed ∨ txSeq ∈ s.unackedFrags.map Prod.fst) :
    Outcome (Kept options s) (resendLost options lost removed s) := by
  induction lost generalizing removed s with
  | nil => exact ⟨h, rfl⟩
  | cons txSeq lost ih =>
    have hrest : ∀ txSeq ∈ lost, txSeq ∈ removed ∨ txSeq ∈ s.unackedFrags.map Prod.fst :=
      fun other hother => hlost other (List.mem_cons_of_mem _ hother)
    rw [resendLost]
    split
    · exact ih removed h hrest
    · rename_i hnot
      refine (onLpPacketLost_lost h ((hlost txSeq List.mem_cons_self).resolve_left hnot)).bind fun result hresult => ?_
      refine (ih _ hresult.consistent fun other hother => ?_).mono fun s' hs' => ⟨hs'.1, hs'.2.trans hresult.length⟩
      rw [List.mem_append]
      rcases hrest other hother with hremoved | hkey
      · exact Or.inl (Or.inl hremoved)
      · rcases hresult.removed other hkey with hremoved | hkey
        · exact Or.inl (Or.inr hremoved)
        · exact Or.inr hkey

theorem processAck_kept (h : Consistent options s) (ackSeq : ℕ) :
    Outcome (Kept options s) (processAck options s ackSeq) := by
  rw [processAck]
  split
  · exact ⟨h, rfl⟩
  · rename_i hsome
    obtain ⟨hfound, hnetPkts, hkeys, hlost⟩ := findLostLpPackets_consistent h ackSeq
    dsimp only
    generalize findLostLpPackets options ackSeq s = found at hfound hnetPkts hkeys hlost ⊢
    have hkey : ackSeq ∈ found.2.unackedFrags.map Prod.fst := by
      rw [hkeys, ← lookup_isSome]
      exact Option.isSome_iff_ne_none.mpr (by simpa using hsome)
    obtain ⟨s', hacknowledged, hs'⟩ := onLpPacketAcknowledged_ok hfound hkey
    simp only [hacknowledged, bind, Except.bind]
    refine (resendLost_kept found.1 [] hs'.consistent fun txSeq hmem => Or.inr ?_).mono
      fun s'' hs'' => ⟨hs''.1, by rw [hs''.2, hs'.length, hnetPkts]⟩
    obtain ⟨hold, hne⟩ := hlost txSeq hmem
    rw [← hkeys] at hold
    exact (hs'.removed txSeq hold).resolve_left (by simpa using hne)

theorem processIncomingPacket_kept (h : Consistent options s) (pkt : LpPacket) :
    Outcome (fun result => Kept options s result.2) (processIncomingPacket options pkt s) := by
  rw [processIncomingPacket]
  split
  · exact ⟨h, rfl⟩
  · refine Outcome.bind (p := Kept options s) (Outcome.foldlM (fun s' ackSeq hs' =>
      (processAck_kept hs'.1 ackSeq).mono fun s'' hs'' => ⟨hs''.1, hs''.2.trans hs'.2⟩) ⟨h, rfl⟩) fun s' hs' => ?_
    split
    · split
      · exact hs'
      · exact ⟨⟨⟨hs'.1.window.ordered, hs'.1.window.inWindow, hs'.1.window.last_eq, hs'.1.window.first⟩, hs'.1.listed,
          hs'.1.counted, hs'.1.transmitted.subset (fun _ hmem => hmem) rfl rfl⟩, hs'.2⟩
    · exact hs'

end Incoming

section Outgoing

variable {options : Options} {s₀ s : Reliability} {stored : ℕ}

/-- While the fragments of a new packet are stored, after the first `stored` of them. -/
structure Storing (s₀ : Reliability) (stored : ℕ) (s : Reliability) : Prop where
  window : Window s
  others : ∀ txSeq frag, (txSeq, frag) ∈ s.unackedFrags → frag.netPkt ≠ s₀.netPkts.length →
    (txSeq, frag) ∈ s₀.unackedFrags
  kept : ∀ entry ∈ s₀.unackedFrags, entry ∈ s.unackedFrags
  own : ∀ txSeq frag, (txSeq, frag) ∈ s.unackedFrags → frag.netPkt = s₀.netPkts.length →
    frag.retxCount = 0 ∧ frag.fragment < stored
  distinct : ∀ txSeq frag txSeq' frag', (txSeq, frag) ∈ s.unackedFrags → (txSeq', frag') ∈ s.unackedFrags →
    frag.netPkt = s₀.netPkts.length → frag'.netPkt = s₀.netPkts.length → frag.fragment = frag'.fragment → txSeq = txSeq'
  netPkts : ∃ p, s.netPkts = s₀.netPkts ++ [p] ∧ ListsOf s.unackedFrags s₀.netPkts.length p.unackedFrags
  isLive : 0 < stored → live s.unackedFrags s₀.netPkts.length
  counters : s.nAcknowledged + s.nRetransmitted + s.nRetxExhausted =
    s₀.nAcknowledged + s₀.nRetransmitted + s₀.nRetxExhausted
  transmissions : s.transmissions = s₀.transmissions

theorem Consistent.storing (h : Consistent options s₀) (pkt : LpPacket) (isInterest : Bool) :
    Storing s₀ 0 { s₀ with netPkts := s₀.netPkts ++ [⟨[], pkt, isInterest, false⟩] } := by
  have hold : ∀ txSeq frag, (txSeq, frag) ∈ s₀.unackedFrags → frag.netPkt ≠ s₀.netPkts.length :=
    fun txSeq frag hmem => (h.listed.lt_length _ _ hmem).ne
  refine ⟨⟨h.window.ordered, h.window.inWindow, h.window.last_eq, h.window.first⟩, fun txSeq frag hmem _ => hmem,
    fun entry hmem => hmem, fun txSeq frag hmem heq => absurd heq (hold _ _ hmem),
    fun txSeq frag txSeq' frag' hmem _ heq => absurd heq (hold _ _ hmem), ⟨_, rfl, List.nodup_nil, fun txSeq => ?_⟩,
    fun hlt => absurd hlt (lt_irrefl 0), rfl, rfl⟩
  refine ⟨fun hmem => (List.not_mem_nil hmem).elim, ?_⟩
  rintro ⟨frag, hmem, heq⟩
  exact absurd heq (hold _ _ hmem)

theorem Storing.storeFrag (h : Storing s₀ stored s) (frag : LpPacket)
    (hnew : s.nTxSequences % sequenceLimit ∉ s.unackedFrags.map Prod.fst)
    (hlimit : ∀ txSeq frag', (txSeq, frag') ∈ s.unackedFrags → s.nTxSequences + 1 ≤ frag'.number + sequenceLimit) :
    Storing s₀ (stored + 1) (storeFrag s₀.netPkts.length stored (s.nTxSequences % sequenceLimit) frag
      { s with
        lastTxSeqNo := s.nTxSequences % sequenceLimit
        nTxSequences := s.nTxSequences + 1 }) := by
  unfold LpReliability.storeFrag
  dsimp only
  generalize htxSeq : s.nTxSequences % sequenceLimit = txSeq at hnew
  generalize hnewFrag : UnackedFrag.mk frag 0 0 s₀.netPkts.length stored (s.nTxSequences + 1 - 1) = newFrag
  have hmem : ∀ entry, entry ∈ emplace s.unackedFrags txSeq newFrag ↔ entry = (txSeq, newFrag) ∨ entry ∈ s.unackedFrags :=
    fun entry => by rw [(emplace_perm hnew newFrag).mem_iff, List.mem_cons]
  obtain ⟨p, hnetPkts, hlists⟩ := h.netPkts
  have hmodify : s.netPkts.modify s₀.netPkts.length (fun p => { p with unackedFrags := p.unackedFrags ++ [txSeq] }) =
      s₀.netPkts ++ [{ p with unackedFrags := p.unackedFrags ++ [txSeq] }] := by
    rw [hnetPkts, List.modify_eq_take_cons_drop (by simp)]
    simp
  have hfirst : (if (emplace s.unackedFrags txSeq newFrag).length = 1 then
      (emplace s.unackedFrags txSeq newFrag).head?.map Prod.fst else s.firstUnackedFrag) =
      if s.unackedFrags.isEmpty then some txSeq else s.firstUnackedFrag := by
    have hlength := (emplace_perm hnew newFrag).length_eq
    rw [List.length_cons] at hlength
    cases hfrags : s.unackedFrags with
    | nil => rfl
    | cons entry rest =>
      rw [hfrags, List.length_cons] at hlength
      rw [if_neg (by rw [hlength]; omega)]
      rfl
  have hwindow := emplace_window h.window newFrag (by rw [← hnewFrag]; rfl) (by rwa [htxSeq]) hlimit
    (s₀.netPkts ++ [{ p with unackedFrags := p.unackedFrags ++ [txSeq] }])
  rw [htxSeq] at hwindow
  rw [hfirst, hmodify]
  have hnetPkt : newFrag.netPkt = s₀.netPkts.length := by rw [← hnewFrag]
  have hfragment : newFrag.fragment = stored := by rw [← hnewFrag]
  refine ⟨hwindow, fun key frag' hentry hne => ?_, fun entry hentry => (hmem _).mpr (Or.inr (h.kept _ hentry)),
    fun key frag' hentry heq => ?_, fun key frag' key' frag'' hentry hentry' heq heq' hsame => ?_, ⟨_, rfl, ?_, fun key => ?_⟩,
    fun _ => ?_, h.counters, h.transmissions⟩
  · rcases (hmem _).mp hentry with hnewEntry | hold
    · rw [(Prod.mk.inj hnewEntry).2] at hne
      exact absurd hnetPkt hne
    · exact h.others _ _ hold hne
  · rcases (hmem _).mp hentry with hnewEntry | hold
    · rw [(Prod.mk.inj hnewEntry).2, ← hnewFrag]
      exact ⟨rfl, Nat.lt_succ_self _⟩
    · obtain ⟨hretx, hlt⟩ := h.own _ _ hold heq
      exact ⟨hretx, Nat.lt_succ_of_lt hlt⟩
  · rcases (hmem _).mp hentry with hnewEntry | hold <;> rcases (hmem _).mp hentry' with hnewEntry' | hold'
    · rw [(Prod.mk.inj hnewEntry).1, (Prod.mk.inj hnewEntry').1]
    · rw [(Prod.mk.inj hnewEntry).2, hfragment] at hsame
      have hlt := (h.own _ _ hold' heq').2
      omega
    · rw [(Prod.mk.inj hnewEntry').2, hfragment] at hsame
      have hlt := (h.own _ _ hold heq).2
      omega
    · exact h.distinct _ _ _ _ hold hold' heq heq' hsame
  · refine List.nodup_append.mpr ⟨hlists.nodup, List.nodup_singleton _, fun key hkey other hother => ?_⟩
    obtain rfl := List.mem_singleton.mp hother
    rintro rfl
    obtain ⟨frag', hentry, -⟩ := (hlists.mem_iff _).mp hkey
    exact hnew (List.mem_map_of_mem hentry)
  · rw [List.mem_append, hlists.mem_iff, List.mem_singleton]
    constructor
    · rintro (⟨frag', hentry, heq⟩ | rfl)
      · exact ⟨frag', (hmem _).mpr (Or.inr hentry), heq⟩
      · exact ⟨newFrag, (hmem _).mpr (Or.inl rfl), hnetPkt⟩
    · rintro ⟨frag', hentry, heq⟩
      rcases (hmem _).mp hentry with hnewEntry | hold
      · exact Or.inr (Prod.mk.inj hnewEntry).1
      · exact Or.inl ⟨frag', hold, heq⟩
  · exact live_iff.mpr ⟨txSeq, newFrag, (hmem _).mpr (Or.inl rfl), hnetPkt⟩

theorem storeFrags_storing (frags : List LpPacket) (h : Storing s₀ stored s) :
    Outcome (fun result => result.1.length = frags.length ∧ Storing s₀ (stored + frags.length) result.2)
      (storeFrags s₀.netPkts.length stored frags s) := by
  induction frags generalizing stored s with
  | nil => exact ⟨rfl, h⟩
  | cons frag frags ih =>
    rcases assignTxSequence_window h.window frag with herror | ⟨hassign, hnew, hlimit⟩
    · rw [storeFrags, herror]
      exact rfl
    · simp only [storeFrags, hassign, bind, Except.bind]
      refine (ih (h.storeFrag _ hnew hlimit)).bind fun result hresult => ?_
      refine ⟨by rw [List.length_cons, hresult.1, List.length_cons], ?_⟩
      rw [List.length_cons, Nat.add_comm frags.length 1, ← Nat.add_assoc]
      exact hresult.2

theorem sendLpPackets_spec (options : Options) (netPkt first : ℕ) (frags : List LpPacket) (s : Reliability) :
    ∃ ackQueue transmissions, sendLpPackets options netPkt first frags s = { s with
        ackQueue := ackQueue
        transmissions := transmissions } ∧
      ∀ other fragment, nTransmissions (sendLpPackets options netPkt first frags s) other fragment =
        nTransmissions s other fragment +
          if other = netPkt ∧ first ≤ fragment ∧ fragment < first + frags.length then 1 else 0 := by
  induction frags generalizing first s with
  | nil =>
    refine ⟨s.ackQueue, s.transmissions, rfl, fun other fragment => ?_⟩
    rw [if_neg (by rintro ⟨-, hle, hlt⟩; simp at hlt; omega)]
    rfl
  | cons frag frags ih =>
    obtain ⟨ackQueue, transmissions, heq, hcount⟩ := ih (first + 1) (sendLpPacket options netPkt first frag s)
    refine ⟨ackQueue, transmissions, heq, fun other fragment => ?_⟩
    have hone : nTransmissions (sendLpPacket options netPkt first frag s) other fragment = _ :=
      nTransmissions_append rfl other fragment
    rw [sendLpPackets, hcount, hone, List.length_cons]
    dsimp only
    split_ifs <;> omega

theorem Storing.waits_other (hs : Storing s₀ stored s) {netPkt : ℕ} (hne : netPkt ≠ s₀.netPkts.length) (txSeq : ℕ) :
    Waits s.unackedFrags netPkt txSeq ↔ Waits s₀.unackedFrags netPkt txSeq := by
  constructor
  · rintro ⟨frag, hmem, rfl⟩
    exact ⟨frag, hs.others _ _ hmem hne, rfl⟩
  · rintro ⟨frag, hmem, rfl⟩
    exact ⟨frag, hs.kept _ hmem, rfl⟩

theorem Storing.listed (hs : Storing s₀ stored s) (h : Consistent options s₀) : Listed s.unackedFrags s.netPkts := by
  obtain ⟨p, hnetPkts, hlists⟩ := hs.netPkts
  rw [hnetPkts]
  refine ⟨fun txSeq frag hmem => ?_, fun netPkt q hq hlive => ?_⟩
  · rw [List.length_append, List.length_singleton]
    by_cases heq : frag.netPkt = s₀.netPkts.length
    · omega
    · exact Nat.lt_succ_of_lt (h.listed.lt_length _ _ (hs.others _ _ hmem heq))
  · by_cases heq : netPkt = s₀.netPkts.length
    · subst heq
      rw [List.getElem?_concat_length] at hq
      obtain rfl := Option.some.inj hq
      exact hlists
    · have hlt : netPkt < s₀.netPkts.length := by
        have hlt := (List.getElem?_eq_some_iff.mp hq).1
        rw [List.length_append, List.length_singleton] at hlt
        omega
      rw [List.getElem?_append_left hlt] at hq
      rw [live_congr (hs.waits_other heq)] at hlive
      exact (h.listed.lists _ _ hq hlive).congr (hs.waits_other heq)

theorem Storing.length_eq (hs : Storing s₀ stored s) : s.netPkts.length = s₀.netPkts.length + 1 := by
  obtain ⟨p, hnetPkts, -⟩ := hs.netPkts
  rw [hnetPkts, List.length_append, List.length_singleton]

theorem Storing.inFlight_eq (hs : Storing s₀ stored s) (hpos : 0 < stored) : inFlight s = inFlight s₀ + 1 := by
  have hnew : s₀.netPkts.length ∉ (Finset.range s₀.netPkts.length).filter (fun netPkt => live s₀.unackedFrags netPkt) := by
    simp
  rw [inFlight, inFlight, hs.length_eq, ← Finset.card_insert_of_notMem hnew]
  congr 1
  ext netPkt
  rw [Finset.mem_insert, Finset.mem_filter, Finset.mem_filter, Finset.mem_range, Finset.mem_range]
  by_cases heq : netPkt = s₀.netPkts.length
  · subst heq
    simp [hs.isLive hpos]
  · have hlt : netPkt < s₀.netPkts.length + 1 ↔ netPkt < s₀.netPkts.length := by omega
    rw [live_congr (hs.waits_other heq), hlt]
    simp [heq]

theorem Storing.transmitted (hs : Storing s₀ stored s) (h : Consistent options s₀) {s' : Reliability}
    (hfrags : s'.unackedFrags = s.unackedFrags) (hnetPkts : s'.netPkts = s.netPkts)
    (hcount : ∀ netPkt fragment, nTransmissions s' netPkt fragment =
      nTransmissions s₀ netPkt fragment + if netPkt = s₀.netPkts.length ∧ fragment < stored then 1 else 0) :
    Transmitted options s' := by
  refine ⟨?_, ?_, ?_, ?_, ?_⟩
  · intro txSeq frag hmem
    rw [hfrags] at hmem
    by_cases heq : frag.netPkt = s₀.netPkts.length
    · rw [(hs.own _ _ hmem heq).1]
      exact Nat.zero_le _
    · exact h.transmitted.retxCount_le _ _ (hs.others _ _ hmem heq)
  · intro txSeq frag hmem
    rw [hfrags] at hmem
    rw [hcount]
    by_cases heq : frag.netPkt = s₀.netPkts.length
    · obtain ⟨hretx, hlt⟩ := hs.own _ _ hmem heq
      rw [if_pos ⟨heq, hlt⟩, h.transmitted.fresh _ _ heq.ge, hretx]
    · rw [if_neg fun hboth => heq hboth.1]
      exact h.transmitted.sent _ _ (hs.others _ _ hmem heq)
  · intro txSeq frag txSeq' frag' hmem hmem' hnet hfragment
    rw [hfrags] at hmem hmem'
    by_cases heq : frag.netPkt = s₀.netPkts.length
    · exact hs.distinct _ _ _ _ hmem hmem' heq (hnet.symm.trans heq) hfragment
    · exact h.transmitted.distinct _ _ _ _ (hs.others _ _ hmem heq)
        (hs.others _ _ hmem' (fun heq' => heq (hnet.trans heq'))) hnet hfragment
  · intro netPkt fragment
    rw [hcount]
    split
    · rename_i hboth
      rw [h.transmitted.fresh _ _ hboth.1.ge]
      omega
    · exact h.transmitted.bounded _ _
  · intro netPkt fragment hle
    rw [hnetPkts, hs.length_eq] at hle
    rw [hcount, if_neg (by omega), h.transmitted.fresh _ _ (by omega)]

theorem sendFragments_sent (h : Consistent options s) (frags : List LpPacket) (pkt : LpPacket) (isInterest : Bool) :
    Outcome (fun s' => Consistent options s' ∧
      s'.netPkts.length = s.netPkts.length + if (frags.headD ⟨[]⟩).has 80 then 1 else 0)
      (sendFragments options frags pkt isInterest s) := by
  rw [sendFragments]
  by_cases hhas : (frags.headD ⟨[]⟩).has 80
  · rw [if_pos hhas, if_pos hhas]
    have hpos : 0 < frags.length := by
      rw [List.length_pos_iff]
      rintro rfl
      cases hhas
    refine (storeFrags_storing frags (h.storing pkt isInterest)).bind fun result hresult => ?_
    obtain ⟨hlength, hstoring⟩ := hresult
    rw [Nat.zero_add] at hstoring
    obtain ⟨ackQueue, transmissions, hsent, hcount⟩ := sendLpPackets_spec options s.netPkts.length 0 result.1 result.2
    have hcount' : ∀ netPkt fragment, nTransmissions (sendLpPackets options s.netPkts.length 0 result.1 result.2) netPkt
        fragment = nTransmissions s netPkt fragment + if netPkt = s.netPkts.length ∧ fragment < frags.length then 1 else 0 := by
      intro netPkt fragment
      rw [hcount, nTransmissions, hstoring.transmissions, hlength]
      simp only [Nat.zero_le, Nat.zero_add, true_and]
      rfl
    have htransmitted := hstoring.transmitted h (by rw [hsent]) (by rw [hsent]) hcount'
    rw [hsent] at htransmitted
    refine ⟨⟨?_, ?_, ?_, ?_⟩, ?_⟩
    · rw [hsent]
      exact ⟨hstoring.window.ordered, hstoring.window.inWindow, hstoring.window.last_eq, hstoring.window.first⟩
    · rw [hsent]
      exact hstoring.listed h
    · have hcounted := h.counted
      have hcounters := hstoring.counters
      have hinFlight := hstoring.inFlight_eq hpos
      have hlen := hstoring.length_eq
      rw [hsent]
      show result.2.netPkts.length = _ + inFlight result.2
      dsimp only
      omega
    · rw [hsent]
      exact htransmitted
    · rw [hsent]
      exact hstoring.length_eq
  · rw [if_neg hhas, if_neg hhas]
    exact ⟨h, rfl⟩

end Outgoing

section Runs

variable {options : Options} {s : Reliability}

def sends : Event → Bool
  | .send frags _ _ => (frags.headD ⟨[]⟩).has 80
  | _ => false

theorem step_consistent (h : Consistent options s) (event : Event) :
    Outcome (fun s' => Consistent options s' ∧ s'.netPkts.length = s.netPkts.length + if sends event then 1 else 0)
      (step options s event) := by
  cases event with
  | send frags pkt isInterest => exact sendFragments_sent h frags pkt isInterest
  | receive pkt => exact (processIncomingPacket_kept h pkt).bind fun result hresult => hresult
  | rtoTimer txSeq =>
    by_cases hnone : (lookup s.unackedFrags txSeq).isNone
    · simp only [step, hnone, if_true]
      exact ⟨h, rfl⟩
    · have hmem := lookup_isSome.mp (Option.isSome_iff_ne_none.mpr (by simpa using hnone))
      simp only [step, hnone]
      exact (onLpPacketLost_lost h hmem).bind fun result hresult => ⟨hresult.consistent, hresult.length⟩
  | requestIdlePacket =>
    exact ⟨⟨⟨h.window.ordered, h.window.inWindow, h.window.last_eq, h.window.first⟩, h.listed, h.counted,
      h.transmitted.subset (fun _ hmem => hmem) rfl rfl⟩, rfl⟩

theorem foldlM_consistent (events : List Event) (h : Consistent options s) :
    Outcome (fun s' => Consistent options s' ∧ s'.netPkts.length = s.netPkts.length + events.countP sends)
      (events.foldlM (step options) s) := by
  induction events generalizing s with
  | nil => exact ⟨h, rfl⟩
  | cons event events ih =>
    rw [List.foldlM_cons]
    refine (step_consistent h event).bind fun s' hs' => (ih hs'.1).mono fun s'' hs'' => ⟨hs''.1, ?_⟩
    rw [hs''.2, hs'.2, List.countP_cons]
    omega

/-- After every run: each network packet that was sent is counted once or in flight,
no fragment is sent more than once and `maxRetx` times again, and the cursor is at
the earliest fragment. -/
theorem reliability_accounts (options : Options) (events : List Event) :
    Outcome (fun s => events.countP sends = s.nAcknowledged + s.nRetransmitted + s.nRetxExhausted + inFlight s ∧
      (∀ netPkt fragment, nTransmissions s netPkt fragment ≤ 1 + options.maxRetx) ∧ CursorEarliest s)
      (run options events) := by
  refine (foldlM_consistent events (consistent_initial options)).mono fun s hs => ?_
  refine ⟨?_, hs.1.transmitted.bounded, hs.1.window.cursorEarliest⟩
  have hcounted := hs.1.counted
  rw [hs.2] at hcounted
  rw [← hcounted]
  exact (Nat.zero_add _).symm

end Runs

end LeoNdn.PacketAccounts
