import LeoNdn.Runs
import Mathlib.Algebra.Order.Group.Int
import Mathlib.Data.Finset.Max
import Mathlib.Data.List.Range
import Mathlib.Data.Finset.Card

/-!
The sequence numbers that a consumer requests: those that wait for their Data or
for their timeout, and those that wait to be requested again.
-/

namespace LeoNdn.ConsumerSequences

open LeoNdn.Runs

structure SeqTimeout where
  seq : ℕ
  time : ℤ
  deriving DecidableEq, Repr

/-- In the order of the times; no two have the same sequence number. -/
abbrev SeqTimeoutsContainer := List SeqTimeout

namespace SeqTimeoutsContainer

def insertByTime (entry : SeqTimeout) : SeqTimeoutsContainer → SeqTimeoutsContainer
  | [] => [entry]
  | head :: container => if entry.time < head.time then entry :: head :: container else head :: insertByTime entry container

def find (container : SeqTimeoutsContainer) (seq : ℕ) :
    Option SeqTimeout := List.find? (fun entry => entry.seq = seq) container

def insert (entry : SeqTimeout) (container : SeqTimeoutsContainer) : SeqTimeoutsContainer :=
  if (find container entry.seq).isSome then container else insertByTime entry container

def erase (seq : ℕ) (container : SeqTimeoutsContainer) : SeqTimeoutsContainer :=
  List.filter (fun entry => entry.seq ≠ seq) container

end SeqTimeoutsContainer

inductive Delay
  | lastRetransmittedInterestData (seq : ℕ) (delay : ℤ) (hopCount : ℕ)
  | firstInterestData (seq : ℕ) (delay : ℤ) (retxCount : ℕ) (hopCount : ℕ)
  deriving DecidableEq, Repr

/-- With the numbers that have been requested for the first time, in that order,
those that have been answered after that, and the Interests that have been sent. -/
structure Consumer where
  now : ℤ
  m_active : Bool
  m_seq : ℕ
  m_seqMax : ℕ
  m_seqTimeouts : SeqTimeoutsContainer
  m_seqLastDelay : SeqTimeoutsContainer
  m_seqFullDelay : SeqTimeoutsContainer
  m_seqRetxCounts : ℕ → Option ℕ
  m_retxSeqs : Finset ℕ
  delays : List Delay
  requested : List ℕ
  answered : Finset ℕ
  sent : List ℕ

def uint32Max : ℕ := 4294967295

def uint32 (number : ℤ) : ℕ := (number % 4294967296).toNat

/-- `StartSeq` is signed. -/
def Consumer.initial (startSeq : ℤ) (m_seqMax : ℕ) : Consumer :=
  ⟨0, false, uint32 startSeq, m_seqMax, [], [], [], fun _ => none, ∅, [], [], ∅, []⟩

namespace Consumer

variable (s : Consumer)

/-- The loop over the earliest entries. -/
def popExpired (now rto : ℤ) : SeqTimeoutsContainer → Finset ℕ → SeqTimeoutsContainer × Finset ℕ
  | [], m_retxSeqs => ([], m_retxSeqs)
  | entry :: m_seqTimeouts, m_retxSeqs =>
    if entry.time + rto ≤ now then popExpired now rto m_seqTimeouts (insert entry.seq m_retxSeqs)
    else (entry :: m_seqTimeouts, m_retxSeqs)

/-- With the retransmission timeout that the estimator gives. -/
def checkRetxTimeout (rto : ℤ) : Consumer :=
  let popped := popExpired s.now rto s.m_seqTimeouts s.m_retxSeqs
  { s with m_seqTimeouts := popped.1, m_retxSeqs := popped.2 }

def willSendOutInterest (seq : ℕ) : Consumer :=
  { s with
    m_seqTimeouts := s.m_seqTimeouts.insert ⟨seq, s.now⟩
    m_seqFullDelay := s.m_seqFullDelay.insert ⟨seq, s.now⟩
    m_seqLastDelay := (s.m_seqLastDelay.erase seq).insert ⟨seq, s.now⟩
    m_seqRetxCounts := Function.update s.m_seqRetxCounts seq (some (uint32 ((s.m_seqRetxCounts seq).getD 0 + 1)))
    sent := s.sent ++ [seq] }

/-- `m_seq++`, which is what is requested for the first time. -/
def requestNext : Consumer :=
  willSendOutInterest { s with m_seq := uint32 (s.m_seq + 1), requested := s.requested ++ [s.m_seq] } s.m_seq

/-- Where there is no number to request again, or it is the one that stands for none. -/
def sendNew : Consumer :=
  if s.m_seqMax ≠ uint32Max ∧ s.m_seq ≥ s.m_seqMax then s else s.requestNext

def sendPacket : Consumer :=
  if s.m_active = false then s
  else
    match s.m_retxSeqs.min with
    | none => s.sendNew
    | some seq =>
      let s := { s with m_retxSeqs := s.m_retxSeqs.erase seq }
      if seq = uint32Max then s.sendNew else s.willSendOutInterest seq

def traceDelays (seq hopCount : ℕ) : List Delay :=
  ((s.m_seqLastDelay.find seq).map (fun entry => .lastRetransmittedInterestData seq (s.now - entry.time) hopCount)).toList ++
    ((s.m_seqFullDelay.find seq).map (fun entry =>
      .firstInterestData seq (s.now - entry.time) ((s.m_seqRetxCounts seq).getD 0) hopCount)).toList

/-- The sequence number of the name is cut to 32 bits. -/
def onData (number hopCount : ℕ) : Consumer :=
  if s.m_active = false then s
  else
    let seq := uint32 number
    { s with
      delays := s.delays ++ s.traceDelays seq hopCount
      m_seqRetxCounts := Function.update s.m_seqRetxCounts seq none
      m_seqFullDelay := s.m_seqFullDelay.erase seq
      m_seqLastDelay := s.m_seqLastDelay.erase seq
      m_seqTimeouts := s.m_seqTimeouts.erase seq
      m_retxSeqs := s.m_retxSeqs.erase seq
      answered := if seq ∈ s.requested then insert seq s.answered else s.answered }

end Consumer

inductive Event
  | advance (duration : ℕ)
  | startApplication
  | stopApplication
  | sendPacket
  | onData (number hopCount : ℕ)
  | checkRetxTimeout (rto : ℤ)
  deriving DecidableEq, Repr

def step (s : Consumer) : Event → Option Consumer
  | .advance duration => some { s with now := s.now + duration }
  | .startApplication => some { s with m_active := true }
  | .stopApplication => some { s with m_active := false }
  | .sendPacket => some s.sendPacket
  | .onData number hopCount => some (s.onData number hopCount)
  | .checkRetxTimeout rto => some (s.checkRetxTimeout rto)

def HasSeq (container : SeqTimeoutsContainer) (seq : ℕ) : Prop := ∃ entry ∈ container, entry.seq = seq

def IsWaiting (s : Consumer) (seq : ℕ) : Prop := HasSeq s.m_seqTimeouts seq

def IsQueued (s : Consumer) (seq : ℕ) : Prop := seq ∈ s.m_retxSeqs

def UniqueSeqs (container : SeqTimeoutsContainer) : Prop := (container.map SeqTimeout.seq).Nodup

def IsOutstanding (s : Consumer) (seq : ℕ) : Prop := seq ∈ s.requested ∧ seq ∉ s.answered

structure Tracked (start : ℕ) (sending : Option ℕ) (s : Consumer) : Prop where
  start_le : start ≤ s.m_seq
  m_seq_le : s.m_seq ≤ uint32Max
  requested : s.requested = List.range' start (s.m_seq - start)
  answered : ∀ seq ∈ s.answered, seq ∈ s.requested
  unique : UniqueSeqs s.m_seqTimeouts
  disjoint : ∀ seq, IsQueued s seq → ¬ IsWaiting s seq
  either : ∀ seq, IsWaiting s seq ∨ IsQueued s seq ↔ sending ≠ some seq ∧ IsOutstanding s seq
  fullDelay : ∀ seq, sending ≠ some seq → (HasSeq s.m_seqFullDelay seq ↔ IsOutstanding s seq)
  lastDelay : ∀ seq, sending ≠ some seq → (HasSeq s.m_seqLastDelay seq ↔ IsOutstanding s seq)
  retxCounts : ∀ seq, sending ≠ some seq → ((s.m_seqRetxCounts seq).isSome = true ↔ IsOutstanding s seq)

section Containers

variable {container : SeqTimeoutsContainer} {entry : SeqTimeout} {seq : ℕ}

theorem mem_insertByTime {other : SeqTimeout} :
    other ∈ SeqTimeoutsContainer.insertByTime entry container ↔ other = entry ∨ other ∈ container := by
  induction container with
  | nil => rw [SeqTimeoutsContainer.insertByTime, List.mem_singleton, or_iff_left List.not_mem_nil]
  | cons head container ih =>
    rw [SeqTimeoutsContainer.insertByTime]
    split
    · rw [List.mem_cons]
    · rw [List.mem_cons, List.mem_cons, ih]
      exact or_left_comm

theorem find_isSome : (SeqTimeoutsContainer.find container seq).isSome = true ↔ HasSeq container seq := by
  unfold SeqTimeoutsContainer.find HasSeq
  rw [List.find?_isSome]
  simp only [decide_eq_true_iff]

theorem hasSeq_insert : HasSeq (SeqTimeoutsContainer.insert entry container) seq ↔
    seq = entry.seq ∨ HasSeq container seq := by
  unfold SeqTimeoutsContainer.insert
  split
  · rename_i hfound
    have hold := find_isSome.mp hfound
    constructor
    · exact Or.inr
    · rintro (rfl | hseq)
      · exact hold
      · exact hseq
  · unfold HasSeq
    simp only [mem_insertByTime]
    constructor
    · rintro ⟨other, rfl | hother, rfl⟩
      · exact Or.inl rfl
      · exact Or.inr ⟨other, hother, rfl⟩
    · rintro (rfl | ⟨other, hother, rfl⟩)
      · exact ⟨entry, Or.inl rfl, rfl⟩
      · exact ⟨other, Or.inr hother, rfl⟩

theorem hasSeq_erase {other : ℕ} : HasSeq (SeqTimeoutsContainer.erase other container) seq ↔
    seq ≠ other ∧ HasSeq container seq := by
  unfold SeqTimeoutsContainer.erase HasSeq
  simp only [List.mem_filter, decide_eq_true_iff]
  constructor
  · rintro ⟨entry, ⟨hentry, hne⟩, rfl⟩
    exact ⟨hne, entry, hentry, rfl⟩
  · rintro ⟨hne, entry, hentry, rfl⟩
    exact ⟨entry, ⟨hentry, hne⟩, rfl⟩

theorem insertByTime_perm : (SeqTimeoutsContainer.insertByTime entry container).Perm (entry :: container) := by
  induction container with
  | nil => exact List.Perm.refl _
  | cons head container ih =>
    rw [SeqTimeoutsContainer.insertByTime]
    split
    · exact List.Perm.refl _
    · exact (ih.cons head).trans (List.Perm.swap entry head container)

theorem UniqueSeqs.insert (h : UniqueSeqs container) (entry : SeqTimeout) :
    UniqueSeqs (SeqTimeoutsContainer.insert entry container) := by
  unfold SeqTimeoutsContainer.insert
  split
  · exact h
  · rename_i hfound
    apply (insertByTime_perm.map SeqTimeout.seq).nodup_iff.mpr
    apply List.nodup_cons.mpr
    refine ⟨?_, h⟩
    intro hmem
    obtain ⟨other, hother, hseq⟩ := List.mem_map.mp hmem
    exact hfound (find_isSome.mpr ⟨other, hother, hseq⟩)

theorem UniqueSeqs.erase (h : UniqueSeqs container) (seq : ℕ) : UniqueSeqs (SeqTimeoutsContainer.erase seq container) :=
  h.sublist (List.filter_sublist.map SeqTimeout.seq)

theorem popExpired_spec (now rto : ℤ) (h : UniqueSeqs container) {m_retxSeqs : Finset ℕ}
    (hdisjoint : ∀ seq ∈ m_retxSeqs, ¬ HasSeq container seq) :
    UniqueSeqs (Consumer.popExpired now rto container m_retxSeqs).1 ∧
      (∀ seq ∈ (Consumer.popExpired now rto container m_retxSeqs).2,
        ¬ HasSeq (Consumer.popExpired now rto container m_retxSeqs).1 seq) ∧
        ∀ seq, HasSeq (Consumer.popExpired now rto container m_retxSeqs).1 seq ∨
          seq ∈ (Consumer.popExpired now rto container m_retxSeqs).2 ↔ HasSeq container seq ∨ seq ∈ m_retxSeqs := by
  induction container generalizing m_retxSeqs with
  | nil => exact ⟨h, hdisjoint, fun seq => Iff.rfl⟩
  | cons entry container ih =>
    rw [Consumer.popExpired]
    split
    · obtain ⟨hnot, hunique⟩ := List.nodup_cons.mp h
      have hhead : ∀ seq, HasSeq (entry :: container) seq ↔ seq = entry.seq ∨ HasSeq container seq := by
        intro seq
        unfold HasSeq
        rw [List.exists_mem_cons_iff, eq_comm]
      have hmoved : ∀ seq ∈ insert entry.seq m_retxSeqs, ¬ HasSeq container seq := by
        intro seq hseq hwaits
        rcases Finset.mem_insert.mp hseq with rfl | hold
        · obtain ⟨other, hother, heq⟩ := hwaits
          exact hnot (List.mem_map.mpr ⟨other, hother, heq⟩)
        · exact hdisjoint seq hold ((hhead seq).mpr (Or.inr hwaits))
      obtain ⟨hunique', hdisjoint', hsame⟩ := ih hunique hmoved
      refine ⟨hunique', hdisjoint', ?_⟩
      intro seq
      rw [hsame, hhead, Finset.mem_insert]
      tauto
    · exact ⟨h, hdisjoint, fun seq => Iff.rfl⟩

end Containers

section Steps

variable {start seq : ℕ} {s s' : Consumer}

theorem Tracked.mem_requested (h : Tracked start none s) : seq ∈ s.requested ↔ start ≤ seq ∧ seq < s.m_seq := by
  rw [h.requested, List.mem_range'_1]
  have hle := h.start_le
  omega

theorem Tracked.willSendOutInterest (h : Tracked start (some seq) s) (hseq : IsOutstanding s seq) :
    Tracked start none (s.willSendOutInterest seq) := by
  have hnot : ¬ (IsWaiting s seq ∨ IsQueued s seq) := fun heither => ((h.either seq).mp heither).1 rfl
  have hother : ∀ {x}, x ≠ seq → some seq ≠ some x := fun hne heq => hne (Option.some_inj.mp heq).symm
  refine ⟨h.start_le, h.m_seq_le, h.requested, h.answered, h.unique.insert _, ?_, ?_, ?_, ?_, ?_⟩
  · intro x hqueued hwaits
    rcases hasSeq_insert.mp hwaits with rfl | hold
    · exact hnot (Or.inr hqueued)
    · exact h.disjoint x hqueued hold
  · intro x
    have heither := h.either x
    unfold IsWaiting at heither ⊢
    rw [Consumer.willSendOutInterest, hasSeq_insert]
    by_cases hx : x = seq
    · rw [hx]
      exact iff_of_true (Or.inl (Or.inl rfl)) ⟨Option.some_ne_none seq |>.symm, hseq⟩
    · rw [or_assoc, or_iff_right hx]
      exact heither.trans (and_congr_left' (iff_of_true (hother hx) (Option.some_ne_none x).symm))
  · intro x _
    rw [Consumer.willSendOutInterest, hasSeq_insert]
    by_cases hx : x = seq
    · rw [hx]
      exact iff_of_true (Or.inl rfl) hseq
    · rw [or_iff_right hx]
      exact h.fullDelay x (hother hx)
  · intro x _
    rw [Consumer.willSendOutInterest, hasSeq_insert, hasSeq_erase]
    by_cases hx : x = seq
    · rw [hx]
      exact iff_of_true (Or.inl rfl) hseq
    · rw [or_iff_right hx, and_iff_right hx]
      exact h.lastDelay x (hother hx)
  · intro x _
    rw [Consumer.willSendOutInterest]
    by_cases hx : x = seq
    · rw [hx]
      dsimp only
      rw [Function.update_self]
      exact iff_of_true rfl hseq
    · dsimp only
      rw [Function.update_of_ne hx]
      exact h.retxCounts x (hother hx)

theorem Tracked.requestNext (h : Tracked start none s) (hseq : s.m_seq < uint32Max) :
    Tracked start none s.requestNext := by
  have hnext : uint32 (s.m_seq + 1) = s.m_seq + 1 := by
    unfold uint32
    unfold uint32Max at hseq
    omega
  have hnew : s.m_seq ∉ s.requested := fun hmem => Nat.lt_irrefl _ (h.mem_requested.mp hmem).2
  have hnone : ∀ x, ¬ (none : Option ℕ) = some x := fun x hx => by cases hx
  have hout : ∀ x, x ≠ s.m_seq → ∀ t, (t = { s with m_seq := uint32 (s.m_seq + 1), requested := s.requested ++ [s.m_seq] }) →
      (IsOutstanding t x ↔ IsOutstanding s x) := by
    rintro x hx t rfl
    unfold IsOutstanding
    dsimp only
    rw [List.mem_append, List.mem_singleton, or_iff_left hx]
  unfold Consumer.requestNext
  apply Tracked.willSendOutInterest
  · refine ⟨?_, ?_, ?_, ?_, h.unique, h.disjoint, ?_, ?_, ?_, ?_⟩
    · dsimp only
      rw [hnext]
      exact Nat.le_succ_of_le h.start_le
    · dsimp only
      rw [hnext]
      exact hseq
    · dsimp only
      rw [hnext, h.requested, Nat.succ_sub h.start_le, List.range'_concat]
      have hle := h.start_le
      rw [Nat.one_mul, Nat.add_sub_cancel' hle]
    · exact fun x hx => List.mem_append_left _ (h.answered x hx)
    · intro x
      by_cases hx : x = s.m_seq
      · rw [hx]
        refine iff_of_false (fun heither => hnew ((h.either s.m_seq).mp heither).2.1) fun hboth => hboth.1 rfl
      · rw [hout x hx _ rfl, and_iff_right fun heq => hx (Option.some_inj.mp heq).symm]
        exact (h.either x).trans (and_iff_right (hnone x))
    · intro x hne
      rw [hout x (fun heq => hne (by rw [heq])) _ rfl]
      exact h.fullDelay x (hnone x)
    · intro x hne
      rw [hout x (fun heq => hne (by rw [heq])) _ rfl]
      exact h.lastDelay x (hnone x)
    · intro x hne
      rw [hout x (fun heq => hne (by rw [heq])) _ rfl]
      exact h.retxCounts x (hnone x)
  · exact ⟨List.mem_append_right _ (List.mem_singleton_self _), fun hmem => hnew (h.answered _ hmem)⟩

theorem Tracked.sendNew (h : Tracked start none s) (hseq : s.m_seq < uint32Max) : Tracked start none s.sendNew := by
  unfold Consumer.sendNew
  split
  · exact h
  · exact h.requestNext hseq

/-- A number that is requested again is not the greatest one, which the counter
has not passed. -/
theorem Tracked.sendPacket (h : Tracked start none s) (hseq : s.m_seq < uint32Max) :
    Tracked start none s.sendPacket := by
  unfold Consumer.sendPacket
  split
  · exact h
  · split
    · exact h.sendNew hseq
    · rename_i seq hmin
      have hqueued : IsQueued s seq := Finset.mem_of_min hmin
      have hout := ((h.either seq).mp (Or.inr hqueued)).2
      have hlt := (h.mem_requested.mp hout.1).2
      dsimp only
      rw [if_neg (Nat.ne_of_lt (hlt.trans hseq))]
      apply Tracked.willSendOutInterest (s := { s with m_retxSeqs := s.m_retxSeqs.erase seq }) _ hout
      have hnone : ∀ x, ¬ (none : Option ℕ) = some x := fun x hx => by cases hx
      refine ⟨h.start_le, h.m_seq_le, h.requested, h.answered, h.unique, ?_, ?_, ?_, ?_, ?_⟩
      · exact fun x hx => h.disjoint x (Finset.mem_of_mem_erase hx)
      · intro x
        have heither := h.either x
        unfold IsQueued at heither ⊢
        dsimp only
        rw [Finset.mem_erase]
        by_cases hx : x = seq
        · rw [hx]
          refine iff_of_false ?_ fun hboth => hboth.1 rfl
          rintro (hwaits | ⟨hne, -⟩)
          · exact h.disjoint seq hqueued hwaits
          · exact hne rfl
        · rw [and_iff_right hx, and_iff_right fun heq => hx (Option.some_inj.mp heq).symm]
          exact heither.trans (and_iff_right (hnone x))
      · exact fun x _ => h.fullDelay x (hnone x)
      · exact fun x _ => h.lastDelay x (hnone x)
      · exact fun x _ => h.retxCounts x (hnone x)

theorem Tracked.onData (h : Tracked start none s) (number hopCount : ℕ) :
    Tracked start none (s.onData number hopCount) := by
  unfold Consumer.onData
  split
  · exact h
  · dsimp only
    generalize uint32 number = seq
    have hnone : ∀ x, ¬ (none : Option ℕ) = some x := fun x hx => by cases hx
    have hanswered : ∀ x, x ∈ (if seq ∈ s.requested then insert seq s.answered else s.answered) ↔
        x ∈ s.answered ∨ x = seq ∧ seq ∈ s.requested := by
      intro x
      split
      · rename_i hmem
        rw [Finset.mem_insert, or_comm, and_iff_left hmem]
      · rename_i hmem
        rw [or_iff_left fun hboth => hmem hboth.2]
    have hout : ∀ x, (x ∈ s.requested ∧ x ∉ (if seq ∈ s.requested then insert seq s.answered else s.answered)) ↔
        x ≠ seq ∧ IsOutstanding s x := by
      intro x
      rw [hanswered]
      unfold IsOutstanding
      constructor
      · rintro ⟨hmem, hnot⟩
        refine ⟨?_, hmem, fun hold => hnot (Or.inl hold)⟩
        rintro rfl
        exact hnot (Or.inr ⟨rfl, hmem⟩)
      · rintro ⟨hne, hmem, hnot⟩
        exact ⟨hmem, fun heither => heither.elim hnot fun hboth => hne hboth.1⟩
    refine ⟨h.start_le, h.m_seq_le, h.requested, ?_, h.unique.erase seq, ?_, ?_, ?_, ?_, ?_⟩
    · intro x hx
      rcases (hanswered x).mp hx with hold | ⟨rfl, hmem⟩
      · exact h.answered x hold
      · exact hmem
    · intro x hx hwaits
      exact h.disjoint x (Finset.mem_of_mem_erase hx) (hasSeq_erase.mp hwaits).2
    · intro x
      have heither := h.either x
      unfold IsWaiting IsQueued at heither ⊢
      rw [hasSeq_erase, Finset.mem_erase, ← and_or_left, heither, and_iff_right (hnone x), and_iff_right (hnone x)]
      exact (hout x).symm
    · intro x hne
      rw [hasSeq_erase, h.fullDelay x hne]
      exact (hout x).symm
    · intro x hne
      rw [hasSeq_erase, h.lastDelay x hne]
      exact (hout x).symm
    · intro x hne
      apply Iff.trans _ (hout x).symm
      dsimp only
      by_cases hx : x = seq
      · rw [hx, Function.update_self]
        exact iff_of_false Bool.false_ne_true fun hboth => hboth.1 rfl
      · rw [Function.update_of_ne hx, and_iff_right hx]
        exact h.retxCounts x hne

theorem Tracked.checkRetxTimeout (h : Tracked start none s) (rto : ℤ) :
    Tracked start none (s.checkRetxTimeout rto) := by
  obtain ⟨hunique, hdisjoint, hsame⟩ := popExpired_spec s.now rto h.unique h.disjoint
  refine ⟨h.start_le, h.m_seq_le, h.requested, h.answered, hunique, hdisjoint, ?_, h.fullDelay, h.lastDelay, h.retxCounts⟩
  exact fun seq => (hsame seq).trans (h.either seq)

def NotWrapping (s : Consumer) (_ : Event) : Prop := s.m_seq < uint32Max

instance (s : Consumer) (event : Event) : Decidable (NotWrapping s event) := inferInstanceAs (Decidable (s.m_seq < uint32Max))

theorem Tracked.step (h : Tracked start none s) {event : Event} (hseq : NotWrapping s event)
    (hstep : step s event = some s') : Tracked start none s' := by
  cases event with
  | advance duration =>
    cases hstep
    exact ⟨h.start_le, h.m_seq_le, h.requested, h.answered, h.unique, h.disjoint, h.either, h.fullDelay, h.lastDelay,
      h.retxCounts⟩
  | startApplication =>
    cases hstep
    exact ⟨h.start_le, h.m_seq_le, h.requested, h.answered, h.unique, h.disjoint, h.either, h.fullDelay, h.lastDelay,
      h.retxCounts⟩
  | stopApplication =>
    cases hstep
    exact ⟨h.start_le, h.m_seq_le, h.requested, h.answered, h.unique, h.disjoint, h.either, h.fullDelay, h.lastDelay,
      h.retxCounts⟩
  | sendPacket =>
    cases hstep
    exact h.sendPacket hseq
  | onData number hopCount =>
    cases hstep
    exact h.onData number hopCount
  | checkRetxTimeout rto =>
    cases hstep
    exact h.checkRetxTimeout rto

end Steps

section Runs

variable {startSeq : ℤ} {m_seqMax : ℕ} {s : Consumer}

theorem uint32_le (number : ℤ) : uint32 number ≤ uint32Max := by
  unfold uint32 uint32Max
  omega

theorem tracked_initial (startSeq : ℤ) (m_seqMax : ℕ) :
    Tracked (uint32 startSeq) none (Consumer.initial startSeq m_seqMax) := by
  have hout : ∀ seq, ¬ IsOutstanding (Consumer.initial startSeq m_seqMax) seq := fun seq hseq => absurd hseq.1 List.not_mem_nil
  have hnil : ∀ seq, ¬ HasSeq [] seq := by
    rintro seq ⟨entry, hentry, -⟩
    cases hentry
  refine ⟨Nat.le_refl _, uint32_le startSeq, ?_, ?_, List.nodup_nil, ?_, ?_, ?_, ?_, ?_⟩
  · rw [Consumer.initial, Nat.sub_self]
    rfl
  · exact fun seq hseq => absurd hseq (Finset.notMem_empty seq)
  · exact fun seq _ => hnil seq
  · refine fun seq => iff_of_false ?_ fun hboth => hout seq hboth.2
    rintro (hwaits | hqueued)
    · exact hnil seq hwaits
    · exact Finset.notMem_empty seq hqueued
  · exact fun seq _ => iff_of_false (hnil seq) (hout seq)
  · exact fun seq _ => iff_of_false (hnil seq) (hout seq)
  · exact fun seq _ => iff_of_false Bool.false_ne_true (hout seq)

/-- A number from the first one up to the counter that is not answered waits or is
queued, and not both; an answered one does neither; and none is requested for the
first time twice. -/
theorem requests_tracked (hrun : Run step NotWrapping (Consumer.initial startSeq m_seqMax) s) :
    (∀ seq, uint32 startSeq ≤ seq → seq < s.m_seq → seq ∉ s.answered → Xor (IsWaiting s seq) (IsQueued s seq)) ∧
      (∀ seq ∈ s.answered, ¬ IsWaiting s seq ∧ ¬ IsQueued s seq) ∧ s.requested.Nodup := by
  have h : Tracked (uint32 startSeq) none s :=
    hrun.invariant (fun _ _ _ htracked hseq hstep => htracked.step hseq hstep) (tracked_initial startSeq m_seqMax)
  refine ⟨?_, ?_, ?_⟩
  · intro seq hle hlt hnot
    have heither := (h.either seq).mpr ⟨(Option.some_ne_none seq).symm, h.mem_requested.mpr ⟨hle, hlt⟩, hnot⟩
    rcases heither with hwaits | hqueued
    · exact Or.inl ⟨hwaits, fun hqueued => h.disjoint seq hqueued hwaits⟩
    · exact Or.inr ⟨hqueued, h.disjoint seq hqueued⟩
  · intro seq hanswered
    apply not_or.mp
    intro heither
    exact ((h.either seq).mp heither).2.2 hanswered
  · rw [h.requested]
    exact List.nodup_range'

def lossEvents : List Event :=
  [.startApplication, .sendPacket, .advance 1000, .sendPacket, .onData 1 0, .checkRetxTimeout 1000, .sendPacket]

theorem requests_tracked_loss : ∃ s, Run step NotWrapping (Consumer.initial 0 uint32Max) s ∧ s.m_seq = 2 ∧
    s.answered = {1} ∧ s.sent = [0, 1, 0] ∧ Xor (IsWaiting s 0) (IsQueued s 0) := by
  have hrun : (runOf step NotWrapping (Consumer.initial 0 uint32Max) lossEvents).map
      (fun s => (s.m_seq, s.answered, s.sent)) = some (2, {1}, [0, 1, 0]) := by decide
  obtain ⟨s, hs, heq⟩ := Option.map_eq_some_iff.mp hrun
  simp only [Prod.mk.injEq] at heq
  obtain ⟨hseq, hanswered, hsent⟩ := heq
  have hrun := Run.of_runOf hs
  refine ⟨s, hrun, hseq, hanswered, hsent, (requests_tracked hrun).1 0 (Nat.le_refl 0) ?_ ?_⟩
  · rw [hseq]
    exact Nat.zero_lt_two
  · rw [hanswered]
    decide

theorem exists_requests (n : ℕ) : ∃ s, Run step (fun _ _ => True) (Consumer.initial 0 uint32Max) s ∧ s.m_active = true ∧
    s.m_seqMax = uint32Max ∧ s.m_retxSeqs = ∅ ∧ s.m_seq ≤ uint32Max ∧ s.requested.length = n ∧
      ∀ seq ∈ s.requested, seq ≤ uint32Max := by
  induction n with
  | zero =>
    have hstart : step (Consumer.initial 0 uint32Max) .startApplication =
      some { Consumer.initial 0 uint32Max with m_active := true } := rfl
    refine ⟨_, Run.refl.step trivial hstart, rfl, rfl, rfl, Nat.zero_le _, rfl, ?_⟩
    exact fun seq hseq => absurd hseq List.not_mem_nil
  | succ n ih =>
    obtain ⟨s, hrun, hactive, hmax, hretx, hseq, hlength, hrequested⟩ := ih
    have hsend : step s .sendPacket = some s.requestNext := by
      apply congrArg some
      unfold Consumer.sendPacket
      rw [if_neg (by rw [hactive]; exact Bool.true_eq_false_eq_False), hretx]
      exact if_neg fun hlast => hlast.1 hmax
    have hnext : s.requestNext.m_seq ≤ uint32Max := by
      unfold Consumer.requestNext Consumer.willSendOutInterest
      dsimp only
      exact uint32_le _
    refine ⟨s.requestNext, hrun.step trivial hsend, hactive, hmax, hretx, hnext, ?_, ?_⟩
    · rw [Consumer.requestNext, Consumer.willSendOutInterest, List.length_append, hlength]
      rfl
    · intro seq hmem
      rcases List.mem_append.mp hmem with hold | hnew
      · exact hrequested seq hold
      · rw [List.mem_singleton.mp hnew]
        exact hseq

/-- The numbers below `StartSeq` are never requested, and the counter wraps. -/
theorem requests_not_tracked :
    (¬ ∀ startSeq s, Run step (fun _ _ => True) (Consumer.initial startSeq uint32Max) s →
      ∀ seq < s.m_seq, seq ∉ s.answered → Xor (IsWaiting s seq) (IsQueued s seq)) ∧
    ¬ ∀ s, Run step (fun _ _ => True) (Consumer.initial 0 uint32Max) s → s.requested.Nodup := by
  constructor
  · intro htracked
    rcases htracked 1 _ Run.refl 0 Nat.zero_lt_one (Finset.notMem_empty 0) with ⟨⟨entry, hentry, -⟩, -⟩ | ⟨hqueued, -⟩
    · cases hentry
    · exact Finset.notMem_empty 0 hqueued
  · intro hnodup
    obtain ⟨s, hrun, -, -, -, -, hlength, hrequested⟩ := exists_requests (uint32Max + 2)
    have hcard : s.requested.toFinset.card = s.requested.length := List.toFinset_card_of_nodup (hnodup s hrun)
    have hle : s.requested.toFinset.card ≤ (Finset.range (uint32Max + 1)).card := by
      apply Finset.card_le_card
      intro seq hseq
      rw [Finset.mem_range]
      exact Nat.lt_succ_of_le (hrequested seq (List.mem_toFinset.mp hseq))
    rw [hcard, hlength, Finset.card_range] at hle
    exact absurd hle (Nat.not_succ_le_self _)

end Runs

end LeoNdn.ConsumerSequences
