import LeoNdn.PitPipelines
import LeoNdn.Runs
import Mathlib.Data.List.Dedup

/-!
The processing of Nacks that the multicast and best-route strategies share: to which
downstreams an incoming Nack is passed on, and with which reason.
-/

namespace LeoNdn.ProcessNackTraits

open LeoNdn.PitPipelines LeoNdn.Runs
open LeoNdn.Forwarder (Face)

variable {σ κ δ : Type}

section Reasons

inductive NackReason
  | NONE
  | CONGESTION
  | DUPLICATE
  | NO_ROUTE
  deriving DecidableEq, Repr

def NackReason.code : NackReason → ℕ
  | NONE => 0
  | CONGESTION => 50
  | DUPLICATE => 100
  | NO_ROUTE => 150

def getReason (m_reason : ℕ) : NackReason :=
  if m_reason = 50 then .CONGESTION else if m_reason = 100 then .DUPLICATE else if m_reason = 150 then .NO_ROUTE else .NONE

/-- `NONE` is the most severe. -/
def isLessSevere (x y : NackReason) : Bool :=
  if x = .NONE then false else if y = .NONE then true else x.code < y.code

structure Counts where
  nOutRecordsNotNacked : ℕ
  lastFaceNotNacked : Option Face
  leastSevereReason : NackReason
  deriving DecidableEq, Repr

def Counts.add (counts : Counts) (outR : OutRecord) : Counts :=
  match outR.m_incomingNack with
  | none => { counts with
      nOutRecordsNotNacked := counts.nOutRecordsNotNacked + 1, lastFaceNotNacked := some outR.m_face }
  | some inNack =>
    if isLessSevere (getReason inNack) counts.leastSevereReason then { counts with leastSevereReason := getReason inNack }
    else counts

def countOutRecords (pitEntry : PitEntry σ) : Counts := pitEntry.m_outRecords.foldl Counts.add ⟨0, none, .NONE⟩

/-- The order in which the loop over an unordered set of faces takes them. -/
abbrev IterationOrder := {order : List Face → List Face // ∀ faces, (order faces).Perm faces}

/-- `Strategy::sendNacks` without excluded faces. -/
def sendNacks (order : IterationOrder) (pitEntry : PitEntry σ) (reason : NackReason) : List (Action σ) :=
  (order.val (pitEntry.m_inRecords.map (fun inR => inR.m_face)).dedup).map (fun downstream => .sendNack downstream reason.code)

/-- The only face without a Nack, if it is a downstream too. -/
def bidirectionalFace (pitEntry : PitEntry σ) : Option Face :=
  if (countOutRecords pitEntry).nOutRecordsNotNacked = 1 then
    (countOutRecords pitEntry).lastFaceNotNacked.filter (fun face => pitEntry.m_inRecords.any (fun inR => inR.m_face = face))
  else none

def processNack (order : IterationOrder) (pitEntry : PitEntry σ) : List (Action σ) :=
  match bidirectionalFace pitEntry with
  | some face => [.sendNack face (countOutRecords pitEntry).leastSevereReason.code]
  | none =>
    if (countOutRecords pitEntry).nOutRecordsNotNacked > 0 then []
    else sendNacks order pitEntry (countOutRecords pitEntry).leastSevereReason

end Reasons

section Pipeline

variable [DecidableEq σ] (ctx : Context σ κ δ) (s : State σ κ δ)

def entryOf (interest : Interest σ) : Option (PitEntry σ) := (find s interest).bind (fun i => s.entries[i]?)

def onIncomingNack (order : IterationOrder) (inFace : Face) (reason : ℕ) (interest : Interest σ) : State σ κ δ :=
  PitPipelines.onIncomingNack s inFace reason interest
    (match entryOf s interest with
    | none => []
    | some pitEntry => processNack order (setIncomingNack inFace reason pitEntry))

/-- Between the Nacks time may pass, and the timers of entries may end them. -/
inductive Event (σ : Type)
  | advance (duration : ℕ)
  | executeEvent
  | nack (order : IterationOrder) (inFace : Face) (reason : ℕ) (interest : Interest σ)

def next : Event σ → State σ κ δ
  | .advance duration => { s with now := s.now + duration }
  | .executeEvent => (step ctx s (.executeEvent [])).getD s
  | .nack order inFace reason interest => onIncomingNack s order inFace reason interest

def inRecords (i : ℕ) : List (InRecord σ) := ((s.entries[i]?).map PitEntry.m_inRecords).getD []

def Event.isAbout (i : ℕ) : Event σ → Bool
  | .nack _ _ _ interest => find s interest = some i
  | _ => false

def sentFor (i : ℕ) : State σ κ δ → List (Event σ) → List (Face × Packet σ)
  | _, [] => []
  | s, event :: events =>
    (if event.isAbout s i then (next ctx s event).sent.drop s.sent.length else []) ++ sentFor i (next ctx s event) events

end Pipeline

section Properties

def isNacked (outR : OutRecord) : Bool := outR.m_incomingNack.isSome

def reasons (records : List OutRecord) : List NackReason :=
  (records.filterMap (fun outR => outR.m_incomingNack)).map getReason

/-- What a Nack may lead to, where `removed` are the in-records that are answered. -/
structure NackRight (pitEntry : PitEntry σ) (reason : NackReason) (removed : List (InRecord σ)) : Prop where
  decided : removed = [] ∨ (∀ outR ∈ pitEntry.m_outRecords, isNacked outR = true) ∨
    ∃ outR, pitEntry.m_outRecords.filter (fun outR => ! isNacked outR) = [outR] ∧ ∀ inR ∈ removed, inR.m_face = outR.m_face
  leastSevere : reason ∈ reasons pitEntry.m_outRecords ∧
    ∀ other ∈ reasons pitEntry.m_outRecords, isLessSevere other reason = false
  once : (removed.map (fun inR => inR.m_face)).Nodup

structure Answered (i : ℕ) (reason : NackReason) (removed : List (InRecord σ)) (s s' : State σ κ δ) : Prop where
  sent : s'.sent = s.sent ++ removed.map (fun inR => (inR.m_face, .nack reason.code inR.m_interest))
  lost : (inRecords s i).Perm (inRecords s' i ++ removed)
  others : ∀ j ≠ i, inRecords s' j = inRecords s j

structure Silent (s s' : State σ κ δ) : Prop where
  sent : s'.sent = s.sent
  kept : ∀ i, inRecords s' i = inRecords s i

def EventRight [DecidableEq σ] (ctx : Context σ κ δ) (s : State σ κ δ) : Event σ → Prop
  | .nack order inFace reason interest => Silent s (onIncomingNack s order inFace reason interest) ∨
      ∃ i pitEntry outReason removed, find s interest = some i ∧ s.entries[i]? = some pitEntry ∧
        NackRight (setIncomingNack inFace reason pitEntry) outReason removed ∧
        Answered i outReason removed s (onIncomingNack s order inFace reason interest)
  | event => Silent s (next ctx s event)

end Properties

section Counting

theorem isLessSevere_false_trans {x y z : NackReason} (hxy : isLessSevere x y = false) (hyz : isLessSevere y z = false) :
    isLessSevere x z = false := by
  revert hxy hyz
  cases x <;> cases y <;> cases z <;> decide

theorem isLessSevere_asymm {x y : NackReason} (h : isLessSevere x y = true) : isLessSevere y x = false := by
  revert h
  cases x <;> cases y <;> decide

theorem isLessSevere_self (x : NackReason) : isLessSevere x x = false := by
  cases x <;> decide

theorem eq_none_of_not_isLessSevere {x : NackReason} (h : isLessSevere x .NONE = false) : x = .NONE := by
  revert h
  cases x <;> decide

theorem foldl_add_notNacked (records : List OutRecord) (counts : Counts) :
    (records.foldl Counts.add counts).nOutRecordsNotNacked =
        counts.nOutRecordsNotNacked + (records.filter (fun outR => ! isNacked outR)).length ∧
      (records.foldl Counts.add counts).lastFaceNotNacked =
        ((records.filter (fun outR => ! isNacked outR)).getLast?.map (fun outR => outR.m_face)).or counts.lastFaceNotNacked := by
  induction records generalizing counts with
  | nil => exact ⟨rfl, rfl⟩
  | cons outR records ih =>
    obtain ⟨hcount, hlast⟩ := ih (counts.add outR)
    rw [List.foldl_cons, hcount, hlast]
    unfold Counts.add isNacked
    cases hnack : outR.m_incomingNack with
    | none =>
      rw [List.filter_cons_of_pos (by simp [hnack]), List.length_cons]
      refine ⟨by dsimp only; omega, ?_⟩
      cases records.filter (fun outR => ! outR.m_incomingNack.isSome) with
      | nil => rfl
      | cons other others => simp [List.getLast?_eq_some_getLast]
    | some inNack =>
      rw [List.filter_cons_of_neg (by simp [hnack])]
      dsimp only
      split <;> exact ⟨rfl, rfl⟩

theorem foldl_add_least (records : List OutRecord) (counts : Counts) :
    (records.foldl Counts.add counts).leastSevereReason ∈ counts.leastSevereReason :: reasons records ∧
      ∀ other ∈ counts.leastSevereReason :: reasons records,
        isLessSevere other (records.foldl Counts.add counts).leastSevereReason = false := by
  induction records generalizing counts with
  | nil => simp [reasons, isLessSevere_self]
  | cons outR records ih =>
    obtain ⟨hmem, hleast⟩ := ih (counts.add outR)
    rw [List.foldl_cons]
    cases hnack : outR.m_incomingNack with
    | none =>
      have hreasons : reasons (outR :: records) = reasons records := by simp [reasons, hnack]
      have hadd : (counts.add outR).leastSevereReason = counts.leastSevereReason := by simp [Counts.add, hnack]
      rw [hadd] at hmem hleast
      rw [hreasons]
      exact ⟨hmem, hleast⟩
    | some inNack =>
      have hreasons : reasons (outR :: records) = getReason inNack :: reasons records := by simp [reasons, hnack]
      rw [hreasons]
      by_cases hless : isLessSevere (getReason inNack) counts.leastSevereReason = true
      · have hadd : (counts.add outR).leastSevereReason = getReason inNack := by simp [Counts.add, hnack, hless]
        rw [hadd] at hmem hleast
        refine ⟨List.mem_cons_of_mem _ hmem, List.forall_mem_cons.mpr ⟨?_, hleast⟩⟩
        exact isLessSevere_false_trans (isLessSevere_asymm hless) (hleast _ List.mem_cons_self)
      · have hadd : (counts.add outR).leastSevereReason = counts.leastSevereReason := by simp [Counts.add, hnack, hless]
        rw [hadd] at hmem hleast
        obtain ⟨hfirst, hrest⟩ := List.forall_mem_cons.mp hleast
        refine ⟨?_, List.forall_mem_cons.mpr ⟨hfirst, List.forall_mem_cons.mpr ⟨?_, hrest⟩⟩⟩
        · rcases List.mem_cons.mp hmem with heq | hmem
          · exact heq ▸ List.mem_cons_self
          · exact List.mem_cons_of_mem _ (List.mem_cons_of_mem _ hmem)
        · exact isLessSevere_false_trans (Bool.not_eq_true _ ▸ hless) hfirst

variable {pitEntry : PitEntry σ}

theorem countOutRecords_least (h : reasons pitEntry.m_outRecords ≠ []) :
    (countOutRecords pitEntry).leastSevereReason ∈ reasons pitEntry.m_outRecords ∧
      ∀ other ∈ reasons pitEntry.m_outRecords, isLessSevere other (countOutRecords pitEntry).leastSevereReason = false := by
  obtain ⟨hmem, hleast⟩ := foldl_add_least pitEntry.m_outRecords ⟨0, none, .NONE⟩
  have hrest := (List.forall_mem_cons.mp hleast).2
  refine ⟨?_, hrest⟩
  rcases List.mem_cons.mp hmem with hnone | hmem
  · -- the first reason is not less severe, and so it is `NONE` too
    obtain ⟨reason, others, hreasons⟩ := List.exists_cons_of_ne_nil h
    have hfirst := hrest reason (hreasons ▸ List.mem_cons_self)
    rw [hnone] at hfirst
    have heq := hnone.trans (eq_none_of_not_isLessSevere hfirst).symm
    exact heq ▸ hreasons ▸ List.mem_cons_self
  · exact hmem

theorem nOutRecordsNotNacked_eq : (countOutRecords pitEntry).nOutRecordsNotNacked =
    (pitEntry.m_outRecords.filter (fun outR => ! isNacked outR)).length := by
  rw [countOutRecords, (foldl_add_notNacked _ _).1, Nat.zero_add]

theorem bidirectionalFace_some {face : Face} (h : bidirectionalFace pitEntry = some face) :
    ∃ outR, pitEntry.m_outRecords.filter (fun outR => ! isNacked outR) = [outR] ∧ outR.m_face = face := by
  unfold bidirectionalFace at h
  split at h
  · rename_i hone
    rw [nOutRecordsNotNacked_eq, List.length_eq_one_iff] at hone
    obtain ⟨outR, hone⟩ := hone
    have hlast := (Option.filter_eq_some_iff.mp h).1
    rw [countOutRecords, (foldl_add_notNacked _ _).2, hone] at hlast
    exact ⟨outR, hone, Option.some_inj.mp hlast⟩
  · cases h

end Counting

section Answers

variable {i : ℕ} {reason : NackReason} {removed : List (InRecord σ)} {s s' s'' : State σ κ δ}

theorem Silent.trans (h : Silent s s') (h' : Silent s' s'') : Silent s s'' :=
  ⟨h'.sent.trans h.sent, fun j => (h'.kept j).trans (h.kept j)⟩

theorem Silent.answered (h : Silent s s') (h' : Answered i reason removed s' s'') : Answered i reason removed s s'' where
  sent := by rw [h'.sent, h.sent]
  lost := by
    rw [← h.kept i]
    exact h'.lost
  others j hj := (h'.others j hj).trans (h.kept j)

theorem Answered.refl (i : ℕ) (reason : NackReason) (s : State σ κ δ) : Answered i reason [] s s where
  sent := (List.append_nil _).symm
  lost := by rw [List.append_nil]
  others _ _ := rfl

theorem Answered.trans {removed' : List (InRecord σ)} (h : Answered i reason removed s s')
    (h' : Answered i reason removed' s' s'') : Answered i reason (removed ++ removed') s s'' where
  sent := by rw [h'.sent, h.sent, List.map_append, List.append_assoc]
  lost := by
    refine h.lost.trans ((h'.lost.append_right removed).trans ?_)
    rw [List.append_assoc]
    exact List.perm_append_comm.append_left _
  others j hj := (h'.others j hj).trans (h.others j hj)

theorem inRecords_modifyEntry (s : State σ κ δ) (i j : ℕ) (f : PitEntry σ → PitEntry σ) :
    inRecords (s.modifyEntry i f) j =
      ((s.entries[j]?).map (fun entry => (if i = j then f entry else entry).m_inRecords)).getD [] := by
  unfold inRecords State.modifyEntry
  dsimp only
  rw [List.getElem?_modify, Option.map_eq_map, Option.map_map]
  rfl

theorem silent_modifyEntry {f : PitEntry σ → PitEntry σ} (hf : ∀ entry, (f entry).m_inRecords = entry.m_inRecords)
    (s : State σ κ δ) (i : ℕ) : Silent s (s.modifyEntry i f) where
  sent := rfl
  kept j := by
    rw [inRecords_modifyEntry]
    unfold inRecords
    congr 2
    funext entry
    split
    · exact hf entry
    · rfl

theorem silent_setExpiryTimer (s : State σ κ δ) (i : ℕ) (duration : ℤ) : Silent s (s.setExpiryTimer i duration) := by
  have hschedule : Silent s ((s.cancel (s.timerOf i)).schedule (duration * 1000000) (.onInterestFinalize i)) :=
    ⟨rfl, fun _ => rfl⟩
  exact hschedule.trans (silent_modifyEntry
    (f := fun entry => { entry with expiryTimer := some (s.cancel (s.timerOf i)).scheduler.nextId }) (fun _ => rfl) _ i)

theorem perm_eraseP {α : Type} {p : α → Bool} {records : List α} {record : α} (h : records.find? p = some record) :
    records.Perm (records.eraseP p ++ [record]) := by
  obtain ⟨hrecord, before, after, rfl, hbefore⟩ := List.find?_eq_some_iff_append.mp h
  have hnot : ∀ other ∈ before, ¬ p other = true := by simpa using hbefore
  rw [List.eraseP_append_right _ hnot, List.eraseP_cons_of_pos hrecord]
  exact List.perm_middle.trans (List.perm_append_singleton record _).symm

theorem answered_onOutgoingNack (s : State σ κ δ) (i : ℕ) (outFace : Face) (reason : NackReason) :
    ∃ removed, Answered i reason removed s (onOutgoingNack s i outFace reason.code) ∧
      (removed.map (fun inR => inR.m_face)).Sublist [outFace] := by
  have hdropped : ∃ removed, Answered i reason removed s s ∧
      (removed.map (fun inR => inR.m_face)).Sublist [outFace] := ⟨[], Answered.refl i reason s, List.nil_sublist _⟩
  unfold onOutgoingNack
  split
  · exact hdropped
  · split
    · exact hdropped
    · rename_i inRecord hfind
      split
      · exact hdropped
      · obtain ⟨entry, hentry, hfind⟩ := Option.bind_eq_some_iff.mp hfind
        have hface : inRecord.m_face = outFace := by simpa using List.find?_some hfind
        refine ⟨[inRecord], ⟨?_, ?_, fun j hj => ?_⟩, ?_⟩
        · rw [List.map_singleton, hface]
          rfl
        · change (inRecords s i).Perm (inRecords (s.modifyEntry i (deleteInRecord outFace)) i ++ [inRecord])
          rw [inRecords_modifyEntry, inRecords, hentry]
          simpa [deleteInRecord] using perm_eraseP hfind
        · change inRecords (s.modifyEntry i (deleteInRecord outFace)) j = inRecords s j
          rw [inRecords_modifyEntry, inRecords]
          simp only [if_neg (Ne.symm hj)]
        · rw [List.map_singleton, hface]

theorem answered_dispatch (faces : List Face) (s : State σ κ δ) (i : ℕ) (reason : NackReason) :
    ∃ removed, Answered i reason removed s
        (dispatchToStrategy i (faces.map (fun face => .sendNack face reason.code)) s) ∧
      (removed.map (fun inR => inR.m_face)).Sublist faces := by
  induction faces generalizing s with
  | nil => exact ⟨[], Answered.refl i reason s, List.nil_sublist _⟩
  | cons face faces ih =>
    obtain ⟨removed, hfirst, hface⟩ := answered_onOutgoingNack s i face reason
    obtain ⟨removed', hrest, hfaces⟩ := ih (onOutgoingNack s i face reason.code)
    refine ⟨removed ++ removed', hfirst.trans hrest, ?_⟩
    rw [List.map_append]
    exact hface.append hfaces

theorem answered_processNack (order : IterationOrder) {pitEntry : PitEntry σ} (s : State σ κ δ) (i : ℕ)
    (h : reasons pitEntry.m_outRecords ≠ []) :
    ∃ reason removed, NackRight pitEntry reason removed ∧
      Answered i reason removed s (dispatchToStrategy i (processNack order pitEntry) s) := by
  have hleast := countOutRecords_least h
  refine ⟨(countOutRecords pitEntry).leastSevereReason, ?_⟩
  unfold processNack
  split
  · rename_i face hbidirectional
    obtain ⟨outR, honly, hface⟩ := bidirectionalFace_some hbidirectional
    obtain ⟨removed, hanswered, hfaces⟩ := answered_dispatch [face] s i (countOutRecords pitEntry).leastSevereReason
    refine ⟨removed, ⟨Or.inr (Or.inr ⟨outR, honly, fun inR hinR => ?_⟩), hleast, ?_⟩, hanswered⟩
    · rw [hface]
      exact List.mem_singleton.mp (hfaces.subset (List.mem_map_of_mem hinR))
    · exact (List.nodup_singleton face).sublist hfaces
  · split
    · exact ⟨[], ⟨Or.inl rfl, hleast, List.nodup_nil⟩, Answered.refl i _ s⟩
    · rename_i hall
      obtain ⟨removed, hanswered, hfaces⟩ := answered_dispatch
        (order.val (pitEntry.m_inRecords.map (fun inR => inR.m_face)).dedup) s i (countOutRecords pitEntry).leastSevereReason
      refine ⟨removed, ⟨Or.inr (Or.inl fun outR houtR => ?_), hleast, ?_⟩, hanswered⟩
      · rw [nOutRecordsNotNacked_eq, gt_iff_lt, Nat.not_lt, Nat.le_zero, List.length_eq_zero_iff,
          List.filter_eq_nil_iff] at hall
        simpa using hall outR houtR
      · exact (((order.property _).nodup_iff).mpr (List.nodup_dedup _)).sublist hfaces

theorem reasons_setIncomingNack {pitEntry : PitEntry σ} {inFace : Face} {outRecord : OutRecord} (reason : ℕ)
    (h : pitEntry.m_outRecords.find? (fun record => record.m_face = inFace) = some outRecord) :
    reasons (setIncomingNack inFace reason pitEntry).m_outRecords ≠ [] := by
  have hface : outRecord.m_face = inFace := by simpa using List.find?_some h
  have hmem : getReason reason ∈ reasons (setIncomingNack inFace reason pitEntry).m_outRecords := by
    refine List.mem_map_of_mem (List.mem_filterMap.mpr ⟨{ outRecord with m_incomingNack := some reason }, ?_, rfl⟩)
    refine List.mem_map.mpr ⟨outRecord, List.mem_of_find?_eq_some h, ?_⟩
    rw [if_pos hface]
  exact List.ne_nil_of_mem hmem

theorem silent_insertDeadNonceList (ctx : Context σ κ δ) (s : State σ κ δ) (i : ℕ) :
    Silent s (insertDeadNonceList ctx s i none) := by
  unfold insertDeadNonceList
  split
  · exact ⟨rfl, fun _ => rfl⟩
  · split <;> exact ⟨rfl, fun _ => rfl⟩

theorem silent_runCallback (ctx : Context σ κ δ) (s : State σ κ δ) (callback : Callback) :
    Silent s (runCallback ctx s [] callback) := by
  cases callback with
  | onInterestFinalize i => exact (silent_insertDeadNonceList ctx s i).trans ⟨rfl, fun _ => rfl⟩
  | strategy i =>
    dsimp only [runCallback]
    split <;> exact ⟨rfl, fun _ => rfl⟩
  | other => exact ⟨rfl, fun _ => rfl⟩

end Answers

section Arrivals

variable [DecidableEq σ] {s : State σ κ δ}

theorem onIncomingNack_right (s : State σ κ δ) (order : IterationOrder) (inFace : Face) (reason : ℕ) (interest : Interest σ) :
    Silent s (onIncomingNack s order inFace reason interest) ∨
      ∃ i pitEntry outReason removed, find s interest = some i ∧ s.entries[i]? = some pitEntry ∧
        NackRight (setIncomingNack inFace reason pitEntry) outReason removed ∧
        Answered i outReason removed s (onIncomingNack s order inFace reason interest) := by
  have hdropped : Silent s s := ⟨rfl, fun _ => rfl⟩
  unfold onIncomingNack PitPipelines.onIncomingNack entryOf
  split
  · exact Or.inl hdropped
  · split
    · exact Or.inl hdropped
    · rename_i i hfind
      split
      · exact Or.inl hdropped
      · rename_i outRecord hrecord
        split
        · exact Or.inl hdropped
        · obtain ⟨pitEntry, hentry, hrecord⟩ := Option.bind_eq_some_iff.mp hrecord
          rw [hfind, Option.bind_some, hentry]
          dsimp only
          have hrecorded : Silent s (s.modifyEntry i (setIncomingNack inFace reason)) :=
            silent_modifyEntry (f := setIncomingNack inFace reason) (fun _ => rfl) s i
          obtain ⟨outReason, removed, hright, hanswered⟩ := answered_processNack order
            (if ((s.modifyEntry i (setIncomingNack inFace reason)).entries[i]?).any (hasPendingOutRecords s.now) then
              s.modifyEntry i (setIncomingNack inFace reason)
            else (s.modifyEntry i (setIncomingNack inFace reason)).setExpiryTimer i 0) i
            (reasons_setIncomingNack reason hrecord)
          refine Or.inr ⟨i, pitEntry, outReason, removed, rfl, hentry, hright, Silent.answered ?_ hanswered⟩
          split
          · exact hrecorded
          · exact hrecorded.trans (silent_setExpiryTimer _ i 0)

theorem silent_executeEvent (ctx : Context σ κ δ) (s : State σ κ δ) : Silent s (next ctx s .executeEvent) := by
  unfold next step
  cases s.scheduler.popExpired s.now with
  | none => exact ⟨rfl, fun _ => rfl⟩
  | some popped =>
    have hpopped : Silent s { s with scheduler := popped.2 } := ⟨rfl, fun _ => rfl⟩
    exact hpopped.trans (silent_runCallback ctx _ popped.1.callback)

theorem eventRight (ctx : Context σ κ δ) (s : State σ κ δ) (event : Event σ) : EventRight ctx s event := by
  cases event with
  | advance duration => exact ⟨rfl, fun _ => rfl⟩
  | executeEvent => exact silent_executeEvent ctx s
  | nack order inFace reason interest => exact onIncomingNack_right s order inFace reason interest

theorem sentFor_event (ctx : Context σ κ δ) (s : State σ κ δ) (event : Event σ) (i : ℕ) :
    ∃ removed, (inRecords s i).Perm (inRecords (next ctx s event) i ++ removed) ∧
      (if event.isAbout s i then (next ctx s event).sent.drop s.sent.length else []).map Prod.fst =
        removed.map (fun inR => inR.m_face) := by
  have hquiet (h : Silent s (next ctx s event)) :
      ∃ removed, (inRecords s i).Perm (inRecords (next ctx s event) i ++ removed) ∧
        (if event.isAbout s i then (next ctx s event).sent.drop s.sent.length else []).map Prod.fst =
          removed.map (fun inR => inR.m_face) := by
    refine ⟨[], by rw [List.append_nil, h.kept i], ?_⟩
    rw [h.sent, List.drop_length]
    split <;> rfl
  have hright := eventRight ctx s event
  cases event with
  | advance duration => exact hquiet hright
  | executeEvent => exact hquiet hright
  | nack order inFace reason interest =>
    rcases hright with hsilent | ⟨k, pitEntry, outReason, removed, hfind, -, -, hanswered⟩
    · exact hquiet hsilent
    · by_cases hik : i = k
      · subst hik
        refine ⟨removed, hanswered.lost, ?_⟩
        have habout : Event.isAbout s i (.nack order inFace reason interest) = true := decide_eq_true hfind
        have hdrop : (next ctx s (.nack order inFace reason interest)).sent.drop s.sent.length =
            removed.map (fun inR => (inR.m_face, .nack outReason.code inR.m_interest)) := by
          rw [next, hanswered.sent, List.drop_left]
        rw [if_pos habout, hdrop, List.map_map]
        rfl
      · have habout : ¬ Event.isAbout s i (.nack order inFace reason interest) = true := by
          intro h
          have heq := hfind.symm.trans (of_decide_eq_true h)
          exact hik (Option.some_inj.mp heq).symm
        refine ⟨[], ?_, by rw [if_neg habout]; rfl⟩
        rw [List.append_nil, next, hanswered.others i hik]

theorem sentFor_lost (ctx : Context σ κ δ) (s : State σ κ δ) (events : List (Event σ)) (i : ℕ) :
    ∃ removed, (inRecords s i).Perm (inRecords (events.foldl (next ctx) s) i ++ removed) ∧
      (sentFor ctx i s events).map Prod.fst = removed.map (fun inR => inR.m_face) := by
  induction events generalizing s with
  | nil =>
    refine ⟨[], ?_, rfl⟩
    rw [List.foldl_nil, List.append_nil]
  | cons event events ih =>
    obtain ⟨removed, hfirst, hsent⟩ := sentFor_event ctx s event i
    obtain ⟨removed', hothers, hsent'⟩ := ih (next ctx s event)
    refine ⟨removed ++ removed', ?_, ?_⟩
    · refine (hfirst.trans (hothers.append_right removed)).trans ?_
      rw [List.append_assoc, List.foldl_cons]
      exact List.perm_append_comm.append_left _
    · rw [sentFor, List.map_append, hsent, hsent', List.map_append]

/-- With one in-record for each face, no face is sent two Nacks, nor is one left that was sent one. -/
theorem sentFor_nodup (ctx : Context σ κ δ) (s : State σ κ δ) (events : List (Event σ)) (i : ℕ)
    (h : ((inRecords s i).map (fun inR => inR.m_face)).Nodup) :
    ((sentFor ctx i s events).map Prod.fst).Nodup ∧
      ∀ inR ∈ inRecords (events.foldl (next ctx) s) i, inR.m_face ∉ (sentFor ctx i s events).map Prod.fst := by
  obtain ⟨removed, hlost, hsent⟩ := sentFor_lost ctx s events i
  have hnodup := ((hlost.map (fun inR => inR.m_face)).nodup_iff).mp h
  rw [List.map_append, List.nodup_append] at hnodup
  obtain ⟨-, hremoved, hdisjoint⟩ := hnodup
  rw [hsent]
  exact ⟨hremoved, fun inR hinR hmem => hdisjoint _ (List.mem_map_of_mem hinR) _ hmem rfl⟩

/-- Over every order of Nacks for every PIT: each of them is processed rightly, and each Nack that is sent for an entry
takes an in-record of it with it. -/
theorem nacks_right (ctx : Context σ κ δ) (s : State σ κ δ) (events : List (Event σ)) :
    EachStep (next ctx) (EventRight ctx) s events ∧ ∀ i,
      (∃ removed, (inRecords s i).Perm (inRecords (events.foldl (next ctx) s) i ++ removed) ∧
        (sentFor ctx i s events).map Prod.fst = removed.map (fun inR => inR.m_face)) ∧
      (((inRecords s i).map (fun inR => inR.m_face)).Nodup →
        ((sentFor ctx i s events).map Prod.fst).Nodup ∧
          ∀ inR ∈ inRecords (events.foldl (next ctx) s) i, inR.m_face ∉ (sentFor ctx i s events).map Prod.fst) := by
  have hsteps : EachStep (next ctx) (EventRight ctx) s events := by
    induction events generalizing s with
    | nil => trivial
    | cons event events ih => exact ⟨eventRight ctx s event, ih (next ctx s event)⟩
  exact ⟨hsteps, fun i => ⟨sentFor_lost ctx s events i, sentFor_nodup ctx s events i⟩⟩

end Arrivals

end LeoNdn.ProcessNackTraits
