import Mathlib.Algebra.Order.Group.Multiset
import Mathlib.Algebra.BigOperators.Group.List.Basic
import Mathlib.Tactic.GCongr
import LeoNdn.Runs
import LeoNdn.PitTimers

/-!
The balance of requests and replies: over a run of the forwarder every Data and
every Nack that goes out on a face uses up an Interest of its own that has come
in on that face before. The records of the PIT are the Interests not yet used up.
-/

namespace LeoNdn.FlowBalance

open LeoNdn.Tlv LeoNdn.NdnPacket LeoNdn.PitPipelines LeoNdn.Schedulers
open LeoNdn.Forwarder (Face)

variable {σ κ δ : Type}

abbrev Request (σ : Type) := Face × Interest σ

/-- The forwarding hint is left out, which the pipelines may strip. -/
def request (face : Face) (interest : Interest σ) : Request σ := (face, { interest with m_forwardingHint := [] })

def pendingOf (entry : PitEntry σ) : Multiset (Request σ) :=
  entry.m_inRecords.map (fun record => request record.m_face record.m_interest)

def pending (s : State σ κ δ) : Multiset (Request σ) := (s.entries.map pendingOf).sum

def isReply : Packet σ → Bool
  | .interest _ => false
  | .data _ => true
  | .nack _ _ => true

def repliesIn (sent : List (Face × Packet σ)) : List (Face × Packet σ) := sent.filter (fun sent => isReply sent.2)

inductive Answers (ctx : Context σ κ δ) : Request σ → Face × Packet σ → Prop
  | data {face : Face} {interest : Interest σ} {data : Data} (hmatches : ctx.matchesData interest data = true) :
    Answers ctx (request face interest) (face, .data data)
  | nack {face : Face} {interest : Interest σ} {reason : ℕ} :
    Answers ctx (request face interest) (face, .nack reason interest)

/-- What the Content Store finds matches the Interest, of which only the name and
the selectors are looked at. -/
structure Sound (ctx : Context σ κ δ) : Prop where
  matchesData_eq : ∀ interest interest' data, interest.m_name = interest'.m_name →
    interest.m_selectors = interest'.m_selectors → ctx.matchesData interest data = ctx.matchesData interest' data
  lookup_matches : ∀ cs interest data, ctx.lookup cs interest = some data → ctx.matchesData interest data = true

def Valid (s : State σ κ δ) : Prop :=
  ∀ entry ∈ s.entries, ∀ record ∈ entry.m_inRecords,
    record.m_interest.m_name = entry.m_interest.m_name ∧ record.m_interest.m_selectors = entry.m_interest.m_selectors

/-- From the one state to the other, the replies that have gone out use up requests
that were pending or in the purse. -/
structure Settles (ctx : Context σ κ δ) (purse purse' : Multiset (Request σ)) (s s' : State σ κ δ) : Prop where
  answered : ∃ answered sent, s'.sent = s.sent ++ sent ∧ List.Forall₂ (Answers ctx) answered (repliesIn sent) ∧
    (answered : Multiset (Request σ)) + (pending s' + purse') ≤ pending s + purse
  valid : Valid s → Valid s'
  interests : ∀ (i : ℕ) (entry : PitEntry σ), s.entries[i]? = some entry →
    ∃ entry' : PitEntry σ, s'.entries[i]? = some entry' ∧ entry'.m_interest = entry.m_interest

section Ledger

variable {ctx : Context σ κ δ} {purse purse' purse'' : Multiset (Request σ)} {s s' s'' : State σ κ δ}

theorem Settles.of_eq (hentries : s'.entries = s.entries) (hsent : s'.sent = s.sent) :
    Settles ctx purse purse s s' where
  answered := by
    refine ⟨[], [], by rw [hsent, List.append_nil], List.Forall₂.nil, ?_⟩
    rw [pending, pending, hentries, Multiset.coe_nil, zero_add]
  valid h := by rwa [Valid, hentries]
  interests i entry hentry := ⟨entry, by rwa [hentries], rfl⟩

theorem Settles.refl (s : State σ κ δ) : Settles ctx purse purse s s := Settles.of_eq rfl rfl

theorem Settles.trans (h : Settles ctx purse purse' s s') (h' : Settles ctx purse' purse'' s' s'') :
    Settles ctx purse purse'' s s'' where
  answered := by
    obtain ⟨answered, sent, hsent, hanswers, hle⟩ := h.answered
    obtain ⟨answered', sent', hsent', hanswers', hle'⟩ := h'.answered
    refine ⟨answered ++ answered', sent ++ sent', by rw [hsent', hsent, List.append_assoc],
      by rw [repliesIn, List.filter_append]; exact List.rel_append hanswers hanswers', ?_⟩
    rw [← Multiset.coe_add, add_assoc]
    calc (answered : Multiset (Request σ)) + (answered' + (pending s'' + purse''))
        ≤ answered + (pending s' + purse') := by gcongr
      _ ≤ pending s + purse := hle
  valid hs := h'.valid (h.valid hs)
  interests i entry hentry := by
    obtain ⟨entry', hentry', heq⟩ := h.interests i entry hentry
    obtain ⟨entry'', hentry'', heq'⟩ := h'.interests i entry' hentry'
    exact ⟨entry'', hentry'', heq'.trans heq⟩

theorem Settles.drop (h : Settles ctx purse purse' s s') (hle : purse'' ≤ purse') : Settles ctx purse purse'' s s' where
  answered := by
    obtain ⟨answered, sent, hsent, hanswers, hsum⟩ := h.answered
    exact ⟨answered, sent, hsent, hanswers, le_trans (by gcongr) hsum⟩
  valid := h.valid
  interests := h.interests

end Ledger

section Entries

variable {ctx : Context σ κ δ} {purse : Multiset (Request σ)} {s : State σ κ δ} {i : ℕ} {f : PitEntry σ → PitEntry σ} {entry : PitEntry σ}

theorem modify_none (hnone : s.entries[i]? = none) : s.modifyEntry i f = s := by
  have hmodify : s.entries.modify i f = s.entries :=
    List.modify_eq_self (List.getElem?_eq_none_iff.mp hnone)
  rw [State.modifyEntry, hmodify]

theorem pending_modify (hentry : s.entries[i]? = some entry) (f : PitEntry σ → PitEntry σ) :
    ∃ rest, pending s = pendingOf entry + rest ∧ pending (s.modifyEntry i f) = pendingOf (f entry) + rest := by
  obtain ⟨hi, rfl⟩ := List.getElem?_eq_some_iff.mp hentry
  refine ⟨((s.entries.take i).map pendingOf).sum + ((s.entries.drop (i + 1)).map pendingOf).sum, ?_, ?_⟩
  · conv_lhs => rw [pending, ← List.take_append_drop i s.entries, List.drop_eq_getElem_cons hi]
    rw [List.map_append, List.map_cons, List.sum_append, List.sum_cons, add_left_comm]
  · rw [pending, State.modifyEntry, List.modify_eq_take_cons_drop hi]
    rw [List.map_append, List.map_cons, List.sum_append, List.sum_cons, add_left_comm]

theorem valid_modify (hs : Valid s)
    (hf : ∀ entry, s.entries[i]? = some entry → (f entry).m_interest = entry.m_interest ∧
      ∀ record ∈ (f entry).m_inRecords, record ∈ entry.m_inRecords ∨
        record.m_interest.m_name = entry.m_interest.m_name ∧
          record.m_interest.m_selectors = entry.m_interest.m_selectors) : Valid (s.modifyEntry i f) := by
  intro entry' hentry' record hrecord
  obtain ⟨j, hj⟩ := List.getElem?_of_mem hentry'
  rw [State.modifyEntry, List.getElem?_modify] at hj
  cases hold : s.entries[j]? with
  | none => simp [hold] at hj
  | some entry =>
    simp only [hold, Option.map_eq_map, Option.map_some, Option.some.injEq] at hj
    have hmem : entry ∈ s.entries := List.mem_of_getElem? hold
    by_cases hij : i = j
    · subst hij
      rw [if_pos rfl] at hj
      subst hj
      obtain ⟨hinterest, hrecords⟩ := hf entry hold
      rw [hinterest]
      rcases hrecords record hrecord with hin | hnew
      · exact hs entry hmem record hin
      · exact hnew
    · rw [if_neg hij] at hj
      subst hj
      exact hs entry hmem record hrecord

theorem interests_modify (hf : ∀ entry, (f entry).m_interest = entry.m_interest) (j : ℕ) (entry : PitEntry σ)
    (hentry : s.entries[j]? = some entry) :
    ∃ entry' : PitEntry σ, (s.modifyEntry i f).entries[j]? = some entry' ∧ entry'.m_interest = entry.m_interest := by
  rw [State.modifyEntry, List.getElem?_modify, hentry]
  by_cases hij : i = j
  · exact ⟨f entry, by simp [hij], hf entry⟩
  · exact ⟨entry, by simp [hij], rfl⟩

theorem Settles.modifyEntry (hinterest : ∀ entry, (f entry).m_interest = entry.m_interest)
    (hrecords : ∀ entry, (f entry).m_inRecords.Sublist entry.m_inRecords) : Settles ctx purse purse s (s.modifyEntry i f) where
  answered := by
    refine ⟨[], [], (List.append_nil _).symm, List.Forall₂.nil, ?_⟩
    rw [Multiset.coe_nil, zero_add]
    cases hentry : s.entries[i]? with
    | none => rw [modify_none hentry]
    | some entry =>
      obtain ⟨rest, hold, hnew⟩ := pending_modify hentry f
      rw [hold, hnew]
      gcongr
      exact Multiset.coe_le.mpr ((hrecords entry).map _).subperm
  valid hs := valid_modify hs (fun entry _ => ⟨hinterest entry, fun _ hrecord => Or.inl ((hrecords entry).subset hrecord)⟩)
  interests := interests_modify hinterest

end Entries

section Actions

variable {ctx : Context σ κ δ} {purse : Multiset (Request σ)} {s : State σ κ δ} {i : ℕ} {entry : PitEntry σ}
  {face : Face}

theorem settles_setExpiryTimer (s : State σ κ δ) (i : ℕ) (duration : ℤ) :
    Settles ctx purse purse s (s.setExpiryTimer i duration) := by
  have hcancel : Settles ctx purse purse s ((s.cancel (s.timerOf i)).schedule (duration * 1000000) (.onInterestFinalize i)) :=
    Settles.of_eq rfl rfl
  exact hcancel.trans (Settles.modifyEntry (fun _ => rfl) (fun _ => List.Sublist.refl _))

theorem settles_onOutgoingInterest (s : State σ κ δ) (i : ℕ) (outFace : Face) (interest : Interest σ) :
    Settles ctx purse purse s (onOutgoingInterest s i outFace interest) := by
  have hmodify : Settles ctx purse purse s (s.modifyEntry i (insertOrUpdateOutRecord s.now outFace interest)) :=
    Settles.modifyEntry (fun _ => rfl) (fun _ => List.Sublist.refl _)
  refine hmodify.trans ⟨⟨[], [(outFace, .interest interest)], rfl, List.Forall₂.nil, ?_⟩, id, ?_⟩
  · rw [Multiset.coe_nil, zero_add]
    exact le_refl _
  · exact fun j entry hentry => ⟨entry, hentry, rfl⟩

theorem pendingOf_deleteInRecord {record : InRecord σ}
    (hfind : entry.m_inRecords.find? (fun record => record.m_face = face) = some record) :
    pendingOf entry = request face record.m_interest ::ₘ pendingOf (deleteInRecord face entry) := by
  obtain ⟨hface, before, after, heq, hbefore⟩ := List.find?_eq_some_iff_append.mp hfind
  have hbefore' : ∀ record ∈ before, ¬ (decide (record.m_face = face) = true) := by simpa using hbefore
  have herase : entry.m_inRecords.eraseP (fun record => decide (record.m_face = face)) = before ++ after := by
    rw [heq, List.eraseP_append_right _ hbefore']
    simp [hface]
  have hrecord : record.m_face = face := of_decide_eq_true hface
  rw [pendingOf, pendingOf, deleteInRecord, herase, heq, List.map_append, List.map_cons, List.map_append, hrecord]
  exact Multiset.coe_eq_coe.mpr List.perm_middle

theorem settles_reply (hentry : s.entries[i]? = some entry) {record : InRecord σ}
    (hfind : entry.m_inRecords.find? (fun record => record.m_face = face) = some record) {packet : Packet σ}
    (hreply : isReply packet = true) (hanswers : Answers ctx (request face record.m_interest) (face, packet)) :
    Settles ctx purse purse s ((s.modifyEntry i (deleteInRecord face)).send face packet) where
  answered := by
    refine ⟨[request face record.m_interest], [(face, packet)], rfl, ?_, ?_⟩
    · simpa [repliesIn, hreply] using hanswers
    · obtain ⟨rest, hold, hnew⟩ := pending_modify hentry (deleteInRecord face)
      have hsend : pending ((s.modifyEntry i (deleteInRecord face)).send face packet) =
          pending (s.modifyEntry i (deleteInRecord face)) := rfl
      rw [hsend, hnew, hold, pendingOf_deleteInRecord hfind, Multiset.coe_singleton, ← add_assoc, ← add_assoc,
        Multiset.singleton_add]
  valid hs := valid_modify hs (fun _ _ => ⟨rfl, fun _ hrecord => Or.inl (List.mem_of_mem_eraseP hrecord)⟩)
  interests := interests_modify (fun _ => rfl)

theorem settles_deleteInRecord (s : State σ κ δ) (i : ℕ) (face : Face) :
    Settles ctx purse purse s (s.modifyEntry i (deleteInRecord face)) :=
  Settles.modifyEntry (fun _ => rfl) (fun _ => List.eraseP_sublist)

theorem settles_onOutgoingNack (s : State σ κ δ) (i : ℕ) (outFace : Face) (reason : ℕ) :
    Settles ctx purse purse s (onOutgoingNack s i outFace reason) := by
  unfold onOutgoingNack
  split
  · exact Settles.refl s
  · split
    · exact Settles.refl s
    · rename_i record hrecord
      obtain ⟨entry, hentry, hfind⟩ := Option.bind_eq_some_iff.mp hrecord
      split
      · exact Settles.refl s
      · exact settles_reply hentry hfind rfl Answers.nack

theorem settles_sendData (hctx : Sound ctx) (hs : Valid s) (hentry : s.entries[i]? = some entry)
    (hface : ∃ record ∈ entry.m_inRecords, record.m_face = face) {data : Data}
    (hmatches : ctx.matchesData entry.m_interest data = true) :
    Settles ctx purse purse s (takeAction s i (.sendData data face)) := by
  obtain ⟨found, hfound, hfoundFace⟩ := hface
  obtain ⟨record, hfind⟩ := Option.isSome_iff_exists.mp
    (List.find?_isSome.mpr ⟨found, hfound, decide_eq_true hfoundFace⟩ :
      (entry.m_inRecords.find? (fun record => decide (record.m_face = face))).isSome)
  obtain ⟨hname, hselectors⟩ := hs entry (List.mem_of_getElem? hentry) record (List.mem_of_find?_eq_some hfind)
  rw [takeAction, onOutgoingData]
  split
  · exact settles_deleteInRecord s i face
  · split
    · exact settles_deleteInRecord s i face
    · refine settles_reply hentry hfind rfl (Answers.data ?_)
      rw [← hmatches]
      exact hctx.matchesData_eq _ _ data hname hselectors

def isSendData : Action σ → Bool
  | .sendData _ _ => true
  | _ => false

def Dataless (actions : List (Action σ)) : Prop := ∀ action ∈ actions, isSendData action = false

def answeredFace : Action σ → Option Face
  | .sendData _ outFace => some outFace
  | .sendNack outFace _ => some outFace
  | _ => none

/-- A trigger that returns one Data to some of the faces, in any order and with any other actions before, between and
after, and answers on no face twice. -/
structure ReturnsData (data : Data) (faces : List Face) (actions : List (Action σ)) : Prop where
  sendData : ∀ data' outFace, Action.sendData data' outFace ∈ actions → data' = data ∧ outFace ∈ faces
  nodup : (actions.filterMap answeredFace).Nodup

def inRecordFaces (s : State σ κ δ) (i : ℕ) : List Face :=
  (((s.entries[i]?).map PitEntry.m_inRecords).getD []).map (fun record => record.m_face)

theorem settles_takeAction (s : State σ κ δ) (i : ℕ) {action : Action σ} (haction : isSendData action = false) :
    Settles ctx purse purse s (takeAction s i action) := by
  cases action with
  | sendInterest outFace interest => exact settles_onOutgoingInterest s i outFace interest
  | sendData data outFace => cases haction
  | sendNack outFace reason => exact settles_onOutgoingNack s i outFace reason
  | setExpiryTimer duration => exact settles_setExpiryTimer s i duration
  | schedule after => exact Settles.of_eq rfl rfl
  | cancel id =>
    rw [takeAction]
    split
    · exact Settles.of_eq rfl rfl
    · exact Settles.refl s

theorem settles_dataless (s : State σ κ δ) (i : ℕ) {actions : List (Action σ)} (hactions : Dataless actions) :
    Settles ctx purse purse s (dispatchToStrategy i actions s) := by
  induction actions generalizing s with
  | nil => exact Settles.refl s
  | cons action actions ih =>
    rw [dispatchToStrategy]
    exact (settles_takeAction s i (hactions action List.mem_cons_self)).trans
      (ih _ (fun other hother => hactions other (List.mem_cons_of_mem action hother)))

theorem ReturnsData.tail {data : Data} {faces : List Face} {action : Action σ} {actions : List (Action σ)}
    (h : ReturnsData data faces (action :: actions)) : ReturnsData data faces actions where
  sendData data' outFace hmem := h.sendData data' outFace (List.mem_cons_of_mem action hmem)
  nodup := h.nodup.sublist ((List.sublist_cons_self action actions).filterMap answeredFace)

theorem ReturnsData.ne_answeredFace {data data' : Data} {faces : List Face} {outFace : Face} {action : Action σ}
    {actions : List (Action σ)} (h : ReturnsData data faces (action :: actions))
    (hmem : Action.sendData data' outFace ∈ actions) : answeredFace action ≠ some outFace := by
  intro hfirst
  have hnodup := h.nodup
  rw [List.filterMap_cons_some hfirst, List.nodup_cons] at hnodup
  exact hnodup.1 (List.mem_filterMap.mpr ⟨_, hmem, rfl⟩)

theorem mem_deleteInRecord {record : InRecord σ} (hrecord : record ∈ entry.m_inRecords) (hne : face ≠ record.m_face) :
    record ∈ (deleteInRecord face entry).m_inRecords :=
  (List.mem_eraseP_of_neg (by simpa using Ne.symm hne)).mpr hrecord

theorem getElem?_modifyEntry (hentry : s.entries[i]? = some entry) (f : PitEntry σ → PitEntry σ) :
    (s.modifyEntry i f).entries[i]? = some (f entry) := by
  rw [State.modifyEntry, List.getElem?_modify_eq, hentry]
  rfl

theorem inRecords_takeAction (hentry : s.entries[i]? = some entry) (action : Action σ) :
    ∃ entry' : PitEntry σ, (takeAction s i action).entries[i]? = some entry' ∧ entry'.m_interest = entry.m_interest ∧
      ∀ record ∈ entry.m_inRecords, answeredFace action ≠ some record.m_face → record ∈ entry'.m_inRecords := by
  cases action with
  | sendInterest outFace interest => exact ⟨_, getElem?_modifyEntry hentry _, rfl, fun _ hrecord _ => hrecord⟩
  | sendData data outFace =>
    refine ⟨deleteInRecord outFace entry, ?_, rfl, fun _ hrecord hne => mem_deleteInRecord hrecord (fun h => hne (h ▸ rfl))⟩
    rw [takeAction, onOutgoingData]
    split_ifs <;> exact getElem?_modifyEntry hentry _
  | sendNack outFace reason =>
    rw [takeAction, onOutgoingNack]
    split
    · exact ⟨entry, hentry, rfl, fun _ hrecord _ => hrecord⟩
    · split
      · exact ⟨entry, hentry, rfl, fun _ hrecord _ => hrecord⟩
      · split
        · exact ⟨entry, hentry, rfl, fun _ hrecord _ => hrecord⟩
        · exact ⟨_, getElem?_modifyEntry hentry _, rfl, fun _ hrecord hne => mem_deleteInRecord hrecord (fun h => hne (h ▸ rfl))⟩
  | setExpiryTimer duration =>
    exact ⟨_, getElem?_modifyEntry (s := (s.cancel (s.timerOf i)).schedule _ _) hentry _, rfl, fun _ hrecord _ => hrecord⟩
  | schedule after => exact ⟨entry, hentry, rfl, fun _ hrecord _ => hrecord⟩
  | cancel id =>
    refine ⟨entry, ?_, rfl, fun _ hrecord _ => hrecord⟩
    rw [takeAction]
    split <;> exact hentry

theorem settles_returnsData (hctx : Sound ctx) (hs : Valid s) (hentry : s.entries[i]? = some entry) {data : Data}
    (hmatches : ctx.matchesData entry.m_interest data = true) {actions : List (Action σ)}
    (hactions : ReturnsData data (entry.m_inRecords.map (fun record => record.m_face)) actions) :
    Settles ctx purse purse s (dispatchToStrategy i actions s) := by
  induction actions generalizing s entry with
  | nil => exact Settles.refl s
  | cons action actions ih =>
    have hfirst : Settles ctx purse purse s (takeAction s i action) := by
      cases action with
      | sendData data' outFace =>
        obtain ⟨rfl, hface⟩ := hactions.sendData data' outFace List.mem_cons_self
        exact settles_sendData hctx hs hentry (List.mem_map.mp hface) hmatches
      | _ => exact settles_takeAction s i rfl
    obtain ⟨entry', hentry', hinterest, hkept⟩ := inRecords_takeAction hentry action
    refine hfirst.trans (ih (hfirst.valid hs) hentry' (by rwa [hinterest]) ⟨fun data' outFace hmem => ?_, hactions.tail.nodup⟩)
    obtain ⟨hdata, hface⟩ := hactions.tail.sendData data' outFace hmem
    obtain ⟨record, hrecord, rfl⟩ := List.mem_map.mp hface
    exact ⟨hdata, List.mem_map_of_mem (hkept record hrecord (hactions.ne_answeredFace hmem))⟩

theorem settles_returnsData_inRecordFaces (hctx : Sound ctx) (hs : Valid s) (hentry : s.entries[i]? = some entry) {data : Data}
    (hmatches : ctx.matchesData entry.m_interest data = true) {actions : List (Action σ)}
    (hactions : ReturnsData data (inRecordFaces s i) actions) :
    Settles ctx purse purse s (dispatchToStrategy i actions s) := by
  rw [inRecordFaces, hentry] at hactions
  exact settles_returnsData hctx hs hentry hmatches hactions

end Actions

section Interests

variable {ctx : Context σ κ δ} {purse : Multiset (Request σ)} {s : State σ κ δ} {i : ℕ} {entry : PitEntry σ}
  {inFace : Face} {interest : Interest σ}

theorem settles_insertDeadNonceList (s : State σ κ δ) (i : ℕ) (upstream : Option Face) :
    Settles ctx purse purse s (insertDeadNonceList ctx s i upstream) := by
  unfold insertDeadNonceList
  split
  · exact Settles.refl s
  · split
    · exact Settles.refl s
    · exact Settles.of_eq rfl rfl

theorem settles_onInterestFinalize (s : State σ κ δ) (i : ℕ) :
    Settles ctx purse purse s (onInterestFinalize ctx s i) :=
  (settles_insertDeadNonceList s i none).trans (Settles.of_eq rfl rfl)

theorem settles_send (s : State σ κ δ) {face : Face} {packet : Packet σ} (hreply : isReply packet = true)
    (hanswers : Answers ctx (request face interest) (face, packet)) :
    Settles ctx (request face interest ::ₘ purse) purse s (s.send face packet) where
  answered := by
    refine ⟨[request face interest], [(face, packet)], rfl, by simpa [repliesIn, hreply] using hanswers, ?_⟩
    have hpending : pending (s.send face packet) = pending s := rfl
    rw [hpending, Multiset.coe_singleton, Multiset.singleton_add, Multiset.add_cons]
  valid hs := hs
  interests i entry hentry := ⟨entry, hentry, rfl⟩

theorem settles_onInterestLoop (s : State σ κ δ) :
    Settles ctx (request inFace interest ::ₘ purse) purse s (onInterestLoop s inFace interest) := by
  unfold onInterestLoop
  split
  · exact (Settles.refl s).drop (Multiset.le_cons_self _ _)
  · exact settles_send s rfl Answers.nack

theorem inRecords_insertOrUpdate (now : ℤ) (inFace : Face) (interest : Interest σ) (entry : PitEntry σ) :
    ∃ before record after, (insertOrUpdateInRecord now inFace interest entry).m_inRecords = before ++ record :: after ∧
      record.m_face = inFace ∧ record.m_interest = interest ∧ (before ++ after).Sublist entry.m_inRecords := by
  rw [insertOrUpdateInRecord]
  rcases insertOrUpdate_eq (fun record : InRecord σ => decide (record.m_face = inFace))
    (fun record => ⟨updateRecord now interest record.toFaceRecord, interest⟩) ⟨⟨inFace, 0, 0, 0⟩, interest⟩
    entry.m_inRecords with ⟨-, heq⟩ | ⟨before, old, after, hrecords, hfind, -, heq⟩
  · exact ⟨[], _, entry.m_inRecords, heq, rfl, rfl, List.Sublist.refl _⟩
  · refine ⟨before, _, after, heq, by simpa [updateRecord] using List.find?_some hfind, rfl, ?_⟩
    rw [hrecords]
    exact (List.Sublist.refl before).append (List.sublist_cons_self old after)

theorem pendingOf_insertOrUpdateInRecord (now : ℤ) (entry : PitEntry σ) :
    pendingOf (insertOrUpdateInRecord now inFace interest entry) ≤ request inFace interest ::ₘ pendingOf entry := by
  obtain ⟨before, record, after, heq, hface, hinterest, hsublist⟩ := inRecords_insertOrUpdate now inFace interest entry
  rw [pendingOf, pendingOf, heq, List.map_append, List.map_cons, Multiset.coe_eq_coe.mpr List.perm_middle, ← List.map_append,
    ← Multiset.cons_coe, hface, hinterest]
  exact Multiset.cons_le_cons _ (Multiset.coe_le.mpr (hsublist.map _).subperm)

theorem mem_insertOrUpdateInRecord (now : ℤ) (entry : PitEntry σ) {record : InRecord σ}
    (hrecord : record ∈ (insertOrUpdateInRecord now inFace interest entry).m_inRecords) :
    record ∈ entry.m_inRecords ∨ record.m_interest = interest := by
  obtain ⟨before, new, after, heq, -, hinterest, hsublist⟩ := inRecords_insertOrUpdate now inFace interest entry
  rw [heq, List.perm_middle.mem_iff] at hrecord
  rcases List.mem_cons.mp hrecord with rfl | hold
  · exact Or.inr hinterest
  · exact Or.inl (hsublist.subset hold)

theorem exists_insertOrUpdateInRecord (now : ℤ) (entry : PitEntry σ) :
    ∃ record ∈ (insertOrUpdateInRecord now inFace interest entry).m_inRecords, record.m_face = inFace := by
  obtain ⟨before, record, after, heq, hface, -⟩ := inRecords_insertOrUpdate now inFace interest entry
  exact ⟨record, heq ▸ List.mem_append_right _ List.mem_cons_self, hface⟩

theorem settles_insertInRecord (hentry : s.entries[i]? = some entry)
    (hname : interest.m_name = entry.m_interest.m_name)
    (hselectors : interest.m_selectors = entry.m_interest.m_selectors) :
    Settles ctx (request inFace interest ::ₘ purse) purse s
      (s.modifyEntry i (insertOrUpdateInRecord s.now inFace interest)) where
  answered := by
    refine ⟨[], [], (List.append_nil _).symm, List.Forall₂.nil, ?_⟩
    obtain ⟨rest, hold, hnew⟩ := pending_modify hentry (insertOrUpdateInRecord s.now inFace interest)
    rw [hold, hnew, Multiset.coe_nil, zero_add, Multiset.add_cons, ← Multiset.cons_add, ← Multiset.cons_add]
    gcongr
    exact pendingOf_insertOrUpdateInRecord s.now entry
  valid hs := by
    refine valid_modify hs (fun entry' hentry' => ⟨rfl, fun record hrecord => ?_⟩)
    have heq : entry' = entry := by simpa [hentry] using hentry'.symm
    rcases mem_insertOrUpdateInRecord s.now entry' hrecord with hold | hnew
    · exact Or.inl hold
    · exact Or.inr (by rw [hnew, heq]; exact ⟨hname, hselectors⟩)
  interests := interests_modify (fun _ => rfl)

/-- What `afterContentStoreHit` does: the Data goes to where the Interest has come from. -/
def IsContentStoreReply (ctx : Context σ κ δ) (s : State σ κ δ) (inFace : Face) (interest : Interest σ)
    (actions : List (Action σ)) : Prop :=
  ∃ data, ctx.lookup s.m_cs interest = some data ∧ ReturnsData data [inFace] actions

theorem settles_onContentStoreMiss (hctx : Sound ctx) (hs : Valid s) (hentry : s.entries[i]? = some entry)
    (hname : interest.m_name = entry.m_interest.m_name)
    (hselectors : interest.m_selectors = entry.m_interest.m_selectors) {actions : List (Action σ)}
    (hactions : Dataless actions ∨ IsContentStoreReply ctx s inFace interest actions) :
    Settles ctx (request inFace interest ::ₘ purse) purse s (onContentStoreMiss s inFace i interest actions) := by
  have hinsert : Settles ctx (request inFace interest ::ₘ purse) purse s
      (s.modifyEntry i (insertOrUpdateInRecord s.now inFace interest)) :=
    settles_insertInRecord hentry hname hselectors
  obtain ⟨inserted, hinserted⟩ : ∃ inserted, inserted = s.modifyEntry i (insertOrUpdateInRecord s.now inFace interest) :=
    ⟨_, rfl⟩
  have htimer : Settles ctx purse purse inserted (inserted.setExpiryTimer i (lastExpiryFromNow inserted i)) :=
    settles_setExpiryTimer _ _ _
  rw [← hinserted] at hinsert
  rw [onContentStoreMiss, ← hinserted]
  refine hinsert.trans (htimer.trans ?_)
  cases interest.nextHopFaceIdTag with
  | some id =>
    dsimp only
    split
    · exact settles_onOutgoingInterest _ _ _ _
    · exact Settles.refl _
  | none =>
    rcases hactions with hdataless | ⟨data, hlookup, hreturns⟩
    · exact settles_dataless _ _ hdataless
    · have hat : inserted.entries[i]? = some (insertOrUpdateInRecord s.now inFace interest entry) := by
        rw [hinserted, State.modifyEntry, List.getElem?_modify_eq, hentry]
        rfl
      have hafter : (inserted.setExpiryTimer i (lastExpiryFromNow inserted i)).entries[i]? =
          some { insertOrUpdateInRecord s.now inFace interest entry with expiryTimer := some inserted.scheduler.nextId } := by
        rw [State.setExpiryTimer, State.modifyEntry, List.getElem?_modify_eq]
        change Option.map _ inserted.entries[i]? = _
        rw [hat]
        rfl
      have hmatches : ctx.matchesData entry.m_interest data = true := by
        rw [← hctx.lookup_matches s.m_cs interest data hlookup]
        exact hctx.matchesData_eq _ _ data hname.symm hselectors.symm
      refine settles_returnsData hctx (htimer.valid (hinsert.valid hs)) hafter hmatches
        ⟨fun data' outFace hmem => ?_, hreturns.nodup⟩
      obtain ⟨hdata, hface⟩ := hreturns.sendData data' outFace hmem
      rw [List.mem_singleton.mp hface]
      exact ⟨hdata, List.mem_map.mpr (exists_insertOrUpdateInRecord s.now entry)⟩

/-- The request is in the purse, and the Data that answers it goes out once. -/
theorem settles_returnsData_purse {data : Data} (hmatches : ctx.matchesData interest data = true) {actions : List (Action σ)}
    (hactions : ReturnsData data [inFace] actions) :
    Settles ctx (request inFace interest ::ₘ purse) purse s (dispatchToStrategy i actions s) := by
  induction actions generalizing s with
  | nil => exact (Settles.refl s).drop (Multiset.le_cons_self _ _)
  | cons action actions ih =>
    rw [dispatchToStrategy]
    by_cases haction : isSendData action = false
    · exact (settles_takeAction s i haction).trans (ih hactions.tail)
    · cases action with
      | sendData data' outFace =>
        obtain ⟨rfl, hface⟩ := hactions.sendData data' outFace List.mem_cons_self
        obtain rfl := List.mem_singleton.mp hface
        have hrest : Dataless actions := by
          intro other hother
          cases other with
          | sendData data'' outFace' =>
            have hsame := List.mem_singleton.mp (hactions.tail.sendData data'' outFace' hother).2
            rw [hsame] at hother
            exact absurd rfl (hactions.ne_answeredFace hother)
          | _ => rfl
        refine Settles.trans ?_ (settles_dataless _ i hrest)
        rw [takeAction, onOutgoingData]
        refine (settles_deleteInRecord _ i outFace).trans ?_
        split
        · exact (Settles.refl _).drop (Multiset.le_cons_self _ _)
        · split
          · exact (Settles.refl _).drop (Multiset.le_cons_self _ _)
          · exact settles_send _ rfl (Answers.data hmatches)
      | _ => exact absurd rfl haction

theorem settles_onContentStoreHit (hctx : Sound ctx) (s : State σ κ δ) (i : ℕ) (found : Data) {actions : List (Action σ)}
    (hactions : Dataless actions ∨ IsContentStoreReply ctx s inFace interest actions) :
    Settles ctx (request inFace interest ::ₘ purse) purse s (onContentStoreHit s i found actions) := by
  have hmark : Settles ctx (request inFace interest ::ₘ purse) (request inFace interest ::ₘ purse) s
      (s.modifyEntry i (markSatisfied found)) := Settles.modifyEntry (fun _ => rfl) (fun _ => List.Sublist.refl _)
  refine hmark.trans ((settles_setExpiryTimer _ i 0).trans ?_)
  rcases hactions with hdataless | ⟨data, hlookup, hreturns⟩
  · exact (settles_dataless _ i hdataless).drop (Multiset.le_cons_self _ _)
  · exact settles_returnsData_purse (hctx.lookup_matches s.m_cs interest data hlookup) hreturns

theorem settles_insert [DecidableEq σ] (s : State σ κ δ) (interest : Interest σ) :
    Settles ctx purse purse s (PitPipelines.insert s interest).1 := by
  unfold PitPipelines.insert
  split
  · exact Settles.refl s
  · refine ⟨⟨[], [], (List.append_nil _).symm, List.Forall₂.nil, ?_⟩, ?_, ?_⟩
    · simp [pending, pendingOf]
    · intro hs entry hentry
      rcases List.mem_append.mp hentry with hold | hnew
      · exact hs entry hold
      · rw [List.mem_singleton.mp hnew]
        exact fun _ hrecord => absurd hrecord List.not_mem_nil
    · intro j entry hentry
      exact ⟨entry, by rw [List.getElem?_append_left (List.getElem?_eq_some_iff.mp hentry).1, hentry], rfl⟩

theorem insert_entry [DecidableEq σ] (s : State σ κ δ) (interest : Interest σ) :
    ∃ entry, (PitPipelines.insert s interest).1.entries[(PitPipelines.insert s interest).2]? = some entry ∧
      interest.m_name = entry.m_interest.m_name ∧ interest.m_selectors = entry.m_interest.m_selectors := by
  unfold PitPipelines.insert
  split
  · rename_i j hfind
    have hmatch : (s.entries[j]?).any (canMatch interest) = true := by simpa using List.find?_some hfind
    obtain ⟨entry, hentry, hcan⟩ := (Option.any_eq_true _ _).mp hmatch
    obtain ⟨hname, hselectors⟩ : entry.m_interest.m_name = interest.m_name ∧
        entry.m_interest.m_selectors = interest.m_selectors := by simpa [canMatch] using hcan
    exact ⟨entry, hentry, hname.symm, hselectors.symm⟩
  · exact ⟨⟨interest, [], [], false, 0, none⟩, List.getElem?_concat_length, rfl, rfl⟩

theorem request_stripForwardingHint (ctx : Context σ κ δ) (face : Face) (interest : Interest σ) :
    request face (stripForwardingHint ctx interest) = request face interest := by
  rw [stripForwardingHint]
  split <;> rfl

theorem settles_onIncomingInterest [DecidableEq σ] (hctx : Sound ctx) (hs : Valid s) {actions : List (Action σ)}
    (hactions : Dataless actions ∨ IsContentStoreReply ctx s inFace (stripForwardingHint ctx interest) actions) :
    Settles ctx (request inFace interest ::ₘ purse) purse s (onIncomingInterest ctx s inFace interest actions) := by
  have hdrop : Settles ctx (request inFace interest ::ₘ purse) purse s s :=
    (Settles.refl s).drop (Multiset.le_cons_self _ _)
  unfold onIncomingInterest
  split
  · exact hdrop
  · split
    · exact settles_onInterestLoop s
    · have hinsert : Settles ctx (request inFace interest ::ₘ purse) (request inFace interest ::ₘ purse) s
          (PitPipelines.insert s (stripForwardingHint ctx interest)).1 := settles_insert s _
      obtain ⟨entry, hentry, hname, hselectors⟩ := insert_entry s (stripForwardingHint ctx interest)
      have hcs : (PitPipelines.insert s (stripForwardingHint ctx interest)).1.m_cs = s.m_cs := by
        unfold PitPipelines.insert
        split <;> rfl
      obtain ⟨inserted, hinserted⟩ : ∃ inserted, inserted = PitPipelines.insert s (stripForwardingHint ctx interest) :=
        ⟨_, rfl⟩
      rw [← hinserted] at hinsert hentry hcs
      have hreply : Dataless actions ∨
          IsContentStoreReply ctx inserted.1 inFace (stripForwardingHint ctx interest) actions := by
        rwa [IsContentStoreReply, hcs]
      simp only [← hinserted, hentry]
      refine hinsert.trans ?_
      rw [onPitEntry, ← request_stripForwardingHint ctx]
      split
      · exact settles_onInterestLoop _
      · split
        · split
          · exact settles_onContentStoreHit hctx _ _ _ hreply
          · exact settles_onContentStoreMiss hctx (hinsert.valid hs) hentry hname hselectors hreply
        · exact settles_onContentStoreMiss hctx (hinsert.valid hs) hentry hname hselectors hreply

end Interests

section Records

structure SameInRecords (s s' : State σ κ δ) : Prop where
  now : s'.now = s.now
  inRecords : ∀ i : ℕ, (s'.entries[i]?).map PitEntry.m_inRecords = (s.entries[i]?).map PitEntry.m_inRecords

variable {ctx : Context σ κ δ} {s s' s'' : State σ κ δ} {i : ℕ}

theorem SameInRecords.refl (s : State σ κ δ) : SameInRecords s s := ⟨rfl, fun _ => rfl⟩

theorem SameInRecords.of_eq (hnow : s'.now = s.now) (hentries : s'.entries = s.entries) : SameInRecords s s' :=
  ⟨hnow, fun _ => by rw [hentries]⟩

theorem SameInRecords.trans (h : SameInRecords s s') (h' : SameInRecords s' s'') : SameInRecords s s'' :=
  ⟨h'.now.trans h.now, fun i => (h'.inRecords i).trans (h.inRecords i)⟩

theorem SameInRecords.modifyEntry (s : State σ κ δ) (i : ℕ) {f : PitEntry σ → PitEntry σ}
    (hf : ∀ entry, (f entry).m_inRecords = entry.m_inRecords) : SameInRecords s (s.modifyEntry i f) := by
  refine ⟨rfl, fun j => ?_⟩
  rw [State.modifyEntry, List.getElem?_modify]
  cases s.entries[j]? with
  | none => rfl
  | some entry => by_cases hij : i = j <;> simp [hij, hf]

theorem sameInRecords_setExpiryTimer (s : State σ κ δ) (i : ℕ) (duration : ℤ) :
    SameInRecords s (s.setExpiryTimer i duration) := by
  have hcancel : SameInRecords s ((s.cancel (s.timerOf i)).schedule (duration * 1000000) (.onInterestFinalize i)) :=
    SameInRecords.of_eq rfl rfl
  exact hcancel.trans (SameInRecords.modifyEntry _ i (fun _ => rfl))

def isSilent : Action σ → Bool
  | .sendData _ _ => false
  | .sendNack _ _ => false
  | _ => true

def Silent (actions : List (Action σ)) : Prop := ∀ action ∈ actions, isSilent action = true

theorem Silent.dataless {actions : List (Action σ)} (h : Silent actions) : Dataless actions := by
  intro action haction
  have hsilent := h action haction
  cases action with
  | sendData data outFace => cases hsilent
  | _ => rfl

theorem sameInRecords_dispatchToStrategy (s : State σ κ δ) (i : ℕ) {actions : List (Action σ)}
    (hactions : Silent actions) : SameInRecords s (dispatchToStrategy i actions s) := by
  induction actions generalizing s with
  | nil => exact SameInRecords.refl s
  | cons action actions ih =>
    have hfirst : SameInRecords s (takeAction s i action) := by
      have hsilent := hactions action List.mem_cons_self
      cases action with
      | sendInterest outFace interest =>
        have hrecord : SameInRecords s (s.modifyEntry i (insertOrUpdateOutRecord s.now outFace interest)) :=
          SameInRecords.modifyEntry s i (fun _ => rfl)
        exact hrecord.trans (SameInRecords.of_eq rfl rfl)
      | sendData data outFace => cases hsilent
      | sendNack outFace reason => cases hsilent
      | setExpiryTimer duration => exact sameInRecords_setExpiryTimer s i duration
      | schedule after => exact SameInRecords.of_eq rfl rfl
      | cancel id =>
        rw [takeAction]
        split
        · exact SameInRecords.of_eq rfl rfl
        · exact SameInRecords.refl s
    rw [dispatchToStrategy]
    exact hfirst.trans (ih _ (fun other hother => hactions other (List.mem_cons_of_mem action hother)))

theorem pendingDownstreams_congr (h : SameInRecords s s') (i : ℕ) : pendingDownstreams s' i = pendingDownstreams s i := by
  have hrecords := h.inRecords i
  rw [pendingDownstreams, pendingDownstreams, h.now]
  cases hold : s.entries[i]? with
  | none =>
    rw [hold, Option.map_none, Option.map_eq_none_iff] at hrecords
    rw [hrecords]
  | some entry =>
    rw [hold, Option.map_some] at hrecords
    obtain ⟨entry', hentry', heq⟩ := Option.map_eq_some_iff.mp hrecords
    rw [hentry']
    dsimp only
    rw [heq]

theorem inRecordFaces_congr (h : SameInRecords s s') (i : ℕ) : inRecordFaces s' i = inRecordFaces s i := by
  rw [inRecordFaces, inRecordFaces, h.inRecords]

theorem sameInRecords_markSatisfied (s : State σ κ δ) (i : ℕ) (data : Data) :
    SameInRecords s (s.modifyEntry i (markSatisfied data)) :=
  SameInRecords.modifyEntry s i (fun _ => rfl)

theorem sameInRecords_insertDeadNonceList (s : State σ κ δ) (i : ℕ) (upstream : Option Face) :
    SameInRecords s (insertDeadNonceList ctx s i upstream) := by
  unfold insertDeadNonceList
  split
  · exact SameInRecords.refl s
  · split
    · exact SameInRecords.refl s
    · exact SameInRecords.of_eq rfl rfl

end Records

section Data

variable {ctx : Context σ κ δ} {purse : Multiset (Request σ)} {s s' : State σ κ δ} {i : ℕ} {inFace : Face} {data : Data}

def MatchedAt (ctx : Context σ κ δ) (data : Data) (s : State σ κ δ) (i : ℕ) : Prop :=
  ∃ entry : PitEntry σ, s.entries[i]? = some entry ∧ ctx.matchesData entry.m_interest data = true

theorem MatchedAt.settles (h : MatchedAt ctx data s i) {purse' : Multiset (Request σ)}
    (hsettles : Settles ctx purse purse' s s') : MatchedAt ctx data s' i := by
  obtain ⟨entry, hentry, hmatches⟩ := h
  obtain ⟨entry', hentry', heq⟩ := hsettles.interests i entry hentry
  exact ⟨entry', hentry', by rw [heq, hmatches]⟩

def RequestOf (ctx : Context σ κ δ) (data : Data) (reserved : Request σ) (face : Face) : Prop :=
  ∃ interest, reserved = request face interest ∧ ctx.matchesData interest data = true

theorem exists_reserved {faces : List Face} (hnodup : faces.Nodup) {entry : PitEntry σ}
    (hfaces : ∀ face ∈ faces, ∃ record ∈ entry.m_inRecords, record.m_face = face)
    (hmatches : ∀ record ∈ entry.m_inRecords, ctx.matchesData record.m_interest data = true) :
    ∃ reserved : List (Request σ), List.Forall₂ (RequestOf ctx data) reserved faces ∧
      (reserved : Multiset (Request σ)) ≤ pendingOf entry := by
  induction faces generalizing entry with
  | nil => exact ⟨[], List.Forall₂.nil, Multiset.zero_le _⟩
  | cons face faces ih =>
    obtain ⟨hnew, hnodup⟩ := List.nodup_cons.mp hnodup
    obtain ⟨found, hfound, hfoundFace⟩ := hfaces face List.mem_cons_self
    have hsome : (entry.m_inRecords.find? (fun record => decide (record.m_face = face))).isSome :=
      List.find?_isSome.mpr ⟨found, hfound, decide_eq_true hfoundFace⟩
    obtain ⟨record, hfind⟩ := Option.isSome_iff_exists.mp hsome
    have hrest : ∀ other ∈ faces, ∃ record ∈ (deleteInRecord face entry).m_inRecords, record.m_face = other := by
      intro other hother
      obtain ⟨record, hrecord, hface⟩ := hfaces other (List.mem_cons_of_mem face hother)
      have hne : record.m_face ≠ face := fun heq => hnew (by rwa [← heq, hface])
      exact ⟨record, (List.mem_eraseP_of_neg (by simpa using hne)).mpr hrecord, hface⟩
    obtain ⟨reserved, hreserved, hle⟩ :=
      ih hnodup hrest (fun record hrecord => hmatches record (List.mem_of_mem_eraseP hrecord))
    refine ⟨request face record.m_interest :: reserved, List.Forall₂.cons ⟨record.m_interest, rfl, ?_⟩ hreserved, ?_⟩
    · exact hmatches record (List.mem_of_find?_eq_some hfind)
    · rw [pendingOf_deleteInRecord hfind, ← Multiset.cons_coe]
      exact Multiset.cons_le_cons _ hle

theorem settles_clearInRecords {entry : PitEntry σ} (hentry : s.entries[i]? = some entry) {reserved : List (Request σ)}
    (hle : (reserved : Multiset (Request σ)) ≤ pendingOf entry) :
    Settles ctx purse (purse + reserved) s (s.modifyEntry i clearInRecords) where
  answered := by
    refine ⟨[], [], (List.append_nil _).symm, List.Forall₂.nil, ?_⟩
    obtain ⟨rest, hold, hnew⟩ := pending_modify hentry clearInRecords
    have hempty : pendingOf (clearInRecords entry) = 0 := rfl
    rw [hold, hnew, hempty, Multiset.coe_nil, zero_add, zero_add, ← add_assoc, add_comm (rest + purse), add_assoc]
    gcongr
  valid hs := valid_modify hs (fun _ _ => ⟨rfl, fun _ hrecord => absurd hrecord List.not_mem_nil⟩)
  interests := interests_modify (fun _ => rfl)

theorem settles_markSatisfied (s : State σ κ δ) (i : ℕ) (data : Data) :
    Settles ctx purse purse s (s.modifyEntry i (markSatisfied data)) :=
  Settles.modifyEntry (fun _ => rfl) (fun _ => List.Sublist.refl _)

theorem settles_deleteOutRecord (s : State σ κ δ) (i : ℕ) (face : Face) :
    Settles ctx purse purse s (s.modifyEntry i (deleteOutRecord face)) :=
  Settles.modifyEntry (fun _ => rfl) (fun _ => List.Sublist.refl _)

theorem settles_satisfyOnlyEntry (hctx : Sound ctx) (hs : Valid s) (hmatched : MatchedAt ctx data s i)
    {actions : List (Action σ)} (hactions : Dataless actions ∨ ReturnsData data (inRecordFaces s i) actions) :
    Settles ctx purse purse s (satisfyOnlyEntry ctx s inFace data i actions) := by
  have htimer : Settles ctx purse purse s (s.setExpiryTimer i 0) := settles_setExpiryTimer s i 0
  have hdispatch : Settles ctx purse purse (s.setExpiryTimer i 0) (dispatchToStrategy i actions (s.setExpiryTimer i 0)) := by
    rcases hactions with hdataless | hreturns
    · exact settles_dataless _ i hdataless
    · obtain ⟨entry, hentry, hmatches⟩ := hmatched.settles htimer
      rw [← inRecordFaces_congr (sameInRecords_setExpiryTimer s i 0)] at hreturns
      exact settles_returnsData_inRecordFaces hctx (htimer.valid hs) hentry hmatches hreturns
  rw [satisfyOnlyEntry]
  exact htimer.trans (hdispatch.trans ((settles_markSatisfied _ i data).trans
    ((settles_insertDeadNonceList _ i (some inFace)).trans (settles_deleteOutRecord _ i inFace))))

/-- The in-records of an entry that is satisfied are taken out; several of its
downstreams are remembered. -/
theorem settles_satisfyEntry (purse : Multiset (Request σ)) (inFace : Face) (hctx : Sound ctx) (hs : Valid s)
    (hmatched : MatchedAt ctx data s i) {actions : List (Action σ)} (hactions : Silent actions) {faces : List Face} (hnodup : faces.Nodup)
    (hfaces : ∀ face ∈ faces, face ∈ pendingDownstreams s i) :
    ∃ reserved : List (Request σ), List.Forall₂ (RequestOf ctx data) reserved faces ∧
      Settles ctx purse (purse + reserved) s (satisfyEntry ctx s inFace data i actions) := by
  have htimer : Settles ctx purse purse s (s.setExpiryTimer i 0) := settles_setExpiryTimer s i 0
  have hsame : SameInRecords s (s.setExpiryTimer i 0) := sameInRecords_setExpiryTimer s i 0
  obtain ⟨dispatched, hdispatched⟩ : ∃ dispatched, dispatched = insertDeadNonceList ctx
      ((dispatchToStrategy i actions (s.setExpiryTimer i 0)).modifyEntry i (markSatisfied data)) i (some inFace) := ⟨_, rfl⟩
  have hbefore : Settles ctx purse purse s dispatched := by
    rw [hdispatched]
    exact htimer.trans ((settles_dataless _ i hactions.dataless).trans
      ((settles_markSatisfied _ i data).trans (settles_insertDeadNonceList _ i (some inFace))))
  have hrecords : SameInRecords s dispatched := by
    rw [hdispatched]
    exact hsame.trans ((sameInRecords_dispatchToStrategy _ i hactions).trans
      ((sameInRecords_markSatisfied _ i data).trans (sameInRecords_insertDeadNonceList _ i (some inFace))))
  obtain ⟨entry, hentry, hmatches⟩ := hmatched.settles hbefore
  have hvalid := hbefore.valid hs
  have hmem : ∀ face ∈ faces, ∃ record ∈ entry.m_inRecords, record.m_face = face := by
    intro face hface
    have hpending := hfaces face hface
    rw [← pendingDownstreams_congr hrecords, pendingDownstreams, hentry] at hpending
    obtain ⟨record, hrecord, heq⟩ := List.mem_map.mp (List.mem_dedup.mp hpending)
    exact ⟨record, (List.mem_filter.mp hrecord).1, heq⟩
  obtain ⟨reserved, hreserved, hle⟩ := exists_reserved hnodup hmem (fun record hrecord => by
    obtain ⟨hname, hselectors⟩ := hvalid entry (List.mem_of_getElem? hentry) record hrecord
    rw [hctx.matchesData_eq _ _ data hname hselectors, hmatches])
  refine ⟨reserved, hreserved, ?_⟩
  rw [satisfyEntry, ← hdispatched]
  exact hbefore.trans ((settles_clearInRecords hentry hle).trans (settles_deleteOutRecord _ i inFace))

theorem settles_satisfyEntries (purse : Multiset (Request σ)) (inFace : Face) (hctx : Sound ctx) {pitMatches : List ℕ}
    {actions : ℕ → List (Action σ)} (hactions : ∀ i, Silent (actions i)) {faces : List Face} {reserved : List (Request σ)} (hs : Valid s)
    (hmatched : ∀ i ∈ pitMatches, MatchedAt ctx data s i) (hreserved : List.Forall₂ (RequestOf ctx data) reserved faces) :
    ∃ reserved' : List (Request σ),
      List.Forall₂ (RequestOf ctx data) reserved' (satisfyEntries ctx inFace data actions pitMatches faces s).1 ∧
        Settles ctx (purse + reserved) (purse + reserved') s
          (satisfyEntries ctx inFace data actions pitMatches faces s).2 := by
  induction pitMatches generalizing s faces reserved with
  | nil => exact ⟨reserved, hreserved, Settles.refl s⟩
  | cons i pitMatches ih =>
    have hnodup : ((pendingDownstreams s i).filter (fun face => face ∉ faces)).Nodup := by
      rw [pendingDownstreams]
      split
      · exact List.nodup_nil
      · exact (List.nodup_dedup _).filter _
    obtain ⟨added, hadded, hfirst⟩ := settles_satisfyEntry (purse + Multiset.ofList reserved) inFace hctx hs
      (hmatched i List.mem_cons_self) (hactions i) hnodup (fun _ hface => (List.mem_filter.mp hface).1)
    have hrest : ∀ j ∈ pitMatches, MatchedAt ctx data (satisfyEntry ctx s inFace data i (actions i)) j :=
      fun j hj => (hmatched j (List.mem_cons_of_mem i hj)).settles hfirst
    obtain ⟨reserved', hreserved', hafter⟩ := ih (hfirst.valid hs) hrest (List.rel_append hreserved hadded)
    refine ⟨reserved', hreserved', ?_⟩
    rw [← Multiset.coe_add, ← add_assoc] at hafter
    exact hfirst.trans hafter

theorem settles_sendToDownstreams {faces : List Face} {reserved : List (Request σ)} (s : State σ κ δ)
    (hreserved : List.Forall₂ (RequestOf ctx data) reserved faces) :
    Settles ctx (purse + reserved) purse s (sendToDownstreams inFace data faces s) := by
  induction hreserved generalizing s with
  | nil => exact (Settles.refl s).drop (Multiset.le_add_right _ _)
  | @cons first face reserved faces hfirst hrest ih =>
    obtain ⟨interest, rfl, hmatches⟩ := hfirst
    have hcons : purse + Multiset.ofList (request face interest :: reserved) =
        request face interest ::ₘ (purse + reserved) := by rw [← Multiset.cons_coe, Multiset.add_cons]
    have hdrop : Settles ctx (request face interest ::ₘ (purse + reserved)) (purse + reserved) s s :=
      (Settles.refl s).drop (Multiset.le_cons_self _ _)
    rw [sendToDownstreams, hcons]
    refine Settles.trans ?_ (ih _)
    split
    · exact hdrop
    · rw [onOutgoingData]
      split
      · exact hdrop
      · split
        · exact hdrop
        · exact settles_send s rfl (Answers.data hmatches)

theorem postAnnouncements_eq (records : List (InRecord σ)) (s : State σ κ δ) :
    (postAnnouncements records s).entries = s.entries ∧ (postAnnouncements records s).now = s.now ∧
      (postAnnouncements records s).sent = s.sent := by
  induction records generalizing s with
  | nil => exact ⟨rfl, rfl, rfl⟩
  | cons record records ih =>
    rw [postAnnouncements]
    split <;> exact ih _

theorem onIncomingKiteAck_eq (pitMatches : List ℕ) (s : State σ κ δ) :
    (onIncomingKiteAck pitMatches s).entries = s.entries ∧ (onIncomingKiteAck pitMatches s).now = s.now ∧
      (onIncomingKiteAck pitMatches s).sent = s.sent := by
  induction pitMatches generalizing s with
  | nil => exact ⟨rfl, rfl, rfl⟩
  | cons i pitMatches ih =>
    rw [onIncomingKiteAck]
    obtain ⟨hentries, hnow, hsent⟩ := ih (postAnnouncements ((s.entries[i]?).elim [] PitEntry.m_inRecords) s)
    obtain ⟨hentries', hnow', hsent'⟩ := postAnnouncements_eq ((s.entries[i]?).elim [] PitEntry.m_inRecords) s
    exact ⟨hentries.trans hentries', hnow.trans hnow', hsent.trans hsent'⟩

/-- What the triggers for Data do: `afterReceiveData`, for a single entry, may return the Data to its downstreams, and
`beforeSatisfyInterest`, for one of several, returns nothing. -/
def IsDataHook (ctx : Context σ κ δ) (s : State σ κ δ) (data : Data) (actions : ℕ → List (Action σ)) : Prop :=
  ∀ i, Silent (actions i) ∨
    findAllDataMatches ctx s data = [i] ∧ (Dataless (actions i) ∨ ReturnsData data (inRecordFaces s i) (actions i))

theorem settles_satisfyMatches (hctx : Sound ctx) (hs : Valid s) {pitMatches : List ℕ}
    (hmatched : ∀ i ∈ pitMatches, MatchedAt ctx data s i) {actions : ℕ → List (Action σ)}
    (hactions : ∀ i, Silent (actions i) ∨
      pitMatches = [i] ∧ (Dataless (actions i) ∨ ReturnsData data (inRecordFaces s i) (actions i))) :
    Settles ctx purse purse s (satisfyMatches ctx s inFace data actions pitMatches) := by
  obtain ⟨cached, hcached⟩ : ∃ cached : State σ κ δ, cached = { s with m_cs := ctx.insertCs data false s.m_cs } := ⟨_, rfl⟩
  have hcache : Settles ctx purse purse s cached := by
    rw [hcached]
    exact Settles.of_eq rfl rfl
  have hmatched' : ∀ i ∈ pitMatches, MatchedAt ctx data cached i := fun i hi => (hmatched i hi).settles hcache
  unfold satisfyMatches
  dsimp only
  rw [← hcached]
  split
  · rename_i i
    refine hcache.trans (settles_satisfyOnlyEntry hctx (hcache.valid hs) (hmatched' i List.mem_cons_self) ?_)
    rcases hactions i with hsilent | ⟨-, hreturns⟩
    · exact Or.inl hsilent.dataless
    · rwa [hcached]
  · rename_i hmany
    have hsilent : ∀ i, Silent (actions i) := fun i => (hactions i).resolve_right (fun h => hmany i h.1)
    obtain ⟨reserved, hreserved, hsatisfy⟩ := settles_satisfyEntries purse inFace hctx hsilent
      (hcache.valid hs) hmatched' List.Forall₂.nil
    rw [Multiset.coe_nil, add_zero] at hsatisfy
    exact hcache.trans (hsatisfy.trans (settles_sendToDownstreams _ hreserved))

theorem matchedAt_findAllDataMatches (hi : i ∈ findAllDataMatches ctx s data) : MatchedAt ctx data s i := by
  obtain ⟨entry, hentry, hmatches⟩ := (Option.any_eq_true _ _).mp (List.mem_filter.mp hi).2
  exact ⟨entry, hentry, hmatches⟩

theorem settles_onIncomingData (hctx : Sound ctx) (hs : Valid s) {actions : ℕ → List (Action σ)}
    (hactions : IsDataHook ctx s data actions) :
    Settles ctx purse purse s (onIncomingData ctx s inFace data actions) := by
  unfold onIncomingData
  split
  · exact Settles.refl s
  · split
    · unfold onDataUnsolicited
      split
      · exact Settles.of_eq rfl rfl
      · exact Settles.refl s
    · rename_i i pitMatches hfound
      have hmatched : ∀ j ∈ i :: pitMatches, MatchedAt ctx data s j :=
        fun j hj => matchedAt_findAllDataMatches (by rwa [hfound])
      have hhook : ∀ j, Silent (actions j) ∨
          i :: pitMatches = [j] ∧ (Dataless (actions j) ∨ ReturnsData data (inRecordFaces s j) (actions j)) := by
        rwa [IsDataHook, hfound] at hactions
      split
      · split
        · exact Settles.refl s
        · obtain ⟨hentries, hnow, hsent⟩ := onIncomingKiteAck_eq (i :: pitMatches) s
          have hposted : Settles ctx purse purse s (onIncomingKiteAck (i :: pitMatches) s) :=
            Settles.of_eq hentries hsent
          refine hposted.trans (settles_satisfyMatches hctx (hposted.valid hs)
            (fun j hj => (hmatched j hj).settles hposted) (fun j => ?_))
          rw [inRecordFaces_congr (SameInRecords.of_eq hnow hentries)]
          exact hhook j
      · exact settles_satisfyMatches hctx hs hmatched hhook

end Data

section Others

variable {ctx : Context σ κ δ} {purse : Multiset (Request σ)} {s s' : State σ κ δ}

theorem settles_onIncomingNack [DecidableEq σ] (s : State σ κ δ) (inFace : Face) (reason : ℕ) (interest : Interest σ)
    {actions : List (Action σ)} (hactions : Dataless actions) :
    Settles ctx purse purse s (onIncomingNack s inFace reason interest actions) := by
  unfold onIncomingNack
  split
  · exact Settles.refl s
  · split
    · exact Settles.refl s
    · rename_i i hfound
      split
      · exact Settles.refl s
      · split
        · exact Settles.refl s
        · have hrecord : Settles ctx purse purse s (s.modifyEntry i (setIncomingNack inFace reason)) :=
            Settles.modifyEntry (fun _ => rfl) (fun _ => List.Sublist.refl _)
          refine hrecord.trans (Settles.trans ?_ (settles_dataless _ i hactions))
          split
          · exact Settles.refl _
          · exact settles_setExpiryTimer _ i 0

theorem settles_onNewNextHop (s : State σ κ δ) {affected : List (ℕ × List (Action σ))}
    (hactions : ∀ entry ∈ affected, Dataless entry.2) : Settles ctx purse purse s (onNewNextHop affected s) := by
  induction affected generalizing s with
  | nil => exact Settles.refl s
  | cons entry affected ih =>
    rw [onNewNextHop]
    refine Settles.trans ?_ (ih _ (fun other hother => hactions other (List.mem_cons_of_mem entry hother)))
    split
    · exact settles_dataless s entry.1 (hactions entry List.mem_cons_self)
    · exact Settles.refl s

theorem settles_cleanupOnFaceRemoval (s : State σ κ δ) (face : Face) (pit : List ℕ) :
    Settles ctx purse purse s (cleanupOnFaceRemoval face pit s) := by
  induction pit generalizing s with
  | nil => exact Settles.refl s
  | cons i pit ih =>
    rw [cleanupOnFaceRemoval]
    have hdelete : Settles ctx purse purse s (s.modifyEntry i (deleteInOutRecords face)) :=
      Settles.modifyEntry (fun _ => rfl) (fun _ => List.eraseP_sublist)
    exact hdelete.trans (ih _)

/-- An event of a strategy may return Data that its entry matches, to the downstreams. -/
def IsStrategyEvent (ctx : Context σ κ δ) (s : State σ κ δ) (actions : List (Action σ)) : Prop :=
  Dataless actions ∨
    ∃ popped i data, s.scheduler.popExpired s.now = some popped ∧ popped.1.callback = .strategy i ∧
      MatchedAt ctx data s i ∧ ReturnsData data (inRecordFaces s i) actions

theorem settles_executeEvent (hctx : Sound ctx) (hs : Valid s) {actions : List (Action σ)}
    (hactions : IsStrategyEvent ctx s actions) {popped : EventInfo Callback × Scheduler Callback}
    (hpop : s.scheduler.popExpired s.now = some popped) :
    Settles ctx purse purse s (runCallback ctx { s with scheduler := popped.2 } actions popped.1.callback) := by
  have hscheduler : Settles ctx purse purse s { s with scheduler := popped.2 } := Settles.of_eq rfl rfl
  refine hscheduler.trans ?_
  cases hcallback : popped.1.callback with
  | onInterestFinalize i => exact settles_onInterestFinalize _ i
  | strategy i =>
    rw [runCallback]
    split
    · rcases hactions with hdataless | ⟨popped', j, data, hpop', hstrategy, ⟨entry, hentry, hmatches⟩, hreturns⟩
      · exact settles_dataless _ i hdataless
      · rw [hpop, Option.some.injEq] at hpop'
        rw [← hpop', hcallback, Callback.strategy.injEq] at hstrategy
        rw [hstrategy]
        exact settles_returnsData_inRecordFaces hctx (hscheduler.valid hs) hentry hmatches hreturns
    · exact Settles.refl _
  | other => exact Settles.refl _

end Others

section Balance

variable {ctx : Context σ κ δ} {s s' : State σ κ δ}

/-- The requests that are answered and those that the records stand for are all
among the ones that have come in. -/
structure Balanced (ctx : Context σ κ δ) (observed : State σ κ δ × Multiset (Request σ)) : Prop where
  valid : Valid observed.1
  answered : ∃ answered, List.Forall₂ (Answers ctx) answered (repliesIn observed.1.sent) ∧
    (answered : Multiset (Request σ)) + pending observed.1 ≤ observed.2

theorem Balanced.initial (m_cs : κ) (m_deadNonceList : δ) :
    Balanced ctx ((State.initial m_cs m_deadNonceList : State σ κ δ), 0) :=
  ⟨fun _ hentry => absurd hentry List.not_mem_nil, [], List.Forall₂.nil, le_refl _⟩

theorem Balanced.settles {requests given : Multiset (Request σ)} (h : Balanced ctx (s, requests))
    (hsettles : Settles ctx given 0 s s') : Balanced ctx (s', requests + given) := by
  obtain ⟨hvalid, answered, hanswers, hle⟩ := h
  obtain ⟨answered', sent, hsent, hanswers', hle'⟩ := hsettles.answered
  refine ⟨hsettles.valid hvalid, answered ++ answered', ?_, ?_⟩
  · rw [repliesIn, hsent, List.filter_append]
    exact List.rel_append hanswers hanswers'
  · rw [add_zero] at hle'
    rw [← Multiset.coe_add, add_assoc]
    calc (answered : Multiset (Request σ)) + (answered' + pending s')
        ≤ answered + (pending s + given) := by gcongr
      _ = answered + pending s + given := (add_assoc _ _ _).symm
      _ ≤ requests + given := by gcongr

end Balance

section Runs

variable [DecidableEq σ] {ctx : Context σ κ δ} {s s' : State σ κ δ}

/-- Strategies return a Data only on a hit of the Content Store, for a Data that has come in, or later by an event of
their own, and on no face twice; what they do otherwise is any. -/
def Returns (ctx : Context σ κ δ) (s : State σ κ δ) : Event σ κ δ → Prop
  | .incomingInterest inFace interest actions =>
    Dataless actions ∨ IsContentStoreReply ctx s inFace (stripForwardingHint ctx interest) actions
  | .incomingData _ data actions => IsDataHook ctx s data actions
  | .incomingNack _ _ _ actions => Dataless actions
  | .newNextHop affected => ∀ entry ∈ affected, Dataless entry.2
  | .executeEvent actions => IsStrategyEvent ctx s actions
  | _ => True

def received : Event σ κ δ → Multiset (Request σ)
  | .incomingInterest inFace interest _ => request inFace interest ::ₘ 0
  | _ => 0

theorem settles_step (hctx : Sound ctx) (hs : Valid s) {event : Event σ κ δ} (hreturns : Returns ctx s event)
    (hstep : step ctx s event = some s') : Settles ctx (received event) 0 s s' := by
  cases event with
  | advance duration =>
    cases hstep
    exact Settles.of_eq rfl rfl
  | addFace face =>
    cases hstep
    exact Settles.of_eq rfl rfl
  | removeFace id =>
    obtain ⟨face, -, rfl⟩ := Option.map_eq_some_iff.mp hstep
    exact (settles_cleanupOnFaceRemoval s face s.m_pit).trans (Settles.of_eq rfl rfl)
  | incomingInterest inFace interest actions =>
    cases hstep
    change Settles ctx (request inFace interest ::ₘ 0) 0 s _
    exact settles_onIncomingInterest hctx hs hreturns
  | incomingData inFace data actions =>
    cases hstep
    exact settles_onIncomingData hctx hs hreturns
  | incomingNack inFace reason interest actions =>
    cases hstep
    exact settles_onIncomingNack s inFace reason interest hreturns
  | newNextHop affected =>
    cases hstep
    exact settles_onNewNextHop s hreturns
  | executeEvent actions =>
    obtain ⟨popped, hpop, rfl⟩ := Option.map_eq_some_iff.mp hstep
    exact settles_executeEvent hctx hs hreturns hpop
  | scheduleOther after =>
    cases hstep
    exact Settles.of_eq rfl rfl
  | cancelOther id =>
    rw [step] at hstep
    split at hstep
    · cases hstep
      exact Settles.of_eq rfl rfl
    · cases hstep
  | changeTables m_cs m_deadNonceList =>
    cases hstep
    exact Settles.of_eq rfl rfl

def observe (ctx : Context σ κ δ) (observed : State σ κ δ × Multiset (Request σ)) (event : Event σ κ δ) :
    Option (State σ κ δ × Multiset (Request σ)) :=
  (step ctx observed.1 event).map (fun s => (s, observed.2 + received event))

def Obeys (ctx : Context σ κ δ) (observed : State σ κ δ × Multiset (Request σ)) (event : Event σ κ δ) : Prop :=
  Returns ctx observed.1 event

theorem balanced_observe (hctx : Sound ctx) (observed : State σ κ δ × Multiset (Request σ)) (event : Event σ κ δ)
    (observed' : State σ κ δ × Multiset (Request σ)) (h : Balanced ctx observed)
    (hobeys : Obeys ctx observed event) (hstep : observe ctx observed event = some observed') :
    Balanced ctx observed' := by
  obtain ⟨s', hs', rfl⟩ := Option.map_eq_some_iff.mp hstep
  exact h.settles (settles_step hctx h.valid hobeys hs')

/-- Every Data and every Nack that goes out answers an Interest of its own that has
come in on the same face; the in-records are Interests that are not answered yet. -/
theorem replies_answer_requests (hctx : Sound ctx) (m_cs : κ) (m_deadNonceList : δ) {requests : Multiset (Request σ)}
    (hrun : Runs.Run (observe ctx) (Obeys ctx) (State.initial m_cs m_deadNonceList, 0) (s, requests)) :
    ∃ answered, List.Forall₂ (Answers ctx) answered (repliesIn s.sent) ∧
      (answered : Multiset (Request σ)) + pending s ≤ requests :=
  (hrun.invariant (balanced_observe hctx) (Balanced.initial m_cs m_deadNonceList)).answered

end Runs

section Example

open PitTimers (plainContext faceOf interestOf)

def answerOf : Data := ⟨[⟨8, [97]⟩], ⟨0, 0, none, []⟩, ⟨21, []⟩, none, none⟩

/-- A retransmission is cancelled, and the Data goes to a face for the first entry. -/
def returnTo (face : Face) (i : ℕ) : List (Action Unit) := if i = 0 then [.cancel 0, .sendData answerOf face] else []

def forwarded : Event Unit Unit (List (Name × ℕ)) :=
  .incomingInterest (faceOf 256) (interestOf 1) [.sendInterest (faceOf 257) (interestOf 1)]

def looped : Event Unit Unit (List (Name × ℕ)) := .incomingInterest (faceOf 258) (interestOf 1) []

def requested : State Unit Unit (List (Name × ℕ)) :=
  onIncomingInterest plainContext (onIncomingInterest plainContext (State.initial () []) (faceOf 256) (interestOf 1)
    [.sendInterest (faceOf 257) (interestOf 1)]) (faceOf 258) (interestOf 1) []

def returned : State Unit Unit (List (Name × ℕ)) :=
  onIncomingData plainContext requested (faceOf 257) answerOf (returnTo (faceOf 256))

theorem sound_plainContext : Sound plainContext where
  matchesData_eq interest interest' data hname _ := by simp [plainContext, hname]
  lookup_matches _ _ _ hlookup := by cases hlookup

theorem isDataHook_returnTo {s : State Unit Unit (List (Name × ℕ))} {face : Face}
    (hfound : findAllDataMatches plainContext s answerOf = [0]) (hface : face ∈ inRecordFaces s 0) :
    IsDataHook plainContext s answerOf (returnTo face) := by
  intro i
  by_cases hi : i = 0
  · subst hi
    refine Or.inr ⟨hfound, Or.inr ⟨fun data' outFace hmem => ?_, List.nodup_singleton face⟩⟩
    have hsent : data' = answerOf ∧ outFace = face := by simpa [returnTo] using hmem
    exact ⟨hsent.1, hsent.2 ▸ hface⟩
  · left
    rw [returnTo, if_neg hi]
    exact fun _ haction => absurd haction List.not_mem_nil

/-- The Interest that has come back is answered by a Nack, the first one by the Data. -/
theorem replies_answer_requests_returned :
    (repliesIn returned.sent).map Prod.fst = [faceOf 258, faceOf 256] ∧
      ∃ answered, List.Forall₂ (Answers plainContext) answered (repliesIn returned.sent) ∧
        (answered : Multiset (Request Unit)) + pending returned ≤
          {request (faceOf 256) (interestOf 1), request (faceOf 258) (interestOf 1)} := by
  refine ⟨by decide, ?_⟩
  have hforwarded (observed : State Unit Unit (List (Name × ℕ)) × Multiset (Request Unit)) :
      Obeys plainContext observed forwarded := by
    refine Or.inl fun action haction => ?_
    rw [List.mem_singleton.mp haction]
    rfl
  have hlooped (observed : State Unit Unit (List (Name × ℕ)) × Multiset (Request Unit)) :
      Obeys plainContext observed looped := Or.inl fun _ haction => absurd haction List.not_mem_nil
  have hrequested : Runs.Run (observe plainContext) (Obeys plainContext) (State.initial () [], 0)
      (requested, 0 + received forwarded + received looped) :=
    (Runs.Run.refl.step (hforwarded _) rfl).step (hlooped _) rfl
  have hhook : IsDataHook plainContext requested answerOf (returnTo (faceOf 256)) :=
    isDataHook_returnTo (by decide) (by decide)
  have hanswer (requests : Multiset (Request Unit)) : Obeys plainContext (requested, requests)
      (.incomingData (faceOf 257) answerOf (returnTo (faceOf 256))) := hhook
  have hreturned : Runs.Run (observe plainContext) (Obeys plainContext) (State.initial () [], 0)
      (returned, 0 + received forwarded + received looped + 0) := hrequested.step (hanswer _) rfl
  have hanswered := replies_answer_requests sound_plainContext () [] hreturned
  simpa [forwarded, looped, received, Multiset.insert_eq_cons, Multiset.cons_swap] using hanswered

end Example

end LeoNdn.FlowBalance
